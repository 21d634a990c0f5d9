import Valiss.RequestSoundness

/-!
# Message origin

An accepted message, whatever its text and whatever chain came with it, was
minted for this destination and this payload by the user its claims name, whose
token the account minted, whose token the operator minted.
-/

set_option autoImplicit false

namespace Valiss.MessageSoundness
open Lib.Unicode Valiss.Errors Valiss.Nkeys Valiss.Decode Valiss.TokenRoundTrip Valiss.Message
open Valiss.SigningHistory Valiss.RequestSoundness Valiss.Recorded

section Soundness
variable [Platform]

/-- These are the claims of a message its user key minted with `issue_message`
for this destination and checksum, over this chain. -/
def MessageMinted (history : List Call) (audience sum : Str) (chain : Option Chain)
    (c : MessageClaims) : Prop :=
  ∃ kp o tok d, Call.issue kp (.message audience sum chain o) ∈ history ∧
    kp.publicKey = c.subject ∧ issueMessage kp audience sum chain o = .ok tok ∧ Carries tok d ∧
    c.toClaims = claimsOf d ∧ d.audience = audience ∧ d.checksum = sum ∧ c.epoch = d.epoch.val

/-- Everything an accepted message rests on, under a pinned operator key. -/
structure Sound (history : List Call) (operatorKey : Str) (o : MessageOptions) (audience : Str)
    (payload : Bytes) (c : MessageClaims) : Prop where
  subject : c.user.subject = c.subject
  message : ∃ chain, MessageMinted history audience (checksum payload) chain c ∧
    ∀ embedded ∈ chain, ∀ supplied ∈ o.chain, embedded = supplied
  user : UserMinted history c.account.subject c.user
  account : AccountMinted history operatorKey c.account
  epochs : c.epoch = c.account.epoch ∧ c.epoch = c.user.epoch ∧
    ∀ t ∈ o.operatorToken, ∃ p, verifyOperator t operatorKey = .ok p ∧ c.epoch = p.epoch

theorem messageToken_minted (history : List Call) (ideal : IdealSignatures history)
    (tok : Str) (d : Decoded) (h : messageToken tok = .ok d) :
    ∃ kp audience sum chain o t, Call.issue kp (.message audience sum chain o) ∈ history ∧
      kp.publicKey = d.issuer ∧ issueMessage kp audience sum chain o = .ok t ∧ Carries t d ∧
      d.audience = audience ∧ d.checksum = sum ∧ d.chain = chainOf chain := by
  obtain ⟨hd,ht,_,_⟩ := (messageToken_ok _ _).1 h
  obtain ⟨kp,call,t,hmem,hkey,hrun,hc,hdraft⟩ := decodeToken_minted_by history ideal tok d hd
  obtain ⟨audience,sum,chain,o,rfl⟩ := type_message call (hdraft.type.symm.trans ht)
  obtain ⟨ha,hs,hch⟩ := hdraft.message
  exact ⟨kp,audience,sum,chain,o,t,hmem,hkey,hrun,hc,ha,hs,hch⟩

theorem verifyMessage_sound (history : List Call) (ideal : IdealSignatures history) (tok : Str)
    (operatorKey : Str) (o : MessageOptions) (audience : Str) (payload : Bytes)
    (ha : o.audience = some audience) (hne : audience ≠ []) (hp : o.payload = some payload)
    (c : MessageClaims) (h : verifyMessage tok (some operatorKey) none o = .ok c) :
    Sound history operatorKey o audience payload c := by
  obtain ⟨d,hd,hchain,_,hbind⟩ := (verifyUnder_ok _ _ _ _).1 h
  obtain ⟨ca,ut,account,operator,user,hsel,hanchor,huser,hsub,hep,rfl⟩ :=
    (messageChain_ok _ _ _ _).1 hchain
  obtain ⟨⟨at_,rfl,hacc⟩,hop⟩ := pinnedAnchor_ok _ _ _ _ _ hanchor
  obtain ⟨hpol,hea,heu⟩ := (messageEpochs_ok _ _ _ _ _ _ _).1 hep
  obtain ⟨haud,hsum,_⟩ := (messageBindings_ok _ _ _).1 hbind
  rw [ha, Option.getD_some] at haud
  obtain ⟨kp,a,s,chain,mo,t,hmem,hkey,hrun,hc,rfl,rfl,hch⟩ :=
    messageToken_minted history ideal tok d hd
  have hself := ((messageToken_ok _ _).1 hd).2.2.1
  have hda : d.audience = audience := haud.resolve_left hne
  have hds : d.checksum = checksum payload := (hsum payload hp).2
  constructor
  · exact hsub.trans hself
  · refine ⟨chain,?_,?_⟩
    · rw [hda, hds] at hmem hrun
      exact ⟨kp,mo,t,d,hmem,hkey.trans hself,hrun,hc,rfl,hda,hds,rfl⟩
    · intro e he s hs
      rw [hch, Option.mem_def.1 he, Option.mem_def.1 hs] at hsel
      exact selectChain_same e s _ hsel
  · exact verifyUser_minted history ideal _ _ _ huser
  · exact verifyAccount_minted history ideal _ _ _ hacc
  · refine ⟨hea,heu,?_⟩
    intro t' ht'
    obtain ⟨p,hv,rfl⟩ := hop t' ht'
    exact ⟨p,hv,(hpol p rfl).2.2⟩

end Soundness

section Widgets
local instance : Platform := domain.ideal

def widgetDelivery : MessageOptions where
  now := requestedAt
  skew := 120000000
  audience := some destination
  payload := some bodyBytes
  chain := some (accountSample.token,userSample.token)
  operatorToken := some operatorSample.token

theorem verifyMessage_sound_widgets : ∃ c,
    verifyMessage messageSample.token (some operatorKey) none widgetDelivery = .ok c ∧
    Sound domainHistory operatorKey widgetDelivery destination bodyBytes c := by
  have hne : destination ≠ [] := by decide
  have hc := Widgets.widget_delivered widgetDelivery _ Widgets.widget_operatorPolicy (Or.inr rfl) rfl
    (by decide) (by decide) (by decide)
    (Widgets.widget_bindings _ _ (Or.inr rfl) fun p hp => (Option.mem_some_iff.1 hp).symm)
  rw [← Widgets.verifyMessage_pinned] at hc
  exact ⟨_,hc,verifyMessage_sound domainHistory domain_ideal messageSample.token operatorKey
    widgetDelivery destination bodyBytes rfl hne rfl _ hc⟩

end Widgets

end Valiss.MessageSoundness
