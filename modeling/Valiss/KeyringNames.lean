import Valiss.KeyringRefinement

/-!
# Trust domains by name

The constructor keeps a dictionary of names and compares each new entry with the
entries of its key. Together they make the name of an entry determine its key
and the key its name, whatever the names spell, so a consumer that tells trust
domains apart by name alone never mixes two operators.
-/

set_option autoImplicit false

namespace Valiss.KeyringNames
open Lib.Unicode Lib.Json Lib.Calendar Lib.Fallible
open Valiss.Errors Valiss.Nkeys Valiss.Codec Valiss.TokenClaims Valiss.Decode Valiss.Operators
open Valiss.Verify Valiss.Message Valiss.TokenRoundTrip Valiss.KeyringOrder Valiss.KeyringRefinement
open Valiss.Recorded

section Segmentation
variable [Platform]

/-- The dictionary has each entry's name under its key, and entries of one key
have one name. -/
structure Named (s : State) : Prop where
  owned : ∀ p ∈ s.entries.items, s.names.lookup p.2.name = some p.2.subject
  agree : ∀ p ∈ s.entries.items, ∀ q ∈ s.entries.items, p.2.subject = q.2.subject →
    p.2.name = q.2.name

theorem named_empty : Named State.empty := by
  constructor <;> simp [State.empty, Entries.empty]

theorem named_add (s s' : State) (c : OperatorClaims) (h : s.add c = .ok s') (hs : Named s) :
    Named s' := by
  rcases (add_ok s s' c).1 h with ⟨_,rfl⟩ | ⟨_,⟨hn,rfl⟩,howner,hagree⟩
  · exact hs
  · have hmem : ∀ p, p ∈ (s.entries.insert c hn).items ↔
        p ∈ s.entries.items ∨ p = ((c.subject,c.epoch),c) := by
      intro p
      simp [Entries.insert]
    constructor
    · intro p hp
      rw [lookup_put]
      rcases (hmem p).1 hp with hp | rfl
      · by_cases hname : p.2.name = c.name
        · have ho := hs.owned p hp
          rw [hname] at ho
          rw [if_pos hname, howner _ ho]
        · rw [if_neg hname]
          exact hs.owned p hp
      · rw [if_pos rfl]
    · intro p hp q hq hsub
      rcases (hmem p).1 hp with hp | rfl
      · rcases (hmem q).1 hq with hq | rfl
        · exact hs.agree p hp q hq hsub
        · exact hagree p hp hsub
      · rcases (hmem q).1 hq with hq | rfl
        · exact (hagree q hq hsub.symm).symm
        · rfl

theorem named_addAll (tokens : List Str) (index : ℕ) (s s' : State)
    (h : addAll index tokens s = .ok s') (hs : Named s) : Named s' := by
  induction tokens generalizing index s with
  | nil =>
    obtain rfl := Except.ok.inj h
    exact hs
  | cons token tokens ih =>
    simp only [addAll, bind_ok] at h
    obtain ⟨c,_,t,ht,h⟩ := h
    exact ih _ t h (named_add s t c ht hs)

theorem names_keys (tokens : List Str) (k : Keyring) (h : Keyring.build tokens = .ok k) (p q : Entry)
    (hp : p ∈ k.entries.items) (hq : q ∈ k.entries.items) :
    p.2.name = q.2.name ↔ p.2.subject = q.2.subject := by
  simp only [Keyring.build, bind_ok] at h
  obtain ⟨s,hs,h⟩ := h
  split_ifs at h with hne
  obtain rfl := (pure_ok _ _).1 h
  have hnamed := named_addAll tokens 0 State.empty s hs named_empty
  constructor
  · intro hname
    have ho := hnamed.owned p hp
    rw [hname, hnamed.owned q hq] at ho
    exact (Option.some.inj ho).symm
  · exact hnamed.agree p hp q hq

def SignedBy (key tok : Str) : Prop :=
  ∃ p0 p1 p2 kp sig, splitOn 46 tok = [p0,p1,p2] ∧ fromPublicKey key = .ok kp ∧
    kp.publicKey = key ∧ b64urlDecode p2 = .ok sig ∧
    Platform.edVerify kp.publicRaw (encodePass (p0 ++ 46 :: p1)) sig = true

theorem verifyAccount_signed (tok key : Str) (a : AccountClaims)
    (h : verifyAccount tok key = .ok a) : SignedBy key tok := by
  obtain ⟨d,hd,_,rfl,_⟩ := (verifyAccount_ok _ _ _).1 h
  obtain ⟨p0,p1,p2,_,kp,sig,hp,_,_,hk,hsig,hv⟩ := (decodeToken_ok _ _).1 hd
  exact ⟨p0,p1,p2,kp,sig,(peekVersion_ok _ _ _ _ _ hp).1,hk,(fromPublicKey_ok _ _ hk).1,hsig,hv⟩

/-- Both operators are named, and equal names mean one operator key signed both
account tokens. -/
def Segmented (tok₁ tok₂ : Str) (op₁ op₂ : Option OperatorClaims) : Prop :=
  ∃ c₁ c₂, op₁ = some c₁ ∧ op₂ = some c₂ ∧ (c₁.name = c₂.name →
    c₁.subject = c₂.subject ∧ SignedBy c₁.subject tok₁ ∧ SignedBy c₁.subject tok₂)

/-- The account token and the operator of something accepted under the keyring. -/
def AcceptedWith (k : Keyring) (tok : Str) (operator : Option OperatorClaims) : Prop :=
  ∃ p ∈ k.entries.items, operator = some p.2 ∧ SignedBy p.2.subject tok

theorem segmented_of_accepted (tokens : List Str) (k : Keyring) (hk : Keyring.build tokens = .ok k)
    (tok₁ tok₂ : Str) (op₁ op₂ : Option OperatorClaims) (h₁ : AcceptedWith k tok₁ op₁)
    (h₂ : AcceptedWith k tok₂ op₂) : Segmented tok₁ tok₂ op₁ op₂ := by
  obtain ⟨p,hp,rfl,hs₁⟩ := h₁
  obtain ⟨q,hq,rfl,hs₂⟩ := h₂
  refine ⟨p.2,q.2,rfl,rfl,?_⟩
  intro hname
  have hsub := (names_keys tokens k hk p q hp hq).1 hname
  exact ⟨hsub,hs₁,hsub ▸ hs₂⟩

theorem accepted_entry (k : Keyring) (tok key : Str) (account : AccountClaims) (c : OperatorClaims)
    (hacc : verifyAccount tok key = .ok account) (hget : k.get key account.epoch = some c) :
    AcceptedWith k tok (some c) := by
  refine ⟨((key,account.epoch),c),(get_some _ _ _ _).1 hget,rfl,?_⟩
  rw [(get_filed k key account.epoch c hget).1]
  exact verifyAccount_signed tok key account hacc

variable {σ : Type}

theorem request_accepted (o : Options σ) (k : Keyring) (now : DateTime) (r : Request) (s u : σ)
    (i : Identity) (h : (verify (Verifier.withKeyring o k) now r).run s = (.ok i,u)) :
    ∃ tok, accountTokenOf o r = .ok tok ∧ AcceptedWith k tok i.operator := by
  obtain ⟨e,he,_⟩ := (verify_ok _ _ _ _ _ _).1 h
  obtain ⟨tok,ht,account,operator,ha,hchain,_⟩ := (checked_ok _ _ _ _).1 he
  obtain ⟨_,hop,_⟩ := (checkChain_ok _ _ _ _ _ _).1 hchain
  obtain ⟨key,c,hacc,hget,rfl⟩ := (anchored_keyring _ _ _ _).1 ha
  refine ⟨tok,ht,?_⟩
  rw [show i.operator = some c from hop]
  exact accepted_entry k tok key account c hacc hget

theorem message_accepted (o : MessageOptions) (k : Keyring) (tok : Str) (c : MessageClaims)
    (h : verifyMessage tok none (some k) o = .ok c) :
    ∃ d accountToken userPart, messageToken tok = .ok d ∧
      selectChain d.chain o.chain = .ok (.str accountToken,userPart) ∧
      AcceptedWith k accountToken c.operator := by
  have hu : verifyUnder (.keyring k) tok o = .ok c := h
  obtain ⟨d,hd,hchain,_⟩ := (verifyUnder_ok _ _ _ _).1 hu
  obtain ⟨v,ut,account,operator,user,hs,ha,_,_,_,rfl⟩ := (messageChain_ok _ _ _ _).1 hchain
  have ho : o.operatorToken = none := by
    simp only [messageAnchor, bind_ok, raiseIf_ok] at ha
    obtain ⟨_,hnone,_⟩ := ha
    simpa using hnone
  rw [ho] at ha
  obtain ⟨t,key,op,rfl,hacc,hget,rfl⟩ := (messageAnchor_keyring _ _ _ _).1 ha
  exact ⟨d,t,.str ut,hd,hs,accepted_entry k t key account op hacc hget⟩

/-- Entries are filed under their own pair, names and keys determine each other,
and acceptances under one operator name go back to one operator key. -/
theorem domains_segmented (tokens : List Str) (k : Keyring) (hk : Keyring.build tokens = .ok k) :
    (∀ p ∈ k.entries.items, p.1 = (p.2.subject,p.2.epoch) ∧
      k.get p.2.subject p.2.epoch = some p.2 ∧
      ∃ token ∈ tokens, verifyOperator token p.2.subject = .ok p.2) ∧
    (∀ p ∈ k.entries.items, ∀ q ∈ k.entries.items,
      (p.2.name = q.2.name ↔ p.2.subject = q.2.subject)) ∧
    (∀ (σ τ : Type) (o₁ : Options σ) (o₂ : Options τ) (now₁ now₂ : DateTime) (r₁ r₂ : Request)
      (s₁ u₁ : σ) (s₂ u₂ : τ) (i₁ i₂ : Identity),
      (verify (Verifier.withKeyring o₁ k) now₁ r₁).run s₁ = (.ok i₁,u₁) →
      (verify (Verifier.withKeyring o₂ k) now₂ r₂).run s₂ = (.ok i₂,u₂) →
      ∃ tok₁ tok₂, accountTokenOf o₁ r₁ = .ok tok₁ ∧ accountTokenOf o₂ r₂ = .ok tok₂ ∧
        Segmented tok₁ tok₂ i₁.operator i₂.operator) ∧
    ∀ (o₁ o₂ : MessageOptions) (tok₁ tok₂ : Str) (c₁ c₂ : MessageClaims),
      verifyMessage tok₁ none (some k) o₁ = .ok c₁ → verifyMessage tok₂ none (some k) o₂ = .ok c₂ →
      ∃ d₁ d₂ acc₁ acc₂ usr₁ usr₂, messageToken tok₁ = .ok d₁ ∧ messageToken tok₂ = .ok d₂ ∧
        selectChain d₁.chain o₁.chain = .ok (.str acc₁,usr₁) ∧
        selectChain d₂.chain o₂.chain = .ok (.str acc₂,usr₂) ∧
        Segmented acc₁ acc₂ c₁.operator c₂.operator := by
  refine ⟨?_,?_,?_,?_⟩
  · intro p hp
    have hf := k.entries.filed p hp
    have hget : k.get p.2.subject p.2.epoch = some p.2 := by
      rw [get_some, ← hf]
      exact hp
    exact ⟨hf,hget,build_verified tokens k hk _ _ _ hget⟩
  · exact fun p hp q hq => names_keys tokens k hk p q hp hq
  · intro σ τ o₁ o₂ now₁ now₂ r₁ r₂ s₁ u₁ s₂ u₂ i₁ i₂ h₁ h₂
    obtain ⟨tok₁,ht₁,ha₁⟩ := request_accepted o₁ k now₁ r₁ s₁ u₁ i₁ h₁
    obtain ⟨tok₂,ht₂,ha₂⟩ := request_accepted o₂ k now₂ r₂ s₂ u₂ i₂ h₂
    exact ⟨tok₁,tok₂,ht₁,ht₂,segmented_of_accepted tokens k hk tok₁ tok₂ _ _ ha₁ ha₂⟩
  · intro o₁ o₂ tok₁ tok₂ c₁ c₂ h₁ h₂
    obtain ⟨d₁,acc₁,usr₁,hd₁,hs₁,ha₁⟩ := message_accepted o₁ k tok₁ c₁ h₁
    obtain ⟨d₂,acc₂,usr₂,hd₂,hs₂,ha₂⟩ := message_accepted o₂ k tok₂ c₂ h₂
    exact ⟨d₁,d₂,acc₁,acc₂,usr₁,usr₂,hd₁,hd₂,hs₁,hs₂,
      segmented_of_accepted tokens k hk acc₁ acc₂ _ _ ha₁ ha₂⟩

end Segmentation

section Widgets
local instance : Platform := domain.honest

theorem domains_segmented_widgets : ∃ k i c, Keyring.build loaded = .ok k ∧
    (∀ p ∈ k.entries.items, ∀ q ∈ k.entries.items,
      (p.2.name = q.2.name ↔ p.2.subject = q.2.subject)) ∧
    acmeClaims.name = nextClaims.name ∧ betaClaims.name ≠ acmeClaims.name ∧
    (verify (Verifier.withKeyring keyringOptions k) requestedAt widgetRequest).run () = (.ok i,()) ∧
    Segmented accountSample.token accountSample.token i.operator i.operator ∧
    verifyMessage messageSample.token none (some k) (withoutPolicy keyringDelivery) = .ok c ∧
    Segmented accountSample.token accountSample.token c.operator c.operator := by
  obtain ⟨k,hk,hitems⟩ := loaded_built
  have hr := loaded_request k hitems
  have hm := loaded_message k hitems
  obtain ⟨_,hnames,hrequests,hmessages⟩ := domains_segmented loaded k hk
  have htoken : accountTokenOf keyringOptions widgetRequest = .ok accountSample.token :=
    if_pos accountSample.token_ne_nil
  obtain ⟨t,t',ht,ht',hseg⟩ := hrequests Unit Unit _ _ _ _ _ _ _ _ _ _ _ _ hr hr
  obtain rfl := Except.ok.inj (htoken.symm.trans ht)
  obtain rfl := Except.ok.inj (htoken.symm.trans ht')
  obtain ⟨d,d',a,a',u,u',hd,hd',hc,hc',hseg'⟩ := hmessages _ _ _ _ _ _ hm hm
  obtain rfl := Except.ok.inj (Widgets.message_read.symm.trans hd)
  obtain rfl := Except.ok.inj (Widgets.message_read.symm.trans hd')
  cases hc
  cases hc'
  exact ⟨k,_,_,hk,hnames,rfl,by decide,hr,hseg,hm,hseg'⟩

end Widgets

end Valiss.KeyringNames
