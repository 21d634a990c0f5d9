import Valiss.KeyringOrder

/-!
# A keyring against its entries

Verification against a keyring picks the operator from the token it verifies.
It accepts exactly what verification pinned to one entry accepts, and that
entry is the only one: the accepted account names the operator and the epoch.
-/

set_option autoImplicit false

namespace Valiss.KeyringRefinement
open Lib.Unicode Lib.Calendar Lib.Fallible Valiss.Errors Valiss.TokenClaims Valiss.Decode
open Valiss.Operators Valiss.Verify Valiss.Message Valiss.KeyringOrder Valiss.Recorded

section Refinement
variable [Platform]

theorem verifyAccount_issuer (tok key : Str) (a : AccountClaims)
    (h : verifyAccount tok key = .ok a) : issuerOf tok = .ok key ∧ a.issuer = key := by
  obtain ⟨d,hd,_,hi,_,rfl⟩ := (verifyAccount_ok _ _ _).1 h
  exact ⟨(issuerOf_ok _ _).2 ⟨d,hd,hi⟩,hi⟩

theorem anchored_pinned (key tok : Str) (c : OperatorClaims) (account : AccountClaims)
    (operator : Option OperatorClaims) :
    anchored (.pinned key (some c)) tok = .ok (account,operator) ↔
      verifyAccount tok key = .ok account ∧ operator = some c := by
  simp only [anchored, bind_ok, pure_ok, Prod.mk.injEq]
  constructor
  · rintro ⟨a,ha,rfl,rfl⟩
    exact ⟨ha,rfl⟩
  · rintro ⟨ha,rfl⟩
    exact ⟨account,ha,rfl,rfl⟩

theorem anchored_keyring (k : Keyring) (tok : Str) (account : AccountClaims)
    (operator : Option OperatorClaims) :
    anchored (.keyring k) tok = .ok (account,operator) ↔ ∃ key c,
      verifyAccount tok key = .ok account ∧ k.get key account.epoch = some c ∧
        operator = some c := by
  simp only [anchored, bind_ok, ofOption_ok, pure_ok, Prod.mk.injEq]
  constructor
  · rintro ⟨key,_,a,ha,c,hc,rfl,rfl⟩
    exact ⟨key,c,ha,hc,rfl⟩
  · rintro ⟨key,c,ha,hc,rfl⟩
    exact ⟨key,(verifyAccount_issuer _ _ _ ha).1,account,ha,c,hc,rfl,rfl⟩

variable {σ : Type}

def entryVerifier (o : Options σ) (p : Entry) : Verifier σ := ⟨o,.pinned p.1.1 (some p.2)⟩

theorem pinned_entry (o : Options σ) (p : Entry) (token : Str)
    (h : verifyOperator token p.1.1 = .ok p.2) :
    Verifier.pinned o p.1.1 (some token) = .ok (entryVerifier o p) := by
  rw [Verifier.pinned, h]
  rfl

theorem checked_entry (o : Options σ) (k : Keyring) (p : Entry) (hp : p ∈ k.entries.items)
    (now : DateTime) (r : Request) (x : Identity × Option (Str × DateTime))
    (h : checked (entryVerifier o p) now r = .ok x) :
    p.1 = (x.1.account.issuer,x.1.account.epoch) := by
  obtain ⟨tok,_,account,operator,ha,hchain,_⟩ := (checked_ok _ _ _ _).1 h
  obtain ⟨rfl,rfl,hpol,_⟩ := (checkChain_ok _ _ _ _ _ _).1 hchain
  obtain ⟨hacc,hop⟩ := (anchored_pinned _ _ _ _ _).1 ha
  have he := (hpol p.2 hop).2.2
  have hf := k.entries.filed p hp
  have hk : p.1.2 = p.2.epoch := by rw [hf]
  rw [(verifyAccount_issuer _ _ _ hacc).2, he, ← hk]

theorem checked_keyring (o : Options σ) (k : Keyring) (now : DateTime) (r : Request)
    (x : Identity × Option (Str × DateTime)) :
    checked (Verifier.withKeyring o k) now r = .ok x ↔
      ∃ p ∈ k.entries.items, checked (entryVerifier o p) now r = .ok x := by
  constructor
  · intro h
    obtain ⟨tok,ht,account,operator,ha,hchain,hpos⟩ := (checked_ok _ _ _ _).1 h
    obtain ⟨key,c,hacc,hget,hop⟩ := (anchored_keyring _ _ _ _).1 ha
    refine ⟨((key,account.epoch),c),(get_some _ _ _ _).1 hget,(checked_ok _ _ _ _).2 ?_⟩
    exact ⟨tok,ht,account,operator,(anchored_pinned _ _ _ _ _).2 ⟨hacc,hop⟩,hchain,hpos⟩
  · rintro ⟨p,hp,h⟩
    have hnamed := checked_entry o k p hp now r x h
    obtain ⟨tok,ht,account,operator,ha,hchain,hpos⟩ := (checked_ok _ _ _ _).1 h
    obtain ⟨hacc,hop⟩ := (anchored_pinned _ _ _ _ _).1 ha
    obtain ⟨rfl,_⟩ := (checkChain_ok _ _ _ _ _ _).1 hchain
    have hi := (verifyAccount_issuer _ _ _ hacc).2
    have hget : k.get p.1.1 x.1.account.epoch = some p.2 := by
      rw [get_some, ← hi, ← hnamed]
      exact hp
    exact (checked_ok _ _ _ _).2 ⟨tok,ht,_,operator,
      (anchored_keyring _ _ _ _).2 ⟨_,p.2,hacc,hget,hop⟩,hchain,hpos⟩

/-- The entry an accepted request names is the only one that accepts it. -/
theorem verify_entry (o : Options σ) (k : Keyring) (p : Entry) (hp : p ∈ k.entries.items)
    (now : DateTime) (r : Request) (s u : σ) (i : Identity)
    (h : (verify (entryVerifier o p) now r).run s = (.ok i,u)) :
    p.1 = (i.account.issuer,i.account.epoch) := by
  obtain ⟨e,he,_⟩ := (verify_ok _ _ _ _ _ _).1 h
  exact checked_entry o k p hp now r (i,e) he

theorem entry_unique (k : Keyring) (p q : Entry) (hp : p ∈ k.entries.items)
    (hq : q ∈ k.entries.items) (h : p.1 = q.1) : p = q :=
  List.inj_on_of_nodup_map k.entries.single hp hq h

theorem exists_entry (k : Keyring) (P Q : Entry → Prop) (name : Str × ℤ)
    (hPQ : ∀ p ∈ k.entries.items, P p ↔ Q p) (hn : ∀ p ∈ k.entries.items, Q p → p.1 = name) :
    (∃ p ∈ k.entries.items, Q p) ↔ ∃! p, p ∈ k.entries.items ∧ P p := by
  constructor
  · rintro ⟨p,hp,h⟩
    refine ⟨p,⟨hp,(hPQ p hp).2 h⟩,?_⟩
    rintro q ⟨hq,hqu⟩
    apply entry_unique k q p hq hp
    rw [hn p hp h, hn q hq ((hPQ q hq).1 hqu)]
  · rintro ⟨p,⟨hp,h⟩,_⟩
    exact ⟨p,hp,(hPQ p hp).1 h⟩

/-- An entry with an operator token it came from, under which the request is
accepted with this identity and state. -/
def AcceptsUnder (tokens : List Str) (o : Options σ) (now : DateTime) (r : Request) (s : σ)
    (i : Identity) (u : σ) (p : Entry) : Prop :=
  ∃ token ∈ tokens, verifyOperator token p.1.1 = .ok p.2 ∧
    ∃ v, Verifier.pinned o p.1.1 (some token) = .ok v ∧ (verify v now r).run s = (.ok i,u)

theorem request_keyring (tokens : List Str) (k : Keyring) (hk : Keyring.build tokens = .ok k)
    (o : Options σ) (now : DateTime) (r : Request) (s u : σ) (i : Identity) :
    (verify (Verifier.withKeyring o k) now r).run s = (.ok i,u) ↔
      ∃! p, p ∈ k.entries.items ∧ AcceptsUnder tokens o now r s i u p := by
  have hunder : ∀ p ∈ k.entries.items, AcceptsUnder tokens o now r s i u p ↔
      (verify (entryVerifier o p) now r).run s = (.ok i,u) := by
    intro p hp
    constructor
    · rintro ⟨token,_,htok,v,hv,h⟩
      rw [pinned_entry o p token htok, Except.ok.injEq] at hv
      rw [hv]
      exact h
    · intro h
      obtain ⟨token,hmem,htok⟩ := build_verified tokens k hk _ _ _ ((get_some _ _ _ _).2 hp)
      exact ⟨token,hmem,htok,_,pinned_entry o p token htok,h⟩
  have hsame : (verify (Verifier.withKeyring o k) now r).run s = (.ok i,u) ↔
      ∃ p ∈ k.entries.items, (verify (entryVerifier o p) now r).run s = (.ok i,u) := by
    simp only [verify_ok, checked_keyring]
    constructor
    · rintro ⟨e,⟨p,hp,hc⟩,hrest⟩
      exact ⟨p,hp,e,hc,hrest⟩
    · rintro ⟨p,hp,e,hc,hrest⟩
      exact ⟨e,⟨p,hp,hc⟩,hrest⟩
  rw [hsame]
  exact exists_entry k _ _ _ hunder fun p hp => verify_entry o k p hp now r s u i

def withPolicy (o : MessageOptions) (token : Str) : MessageOptions :=
  {o with operatorToken := some token}

def MessageUnder (o : MessageOptions) (tok : Str) (p : Entry) (c : MessageClaims) : Prop :=
  ∃ d accountToken userToken account user, messageToken tok = .ok d ∧
    selectChain d.chain o.chain = .ok (.str accountToken,.str userToken) ∧
    verifyAccount accountToken p.1.1 = .ok account ∧
    verifyUser userToken account.subject = .ok user ∧ user.subject = d.issuer ∧
    messageEpochs d account user o.now o.skew (some p.2) = .ok () ∧
    c = messageClaims d account user (some p.2) ∧ messageWindows c o.now o.skew = .ok () ∧
    messageBindings c o = .ok ()

theorem messageAnchor_pinned (key token : Str) (c : OperatorClaims)
    (h : verifyOperator token key = .ok c) (v : Json) (account : AccountClaims)
    (operator : Option OperatorClaims) :
    messageAnchor (.pinned key) (some token) v = .ok (account,operator) ↔
      ∃ t, v = .str t ∧ verifyAccount t key = .ok account ∧ operator = some c := by
  have hp : operatorPolicy key (some token) = .ok (some c) := by
    rw [operatorPolicy, h]
    rfl
  simp only [messageAnchor, bind_ok, asToken_ok, hp, Except.ok.injEq, pure_ok, Prod.mk.injEq]
  constructor
  · rintro ⟨t,ht,a,ha,_,rfl,rfl,rfl⟩
    exact ⟨t,ht,ha,rfl⟩
  · rintro ⟨t,ht,ha,rfl⟩
    exact ⟨t,ht,account,ha,_,rfl,rfl,rfl⟩

theorem messageAnchor_keyring (k : Keyring) (v : Json) (account : AccountClaims)
    (operator : Option OperatorClaims) :
    messageAnchor (.keyring k) none v = .ok (account,operator) ↔
      ∃ t key c, v = .str t ∧ verifyAccount t key = .ok account ∧
        k.get key account.epoch = some c ∧ operator = some c := by
  simp only [messageAnchor, bind_ok, asToken_ok, ofOption_ok, raiseIf_ok, pure_ok, Prod.mk.injEq]
  constructor
  · rintro ⟨_,_,t,ht,key,_,a,ha,c,hc,rfl,rfl⟩
    exact ⟨t,key,c,ht,ha,hc,rfl⟩
  · rintro ⟨t,key,c,ht,ha,hc,rfl⟩
    exact ⟨(),by simp,t,ht,key,(verifyAccount_issuer _ _ _ ha).1,account,ha,c,hc,rfl,rfl⟩

theorem message_pinned (o : MessageOptions) (tok : Str) (p : Entry) (token : Str)
    (h : verifyOperator token p.1.1 = .ok p.2) (c : MessageClaims) :
    verifyMessage tok (some p.1.1) none (withPolicy o token) = .ok c ↔ MessageUnder o tok p c := by
  have hu : verifyMessage tok (some p.1.1) none (withPolicy o token) =
      verifyUnder (.pinned p.1.1) tok (withPolicy o token) := rfl
  rw [hu, verifyUnder_ok]
  constructor
  · rintro ⟨d,hd,hchain,hw,hb⟩
    obtain ⟨v,ut,account,operator,user,hs,ha,hv,hi,he,rfl⟩ := (messageChain_ok _ _ _ _).1 hchain
    obtain ⟨at_,rfl,hacc,rfl⟩ := (messageAnchor_pinned _ _ _ h _ _ _).1 ha
    exact ⟨d,at_,ut,account,user,hd,hs,hacc,hv,hi,he,rfl,hw,hb⟩
  · rintro ⟨d,at_,ut,account,user,hd,hs,hacc,hv,hi,he,rfl,hw,hb⟩
    refine ⟨d,hd,(messageChain_ok _ _ _ _).2 ?_,hw,hb⟩
    exact ⟨.str at_,ut,account,some p.2,user,hs,
      (messageAnchor_pinned _ _ _ h _ _ _).2 ⟨at_,rfl,hacc,rfl⟩,hv,hi,he,rfl⟩

theorem message_entry (o : MessageOptions) (tok : Str) (k : Keyring) (p : Entry)
    (hp : p ∈ k.entries.items) (c : MessageClaims) (h : MessageUnder o tok p c) :
    p.1 = (c.account.issuer,c.account.epoch) := by
  obtain ⟨d,_,_,account,user,_,_,hacc,_,_,he,rfl,_⟩ := h
  obtain ⟨hpol,hea,_⟩ := (messageEpochs_ok _ _ _ _ _ _ _).1 he
  have hf := k.entries.filed p hp
  have hk : p.1.2 = p.2.epoch := by rw [hf]
  have hepoch : account.epoch = p.1.2 := by rw [← hea, hk, (hpol p.2 rfl).2.2]
  have hi : account.issuer = p.1.1 := (verifyAccount_issuer _ _ _ hacc).2
  rw [messageClaims, hi, hepoch]

theorem message_keyring (o : MessageOptions) (ho : o.operatorToken = none) (tok : Str)
    (k : Keyring) (c : MessageClaims) : verifyMessage tok none (some k) o = .ok c ↔
      ∃ p ∈ k.entries.items, MessageUnder o tok p c := by
  have hu : verifyMessage tok none (some k) o = verifyUnder (.keyring k) tok o := rfl
  rw [hu, verifyUnder_ok]
  constructor
  · rintro ⟨d,hd,hchain,hw,hb⟩
    obtain ⟨v,ut,account,operator,user,hs,ha,hv,hi,he,rfl⟩ := (messageChain_ok _ _ _ _).1 hchain
    rw [ho] at ha
    obtain ⟨at_,key,op,rfl,hacc,hget,rfl⟩ := (messageAnchor_keyring _ _ _ _).1 ha
    exact ⟨((key,account.epoch),op),(get_some _ _ _ _).1 hget,d,at_,ut,account,user,hd,hs,hacc,hv,
      hi,he,rfl,hw,hb⟩
  · rintro ⟨p,hp,h⟩
    have hnamed := message_entry o tok k p hp c h
    obtain ⟨d,at_,ut,account,user,hd,hs,hacc,hv,hi,he,rfl,hw,hb⟩ := h
    have hget : k.get p.1.1 account.epoch = some p.2 := by
      have hi' : account.issuer = p.1.1 := (verifyAccount_issuer _ _ _ hacc).2
      rw [messageClaims, hi'] at hnamed
      rw [get_some, ← hnamed]
      exact hp
    refine ⟨d,hd,(messageChain_ok _ _ _ _).2 ?_,hw,hb⟩
    rw [ho]
    exact ⟨.str at_,ut,account,some p.2,user,hs,
      (messageAnchor_keyring _ _ _ _).2 ⟨at_,p.1.1,p.2,rfl,hacc,hget,rfl⟩,hv,hi,he,rfl⟩

/-- An entry with an operator token it came from, under which the message is
accepted with these claims. -/
def MessageAcceptsUnder (tokens : List Str) (o : MessageOptions) (tok : Str) (c : MessageClaims)
    (p : Entry) : Prop :=
  ∃ token ∈ tokens, verifyOperator token p.1.1 = .ok p.2 ∧
    verifyMessage tok (some p.1.1) none (withPolicy o token) = .ok c

def withoutPolicy (o : MessageOptions) : MessageOptions := {o with operatorToken := none}

theorem message_unique (tokens : List Str) (k : Keyring) (hk : Keyring.build tokens = .ok k)
    (o : MessageOptions) (tok : Str) (c : MessageClaims) :
    verifyMessage tok none (some k) (withoutPolicy o) = .ok c ↔
      ∃! p, p ∈ k.entries.items ∧ MessageAcceptsUnder tokens o tok c p := by
  have hunder : ∀ p ∈ k.entries.items, MessageAcceptsUnder tokens o tok c p ↔
      MessageUnder o tok p c := by
    intro p hp
    constructor
    · rintro ⟨token,_,htok,h⟩
      exact (message_pinned o tok p token htok c).1 h
    · intro h
      obtain ⟨token,hmem,htok⟩ := build_verified tokens k hk _ _ _ ((get_some _ _ _ _).2 hp)
      exact ⟨token,hmem,htok,(message_pinned o tok p token htok c).2 h⟩
  rw [message_keyring (withoutPolicy o) rfl]
  exact exists_entry k _ _ _ hunder fun p hp => message_entry o tok k p hp c

/-- Verifying against a keyring is verifying under the one entry that accepts. -/
theorem keyring_single (tokens : List Str) (k : Keyring) (hk : Keyring.build tokens = .ok k) :
    (∀ (σ : Type) (o : Options σ) (now : DateTime) (r : Request) (s u : σ) (i : Identity),
      (verify (Verifier.withKeyring o k) now r).run s = (.ok i,u) ↔
        ∃! p, p ∈ k.entries.items ∧ AcceptsUnder tokens o now r s i u p) ∧
    ∀ (tok : Str) (o : MessageOptions) (c : MessageClaims),
      verifyMessage tok none (some k) (withoutPolicy o) = .ok c ↔
        ∃! p, p ∈ k.entries.items ∧ MessageAcceptsUnder tokens o tok c p :=
  ⟨fun _ => request_keyring tokens k hk,fun tok o => message_unique tokens k hk o tok⟩

end Refinement

section Widgets
local instance : Platform := domain.honest

def keyringOptions : Options Unit := ⟨fun _ => true,120000000,none,none,[],[]⟩

def keyringDelivery : MessageOptions where
  now := requestedAt
  skew := 120000000
  audience := some destination
  payload := some bodyBytes
  chain := some Widgets.widgetChain

theorem loaded_request (k : Keyring) (h : k.entries.items = loadedClaims.map file) :
    (verify (Verifier.withKeyring keyringOptions k) requestedAt widgetRequest).run () =
      (.ok (Widgets.widgetIdentity (some acmeClaims)),()) := by
  have hget : k.get operatorKey 7 = some acmeClaims := (get_some _ _ _ _).2 (loaded_acme k h)
  have hanchor := (anchored_keyring k accountSample.token (accountClaims Widgets.accountRead) _).2
    ⟨operatorKey,_,Widgets.account_verified,hget,rfl⟩
  have hfresh : requestedAt.micros-requestedAt.micros ≤ keyringOptions.skew ∧
      -keyringOptions.skew ≤ requestedAt.micros-requestedAt.micros := by decide
  have hchecked := Widgets.widget_checked (Verifier.withKeyring keyringOptions k) requestedAt _
    hanchor (Or.inr rfl) rfl hfresh.1 hfresh.2 requestedAt (fun h => Bool.noConfusion h)
  exact (verify_ok _ _ widgetRequest () () _).2 ⟨none,hchecked,(),rfl,rfl⟩

theorem loaded_message (k : Keyring) (h : k.entries.items = loadedClaims.map file) :
    verifyMessage messageSample.token none (some k) (withoutPolicy keyringDelivery) =
      .ok (Widgets.widgetMessage (some acmeClaims)) := by
  have hwindow : minMicros ≤ requestedAt.micros-120000000 ∧ (0 : ℤ) ≤ 120000000 ∧
      requestedAt.micros-120000000 ≤ requestedAt.micros+60000000 := by decide
  have hpinned := Widgets.widget_delivered (withPolicy keyringDelivery operatorSample.token) _
    Widgets.widget_operatorPolicy (Or.inr rfl) rfl hwindow.1 hwindow.2.1 hwindow.2.2
    (Widgets.widget_bindings _ _ (Or.inr rfl) fun p hp => (Option.mem_some_iff.1 hp).symm)
  rw [← Widgets.verifyMessage_pinned] at hpinned
  have hunder := (message_pinned keyringDelivery messageSample.token ((operatorKey,7),acmeClaims)
    operatorSample.token Widgets.operator_verified _).1 hpinned
  exact (message_keyring (withoutPolicy keyringDelivery) rfl _ k _).2 ⟨_,loaded_acme k h,hunder⟩

theorem keyring_single_widgets : ∃ k i c, Keyring.build loaded = .ok k ∧
    k.entries.items.length = 3 ∧
    (verify (Verifier.withKeyring keyringOptions k) requestedAt widgetRequest).run () = (.ok i,()) ∧
    (∃! p, p ∈ k.entries.items ∧ AcceptsUnder loaded keyringOptions requestedAt widgetRequest ()
      i () p) ∧
    verifyMessage messageSample.token none (some k) (withoutPolicy keyringDelivery) = .ok c ∧
    ∃! p, p ∈ k.entries.items ∧
      MessageAcceptsUnder loaded keyringDelivery messageSample.token c p := by
  obtain ⟨k,hk,hitems⟩ := loaded_built
  have hr := loaded_request k hitems
  have hm := loaded_message k hitems
  have hsingle := keyring_single loaded k hk
  exact ⟨k,_,_,hk,by rw [hitems, List.length_map]; rfl,hr,
    (hsingle.1 Unit keyringOptions _ _ _ _ _).1 hr,hm,(hsingle.2 _ keyringDelivery _).1 hm⟩

end Widgets

end Valiss.KeyringRefinement
