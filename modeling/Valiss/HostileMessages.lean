import Valiss.HostileTokens

/-!
# Verifying hostile messages

An outsider can sign a message over any body, so the chain it embeds is an
arbitrary object. Verification answers or raises `ValissError` unless it is led
to take a chain part that is not text for a token, or to compare a time with an
instant that the slack moves out of the calendar.
-/

set_option autoImplicit false

namespace Valiss.HostileMessages
open Lib.Unicode Lib.Json Lib.Calendar Lib.Fallible Valiss.Errors Valiss.Nkeys Valiss.TokenClaims
open Valiss.Decode Valiss.Operators Valiss.Verify Valiss.Message Valiss.Raising Valiss.Exchange
open Valiss.Recorded

section Totality
variable [Platform]

/-- The tokens the verification decodes: the message, the policy token and the
text parts of the chain. -/
inductive Walked (tok : Str) (o : MessageOptions) : Str → Prop where
  | message : Walked tok o tok
  | policy (t : Str) (h : o.operatorToken = some t) : Walked tok o t
  | suppliedAccount (c : Chain) (h : o.chain = some c) : Walked tok o c.1
  | suppliedUser (c : Chain) (h : o.chain = some c) : Walked tok o c.2
  | embeddedAccount (d : Decoded) (use : Dict Json) (t : Str) (hd : decodeToken tok = .ok d)
      (hc : d.chain = some use) (ht : chainPart use "account" = .str t) : Walked tok o t
  | embeddedUser (d : Decoded) (use : Dict Json) (t : Str) (hd : decodeToken tok = .ok d)
      (hc : d.chain = some use) (ht : chainPart use "user" = .str t) : Walked tok o t

def IsStr (v : Json) : Prop := ∃ s, v = .str s

def Compares (c : Claims) (now : DateTime) (skew : TimeDelta) : Prop :=
  (c.expiresAt ≠ none → (now.minus skew).isSome = true) ∧
    (c.expired now skew = .ok false → c.notBefore ≠ none → (now.plus skew).isSome = true)

def Inside (c : Claims) (now : DateTime) (skew : TimeDelta) : Prop :=
  c.expired now skew = .ok false ∧ c.notYetValid now skew = .ok false

structure InTime (o : MessageOptions) (d : Decoded) (account : AccountClaims)
    (operator : Option OperatorClaims) (user : UserClaims) : Prop where
  policyTimes : ∀ p ∈ operator, Compares p.toClaims o.now o.skew
  accountTimes : messageEpochs d account user o.now o.skew operator = .ok () →
    Compares account.toClaims o.now o.skew
  userTimes : messageEpochs d account user o.now o.skew operator = .ok () →
    Inside account.toClaims o.now o.skew → Compares user.toClaims o.now o.skew
  messageTimes : messageEpochs d account user o.now o.skew operator = .ok () →
    Inside account.toClaims o.now o.skew → Inside user.toClaims o.now o.skew →
    Compares (claimsOf d) o.now o.skew

/-- The account part is text, or a keyring refuses the policy token before it is read. -/
def AccountText (a : TrustAnchor) (o : MessageOptions) (part : Json) : Prop :=
  match a with
  | .pinned _ => IsStr part
  | .keyring _ => o.operatorToken.isSome = true ∨ IsStr part

/-- What the walk down the chain of a self-signed message must find. -/
structure Answerable (a : TrustAnchor) (o : MessageOptions) (d : Decoded)
    (accountPart userPart : Json) : Prop where
  accountText : AccountText a o accountPart
  userText : ∀ x, messageAnchor a o.operatorToken accountPart = .ok x → IsStr userPart
  inTime : ∀ account operator userToken user,
    messageAnchor a o.operatorToken accountPart = .ok (account,operator) →
    userPart = .str userToken → verifyUser userToken account.subject = .ok user →
    user.subject = d.issuer → InTime o d account operator user

theorem asToken_onlyValiss (v : Json) : OnlyValiss (asToken v) ↔ IsStr v := by
  cases v <;> simp [asToken, builtin, IsStr, Exc.isValiss]

theorem timely_iff (c : Claims) (now : DateTime) (skew : TimeDelta) :
    Timely (fun e => e.isValiss = true) c now skew ↔ Compares c now skew := by
  have harith : ∀ (t : Option DateTime) (f : DateTime → Bool), OnlyValiss (do
      let x ← arith t
      return f x) ↔ t.isSome = true := by
    intro t f
    cases t <;> simp [arith, ofOption, Exc.isValiss]
  have hexp : OnlyValiss (c.expired now skew) ↔
      (c.expiresAt ≠ none → (now.minus skew).isSome = true) := by
    unfold Claims.expired
    cases c.expiresAt with
    | none => simp
    | some exp => exact (harith _ _).trans (by simp)
  have hnbf : OnlyValiss (c.notYetValid now skew) ↔
      (c.notBefore ≠ none → (now.plus skew).isSome = true) := by
    unfold Claims.notYetValid
    cases c.notBefore with
    | none => simp
    | some nbf => exact (harith _ _).trans (by simp)
  exact and_congr hexp (imp_congr_right fun _ => hnbf)

theorem anchor_onlyValiss (a : TrustAnchor) (o : MessageOptions) (part : Json)
    (hpart : ∀ t, part = .str t → Decodes t) (hpolicy : ∀ t ∈ o.operatorToken, Decodes t) :
    OnlyValiss (messageAnchor a o.operatorToken part) ↔ AccountText a o part := by
  have hrest : IsStr part → OnlyValiss (messageAnchor a o.operatorToken part) := fun h =>
    messageAnchor_raises ordinary_valiss (fun _ => rfl) a _ _ ((asToken_onlyValiss part).2 h)
      hpart hpolicy
  cases a with
  | pinned key =>
    constructor
    · intro h
      exact (asToken_onlyValiss part).1 ((raises_bind _ _ _).1 h).1
    · exact hrest
  | keyring k =>
    constructor
    · intro h
      by_cases ho : o.operatorToken.isSome = true
      · exact Or.inl ho
      · have hbind := ((raises_bind _ _ _).1 h).2 () (raiseIf_neg _ _ ho)
        exact Or.inr ((asToken_onlyValiss part).1 ((raises_bind _ _ _).1 hbind).1)
    · rintro (ho | ht)
      · simp only [messageAnchor, raiseIf_pos _ _ ho, error_bind]
        exact (raises_error _ _).2 rfl
      · exact hrest ht

theorem selectChain_onlyValiss (embedded : Option (Dict Json)) (supplied : Option Chain) :
    OnlyValiss (selectChain embedded supplied) := by
  cases embedded with
  | none =>
    cases supplied with
    | none => exact (raises_error _ _).2 rfl
    | some c => exact raises_ok _ _
  | some use =>
    cases supplied with
    | none => exact raises_ok _ _
    | some c => exact Raises.bind (onlyValiss_raiseIf _ _ _) fun _ _ => raises_ok _ _

theorem epochs_onlyValiss (d : Decoded) (account : AccountClaims) (user : UserClaims)
    (now : DateTime) (skew : TimeDelta) (operator : Option OperatorClaims) :
    OnlyValiss (messageEpochs d account user now skew operator) ↔
      ∀ p ∈ operator, Compares p.toClaims now skew := by
  rw [OnlyValiss, messageEpochs_raises ordinary_valiss]
  simp only [timely_iff]

theorem windows_onlyValiss (c : MessageClaims) (now : DateTime) (skew : TimeDelta) :
    OnlyValiss (messageWindows c now skew) ↔ Compares c.account.toClaims now skew ∧
      (Inside c.account.toClaims now skew → Compares c.user.toClaims now skew ∧
        (Inside c.user.toClaims now skew → Compares c.toClaims now skew)) := by
  unfold messageWindows
  simp only [OnlyValiss, raises_bind, checkWindow_raises ordinary_valiss, checkWindow_ok,
    timely_iff, forall_const, Inside]

def walk (a : TrustAnchor) (o : MessageOptions) (d : Decoded) (accountPart userPart : Json) :
    Py MessageClaims := do
  let (account,operator) ← messageAnchor a o.operatorToken accountPart
  let userToken ← asToken userPart
  let user ← verifyUser userToken account.subject
  raiseIf (user.subject ≠ d.issuer) (errFor
    (lit "valiss: message token not signed by the chain's user key") .chainUserMismatch)
  messageEpochs d account user o.now o.skew operator
  return messageClaims d account user operator

theorem messageChain_walk (a : TrustAnchor) (o : MessageOptions) (d : Decoded) :
    messageChain a o d = (do
      let (accountPart,userPart) ← selectChain d.chain o.chain
      walk a o d accountPart userPart) := rfl

theorem walk_ok (a : TrustAnchor) (o : MessageOptions) (d : Decoded) (accountPart userPart : Json)
    (c : MessageClaims) : walk a o d accountPart userPart = .ok c ↔
      ∃ account operator userToken user,
        messageAnchor a o.operatorToken accountPart = .ok (account,operator) ∧
        userPart = .str userToken ∧ verifyUser userToken account.subject = .ok user ∧
        user.subject = d.issuer ∧ messageEpochs d account user o.now o.skew operator = .ok () ∧
        c = messageClaims d account user operator := by
  simp only [walk, bind_ok, asToken_ok, raiseIf_ok, pure_ok, not_not, Prod.exists]
  constructor
  · rintro ⟨account,operator,ha,ut,rfl,user,hu,_,hi,_,he,rfl⟩
    exact ⟨account,operator,ut,user,ha,rfl,hu,hi,he,rfl⟩
  · rintro ⟨account,operator,ut,user,ha,rfl,hu,hi,he,rfl⟩
    exact ⟨account,operator,ha,ut,rfl,user,hu,(),hi,(),he,rfl⟩

theorem walk_onlyValiss (a : TrustAnchor) (o : MessageOptions) (d : Decoded)
    (accountPart userPart : Json) (hacc : ∀ t, accountPart = .str t → Decodes t)
    (huser : ∀ t, userPart = .str t → Decodes t) (hpolicy : ∀ t ∈ o.operatorToken, Decodes t) :
    OnlyValiss (walk a o d accountPart userPart) ↔ AccountText a o accountPart ∧
      (∀ x, messageAnchor a o.operatorToken accountPart = .ok x → IsStr userPart) ∧
      ∀ account operator userToken user,
        messageAnchor a o.operatorToken accountPart = .ok (account,operator) →
        userPart = .str userToken → verifyUser userToken account.subject = .ok user →
        user.subject = d.issuer → ∀ p ∈ operator, Compares p.toClaims o.now o.skew := by
  have hbelow : ∀ x : AccountClaims × Option OperatorClaims, OnlyValiss (do
      let userToken ← asToken userPart
      let user ← verifyUser userToken x.1.subject
      raiseIf (user.subject ≠ d.issuer) (errFor
        (lit "valiss: message token not signed by the chain's user key") .chainUserMismatch)
      messageEpochs d x.1 user o.now o.skew x.2
      return messageClaims d x.1 user x.2) ↔ IsStr userPart ∧ ∀ userToken user,
        userPart = .str userToken → verifyUser userToken x.1.subject = .ok user →
        user.subject = d.issuer → ∀ p ∈ x.2, Compares p.toClaims o.now o.skew := by
    intro x
    rw [OnlyValiss, raises_bind]
    apply and_congr (asToken_onlyValiss userPart)
    constructor
    · intro h userToken user ht hu hs
      have h1 := ((raises_bind _ _ _).1 (h userToken ((asToken_ok _ _).2 ht))).2 user hu
      have h2 := ((raises_bind _ _ _).1 h1).2 () ((raiseIf_ok _ _ _).2 (not_not.2 hs))
      exact (epochs_onlyValiss _ _ _ _ _ _).1 ((raises_bind _ _ _).1 h2).1
    · intro h userToken ht
      rw [asToken_ok] at ht
      apply Raises.bind (verifyUser_raises ordinary_valiss _ _ (huser userToken ht))
      intro user hu
      apply Raises.bind (onlyValiss_raiseIf _ _ _)
      intro _ hs
      rw [raiseIf_ok, not_not] at hs
      apply Raises.bind ((epochs_onlyValiss _ _ _ _ _ _).2 (h userToken user ht hu hs))
      intro _ _
      exact raises_ok _ _
  unfold walk
  rw [OnlyValiss, raises_bind]
  apply and_congr (anchor_onlyValiss a o accountPart hacc hpolicy)
  constructor
  · intro h
    refine ⟨fun x hx => ((hbelow x).1 (h x hx)).1,?_⟩
    intro account operator userToken user hx ht hu hs
    exact ((hbelow (account,operator)).1 (h _ hx)).2 userToken user ht hu hs
  · rintro ⟨h1,h2⟩ ⟨account,operator⟩ hx
    exact (hbelow (account,operator)).2
      ⟨h1 _ hx,fun userToken user => h2 account operator userToken user hx⟩

/-- The whole verification below the choice of the parts. -/
theorem answer_iff (a : TrustAnchor) (o : MessageOptions) (d : Decoded)
    (accountPart userPart : Json) (hacc : ∀ t, accountPart = .str t → Decodes t)
    (huser : ∀ t, userPart = .str t → Decodes t) (hpolicy : ∀ t ∈ o.operatorToken, Decodes t) :
    OnlyValiss (do
      let c ← walk a o d accountPart userPart
      messageWindows c o.now o.skew
      messageBindings c o
      return c) ↔ Answerable a o d accountPart userPart := by
  have hrest : ∀ c : MessageClaims, OnlyValiss (do
      messageWindows c o.now o.skew
      messageBindings c o
      return c) ↔ OnlyValiss (messageWindows c o.now o.skew) := by
    intro c
    constructor
    · intro h
      exact ((raises_bind _ _ _).1 h).1
    · intro h
      apply Raises.bind h
      intro _ _
      apply Raises.bind (messageBindings_raises ordinary_valiss c o)
      intro _ _
      exact raises_ok _ _
  have hwalk := walk_onlyValiss a o d accountPart userPart hacc huser hpolicy
  rw [OnlyValiss, raises_bind]
  apply (and_congr_left' hwalk).trans
  constructor
  · rintro ⟨⟨h1,h2,h3⟩,h4⟩
    refine ⟨h1,h2,?_⟩
    intro account operator userToken user hx ht hu hs
    have hw : messageEpochs d account user o.now o.skew operator = .ok () → _ := fun he =>
      (windows_onlyValiss (messageClaims d account user operator) o.now o.skew).1
        ((hrest _).1 (h4 _ ((walk_ok _ _ _ _ _ _).2
          ⟨account,operator,userToken,user,hx,ht,hu,hs,he,rfl⟩)))
    exact ⟨h3 account operator userToken user hx ht hu hs,fun he => (hw he).1,
      fun he hi => ((hw he).2 hi).1,fun he hi hj => ((hw he).2 hi).2 hj⟩
  · intro h
    refine ⟨⟨h.accountText,h.userText,?_⟩,?_⟩
    · intro account operator userToken user hx ht hu hs
      exact (h.inTime account operator userToken user hx ht hu hs).policyTimes
    · intro c hc
      obtain ⟨account,operator,userToken,user,hx,ht,hu,hs,he,rfl⟩ := (walk_ok _ _ _ _ _ _).1 hc
      have hin := h.inTime account operator userToken user hx ht hu hs
      apply (hrest _).2
      apply (windows_onlyValiss _ _ _).2
      exact ⟨hin.accountTimes he,fun hi => ⟨hin.userTimes he hi,hin.messageTimes he hi⟩⟩

theorem parts_walked (tok : Str) (o : MessageOptions) (d : Decoded) (hd : decodeToken tok = .ok d)
    (accountPart userPart : Json)
    (h : selectChain d.chain o.chain = .ok (accountPart,userPart)) :
    (∀ t, accountPart = .str t → Walked tok o t) ∧ ∀ t, userPart = .str t → Walked tok o t := by
  cases hc : d.chain with
  | none =>
    cases ho : o.chain with
    | none => simp [hc, ho, selectChain] at h
    | some c =>
      simp only [hc, ho, selectChain, Except.ok.injEq, Prod.mk.injEq] at h
      obtain ⟨rfl,rfl⟩ := h
      constructor
      · intro t ht
        rw [← Value.str.inj ht]
        exact .suppliedAccount c ho
      · intro t ht
        rw [← Value.str.inj ht]
        exact .suppliedUser c ho
  | some use =>
    have hparts : chainPart use "account" = accountPart ∧ chainPart use "user" = userPart := by
      rw [hc] at h
      cases ho : o.chain with
      | none => simpa [ho, selectChain] using h
      | some c =>
        rw [ho, selectChain_both] at h
        simpa using h.2.2
    obtain ⟨rfl,rfl⟩ := hparts
    exact ⟨fun t ht => .embeddedAccount d use t hd hc ht,fun t ht => .embeddedUser d use t hd hc ht⟩

/-- A message is answered or refused with a `ValissError` exactly when the parts
of its chain are text where they are taken for tokens and the times that are
compared stay in the calendar, given that the tokens on the way decode or are
refused. -/
theorem message_total (tok : Str) (operatorPubKey : Option Str) (keyring : Option Keyring)
    (o : MessageOptions) (hdec : ∀ t, Walked tok o t → Decodes t) :
    OnlyValiss (verifyMessage tok operatorPubKey keyring o) ↔
      ∀ a, trustAnchor operatorPubKey keyring = .ok a → ∀ d, messageToken tok = .ok d →
        ∀ accountPart userPart, selectChain d.chain o.chain = .ok (accountPart,userPart) →
          Answerable a o d accountPart userPart := by
  have hanchor : OnlyValiss (trustAnchor operatorPubKey keyring) := by
    cases operatorPubKey <;> cases keyring <;>
      first | exact raises_ok _ _ | exact (raises_error _ _).2 rfl
  have htoken : OnlyValiss (messageToken tok) :=
    messageToken_raises ordinary_valiss tok (hdec tok .message)
  have hchain : ∀ a d, messageToken tok = .ok d → (OnlyValiss (do
      let c ← messageChain a o d
      messageWindows c o.now o.skew
      messageBindings c o
      return c) ↔ ∀ accountPart userPart,
        selectChain d.chain o.chain = .ok (accountPart,userPart) →
          Answerable a o d accountPart userPart) := by
    intro a d hd
    cases hsel : selectChain d.chain o.chain with
    | error e =>
      rw [messageChain_walk, hsel, error_bind, error_bind]
      apply iff_of_true
      · exact (raises_error _ _).2 (selectChain_onlyValiss _ _ e hsel)
      · intro _ _ h
        cases h
    | ok x =>
      obtain ⟨ap,up⟩ := x
      obtain ⟨ha,hu⟩ := parts_walked tok o d ((messageToken_ok _ _).1 hd).1 ap up hsel
      rw [messageChain_walk, hsel, ok_bind]
      apply (answer_iff a o d ap up (fun t h => hdec t (ha t h)) (fun t h => hdec t (hu t h))
        fun t h => hdec t (.policy t h)).trans
      constructor
      · intro h _ _ he
        cases he
        exact h
      · intro h
        exact h ap up rfl
  unfold verifyMessage
  rw [OnlyValiss, raises_bind]
  apply (and_iff_right hanchor).trans
  apply forall_congr'
  intro a
  apply imp_congr_right
  intro _
  unfold verifyUnder
  rw [raises_bind]
  apply (and_iff_right htoken).trans
  apply forall_congr'
  intro d
  apply imp_congr_right
  intro hd
  exact hchain a d hd

end Totality

def hostileSample : Sample where
  issuer := userRaw
  text id := lit "\x7b" ++ (id ++ (lit "\"iat\":1893456000,\"iss\":\"" ++ (userKey ++
    (lit "\",\"sub\":\"" ++ (userKey ++
      (lit "\",\"exp\":1893456060,\"valiss\":\x7b\"type\":\"message\"," ++
        lit "\"epoch\":7,\"chain\":\x7b\"account\":5\x7d\x7d\x7d"))))))
  digest := bytesOf 32 0x02f78e1d4dd4a4c9156e51a8f142cf624185d0720d2f6831aec7d44dc1b699f2
  signature := bytesOf 32 0x13758742bf797fb13ae7403c2e23f2f3edeab14f20b174dc133ab409859f064e ++
    bytesOf 32 0x3f6f1d09f0684799eae76b186b409a12c2d018f21539d9bbb9350691a5819609

def hostileDomain : Recording where
  digests := hostileSample.hashed::domain.digests
  keys := domain.keys
  signatures := hostileSample.signed::domain.signatures

section Widgets
local instance : Platform := hostileDomain.ideal

def numberOnly (use : Dict Json) : Bool :=
  match use.lookup (lit "account"), use.lookup (lit "user") with
  | some (.int n), none => decide (n ≠ 0)
  | _, _ => false

theorem numberOnly_parts (use : Dict Json) (h : numberOnly use = true) :
    (∃ n, chainPart use "account" = .int n) ∧ chainPart use "user" = .str [] := by
  unfold numberOnly at h
  split at h
  next n ha hu =>
    rw [decide_eq_true_eq] at h
    exact ⟨⟨n,by simp [chainPart, ha, truthy, h]⟩,by simp [chainPart, hu]⟩
  next => cases h

theorem hostile_read : ∃ d use, messageToken hostileSample.token = .ok d ∧ d.chain = some use ∧
    numberOnly use = true := by
  have h : (do
      let d ← messageToken hostileSample.token
      return d.chain.any numberOnly) = .ok true := by decide +kernel
  simp only [bind_ok, pure_ok, Option.any_eq_true] at h
  obtain ⟨d,hd,use,huse,hn⟩ := h
  exact ⟨d,use,hd,huse,hn⟩

theorem hostile_walked (o : MessageOptions) (hp : o.operatorToken = none)
    (hc : ∀ c ∈ o.chain, Decodes c.1 ∧ Decodes c.2) (t : Str)
    (h : Walked hostileSample.token o t) : Decodes t := by
  obtain ⟨d,use,hd,huse,hn⟩ := hostile_read
  obtain ⟨⟨n,ha⟩,hu⟩ := numberOnly_parts use hn
  have hd' := ((messageToken_ok _ _).1 hd).1
  have hsame : ∀ x use', decodeToken hostileSample.token = .ok x → x.chain = some use' →
      use' = use := by
    intro x use' hx hx'
    rw [hd', Except.ok.injEq] at hx
    rw [← hx, huse, Option.some.injEq] at hx'
    exact hx'.symm
  cases h with
  | message =>
    rw [Decodes, hd']
    exact raises_ok _ _
  | policy t h =>
    rw [hp] at h
    cases h
  | suppliedAccount c h => exact (hc c h).1
  | suppliedUser c h => exact (hc c h).2
  | embeddedAccount x use' t hx hx' ht =>
    rw [hsame x use' hx hx', ha] at ht
    cases ht
  | embeddedUser x use' t hx hx' ht =>
    rw [hsame x use' hx hx', hu] at ht
    rw [← Value.str.inj ht]
    exact (raises_error _ _).2 rfl

/-- The number is taken for a token. -/
theorem number_escapes : ¬ ∀ tok operatorPubKey keyring o, (∀ t, Walked tok o t → Decodes t) →
    OnlyValiss (verifyMessage tok operatorPubKey keyring o) := by
  intro h
  obtain ⟨d,use,hd,huse,hn⟩ := hostile_read
  obtain ⟨⟨n,ha⟩,_⟩ := numberOnly_parts use hn
  have hv := h hostileSample.token (some operatorKey) none ⟨requestedAt,0,none,false,none,none,none⟩
    (hostile_walked _ rfl fun c hc => by cases hc)
  have he : verifyMessage hostileSample.token (some operatorKey) none
      ⟨requestedAt,0,none,false,none,none,none⟩ = builtin .attributeError := by
    rw [verifyMessage, trustAnchor, ok_bind, verifyUnder, hd, ok_bind]
    simp only [messageChain, huse, selectChain, ok_bind, ha, messageAnchor, asToken, builtin,
      error_bind]
  rw [he] at hv
  exact absurd (hv _ rfl) (by decide)

/-- Beside a supplied chain the number is compared, and refused. -/
theorem message_total_compared : OnlyValiss (verifyMessage hostileSample.token (some operatorKey)
    none ⟨requestedAt,0,none,false,none,some (lit "a",lit "u"),none⟩) := by
  obtain ⟨d,use,hd,huse,hn⟩ := hostile_read
  obtain ⟨⟨n,ha⟩,_⟩ := numberOnly_parts use hn
  have hword : ∀ c ∈ (some (lit "a",lit "u") : Option Chain), Decodes c.1 ∧ Decodes c.2 := by
    intro c hc
    obtain rfl := Option.some.inj hc
    exact ⟨(raises_error _ _).2 rfl,(raises_error _ _).2 rfl⟩
  apply (message_total _ _ _ _ (hostile_walked _ rfl hword)).2
  intro a _ x hx accountPart userPart hsel
  rw [hd, Except.ok.injEq] at hx
  rw [← hx, huse, selectChain_both, ha] at hsel
  cases hsel.1

end Widgets

end Valiss.HostileMessages
