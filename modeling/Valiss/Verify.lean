import Valiss.Operators
import Valiss.Replay
import Valiss.RequestSignature

/-!
# The request verifier

One request is checked in stages: the anchor and the account token, the
windows, the epochs and the allowlist, the user token, then possession of the
subject key. Only a request that passed them reaches the replay cache, and only
one the cache lets through reaches the consumer's hooks.
-/

set_option autoImplicit false

namespace Valiss.Verify
open Lib.Unicode Lib.Json Lib.Calendar Lib.Fallible
open Valiss.Errors Valiss.TokenClaims Valiss.Decode Valiss.Operators Valiss.Replay
open Valiss.RequestSignature

structure Request where
  accountToken : Str := []
  userToken : Str := []
  timestamp : Str := []
  signature : Str := []
  context : Bytes := []
  nonce : Str := []

variable [Platform]

structure Identity where
  account : AccountClaims
  user : Option UserClaims
  operator : Option OperatorClaims

abbrev AccountTokenResolver := Str → Py Str

abbrev ClaimsValidator (σ : Type) := Request → Identity → Act Exc σ Unit

/-- What a request is verified against. A misconfigured operator token poisons
the verifier. -/
inductive Anchor where
  | pinned (operatorPubKey : Str) (operator : Option OperatorClaims)
  | poisoned (error : Exc)
  | keyring (k : Keyring)

/-- Options; `σ` is the state that the replay cache and the hooks act on. -/
structure Options (σ : Type) where
  allowlist : Str → Bool
  skew : TimeDelta
  resolver : Option AccountTokenResolver
  replayCache : Option (ReplayCache σ)
  validators : List (ClaimsValidator σ)
  extensionTypes : List (ExtType Unit)

structure Verifier (σ : Type) extends Options σ where
  anchor : Anchor

variable {σ : Type}

/-- `Verifier(operator_pub_key, ..., operator_token=...)` -/
def Verifier.pinned (o : Options σ) (operatorPubKey : Str) (operatorToken : Option Str) :
    Py (Verifier σ) :=
  match operatorToken with
  | none => .ok ⟨o,.pinned operatorPubKey none⟩
  | some t => match verifyOperator t operatorPubKey with
    | .ok c => .ok ⟨o,.pinned operatorPubKey (some c)⟩
    | .error (.valiss m r) => .ok ⟨o,.poisoned (.valiss m r)⟩
    | .error e => .error e

def Verifier.withKeyring (o : Options σ) (k : Keyring) : Verifier σ := ⟨o,.keyring k⟩

/-- A resolver over a `{account_pub: token}` mapping. -/
def mappingResolver (mapping : Dict Str) : AccountTokenResolver := fun key =>
  ofOption (err (lit "valiss: no account token configured for the user token's account"))
    (mapping.lookup key)

def userExtOf {α : Type} (t : ExtType α) (i : Identity) : Py (Option α) :=
  match i.user with
  | some u => extOf t u.ext
  | none => .ok none

/-- The validator that `Verifier.extension` registers for a handler. -/
def extensionValidator {α : Type} (t : ExtType α) (zero : α)
    (fn : Request → Identity → α → α → Act Exc σ Unit) : ClaimsValidator σ :=
  fun r i => do
    let accountExt ← extOf t i.account.ext
    let userExt ← userExtOf t i
    fn r i (accountExt.getD zero) (userExt.getD zero)

def Verifier.validator (v : Verifier σ) (fn : ClaimsValidator σ) : Verifier σ :=
  {v with validators := v.validators ++ [fn]}

def Verifier.extension {α : Type} (v : Verifier σ) (t : ExtType α) (zero : α)
    (fn : Request → Identity → α → α → Act Exc σ Unit) : Verifier σ :=
  v.validator (extensionValidator t zero fn)

def accountTokenOf (o : Options σ) (r : Request) : Py Str :=
  if r.accountToken ≠ [] then .ok r.accountToken
  else do
    raiseIf (r.userToken = []) (errFor (lit "valiss: missing credentials") .missing)
    let resolver ← ofOption (errFor (lit
      "valiss: request carries no account token and the server has no account token resolver")
        .noResolver) o.resolver
    let accountPubKey ← issuerOf r.userToken
    resolver accountPubKey

/-- `_anchor` -/
def anchored (a : Anchor) (accountToken : Str) : Py (AccountClaims × Option OperatorClaims) :=
  match a with
  | .poisoned e => .error e
  | .pinned key operator => do
    let account ← verifyAccount accountToken key
    return (account,operator)
  | .keyring k => do
    let issuer ← issuerOf accountToken
    let account ← verifyAccount accountToken issuer
    let operator ← ofOption (errFor (lit "valiss: no trusted operator " ++ issuer ++
      lit " at epoch " ++ intText account.epoch) .unknownOperator) (k.get issuer account.epoch)
    return (account,some operator)

def checkWindow (c : Claims) (now : DateTime) (skew : TimeDelta) (late early : String) :
    Py Unit := do
  let expired ← c.expired now skew
  raiseIf (expired = true) (errFor (lit late) .expired)
  let notYet ← c.notYetValid now skew
  raiseIf (notYet = true) (errFor (lit early) .notYetValid)

def epochMismatch (level : String) (got want : ℤ) : Exc :=
  errFor (lit "valiss: " ++ lit level ++ lit " token epoch " ++ intText got ++
    lit ", trust domain epoch " ++ intText want) .epochMismatch

def checkPolicy (now : DateTime) (skew : TimeDelta) (account : AccountClaims) :
    Option OperatorClaims → Py Unit
  | none => .ok ()
  | some operator => do
    checkWindow operator.toClaims now skew "valiss: operator token expired: the trust domain is closed"
      "valiss: operator token not yet valid"
    raiseIf (account.epoch ≠ operator.epoch) (epochMismatch "account" account.epoch operator.epoch)

def checkAccount (o : Options σ) (now : DateTime) (account : AccountClaims) : Py Unit := do
  checkWindow account.toClaims now o.skew "valiss: account token expired"
    "valiss: account token not yet valid"
  raiseIf (o.allowlist account.id = false)
    (errFor (lit "valiss: account token not recognized") .notAllowlisted)

def checkUserEpoch (user : UserClaims) : Option OperatorClaims → Py Unit
  | none => .ok ()
  | some operator =>
    raiseIf (user.epoch ≠ operator.epoch) (epochMismatch "user" user.epoch operator.epoch)

def checkUser (o : Options σ) (now : DateTime) (r : Request) (account : AccountClaims)
    (operator : Option OperatorClaims) : Py (Option UserClaims) :=
  if r.userToken = [] then .ok none
  else do
    let user ← verifyUser r.userToken account.subject
    checkUserEpoch user operator
    checkWindow user.toClaims now o.skew "valiss: user token expired"
      "valiss: user token not yet valid"
    return some user

def checkChain (o : Options σ) (now : DateTime) (r : Request) (account : AccountClaims)
    (operator : Option OperatorClaims) : Py Identity := do
  checkPolicy now o.skew account operator
  checkAccount o now account
  let user ← checkUser o now r account operator
  return ⟨account,user,operator⟩

def Identity.subject (i : Identity) : Str :=
  match i.user with
  | some u => u.subject
  | none => i.account.subject

def Identity.bearer (i : Identity) : Bool :=
  match i.user with
  | some u => u.bearer
  | none => false

/-- Proof of possession, and the nonce to record with its expiry. -/
def possession (o : Options σ) (now : DateTime) (r : Request) (i : Identity) :
    Py (Option (Str × DateTime)) :=
  if r.timestamp = [] ∧ r.signature = [] then do
    raiseIf (i.bearer = false)
      (errFor (lit "valiss: request signature required: not a bearer token") .notBearer)
    return none
  else do
    verifySignature i.subject r.timestamp r.signature r.context now o.skew
    if o.replayCache.isSome then do
      raiseIf (r.nonce = []) (errFor (lit "valiss: request nonce required") .nonceRequired)
      let expiry ← arith (now.plus (2*o.skew))
      return some (r.nonce,expiry)
    else return none

def checked (v : Verifier σ) (now : DateTime) (r : Request) :
    Py (Identity × Option (Str × DateTime)) := do
  match v.anchor with
  | .poisoned e => .error (errFor (lit "valiss: operator token misconfigured: " ++ e.text)
      .operatorMisconfigured)
  | _ => do
    let accountToken ← accountTokenOf v.toOptions r
    let (account,operator) ← anchored v.anchor accountToken
    let identity ← checkChain v.toOptions now r account operator
    let entry ← possession v.toOptions now r identity
    return (identity,entry)

def suppress (o : Options σ) : Option (Str × DateTime) → Act Exc σ Unit
  | none => pure ()
  | some (nonce,expiry) => match o.replayCache with
    | none => pure ()
    | some seenBefore => do
      let seen ← seenBefore nonce expiry
      raiseIf (seen = true) (errFor (lit "valiss: request nonce already seen (replay)") .replay)

def checkExtensions (i : Identity) : List (ExtType Unit) → Py Unit
  | [] => .ok ()
  | t::ts => do
    let _ ← extOf t i.account.ext
    let _ ← userExtOf t i
    checkExtensions i ts

/-- Any exception of a validator rejects the request. -/
def rejected : Exc → Exc
  | .valiss m r => .valiss m r
  | .builtin _ text =>
    errFor (lit "valiss: validator rejected the request: " ++ text) .validatorRejected

def runValidators (r : Request) (i : Identity) : List (ClaimsValidator σ) → Act Exc σ Unit
  | [] => pure ()
  | validate::rest => do
    (validate r i).mapError rejected
    runValidators r i rest

def hooks (o : Options σ) (r : Request) (i : Identity) : Act Exc σ Unit := do
  checkExtensions i o.extensionTypes
  runValidators r i o.validators

/-- `Verifier.verify`, `now` being what its clock reads. -/
def verify (v : Verifier σ) (now : DateTime) (r : Request) : Act Exc σ Identity := do
  let (identity,entry) ← checked v now r
  suppress v.toOptions entry
  hooks v.toOptions r identity
  return identity

theorem checkWindow_ok (c : Claims) (now : DateTime) (skew : TimeDelta) (late early : String)
    (u : Unit) : checkWindow c now skew late early = .ok u ↔
      c.expired now skew = .ok false ∧ c.notYetValid now skew = .ok false := by
  simp only [checkWindow, bind_ok, raiseIf_ok, Bool.not_eq_true]
  constructor
  · rintro ⟨a,ha,_,rfl,b,hb,rfl⟩
    exact ⟨ha,hb⟩
  · rintro ⟨ha,hb⟩
    exact ⟨false,ha,(),rfl,false,hb,rfl⟩

theorem anchored_account (a : Anchor) (tok : Str) (account : AccountClaims)
    (operator : Option OperatorClaims) (h : anchored a tok = .ok (account,operator)) :
    ∃ key, verifyAccount tok key = .ok account := by
  unfold anchored at h
  split at h
  · cases h
  · simp only [bind_ok, pure_ok, Prod.mk.injEq] at h
    obtain ⟨_,hv,rfl,_⟩ := h
    exact ⟨_,hv⟩
  · simp only [bind_ok, pure_ok, Prod.mk.injEq] at h
    obtain ⟨key,_,_,hv,_,_,rfl,_⟩ := h
    exact ⟨key,hv⟩

def PolicyOk (now : DateTime) (skew : TimeDelta) (account : AccountClaims)
    (operator : Option OperatorClaims) : Prop :=
  ∀ c ∈ operator, c.expired now skew = .ok false ∧ c.notYetValid now skew = .ok false ∧
    account.epoch = c.epoch

theorem checkPolicy_ok (now : DateTime) (skew : TimeDelta) (account : AccountClaims)
    (operator : Option OperatorClaims) (u : Unit) :
    checkPolicy now skew account operator = .ok u ↔ PolicyOk now skew account operator := by
  cases operator with
  | none => simp [checkPolicy, PolicyOk]
  | some c => simp [checkPolicy, PolicyOk, checkWindow_ok, and_assoc]

theorem checkAccount_ok (o : Options σ) (now : DateTime) (account : AccountClaims) (u : Unit) :
    checkAccount o now account = .ok u ↔ account.expired now o.skew = .ok false ∧
      account.notYetValid now o.skew = .ok false ∧ o.allowlist account.id = true := by
  simp [checkAccount, checkWindow_ok, and_assoc]

def UserOk (o : Options σ) (now : DateTime) (r : Request) (account : AccountClaims)
    (operator : Option OperatorClaims) (user : UserClaims) : Prop :=
  verifyUser r.userToken account.subject = .ok user ∧ (∀ c ∈ operator, user.epoch = c.epoch) ∧
    user.expired now o.skew = .ok false ∧ user.notYetValid now o.skew = .ok false

theorem checkUser_ok (o : Options σ) (now : DateTime) (r : Request) (account : AccountClaims)
    (operator : Option OperatorClaims) (user : Option UserClaims) :
    checkUser o now r account operator = .ok user ↔ (r.userToken = [] ∧ user = none) ∨
      (r.userToken ≠ [] ∧ ∃ c, user = some c ∧ UserOk o now r account operator c) := by
  have he : ∀ c u, checkUserEpoch c operator = .ok u ↔ ∀ p ∈ operator, c.epoch = p.epoch := by
    intro c u
    cases operator <;> simp [checkUserEpoch]
  by_cases hu : r.userToken = []
  · simp [checkUser, hu, eq_comm]
  · simp only [checkUser, hu, if_false, bind_ok, he, checkWindow_ok, pure_ok, false_and, false_or,
      ne_eq, not_false_eq_true, true_and]
    constructor
    · rintro ⟨c,hv,_,hp,_,hw,rfl⟩
      exact ⟨c,rfl,hv,hp,hw⟩
    · rintro ⟨c,rfl,hv,hp,hw⟩
      exact ⟨c,hv,(),hp,(),hw,rfl⟩

theorem checkChain_ok (o : Options σ) (now : DateTime) (r : Request) (account : AccountClaims)
    (operator : Option OperatorClaims) (i : Identity) :
    checkChain o now r account operator = .ok i ↔ i.account = account ∧ i.operator = operator ∧
      PolicyOk now o.skew account operator ∧ checkAccount o now account = .ok () ∧
      checkUser o now r account operator = .ok i.user := by
  simp only [checkChain, bind_ok, checkPolicy_ok, pure_ok]
  constructor
  · rintro ⟨_,hp,_,ha,user,hu,rfl⟩
    exact ⟨rfl,rfl,hp,ha,hu⟩
  · rintro ⟨rfl,rfl,hp,ha,hu⟩
    exact ⟨(),hp,(),ha,i.user,hu,rfl⟩

theorem possession_ok (o : Options σ) (now : DateTime) (r : Request) (i : Identity)
    (e : Option (Str × DateTime)) (h : possession o now r i = .ok e) :
    (r.timestamp = [] ∧ r.signature = [] ∧ i.bearer = true ∧ e = none) ∨
    (verifySignature i.subject r.timestamp r.signature r.context now o.skew = .ok () ∧
      ((o.replayCache.isSome = false ∧ e = none) ∨ (o.replayCache.isSome = true ∧ r.nonce ≠ [] ∧
        ∃ expiry, now.plus (2*o.skew) = some expiry ∧ e = some (r.nonce,expiry)))) := by
  unfold possession at h
  split_ifs at h with hb hc
  · simp only [bind_ok, raiseIf_ok, pure_ok, Bool.not_eq_false] at h
    obtain ⟨_,hi,rfl⟩ := h
    exact Or.inl ⟨hb.1,hb.2,hi,rfl⟩
  · simp only [bind_ok, raiseIf_ok, arith_ok, pure_ok] at h
    obtain ⟨_,hv,_,hn,expiry,hx,rfl⟩ := h
    exact Or.inr ⟨hv,Or.inr ⟨hc,hn,expiry,hx,rfl⟩⟩
  · simp only [bind_ok, pure_ok] at h
    obtain ⟨_,hv,rfl⟩ := h
    exact Or.inr ⟨hv,Or.inl ⟨by simpa using hc,rfl⟩⟩

theorem checked_ok (v : Verifier σ) (now : DateTime) (r : Request)
    (p : Identity × Option (Str × DateTime)) :
    checked v now r = .ok p ↔ ∃ token, accountTokenOf v.toOptions r = .ok token ∧
      ∃ account operator, anchored v.anchor token = .ok (account,operator) ∧
        checkChain v.toOptions now r account operator = .ok p.1 ∧
        possession v.toOptions now r p.1 = .ok p.2 := by
  unfold checked
  split
  next e he =>
    simp only [he, reduceCtorEq, false_iff, anchored]
    simp
  next =>
    simp only [bind_ok, pure_ok, Prod.exists]
    constructor
    · rintro ⟨token,ht,account,operator,ha,i,hi,e,he,rfl⟩
      exact ⟨token,ht,account,operator,ha,hi,he⟩
    · rintro ⟨token,ht,account,operator,ha,hi,he⟩
      exact ⟨token,ht,account,operator,ha,p.1,hi,p.2,he,rfl⟩

theorem verify_ok (v : Verifier σ) (now : DateTime) (r : Request) (s u : σ) (i : Identity) :
    (verify v now r).run s = (.ok i,u) ↔ ∃ e, checked v now r = .ok (i,e) ∧
      ∃ t, (suppress v.toOptions e).run s = (.ok (),t) ∧
        (hooks v.toOptions r i).run t = (.ok (),u) := by
  simp only [verify, Act.bind_ok, Act.run_lift, Act.run_pure, Prod.mk.injEq, Except.ok.injEq]
  constructor
  · rintro ⟨⟨j,e⟩,_,⟨hc,rfl⟩,_,t,hs,_,w,hh,rfl,rfl⟩
    exact ⟨e,hc,t,hs,hh⟩
  · rintro ⟨e,hc,t,hs,hh⟩
    exact ⟨(i,e),s,⟨hc,rfl⟩,(),t,hs,(),u,hh,rfl,rfl⟩

end Valiss.Verify
