import Valiss.Chains
import Valiss.Credentials

/-!
# Message transport

The emitter's parameters, and the receiver's side of chain negotiation: one
cache lookup, at most two verifications, at most one write to the cache. The
lookup and the write are the atomic steps of a call; everything between them is
computed from what the lookup found.
-/

set_option autoImplicit false

namespace Valiss.MsgTransport
open Lib.Unicode Lib.Json Lib.Calendar Lib.Fallible Valiss.Errors Valiss.Nkeys Valiss.Decode
open Valiss.Operators Valiss.Message Valiss.Chains Valiss.Credentials

variable [Platform]

/-- The mint parameters of emitter credentials: the user key and the epoch. -/
def minter (c : Creds) : Py (KeyPair × ℤ) := do
  raiseIf (c.accountToken = [] ∨ c.userToken = [] ∨ c.seed = []) (err (lit
    "valiss: message signing requires bundle creds: account token, user token, and seed"))
  let user ← recast seedError (fromSeed c.seed)
  let account ← recast (fun e => err (lit "valiss: creds account token: " ++ e.text)) (do
    let issuer ← issuerOf c.accountToken
    verifyAccount c.accountToken issuer)
  let userClaims ← recast (fun e => err (lit "valiss: creds user token: " ++ e.text))
    (verifyUser c.userToken account.subject)
  raiseIf (account.epoch ≠ userClaims.epoch) (err (lit
    "valiss: creds chain epochs disagree: account " ++ intText account.epoch ++ lit ", user " ++
      intText userClaims.epoch))
  return (user,userClaims.epoch)

/-- The `verify_options` given to a middleware; `chain` may be given as `None`. -/
structure VerifyOptions where
  now : Option DateTime := none
  skew : TimeDelta := 120000000
  requireChecksum : Bool := false
  chain : Option (Option Chain) := none
  operatorToken : Option Str := none

/-- The anchor and the static options bound by `build_verifier`. -/
structure Receiver where
  anchor : TrustAnchor
  options : VerifyOptions

def buildVerifier (operatorPubKey : Option Str) (keyring : Option Keyring)
    (options : VerifyOptions) : Py Receiver :=
  match operatorPubKey, keyring with
  | some key, none => .ok ⟨.pinned key,options⟩
  | none, some k => .ok ⟨.keyring k,options⟩
  | _, _ => .error (err (lit ("valiss: message-token middleware requires exactly one of " ++
      "operator_pub_key or keyring")))

structure Reject where
  message : Str
  chainRequired : Bool := false
  deriving DecidableEq

/-- What one message brings: the token, the body, its destination, and the
detached chain headers, empty when absent. -/
structure Delivery where
  token : Str
  body : Bytes
  audience : Str
  chainAccount : Str := []
  chainUser : Str := []

def Delivery.detached (m : Delivery) : Bool := decide (m.chainAccount ≠ [] ∧ m.chainUser ≠ [])

inductive Outcome where
  | claims (c : MessageClaims)
  | reject (r : Reject)

inductive Write where
  | none
  | put (k : Str) (c : Chain)
  | delete (k : Str)

/-- `run`: a pinned chain wins, the audience and the body are always enforced. -/
def runVerify (r : Receiver) (m : Delivery) (at_ : DateTime) (chain : Option Chain) :
    Py MessageClaims :=
  verifyUnder r.anchor m.token
    ⟨r.options.now.getD at_,r.options.skew,some m.audience,r.options.requireChecksum,some m.body,
      r.options.chain.getD chain,r.options.operatorToken⟩

theorem buildVerifier_runs (operatorPubKey : Option Str) (keyring : Option Keyring)
    (options : VerifyOptions) (r : Receiver)
    (h : buildVerifier operatorPubKey keyring options = .ok r) (m : Delivery) (t : DateTime)
    (chain : Option Chain) : runVerify r m t chain = verifyMessage m.token operatorPubKey keyring
      ⟨options.now.getD t,options.skew,some m.audience,options.requireChecksum,some m.body,
        options.chain.getD chain,options.operatorToken⟩ := by
  unfold buildVerifier at h
  split at h
  · obtain rfl := Except.ok.inj h
    rfl
  · obtain rfl := Except.ok.inj h
    rfl
  · cases h

/-- The key looked up in the cache: the issuer of the token, if it decodes. -/
def cacheKey (m : Delivery) : Py (Option Str) :=
  if m.detached = true then .ok none
  else match decodeClaims m.token with
    | .ok c => .ok (if c.issuer = [] then none else some c.issuer)
    | .error (.valiss _ _) => .ok none
    | .error e => .error e

def chainRequired : Reject := ⟨lit "valiss: message token chain required",true⟩

def rejectOf (e : Exc) : Reject :=
  if e.reason = some .noChain then chainRequired else ⟨e.text,false⟩

/-- After the lookup: the verifications, the answer and the write. The second
verification happens only when a cached chain failed. -/
def settle (r : Receiver) (hasCache : Bool) (m : Delivery) (key : Option Str)
    (found : Option Chain) (t₁ t₂ : DateTime) : Py (Outcome × Write) :=
  let chain : Option Chain := if m.detached then some (m.chainAccount,m.chainUser) else found
  match runVerify r m t₁ chain with
  | .ok c =>
    .ok (.claims c,if m.detached && hasCache then .put c.subject (m.chainAccount,m.chainUser)
      else .none)
  | .error (.builtin k text) => .error (.builtin k text)
  | .error (.valiss text reason) =>
    match found, key with
    | some _, some k => match runVerify r m t₂ none with
      | .ok c => .ok (.claims c,.delete k)
      | .error (.builtin k' text') => .error (.builtin k' text')
      | .error (.valiss text' reason') =>
        if reason' = some .noChain then .ok (.reject chainRequired,.delete k)
        else .ok (.reject ⟨text',false⟩,.none)
    | _, _ => .ok (.reject (rejectOf (.valiss text reason)),.none)

theorem settle_verified (r : Receiver) (hasCache : Bool) (m : Delivery) (key : Option Str)
    (found : Option Chain) (t₁ t₂ : DateTime) (c : MessageClaims) (w : Write)
    (h : settle r hasCache m key found t₁ t₂ = .ok (.claims c,w)) :
    ∃ t chain, (t = t₁ ∨ t = t₂) ∧ runVerify r m t chain = .ok c := by
  unfold settle at h
  dsimp only at h
  split at h
  next c' hv =>
    simp only [Except.ok.injEq, Prod.mk.injEq, Outcome.claims.injEq] at h
    exact ⟨t₁,_,Or.inl rfl,h.1 ▸ hv⟩
  next => cases h
  next =>
    split at h
    next k _ =>
      split at h
      next c' hv =>
        simp only [Except.ok.injEq, Prod.mk.injEq, Outcome.claims.injEq] at h
        exact ⟨t₂,none,Or.inr rfl,h.1 ▸ hv⟩
      next => cases h
      next => split_ifs at h <;> simp at h
    next => simp at h

theorem settle_claims (r : Receiver) (hasCache : Bool) (m : Delivery) (key : Option Str)
    (found : Option Chain) (t₁ t₂ : DateTime) (c : MessageClaims) (w : Write)
    (h : settle r hasCache m key found t₁ t₂ = .ok (.claims c,w)) :
    ∃ t chain, runVerify r m t chain = .ok c := by
  obtain ⟨t,chain,_,hv⟩ := settle_verified r hasCache m key found t₁ t₂ c w h
  exact ⟨t,chain,hv⟩

theorem settle_put (r : Receiver) (hasCache : Bool) (m : Delivery) (key : Option Str)
    (found : Option Chain) (t₁ t₂ : DateTime) (out : Outcome) (k : Str) (c : Chain)
    (h : settle r hasCache m key found t₁ t₂ = .ok (out,.put k c)) :
    m.detached = true ∧ c = (m.chainAccount,m.chainUser) ∧
      ∃ claims, runVerify r m t₁ (some c) = .ok claims ∧ claims.subject = k := by
  unfold settle at h
  dsimp only at h
  split at h
  next claims hv =>
    simp only [Except.ok.injEq, Prod.mk.injEq] at h
    split_ifs at h with hd
    · rw [Bool.and_eq_true] at hd
      obtain ⟨_,hput⟩ := h
      obtain ⟨rfl,rfl⟩ := Write.put.inj hput
      rw [if_pos hd.1] at hv
      exact ⟨hd.1,rfl,claims,hv,rfl⟩
    · cases h.2
  next => cases h
  next =>
    split at h
    next =>
      split at h
      next => simp at h
      next => cases h
      next => split_ifs at h <;> simp at h
    next => simp at h

theorem settle_stored (r : Receiver) (hasCache : Bool) (m : Delivery) (key : Option Str)
    (found : Option Chain) (t₁ t₂ : DateTime) (c : MessageClaims) (hd : m.detached = true)
    (hv : runVerify r m t₁ (some (m.chainAccount,m.chainUser)) = .ok c) :
    settle r hasCache m key found t₁ t₂ = .ok (.claims c,
      if hasCache = true then .put c.subject (m.chainAccount,m.chainUser) else .none) := by
  simp only [settle, hd, if_true, hv, Bool.true_and]

theorem cacheKey_read (m : Delivery) (d : Decoded) (hd : messageToken m.token = .ok d)
    (hdet : m.detached = false) : cacheKey m = .ok (some d.issuer) := by
  obtain ⟨hdec,_,hself,hvalid⟩ := (messageToken_ok _ _).1 hd
  have hne : d.issuer ≠ [] := by
    intro h
    rw [hself] at h
    rw [h, show isValidPublicUserKey [] = false from rfl] at hvalid
    cases hvalid
  have hc : decodeClaims m.token = .ok (claimsOf d) := by
    rw [decodeClaims, hdec]
    rfl
  simp only [cacheKey, hdet, Bool.false_eq_true, if_false, hc, claimsOf, if_neg hne]

variable {σ : Type}

def lookupChain (cache : Option (ChainCache σ)) (key : Option Str) (s : σ) : Option Chain × σ :=
  match cache, key with
  | some c, some k => c.get k s
  | _, _ => (none,s)

def applyWrite (cache : Option (ChainCache σ)) : Write → σ → σ
  | .none, s => s
  | .put k c, s => match cache with
    | some cc => cc.put k c s
    | none => s
  | .delete k, s => match cache with
    | some cc => cc.delete k s
    | none => s

/-- The key is only computed when there is a cache to look it up in. -/
def lookupKey (cache : Option (ChainCache σ)) (m : Delivery) : Py (Option Str) :=
  if cache.isSome then cacheKey m else .ok none

/-- `authenticate_message`; the two verifications read the clock as `t₁` and `t₂`. -/
def authenticateMessage (r : Receiver) (cache : Option (ChainCache σ)) (m : Delivery)
    (t₁ t₂ : DateTime) : Act Exc σ Outcome := fun s =>
  match lookupKey cache m with
  | .error e => (.error e,s)
  | .ok key =>
    let (found,s') := lookupChain cache key s
    match settle r cache.isSome m key found t₁ t₂ with
    | .error e => (.error e,s')
    | .ok (out,write) => (.ok out,applyWrite cache write s')

theorem authenticateMessage_ok (r : Receiver) (cache : Option (ChainCache σ)) (m : Delivery)
    (t₁ t₂ : DateTime) (s u : σ) (out : Outcome) :
    (authenticateMessage r cache m t₁ t₂).run s = (.ok out,u) ↔ ∃ key w,
      lookupKey cache m = .ok key ∧
      settle r cache.isSome m key (lookupChain cache key s).1 t₁ t₂ = .ok (out,w) ∧
      applyWrite cache w (lookupChain cache key s).2 = u := by
  have hrun : (authenticateMessage r cache m t₁ t₂).run s = authenticateMessage r cache m t₁ t₂ s :=
    rfl
  rw [hrun]
  unfold authenticateMessage
  cases lookupKey cache m with
  | error e => simp
  | ok key =>
    dsimp only
    cases hs : settle r cache.isSome m key (lookupChain cache key s).1 t₁ t₂ with
    | error e => simp [hs]
    | ok x => simp [hs, Prod.ext_iff, and_assoc]

theorem authenticateMessage_fails (r : Receiver) (cache : Option (ChainCache σ)) (m : Delivery)
    (t₁ t₂ : DateTime) (s : σ) (key : Option Str) (x : Exc) (hk : lookupKey cache m = .ok key)
    (hs : settle r cache.isSome m key (lookupChain cache key s).1 t₁ t₂ = .error x) :
    ((authenticateMessage r cache m t₁ t₂).run s).1 = .error x := by
  show (authenticateMessage r cache m t₁ t₂ s).1 = .error x
  simp only [authenticateMessage, hk, hs]

theorem authenticateMessage_detached (r : Receiver) (cache : Option (ChainCache σ)) (m : Delivery)
    (t₁ t₂ : DateTime) (s : σ) (c : MessageClaims) (hd : m.detached = true)
    (hv : runVerify r m t₁ (some (m.chainAccount,m.chainUser)) = .ok c) :
    (authenticateMessage r cache m t₁ t₂).run s = (.ok (.claims c),applyWrite cache
      (if cache.isSome = true then .put c.subject (m.chainAccount,m.chainUser) else .none) s) := by
  have hkey : lookupKey cache m = .ok none := by
    simp only [lookupKey, cacheKey, hd, if_true, ite_self]
  have hnone : lookupChain cache none s = (none,s) := by
    cases cache <;> rfl
  exact (authenticateMessage_ok _ _ _ _ _ _ _ _).2 ⟨none,_,hkey,
    settle_stored r cache.isSome m none _ t₁ t₂ c hd hv,by rw [hnone]⟩

/-- An accepted message names this destination and carries the hash of this body. -/
theorem authenticateMessage_binds (r : Receiver) (cache : Option (ChainCache σ)) (m : Delivery)
    (t₁ t₂ : DateTime) (s u : σ) (c : MessageClaims) (hne : m.audience ≠ [])
    (h : (authenticateMessage r cache m t₁ t₂).run s = (.ok (.claims c),u)) :
    ∃ d, messageToken m.token = .ok d ∧ d.audience = m.audience ∧
      d.checksum = checksum m.body := by
  obtain ⟨key,w,_,hs,_⟩ := (authenticateMessage_ok _ _ _ _ _ _ _ _).1 h
  obtain ⟨t,chain,hv⟩ := settle_claims _ _ _ _ _ _ _ _ _ hs
  obtain ⟨d,hd,_,ha,hsum⟩ := verifyUnder_claims _ _ _ _ hv
  obtain ⟨_,_,_,_,hb⟩ := (verifyUnder_ok _ _ _ _).1 hv
  obtain ⟨haud,hpay,_⟩ := (messageBindings_ok _ _ _).1 hb
  refine ⟨d,hd,?_,?_⟩
  · rw [← ha]
    exact haud.resolve_left hne
  · rw [← hsum]
    exact (hpay m.body rfl).2

end Valiss.MsgTransport
