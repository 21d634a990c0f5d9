import Valiss.Verify

/-!
# Message tokens

A user key signs a token over itself that names a destination and the hash of a
payload. Verification walks the chain from the operator down to the message;
the chain is embedded in the token, supplied out of band, or both and equal.
-/

set_option autoImplicit false

namespace Valiss.Message
open Lib.Unicode Lib.Base64 Lib.Json Lib.Calendar Lib.Fallible Valiss.Errors Valiss.Nkeys
open Valiss.TokenClaims Valiss.Mint Valiss.Decode Valiss.Operators Valiss.Verify

abbrev Chain := Str × Str

variable [Platform]

structure MessageClaims extends Claims where
  audience : Str
  checksum : Str
  epoch : ℤ
  ext : Dict Json
  account : AccountClaims
  user : UserClaims
  operator : Option OperatorClaims

def checksum (payload : Bytes) : Str := hex (Platform.sha256 payload)

def isHexSha256 (s : Str) : Bool :=
  decide (s.length = 64 ∧ ∀ c ∈ s, (48 ≤ c.val ∧ c.val < 58) ∨ (97 ≤ c.val ∧ c.val < 103))

/-- `_check_chain` -/
def checkEmbedded (chain : Chain) (emitterPub : Str) : Py Unit := do
  let issuer ← issuerOf chain.1
  let account ← verifyAccount chain.1 issuer
  let user ← verifyUser chain.2 account.subject
  raiseIf (user.subject ≠ emitterPub)
    (err (lit "valiss: chain user token is not for the minting user key"))

def checkOptionalChain (emitterPub : Str) : Option Chain → Py Unit
  | none => .ok ()
  | some chain => checkEmbedded chain emitterPub

def messageDraft (user : KeyPair) (audience sum : Str) (chain : Option Chain) (o : MintOptions) :
    Py Draft := do
  raiseIf (¬ isValidPublicUserKey user.publicKey) (err (lit
    "valiss: message tokens must be signed by a user-type nkey (expected an SU... seed)"))
  raiseIf (sum ≠ [] ∧ isHexSha256 sum = false)
    (err (lit "valiss: checksum must be the lowercase-hex SHA-256 of the payload"))
  let ext ← extensionsClaim o.extensions
  let (expires,nbf) ← validity o
  raiseIf (expires = 0) (err (lit "valiss: message tokens must carry an expiry (ttl or expiry)"))
  checkOptionalChain user.publicKey chain
  return ⟨⟨messageType,o.epoch,false,sum,chain,ext⟩,[],user.publicKey,audience,expires,nbf,o.now⟩

def issueMessage (user : KeyPair) (audience sum : Str) (chain : Option Chain) (o : MintOptions) :
    Py Str := do
  let d ← messageDraft user audience sum chain o
  encodeV1 user d

/-- The keyword arguments of `verify_message`, `now` being the instant used. -/
structure MessageOptions where
  now : DateTime
  skew : TimeDelta
  audience : Option Str := none
  requireChecksum : Bool := false
  payload : Option Bytes := none
  chain : Option Chain := none
  operatorToken : Option Str := none

def truthy : Json → Bool
  | .null => false
  | .bool b => b
  | .int n => decide (n ≠ 0)
  | .float x => !FloatText.isZero x
  | .str s => decide (s ≠ [])
  | .arr xs => !xs.isEmpty
  | .obj ms => !ms.isEmpty

/-- `use.get(k) or ""` -/
def chainPart (use : Dict Json) (k : String) : Json :=
  match use.lookup (lit k) with
  | some v => if truthy v then v else .str []
  | none => .str []

/-- A chain part used as a token: only text can be split. -/
def asToken : Json → Py Str
  | .str s => .ok s
  | _ => builtin .attributeError

def selectChain (embedded : Option (Dict Json)) (supplied : Option Chain) : Py (Json × Json) :=
  match embedded, supplied with
  | none, none => .error (errFor
      (lit "valiss: message token carries no chain and none was supplied") .noChain)
  | none, some c => .ok (.str c.1,.str c.2)
  | some use, none => .ok (chainPart use "account",chainPart use "user")
  | some use, some c => do
    raiseIf (¬ IsText (some (chainPart use "account")) c.1 ∨
        ¬ IsText (some (chainPart use "user")) c.2) (errFor (lit
      "valiss: message token embeds a chain that differs from the supplied chain") .chainMismatch)
    return (chainPart use "account",chainPart use "user")

def messageToken (tok : Str) : Py Decoded := do
  let d ← decodeToken tok
  raiseIf (d.type ≠ messageType) (errFor (lit "valiss: not a message token (type " ++
    Platform.repr d.type ++ lit ")") .wrongType)
  raiseIf (d.issuer ≠ d.subject)
    (errFor (lit "valiss: message token not self-signed by its user key") .wrongIssuer)
  raiseIf (¬ isValidPublicUserKey d.subject) (errFor
    (lit "valiss: message token subject is not a user public key") .wrongSubjectRole)
  return d

/-- Exactly one of a pinned operator key and a keyring. -/
inductive TrustAnchor where
  | pinned (operatorPubKey : Str)
  | keyring (k : Keyring)

def trustAnchor (operatorPubKey : Option Str) (keyring : Option Keyring) : Py TrustAnchor :=
  match operatorPubKey, keyring with
  | some key, none => .ok (.pinned key)
  | none, some k => .ok (.keyring k)
  | _, _ => .error (err (lit
      "valiss: verify_message requires exactly one of operator_pub_key or keyring"))

def operatorPolicy (key : Str) : Option Str → Py (Option OperatorClaims)
  | none => .ok none
  | some t => do
    let c ← verifyOperator t key
    return some c

def messageAnchor (a : TrustAnchor) (operatorToken : Option Str) (chainAccount : Json) :
    Py (AccountClaims × Option OperatorClaims) :=
  match a with
  | .keyring k => do
    raiseIf operatorToken.isSome (err (lit ("valiss: operator policy applies to single-anchor " ++
      "verification; keyring entries carry policy")))
    let accountToken ← asToken chainAccount
    let issuer ← issuerOf accountToken
    let account ← verifyAccount accountToken issuer
    let operator ← ofOption (errFor (lit "valiss: no trusted operator " ++ issuer ++
      lit " at epoch " ++ intText account.epoch) .unknownOperator) (k.get issuer account.epoch)
    return (account,some operator)
  | .pinned key => do
    let accountToken ← asToken chainAccount
    let account ← verifyAccount accountToken key
    let operator ← operatorPolicy key operatorToken
    return (account,operator)

def messageEpochs (d : Decoded) (account : AccountClaims) (user : UserClaims) (now : DateTime)
    (skew : TimeDelta) (operator : Option OperatorClaims) : Py Unit := do
  let mismatch (level : String) (want : ℤ) : Exc :=
    errFor (lit "valiss: message token epoch " ++ intText d.epoch.val ++ lit level ++
      intText want) .epochMismatch
  match operator with
  | none => .ok ()
  | some o => do
    checkWindow o.toClaims now skew "valiss: operator token expired: the trust domain is closed"
      "valiss: operator token not yet valid"
    raiseIf (d.epoch.val ≠ o.epoch) (mismatch ", trust domain epoch " o.epoch)
  raiseIf (d.epoch.val ≠ account.epoch) (mismatch ", account token epoch " account.epoch)
  raiseIf (d.epoch.val ≠ user.epoch) (mismatch ", user token epoch " user.epoch)

def messageClaims (d : Decoded) (account : AccountClaims) (user : UserClaims)
    (operator : Option OperatorClaims) : MessageClaims :=
  ⟨claimsOf d,d.audience,d.checksum,d.epoch.val,d.ext,account,user,operator⟩

def messageWindows (c : MessageClaims) (now : DateTime) (skew : TimeDelta) : Py Unit := do
  checkWindow c.account.toClaims now skew "valiss: account token expired"
    "valiss: account token not yet valid"
  checkWindow c.user.toClaims now skew "valiss: user token expired"
    "valiss: user token not yet valid"
  checkWindow c.toClaims now skew "valiss: message token expired"
    "valiss: message token not yet valid"

/-- The audience and checksum the caller requires. An empty audience requires nothing. -/
def messageBindings (c : MessageClaims) (o : MessageOptions) : Py Unit := do
  raiseIf (o.audience.getD [] ≠ [] ∧ c.audience ≠ o.audience.getD [])
    (errFor (lit "valiss: message token audience " ++ Platform.repr c.audience ++
      lit ", expected " ++ Platform.repr (o.audience.getD [])) .wrongAudience)
  match o.payload with
  | some payload => do
    raiseIf (c.checksum = []) (errFor (lit "valiss: message token carries no checksum")
      .checksumMissing)
    raiseIf (c.checksum ≠ checksum payload) (errFor (lit "valiss: payload checksum mismatch")
      .checksumMismatch)
  | none =>
    raiseIf (o.requireChecksum = true ∧ c.checksum = [])
      (errFor (lit "valiss: message token carries no checksum") .checksumMissing)

def messageChain (a : TrustAnchor) (o : MessageOptions) (d : Decoded) : Py MessageClaims := do
  let (chainAccount,chainUser) ← selectChain d.chain o.chain
  let (account,operator) ← messageAnchor a o.operatorToken chainAccount
  let userToken ← asToken chainUser
  let user ← verifyUser userToken account.subject
  raiseIf (user.subject ≠ d.issuer) (errFor
    (lit "valiss: message token not signed by the chain's user key") .chainUserMismatch)
  messageEpochs d account user o.now o.skew operator
  return messageClaims d account user operator

/-- `verify_message` once the anchor arguments are known to be exactly one. -/
def verifyUnder (a : TrustAnchor) (tok : Str) (o : MessageOptions) : Py MessageClaims := do
  let d ← messageToken tok
  let c ← messageChain a o d
  messageWindows c o.now o.skew
  messageBindings c o
  return c

def verifyMessage (tok : Str) (operatorPubKey : Option Str) (keyring : Option Keyring)
    (o : MessageOptions) : Py MessageClaims := do
  let a ← trustAnchor operatorPubKey keyring
  verifyUnder a tok o

theorem messageToken_ok (tok : Str) (d : Decoded) :
    messageToken tok = .ok d ↔ decodeToken tok = .ok d ∧ d.type = messageType ∧
      d.issuer = d.subject ∧ isValidPublicUserKey d.subject = true := by
  simp only [messageToken, bind_ok, raiseIf_ok, pure_ok, not_not]
  constructor
  · rintro ⟨x,hx,_,ht,_,hi,_,hv,rfl⟩
    exact ⟨hx,ht,hi,hv⟩
  · rintro ⟨hx,ht,hi,hv⟩
    exact ⟨d,hx,(),ht,(),hi,(),hv,rfl⟩

theorem asToken_ok (v : Json) (s : Str) : asToken v = .ok s ↔ v = .str s := by
  cases v <;> simp [asToken, builtin]

theorem isText_iff (v : Json) (s : Str) : IsText (some v) s ↔ v = .str s := by
  cases v <;> simp [IsText]

theorem selectChain_both (use : Dict Json) (c : Chain) (x : Json × Json) :
    selectChain (some use) (some c) = .ok x ↔ chainPart use "account" = .str c.1 ∧
      chainPart use "user" = .str c.2 ∧ (chainPart use "account",chainPart use "user") = x := by
  simp only [selectChain, bind_ok, raiseIf_ok, not_or, not_not, isText_iff, pure_ok, exists_const,
    and_assoc]

theorem operatorPolicy_ok (key : Str) (t : Option Str) (operator : Option OperatorClaims) :
    operatorPolicy key t = .ok operator ↔ (t = none ∧ none = operator) ∨
      ∃ tok c, t = some tok ∧ verifyOperator tok key = .ok c ∧ some c = operator := by
  cases t with
  | none => simp [operatorPolicy]
  | some tok => simp [operatorPolicy]

theorem pinnedAnchor_ok (key : Str) (operatorToken : Option Str) (v : Json)
    (account : AccountClaims) (operator : Option OperatorClaims)
    (h : messageAnchor (.pinned key) operatorToken v = .ok (account,operator)) :
    (∃ tok, v = .str tok ∧ verifyAccount tok key = .ok account) ∧
      ∀ t ∈ operatorToken, ∃ c, verifyOperator t key = .ok c ∧ operator = some c := by
  simp only [messageAnchor, bind_ok, asToken_ok, operatorPolicy_ok, pure_ok, Prod.mk.injEq] at h
  obtain ⟨tok,rfl,a,ha,op,hop,rfl,rfl⟩ := h
  refine ⟨⟨tok,rfl,ha⟩,?_⟩
  intro t ht
  rw [Option.mem_def] at ht
  rcases hop with ⟨hn,_⟩ | ⟨t',c,ht',hc,hop⟩
  · rw [hn] at ht
    cases ht
  · rw [ht, Option.some.injEq] at ht'
    subst ht'
    exact ⟨c,hc,hop.symm⟩

theorem messageEpochs_ok (d : Decoded) (account : AccountClaims) (user : UserClaims)
    (now : DateTime) (skew : TimeDelta) (operator : Option OperatorClaims) (u : Unit) :
    messageEpochs d account user now skew operator = .ok u ↔
      (∀ c ∈ operator, c.expired now skew = .ok false ∧ c.notYetValid now skew = .ok false ∧
        d.epoch.val = c.epoch) ∧ d.epoch.val = account.epoch ∧ d.epoch.val = user.epoch := by
  cases operator with
  | none => simp [messageEpochs]
  | some c => simp [messageEpochs, checkWindow_ok, and_assoc]

theorem messageWindows_ok (c : MessageClaims) (now : DateTime) (skew : TimeDelta) (u : Unit) :
    messageWindows c now skew = .ok u ↔
      (c.account.expired now skew = .ok false ∧ c.account.notYetValid now skew = .ok false) ∧
      (c.user.expired now skew = .ok false ∧ c.user.notYetValid now skew = .ok false) ∧
      (c.expired now skew = .ok false ∧ c.notYetValid now skew = .ok false) := by
  simp [messageWindows, checkWindow_ok, and_assoc]

theorem messageBindings_ok (c : MessageClaims) (o : MessageOptions) (u : Unit) :
    messageBindings c o = .ok u ↔
      (o.audience.getD [] = [] ∨ c.audience = o.audience.getD []) ∧
      (∀ p ∈ o.payload, c.checksum ≠ [] ∧ c.checksum = checksum p) ∧
      (o.payload = none → o.requireChecksum = true → c.checksum ≠ []) := by
  unfold messageBindings
  cases o.payload with
  | none => simp [or_iff_not_imp_left]
  | some p => simp [or_iff_not_imp_left]

theorem messageChain_ok (a : TrustAnchor) (o : MessageOptions) (d : Decoded) (c : MessageClaims) :
    messageChain a o d = .ok c ↔ ∃ chainAccount userToken account operator user,
      selectChain d.chain o.chain = .ok (chainAccount,.str userToken) ∧
      messageAnchor a o.operatorToken chainAccount = .ok (account,operator) ∧
      verifyUser userToken account.subject = .ok user ∧ user.subject = d.issuer ∧
      messageEpochs d account user o.now o.skew operator = .ok () ∧
      c = messageClaims d account user operator := by
  simp only [messageChain, bind_ok, asToken_ok, raiseIf_ok, pure_ok, not_not, Prod.exists]
  constructor
  · rintro ⟨ca,cu,hs,account,operator,ha,ut,rfl,user,hu,_,hi,_,he,rfl⟩
    exact ⟨ca,ut,account,operator,user,hs,ha,hu,hi,he,rfl⟩
  · rintro ⟨ca,ut,account,operator,user,hs,ha,hu,hi,he,rfl⟩
    exact ⟨ca,_,hs,account,operator,ha,ut,rfl,user,hu,(),hi,(),he,rfl⟩

theorem verifyUnder_ok (a : TrustAnchor) (tok : Str) (o : MessageOptions) (c : MessageClaims) :
    verifyUnder a tok o = .ok c ↔ ∃ d, messageToken tok = .ok d ∧ messageChain a o d = .ok c ∧
      messageWindows c o.now o.skew = .ok () ∧ messageBindings c o = .ok () := by
  simp only [verifyUnder, bind_ok, pure_ok]
  constructor
  · rintro ⟨d,hd,x,hx,_,hw,_,hb,rfl⟩
    exact ⟨d,hd,hx,hw,hb⟩
  · rintro ⟨d,hd,hx,hw,hb⟩
    exact ⟨d,hd,c,hx,(),hw,(),hb,rfl⟩

theorem verifyUnder_claims (a : TrustAnchor) (tok : Str) (o : MessageOptions) (c : MessageClaims)
    (h : verifyUnder a tok o = .ok c) : ∃ d, messageToken tok = .ok d ∧
      c.toClaims = claimsOf d ∧ c.audience = d.audience ∧ c.checksum = d.checksum := by
  obtain ⟨d,hd,hchain,_⟩ := (verifyUnder_ok _ _ _ _).1 h
  obtain ⟨_,_,_,_,_,_,_,_,_,_,rfl⟩ := (messageChain_ok _ _ _ _).1 hchain
  exact ⟨d,hd,rfl,rfl,rfl⟩

end Valiss.Message
