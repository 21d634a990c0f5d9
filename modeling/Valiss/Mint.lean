import Valiss.TokenClaims

/-!
# Minting tokens

Each issuing function checks the keys and the options and draws up a `Draft`;
`encodeV1` turns a draft into the signed text. The identifier is derived from
the claims before it is added to them.
-/

set_option autoImplicit false

namespace Valiss.Mint
open Lib.Unicode Lib.Base32 Lib.Json Lib.Calendar Lib.Fallible Valiss.Errors Valiss.Nkeys
open Valiss.Codec Valiss.TokenClaims

def tokenHeader : Str := lit "\x7b\"typ\":\"JWT\",\"alg\":\"ed25519-nkey\",\"ver\":1\x7d"

def operatorType : Str := lit "operator"
def accountType : Str := lit "account"
def userType : Str := lit "user"
def messageType : Str := lit "message"

variable [Platform]

structure MintOptions where
  ttl : Option TimeDelta := none
  expiry : Option DateTime := none
  notBefore : Option DateTime := none
  epoch : ℤ := 0
  extensions : List Extension := []
  now : DateTime

/-- Seconds of expiry and activation; 0 for none. -/
def validity (o : MintOptions) : Py (ℤ × ℤ) := do
  raiseIf (o.ttl.isSome ∧ o.expiry.isSome)
    (err (lit "valiss: ttl and expiry are mutually exclusive"))
  let nbf := match o.notBefore with
    | some t => timestampInt t
    | none => 0
  match o.ttl with
  | some ttl => do
    raiseIf (ttl ≤ 0) (err (lit "valiss: ttl must be positive"))
    let t ← arith (o.now.plus ttl)
    return (timestampInt t,nbf)
  | none => match o.expiry with
    | some t => return (timestampInt t,nbf)
    | none => return (0,nbf)

/-- The `valiss` section. A level leaves what it does not use at its zero value. -/
structure Body where
  type : Str
  epoch : ℤ := 0
  bearer : Bool := false
  checksum : Str := []
  chain : Option (Str × Str) := none
  ext : Dict Json := []

/-- `if s: d[k] = s` -/
def strMember (k : String) (s : Str) : Dict Json := if s = [] then [] else [(lit k,.str s)]

def intMember (k : String) (n : ℤ) : Dict Json := if n = 0 then [] else [(lit k,.int n)]

def chainMember : Option (Str × Str) → Dict Json
  | none => []
  | some (account,user) =>
    [(lit "chain",.obj (strMember "account" account ++ strMember "user" user))]

def Body.members (b : Body) : Dict Json :=
  (lit "type",.str b.type) :: (intMember "epoch" b.epoch ++
    ((if b.bearer then [(lit "bearer",.bool true)] else []) ++
      (strMember "checksum" b.checksum ++ (chainMember b.chain ++
        (if b.ext = [] then [] else [(lit "ext",.obj b.ext)])))))

/-- What `encodeV1` is called with. -/
structure Draft where
  body : Body
  name : Str := []
  subject : Str := []
  audience : Str := []
  expires : ℤ := 0
  notBefore : ℤ := 0
  now : DateTime

/-- The claims without their identifier, in wire order. -/
def Draft.claims (d : Draft) (issuer : Str) : Dict Json :=
  (lit "iat",.int (timestampInt d.now)) :: (lit "iss",.str issuer) ::
    (strMember "name" d.name ++ (strMember "sub" d.subject ++ (strMember "aud" d.audience ++
      (intMember "exp" d.expires ++ (intMember "nbf" d.notBefore ++
        [(lit "valiss",.obj d.body.members)])))))

def jtiOf (claims : Dict Json) : Py Str := do
  let text ← goJson (.obj claims)
  return b32encode (Platform.sha256 text)

def signingInput (issuer : KeyPair) (d : Draft) : Py Str := do
  let claims := d.claims issuer.publicKey
  let jti ← jtiOf claims
  let header ← encode tokenHeader
  let text ← goJson (.obj ((lit "jti",.str jti) :: claims))
  return b64url header ++ 46 :: b64url text

def encodeV1 (issuer : KeyPair) (d : Draft) : Py Str := do
  let input ← signingInput issuer d
  let bytes ← encode input
  let signature ← issuer.sign bytes
  return input ++ 46 :: b64url signature

def operatorDraft (operator : KeyPair) (name : Str) (o : MintOptions) : Py Draft := do
  raiseIf (¬ isValidPublicOperatorKey operator.publicKey) (err (lit
    "valiss: operator tokens must be signed by an operator-type nkey (expected an SO... seed)"))
  let (expires,nbf) ← validity o
  let ext ← extensionsClaim o.extensions
  return ⟨⟨operatorType,o.epoch,false,[],none,ext⟩,name,operator.publicKey,[],expires,nbf,o.now⟩

def issueOperator (operator : KeyPair) (name : Str) (o : MintOptions) : Py Str := do
  let d ← operatorDraft operator name o
  encodeV1 operator d

def accountDraft (operator : KeyPair) (name accountPubKey : Str) (o : MintOptions) :
    Py Draft := do
  raiseIf (¬ isValidPublicOperatorKey operator.publicKey) (err (lit
    "valiss: account tokens must be signed by an operator-type nkey (expected an SO... seed)"))
  raiseIf (¬ isValidPublicAccountKey accountPubKey)
    (err (lit "valiss: invalid tenant public key (expected an A... nkey)"))
  let (expires,nbf) ← validity o
  let ext ← extensionsClaim o.extensions
  return ⟨⟨accountType,o.epoch,false,[],none,ext⟩,name,accountPubKey,[],expires,nbf,o.now⟩

def issueAccount (operator : KeyPair) (name accountPubKey : Str) (o : MintOptions) : Py Str := do
  let d ← accountDraft operator name accountPubKey o
  encodeV1 operator d

def userDraft (account : KeyPair) (name userPubKey : Str) (bearer : Bool) (o : MintOptions) :
    Py Draft := do
  raiseIf (¬ isValidPublicAccountKey account.publicKey) (err (lit
    "valiss: user tokens must be signed by an account-type nkey (expected an SA... seed)"))
  raiseIf (¬ isValidPublicUserKey userPubKey)
    (err (lit "valiss: invalid user public key (expected a U... nkey)"))
  let (expires,nbf) ← validity o
  let ext ← extensionsClaim o.extensions
  return ⟨⟨userType,o.epoch,bearer,[],none,ext⟩,name,userPubKey,[],expires,nbf,o.now⟩

def issueUser (account : KeyPair) (name userPubKey : Str) (bearer : Bool) (o : MintOptions) :
    Py Str := do
  let d ← userDraft account name userPubKey bearer o
  encodeV1 account d

end Valiss.Mint
