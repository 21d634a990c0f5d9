import Valiss.Mint

/-!
# Reading and verifying one token

The version is read from the header before the payload is touched. A version-1
payload has its field types checked, then the issuer key decoded, then the
signature verified. Trust is only established by the checks of one level.
-/

set_option autoImplicit false

namespace Valiss.Decode
open Lib.Unicode Lib.Json Lib.Calendar Lib.Fallible Valiss.Errors Valiss.Nkeys Valiss.Codec
open Valiss.TokenClaims Valiss.Mint

abbrev Within (lo hi : ℤ) := {n : ℤ // lo ≤ n ∧ n ≤ hi}

def int64Min : ℤ := -9223372036854775808
def int64Max : ℤ := 9223372036854775807
def uint64Max : ℤ := 18446744073709551615
def tsMin : ℤ := -62135596800
def tsMax : ℤ := 253402300799

theorem ts_zero : tsMin ≤ 0 ∧ 0 ≤ tsMax := by decide

theorem epoch_zero : (0 : ℤ) ≤ 0 ∧ 0 ≤ uint64Max := by decide

variable [Platform]

/-- Version-neutral view of a parsed token. -/
structure Decoded where
  id : Str
  issuer : Str
  subject : Str
  name : Str
  audience : Str
  issuedAt : Within tsMin tsMax
  expires : Within tsMin tsMax
  notBefore : Within tsMin tsMax
  type : Str
  epoch : Within 0 uint64Max
  bearer : Bool
  checksum : Str
  chain : Option (Dict Json)
  ext : Dict Json

/-- `float.__repr__` of a number by its JSON spelling: the constants differ. -/
def floatRepr (s : Str) : Str :=
  if s = nanText then lit "nan"
  else if s = infinityText then lit "inf"
  else if s = 45::infinityText then lit "-inf"
  else s

/-- `str` of a JSON value, or of `None`. -/
def strOf : Json → Str
  | .null => lit "None"
  | .bool true => lit "True"
  | .bool false => lit "False"
  | .int n => intText n
  | .float x => floatRepr (FloatText.write x)
  | .str s => s
  | .arr xs => Platform.containerText (.arr xs)
  | .obj ms => Platform.containerText (.obj ms)

def IsText (v : Option Json) (s : Str) : Prop :=
  match v with
  | some (.str t) => t = s
  | _ => False

instance (v : Option Json) (s : Str) : Decidable (IsText v s) := by
  unfold IsText
  split <;> infer_instance

/-- `json.loads` where undecodable text is reported as malformed. -/
def jsonLoads (what : Str) (bs : Bytes) : Py Json :=
  match loads intDigits bs with
  | .ok v => .ok v
  | .error .intLimit => builtin .valueError
  | .error _ => .error (malformed (what ++ lit ": " ++ Platform.jsonText bs))

def asObject (what : Str) : Json → Py (Dict Json)
  | .obj ms => .ok ms
  | _ => .error (malformed (what ++ lit ": not an object"))

def segmentObject (what segment : Str) : Py (Dict Json) := do
  let bytes ← b64urlDecode segment
  let value ← jsonLoads what bytes
  asObject what value

def versionOf : Option Json → Py ℤ
  | none => .ok 0
  | some (.int n) => if int64Min ≤ n ∧ n ≤ int64Max then .ok n else
      .error (malformed (lit "malformed token header version"))
  | some _ => .error (malformed (lit "malformed token header version"))

def peekVersion (token : Str) : Py (ℤ × Str × Str × Str) :=
  match splitOn 46 token with
  | [p0,p1,p2] => do
    let header ← segmentObject (lit "token header") p0
    let typ := header.lookup (lit "typ")
    let alg := header.lookup (lit "alg")
    raiseIf (¬ IsText typ (lit "JWT") ∨ ¬ IsText alg (lit "ed25519-nkey"))
      (errFor (lit "valiss: unsupported token type " ++ strOf (typ.getD .null) ++ 47 ::
        strOf (alg.getD .null)) .unsupportedType)
    let ver ← versionOf (header.lookup (lit "ver"))
    return (ver,p0,p1,p2)
  | _ => .error (malformed (lit "malformed token"))

def badField (k : String) (what : String) : Exc :=
  malformed (lit "token claims: " ++ lit k ++ lit " is not " ++ lit what)

def wireStr (obj : Dict Json) (k : String) : Py Str :=
  match obj.lookup (lit k) with
  | none => .ok []
  | some .null => .ok []
  | some (.str s) => .ok s
  | some _ => .error (badField k "a string")

def wireInt (obj : Dict Json) (k : String) (lo hi : ℤ) (h : lo ≤ 0 ∧ 0 ≤ hi) :
    Py (Within lo hi) :=
  match obj.lookup (lit k) with
  | none => .ok ⟨0,h⟩
  | some .null => .ok ⟨0,h⟩
  | some (.int n) => if hn : lo ≤ n ∧ n ≤ hi then .ok ⟨n,hn⟩ else
      .error (badField k "a valid integer")
  | some _ => .error (badField k "a valid integer")

def wireBool (obj : Dict Json) (k : String) : Py Bool :=
  match obj.lookup (lit k) with
  | none => .ok false
  | some .null => .ok false
  | some (.bool b) => .ok b
  | some _ => .error (badField k "a boolean")

def wireObj (obj : Dict Json) (k : String) : Py (Option (Dict Json)) :=
  match obj.lookup (lit k) with
  | none => .ok none
  | some .null => .ok none
  | some (.obj ms) => .ok (some ms)
  | some _ => .error (badField k "an object")

def decodedOf (payload : Dict Json) : Py Decoded := do
  let section_ ← wireObj payload "valiss"
  let body := section_.getD []
  let id ← wireStr payload "jti"
  let issuer ← wireStr payload "iss"
  let subject ← wireStr payload "sub"
  let name ← wireStr payload "name"
  let audience ← wireStr payload "aud"
  let issuedAt ← wireInt payload "iat" tsMin tsMax ts_zero
  let expires ← wireInt payload "exp" tsMin tsMax ts_zero
  let notBefore ← wireInt payload "nbf" tsMin tsMax ts_zero
  let type ← wireStr body "type"
  let epoch ← wireInt body "epoch" 0 uint64Max epoch_zero
  let bearer ← wireBool body "bearer"
  let checksum ← wireStr body "checksum"
  let chain ← wireObj body "chain"
  let ext ← wireObj body "ext"
  return ⟨id,issuer,subject,name,audience,issuedAt,expires,notBefore,type,epoch,bearer,checksum,
    chain,ext.getD []⟩

def decodeV1 (p0 p1 p2 : Str) : Py Decoded := do
  let payload ← segmentObject (lit "token claims") p1
  let d ← decodedOf payload
  let kp ← recast (fun e => errFor (lit "valiss: token issuer: " ++ e.text) .badIssuerKey)
    (fromPublicKey d.issuer)
  let sig ← b64urlDecode p2
  let signed ← encode (p0 ++ 46 :: p1)
  recast (fun _ => errFor (lit "valiss: token signature verification failed") .badSignature)
    (kp.verify signed sig)
  return d

def decodeToken (token : Str) : Py Decoded := do
  let (ver,p0,p1,p2) ← peekVersion token
  if ver = 1 then decodeV1 p0 p1 p2
  else .error (errFor (lit "valiss: unsupported wire version " ++ intText ver) .unsupportedVersion)

omit [Platform] in
theorem ts_bounds (v : Within tsMin tsMax) :
    minMicros ≤ v.val*1000000 ∧ v.val*1000000 ≤ maxMicros := by
  have h1 := v.property.1
  have h2 := v.property.2
  simp only [tsMin, tsMax] at h1 h2
  simp only [minMicros, maxMicros]
  constructor <;> omega

/-- `_ts`: the zero value stands for no instant. -/
def ts (v : Within tsMin tsMax) : Option DateTime :=
  if v.val = 0 then none else some ⟨v.val*1000000,(ts_bounds v).1,(ts_bounds v).2⟩

def claimsOf (d : Decoded) : Claims :=
  ⟨d.id,d.issuer,d.subject,ts d.issuedAt,ts d.expires,ts d.notBefore⟩

def nameOf (name subject : Str) : Str := if name = [] then subject else name

def operatorClaims (d : Decoded) : OperatorClaims :=
  ⟨claimsOf d,nameOf d.name d.subject,d.epoch.val,d.ext⟩

def accountClaims (d : Decoded) : AccountClaims :=
  ⟨claimsOf d,nameOf d.name d.subject,d.epoch.val,d.ext⟩

def userClaims (d : Decoded) : UserClaims :=
  ⟨claimsOf d,nameOf d.name d.subject,d.epoch.val,d.bearer,d.ext⟩

def verifyOperator (token operatorPubKey : Str) : Py OperatorClaims := do
  let d ← decodeToken token
  raiseIf (d.type ≠ operatorType) (errFor (lit "valiss: not an operator token (type " ++
    Platform.repr d.type ++ lit ")") .wrongType)
  raiseIf (d.issuer ≠ operatorPubKey ∨ d.subject ≠ operatorPubKey)
    (errFor (lit "valiss: operator token not self-signed by the expected operator") .wrongIssuer)
  raiseIf (¬ isValidPublicOperatorKey d.subject) (errFor
    (lit "valiss: operator token subject is not an operator public key") .wrongSubjectRole)
  return operatorClaims d

def verifyAccount (token operatorPubKey : Str) : Py AccountClaims := do
  let d ← decodeToken token
  raiseIf (d.type ≠ accountType) (errFor (lit "valiss: not an account token (type " ++
    Platform.repr d.type ++ lit ")") .wrongType)
  raiseIf (d.issuer ≠ operatorPubKey)
    (errFor (lit "valiss: account token not signed by the expected issuer") .wrongIssuer)
  raiseIf (¬ isValidPublicAccountKey d.subject) (errFor
    (lit "valiss: account token subject is not an account public key") .wrongSubjectRole)
  return accountClaims d

def verifyUser (token accountPubKey : Str) : Py UserClaims := do
  let d ← decodeToken token
  raiseIf (d.type ≠ userType) (errFor (lit "valiss: not a user token (type " ++
    Platform.repr d.type ++ lit ")") .wrongType)
  raiseIf (d.issuer ≠ accountPubKey)
    (errFor (lit "valiss: user token not signed by the expected account") .wrongIssuer)
  raiseIf (¬ isValidPublicUserKey d.subject) (errFor
    (lit "valiss: user token subject is not a user public key") .wrongSubjectRole)
  return userClaims d

/-- `token.decode` -/
def decodeClaims (token : Str) : Py Claims := do
  let d ← decodeToken token
  return claimsOf d

def issuerOf (token : Str) : Py Str := do
  let d ← decodeToken token
  return d.issuer

theorem verifyOperator_ok (token key : Str) (c : OperatorClaims) :
    verifyOperator token key = .ok c ↔ ∃ d, decodeToken token = .ok d ∧ d.type = operatorType ∧
      d.issuer = key ∧ d.subject = key ∧ isValidPublicOperatorKey d.subject = true ∧
      c = operatorClaims d := by
  simp only [verifyOperator, bind_ok, raiseIf_ok, pure_ok, not_or, not_not]
  constructor
  · rintro ⟨d,hd,_,ht,_,⟨hi,hs⟩,_,hv,rfl⟩
    exact ⟨d,hd,ht,hi,hs,hv,rfl⟩
  · rintro ⟨d,hd,ht,hi,hs,hv,rfl⟩
    exact ⟨d,hd,(),ht,(),⟨hi,hs⟩,(),hv,rfl⟩

theorem verifyAccount_ok (token key : Str) (c : AccountClaims) :
    verifyAccount token key = .ok c ↔ ∃ d, decodeToken token = .ok d ∧ d.type = accountType ∧
      d.issuer = key ∧ isValidPublicAccountKey d.subject = true ∧ c = accountClaims d := by
  simp only [verifyAccount, bind_ok, raiseIf_ok, pure_ok, not_not]
  constructor
  · rintro ⟨d,hd,_,ht,_,hi,_,hv,rfl⟩
    exact ⟨d,hd,ht,hi,hv,rfl⟩
  · rintro ⟨d,hd,ht,hi,hv,rfl⟩
    exact ⟨d,hd,(),ht,(),hi,(),hv,rfl⟩

theorem verifyUser_ok (token key : Str) (c : UserClaims) :
    verifyUser token key = .ok c ↔ ∃ d, decodeToken token = .ok d ∧ d.type = userType ∧
      d.issuer = key ∧ isValidPublicUserKey d.subject = true ∧ c = userClaims d := by
  simp only [verifyUser, bind_ok, raiseIf_ok, pure_ok, not_not]
  constructor
  · rintro ⟨d,hd,_,ht,_,hi,_,hv,rfl⟩
    exact ⟨d,hd,ht,hi,hv,rfl⟩
  · rintro ⟨d,hd,ht,hi,hv,rfl⟩
    exact ⟨d,hd,(),ht,(),hi,(),hv,rfl⟩

theorem issuerOf_ok (token key : Str) :
    issuerOf token = .ok key ↔ ∃ d, decodeToken token = .ok d ∧ d.issuer = key := by
  simp [issuerOf]

end Valiss.Decode
