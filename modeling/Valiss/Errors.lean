import Valiss.Lib.Fallible
import Valiss.Lib.Base32
import Valiss.Lib.IsoTime

/-!
# Reasons, exceptions and the code the library stands on

Every verification failure is a `ValissError` with one of the stable reason
codes. Whatever lies outside the repository and has no fixed meaning here is a
field of `Platform`: the Ed25519 and SHA-256 primitives, the printing of floats
and the texts that foreign exceptions and `repr` contribute to messages.
-/

set_option autoImplicit false

namespace Valiss.Errors
open Lib.Unicode Lib.Json Lib.Fallible

inductive Reason where
  | malformed
  | unsupportedType
  | unsupportedVersion
  | badIssuerKey
  | badSignature
  | wrongType
  | wrongIssuer
  | wrongSubjectRole
  | expired
  | notYetValid
  | epochMismatch
  | missing
  | noResolver
  | unknownOperator
  | notAllowlisted
  | notBearer
  | skew
  | badSignatureEncoding
  | badRequestSignature
  | nonceRequired
  | replay
  | operatorMisconfigured
  | extensionInvalid
  | validatorRejected
  | noChain
  | chainMismatch
  | chainUserMismatch
  | wrongAudience
  | checksumMissing
  | checksumMismatch
  deriving DecidableEq

inductive Builtin where
  | valueError
  | unicodeEncodeError
  | typeError
  | keyError
  | attributeError
  | overflowError
  | other
  deriving DecidableEq

inductive Exc where
  | valiss (message : Str) (reason : Option Reason)
  | builtin (kind : Builtin) (text : Str)
  deriving DecidableEq

abbrev Py := Except Exc

/-- `str(exc)` -/
def Exc.text : Exc → Str
  | .valiss m _ => m
  | .builtin _ m => m

def Exc.isValiss : Exc → Bool
  | .valiss _ _ => true
  | .builtin _ _ => false

def Exc.reason : Exc → Option Reason
  | .valiss _ r => r
  | .builtin _ _ => none

def err (message : Str) : Exc := .valiss message none

def errFor (message : Str) (r : Reason) : Exc := .valiss message (some r)

/-- `try: x  except ValissError as exc: raise f(exc)` -/
def recast {α : Type} (f : Exc → Exc) (x : Py α) : Py α :=
  match x with
  | .ok a => .ok a
  | .error (.valiss m r) => .error (f (.valiss m r))
  | .error (.builtin k m) => .error (.builtin k m)

@[simp] theorem recast_ok {α : Type} (f : Exc → Exc) (x : Py α) (a : α) :
    recast f x = .ok a ↔ x = .ok a := by
  rcases x with (_ | _) | _ <;> simp [recast]

theorem raises_recast {α : Type} (P : Exc → Prop) (f : Exc → Exc) (x : Py α)
    (hf : ∀ m r, P (f (.valiss m r))) (hb : ∀ k m, x = .error (.builtin k m) → P (.builtin k m)) :
    Raises P (recast f x) := by
  intro e he
  rcases x with (⟨m,r⟩ | ⟨k,m⟩) | a
  · obtain rfl := Except.error.inj he
    exact hf m r
  · obtain rfl := Except.error.inj he
    exact hb k m rfl
  · cases he

/-- `x` raises nothing but `ValissError`. -/
abbrev OnlyValiss {α : Type} (x : Py α) : Prop := Raises (fun e => e.isValiss = true) x

theorem onlyValiss_raiseIf (c : Prop) [Decidable c] (m : Str) (r : Option Reason) :
    OnlyValiss (raiseIf c (.valiss m r)) := (raises_raiseIf _ _ _).2 fun _ => rfl

theorem onlyValiss_ofOption {α : Type} (x : Option α) (m : Str) (r : Option Reason) :
    OnlyValiss (ofOption (.valiss m r) x) := (raises_ofOption _ _ _).2 fun _ => rfl

abbrev Key := {b : Bytes // b.length = 32}

class Platform where
  Flt : Type
  floatText : FloatText Flt
  sha256 : Bytes → Bytes
  publicOf : Key → Key
  edSign : Key → Bytes → Bytes
  edVerify : Key → Bytes → Bytes → Bool
  /-- `repr` of a string -/
  repr : Str → Str
  /-- `str` of a list or a dict -/
  containerText : Value Flt → Str
  base32Text : Str → Str
  jsonText : Bytes → Str
  isoText : Str → Str
  base64Text : Str → Str
  skewText : ℤ → Str
  builtinText : Builtin → Str

abbrev Json [Platform] := Value Platform.Flt

instance [Platform] : FloatText Platform.Flt := Platform.floatText

variable [Platform]

/-- The interpreter's default bound on the digits of an integer literal. -/
def intDigits : ℕ := 4300

def builtin {α : Type} (kind : Builtin) : Py α := .error (.builtin kind (Platform.builtinText kind))

/-- `s.encode()` -/
def encode (s : Str) : Py Bytes :=
  match encodeUtf8 s with
  | some b => .ok b
  | none => builtin .unicodeEncodeError

theorem encode_ok (s : Str) (b : Bytes) : encode s = .ok b ↔ Encodable s ∧ encodePass s = b := by
  rw [and_comm, and_comm, ← encodeUtf8_some, encode]
  cases encodeUtf8 s with
  | some c => simp
  | none => simp [builtin]

theorem encode_ascii (s : Str) (h : Ascii s) : encode s = .ok (encodePass s) :=
  (encode_ok _ _).2 ⟨h.encodable,rfl⟩

theorem encode_inj (s t : Str) (b : Bytes) (hs : encode s = .ok b) (ht : encode t = .ok b) :
    s = t := by
  rw [encode_ok] at hs ht
  have h : encodePass s = encodePass t := by rw [hs.2, ht.2]
  exact encodePass_injective h

/-- A signature made with a key verifies under its public half. -/
def HonestSignatures : Prop :=
  ∀ (seed : Key) (m : Bytes),
    Platform.edVerify (Platform.publicOf seed) m (Platform.edSign seed m) = true

end Valiss.Errors
