import Mathlib.Data.List.Sort
import Valiss.Codec

/-!
# Claims, validity windows and extensions

The verified content of a token at each level, the two window tests with their
slack, and the named extension payloads: collected when a token is minted,
decoded again when it is enforced.
-/

set_option autoImplicit false

namespace Valiss.TokenClaims
open Lib.Unicode Lib.Json Lib.Calendar Lib.Fallible Valiss.Errors

structure Claims where
  id : Str
  issuer : Str
  subject : Str
  issuedAt : Option DateTime
  expiresAt : Option DateTime
  notBefore : Option DateTime
  deriving DecidableEq

section Window
variable [Platform]

def arith (t : Option DateTime) : Py DateTime :=
  ofOption (.builtin .overflowError (Platform.builtinText .overflowError)) t

def Claims.expired (c : Claims) (now : DateTime) (skew : TimeDelta) : Py Bool :=
  match c.expiresAt with
  | none => .ok false
  | some exp => do
    let t ← arith (now.minus skew)
    return decide (exp.micros < t.micros)

def Claims.notYetValid (c : Claims) (now : DateTime) (skew : TimeDelta) : Py Bool :=
  match c.notBefore with
  | none => .ok false
  | some nbf => do
    let t ← arith (now.plus skew)
    return decide (t.micros < nbf.micros)

@[simp] theorem arith_ok (x : Option DateTime) (t : DateTime) : arith x = .ok t ↔ x = some t := by
  simp [arith]

theorem expired_false (c : Claims) (now : DateTime) (skew : TimeDelta) :
    c.expired now skew = .ok false ↔
      ∀ exp ∈ c.expiresAt, ∃ t : DateTime, t.micros = now.micros-skew ∧ t.micros ≤ exp.micros := by
  unfold Claims.expired
  cases c.expiresAt with
  | none => simp
  | some exp => simp

theorem expired_true (c : Claims) (now : DateTime) (skew : TimeDelta) :
    c.expired now skew = .ok true ↔
      ∃ exp ∈ c.expiresAt, ∃ t : DateTime, t.micros = now.micros-skew ∧ exp.micros < t.micros := by
  unfold Claims.expired
  cases c.expiresAt with
  | none => simp
  | some exp => simp

theorem notYetValid_false (c : Claims) (now : DateTime) (skew : TimeDelta) :
    c.notYetValid now skew = .ok false ↔
      ∀ nbf ∈ c.notBefore, ∃ t : DateTime, t.micros = now.micros+skew ∧ nbf.micros ≤ t.micros := by
  unfold Claims.notYetValid
  cases c.notBefore with
  | none => simp
  | some nbf => simp

end Window

variable [Platform]

structure OperatorClaims extends Claims where
  name : Str
  epoch : ℤ
  ext : Dict Json

structure AccountClaims extends Claims where
  name : Str
  epoch : ℤ
  ext : Dict Json

structure UserClaims extends Claims where
  name : Str
  epoch : ℤ
  bearer : Bool
  ext : Dict Json

abbrev Members := {d : Dict Json // distinct (.obj d) = true}

/-- A named claim payload, as `RawExtension` carries it. -/
structure Extension where
  name : Str
  payload : Members

/-- A type that reads an extension back: its name and its decoder. -/
structure ExtType (α : Type) where
  name : Str
  decode : Dict Json → Py α

def covers (pattern required : Str) : Bool :=
  if pattern.getLast? = some 42 then pattern.dropLast.isPrefixOf required
  else decide (pattern = required)

/-- Whether any granted pattern covers `required`. -/
def covered (granted : List Str) (required : Str) : Bool := granted.any fun p => covers p required

def Builtin.ofDecoder : Builtin → Bool
  | .valueError | .unicodeEncodeError | .typeError | .keyError => true
  | _ => false

def decodeFailed (name : Str) (e : Exc) : Exc :=
  match e with
  | .builtin k text => if Builtin.ofDecoder k then
      errFor (lit "valiss: decode extension " ++ Platform.repr name ++ lit ": " ++ text)
        .extensionInvalid
    else e
  | .valiss _ _ => e

def extOf {α : Type} (t : ExtType α) (ext : Dict Json) : Py (Option α) :=
  match ext.lookup t.name with
  | none => .ok none
  | some .null => .ok none
  | some (.obj payload) => match t.decode payload with
    | .ok a => .ok (some a)
    | .error e => .error (decodeFailed t.name e)
  | some _ => .error (errFor (lit "valiss: extension " ++ Platform.repr t.name ++
      lit " is not an object") .extensionInvalid)

def collect : List Extension → Dict Json → Py (Dict Json)
  | [], ext => .ok ext
  | e::es, ext => do
    raiseIf (e.name = []) (err (lit "valiss: extension name must not be empty"))
    raiseIf ((ext.lookup e.name).isSome)
      (err (lit "valiss: duplicate extension \"" ++ e.name ++ lit "\""))
    collect es (put ext e.name (.obj e.payload.val))

/-- `dict(sorted(ext.items()))` -/
def sortedItems (ext : Dict Json) : Dict Json := ext.insertionSort fun a b => a.1 ≤ b.1

def extensionsClaim (extensions : List Extension) : Py (Dict Json) := do
  let ext ← collect extensions []
  return sortedItems ext

omit [Platform] in
theorem lookup_none_iff {V : Type} (d : Dict V) (k : Str) :
    d.lookup k = none ↔ k ∉ d.map Prod.fst := by
  rw [List.lookup_eq_none_iff]
  constructor
  · intro h hm
    obtain ⟨p,hp,rfl⟩ := List.mem_map.mp hm
    simpa using h p hp
  · intro h p hp
    have : k ≠ p.1 := fun e => h (e ▸ List.mem_map_of_mem hp)
    simpa using this

theorem collect_distinct (es : List Extension) (ext out : Dict Json)
    (h : distinct (.obj ext) = true) (ho : collect es ext = .ok out) :
    distinct (.obj out) = true := by
  induction es generalizing ext with
  | nil =>
    cases ho
    exact h
  | cons e es ih =>
    simp only [collect, bind_ok, raiseIf_ok] at ho
    obtain ⟨_,_,_,hn,ho⟩ := ho
    have hk : e.name ∉ ext.map Prod.fst := by
      rw [← lookup_none_iff]
      exact Option.not_isSome_iff_eq_none.1 hn
    apply ih _ _ ho
    rw [put_new _ _ _ hk]
    have he := e.payload.property
    simp only [distinct, Bool.and_eq_true, decide_eq_true_eq] at h ⊢
    refine ⟨?_,?_⟩
    · rw [List.map_append, List.nodup_append]
      refine ⟨h.1,by simp,?_⟩
      intro a ha b hb
      simp only [List.map_cons, List.map_nil, List.mem_singleton] at hb
      rintro rfl
      exact hk (hb ▸ ha)
    · rw [distinctMembers_append]
      simp only [distinct, Bool.and_eq_true, decide_eq_true_eq] at he
      simp [h.2, distinctMembers, distinct, he]

theorem distinctMembers_iff (ms : Dict Json) :
    distinctMembers ms = true ↔ ∀ m ∈ ms, distinct m.2 = true := by
  induction ms with
  | nil => simp [distinctMembers]
  | cons m ms ih => simp [distinctMembers, ih]

theorem distinct_perm (d e : Dict Json) (h : List.Perm d e) :
    distinct (.obj d) = true ↔ distinct (.obj e) = true := by
  simp only [distinct, Bool.and_eq_true, decide_eq_true_eq, distinctMembers_iff]
  rw [(h.map Prod.fst).nodup_iff]
  simp only [h.mem_iff]

theorem extensionsClaim_distinct (es : List Extension) (ext : Dict Json)
    (h : extensionsClaim es = .ok ext) : distinct (.obj ext) = true := by
  simp only [extensionsClaim, bind_ok, pure_ok] at h
  obtain ⟨d,hd,rfl⟩ := h
  rw [sortedItems, distinct_perm _ _ (List.perm_insertionSort _ d)]
  exact collect_distinct es [] d rfl hd

end Valiss.TokenClaims
