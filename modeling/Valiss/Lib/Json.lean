import Mathlib.Data.Nat.Digits.Lemmas
import Valiss.Lib.Unicode

/-!
# JSON values and their compact text

Values are generic in the type of floating-point numbers, of which only the
decimal text matters here. An object is a list of members in insertion order,
as a Python dict keeps them. Printing is generic in the escape of a string
character, so that escaping done after printing can be folded into it.
-/

set_option autoImplicit false

namespace Lib.Json
open Lib.Unicode

inductive Value (F : Type) where
  | null
  | bool (b : Bool)
  | int (n : ℤ)
  | float (x : F)
  | str (s : Str)
  | arr (xs : List (Value F))
  | obj (ms : List (Str × Value F))

abbrev Dict (V : Type) := List (Str × V)

/-- `d[k] = v`: a present key keeps its place. -/
def put {V : Type} : Dict V → Str → V → Dict V
  | [], k, v => [(k,v)]
  | m::d, k, v => if m.1 = k then (k,v)::d else m :: put d k v

/-- `dict(pairs)`: a later value replaces an earlier one in place. -/
def dictOf {V : Type} (pairs : List (Str × V)) : Dict V :=
  pairs.foldl (fun d m => put d m.1 m.2) []

theorem put_new {V : Type} (d : Dict V) (k : Str) (v : V) (h : k ∉ d.map Prod.fst) :
    put d k v = d++[(k,v)] := by
  induction d with
  | nil => rfl
  | cons m d ih =>
    simp only [List.map_cons, List.mem_cons, not_or] at h
    rw [put, if_neg (Ne.symm h.1), ih h.2]
    rfl

theorem lookup_put {V : Type} (d : Dict V) (k j : Str) (v : V) :
    (put d k v).lookup j = if j = k then some v else d.lookup j := by
  induction d with
  | nil =>
    by_cases hj : j = k
    · simp [put, hj]
    · simp [put, hj, List.lookup_cons, beq_eq_false_iff_ne.2 hj]
  | cons m d ih =>
    obtain ⟨i,x⟩ := m
    rw [put]
    by_cases hi : i = k
    · rw [if_pos hi, List.lookup_cons, List.lookup_cons]
      by_cases hj : j = k
      · simp [hj]
      · rw [if_neg hj, beq_eq_false_iff_ne.2 hj, beq_eq_false_iff_ne.2 (hi ▸ hj)]
    · rw [if_neg hi, List.lookup_cons, List.lookup_cons, ih]
      by_cases hj : j = i
      · subst hj
        simp [hi]
      · rw [beq_eq_false_iff_ne.2 hj]

theorem mem_put {V : Type} (d : Dict V) (k : Str) (v : V) (e : Str × V) (h : e ∈ put d k v) :
    e = (k,v) ∨ e ∈ d := by
  induction d with
  | nil => exact Or.inl (List.mem_singleton.1 h)
  | cons m d ih =>
    rw [put] at h
    split_ifs at h with hm
    · rcases List.mem_cons.1 h with rfl | h
      · exact Or.inl rfl
      · exact Or.inr (List.mem_cons_of_mem _ h)
    · rcases List.mem_cons.1 h with rfl | h
      · exact Or.inr List.mem_cons_self
      · exact (ih h).imp_right (List.mem_cons_of_mem _)

theorem put_keys {V : Type} (d : Dict V) (k : Str) (v : V) :
    (put d k v).map Prod.fst =
      if k ∈ d.map Prod.fst then d.map Prod.fst else d.map Prod.fst ++ [k] := by
  induction d with
  | nil => rfl
  | cons m d ih =>
    rw [put, List.map_cons]
    by_cases hm : m.1 = k
    · simp [hm]
    · rw [if_neg hm, List.map_cons, ih]
      simp only [List.mem_cons, Ne.symm hm, false_or]
      split_ifs <;> rfl

theorem put_nodup {V : Type} (d : Dict V) (k : Str) (v : V) (h : (d.map Prod.fst).Nodup) :
    ((put d k v).map Prod.fst).Nodup := by
  rw [put_keys]
  split_ifs with hk
  · exact h
  · rw [← List.concat_eq_append]
    exact List.Nodup.concat hk h

theorem dictOf_append {V : Type} (d pairs : List (Str × V))
    (h : ((d++pairs).map Prod.fst).Nodup) :
    pairs.foldl (fun d m => put d m.1 m.2) d = d++pairs := by
  induction pairs generalizing d with
  | nil => simp
  | cons m pairs ih =>
    have hm : m.1 ∉ d.map Prod.fst := by
      rw [List.map_append, List.nodup_append] at h
      intro hd
      exact h.2.2 _ hd _ (by simp) rfl
    rw [List.foldl_cons, put_new d _ _ hm, ih _ (by simpa using h)]
    simp

theorem dictOf_distinct {V : Type} (pairs : List (Str × V)) (h : (pairs.map Prod.fst).Nodup) :
    dictOf pairs = pairs := dictOf_append [] pairs (by simpa using h)

variable {F : Type}

mutual
def distinct : Value F → Bool
  | .arr xs => distinctItems xs
  | .obj ms => decide (ms.map Prod.fst).Nodup && distinctMembers ms
  | _ => true
def distinctItems : List (Value F) → Bool
  | [] => true
  | x::xs => distinct x && distinctItems xs
def distinctMembers : List (Str × Value F) → Bool
  | [] => true
  | (_,v)::ms => distinct v && distinctMembers ms
end

theorem distinctMembers_append (ms ns : List (Str × Value F)) :
    distinctMembers (ms++ns) = (distinctMembers ms && distinctMembers ns) := by
  induction ms with
  | nil => simp [distinctMembers]
  | cons m ms ih => simp [distinctMembers, ih, Bool.and_assoc]

def IsDigit (c : CodePoint) : Prop := 48 ≤ c.val ∧ c.val < 58

instance (c : CodePoint) : Decidable (IsDigit c) := inferInstanceAs (Decidable (_ ∧ _))

def digitChar (n : ℕ) : CodePoint := codePoint (48+n)

def natText (n : ℕ) : Str := if n = 0 then [digitChar 0] else ((Nat.digits 10 n).map digitChar).reverse

/-- `int.__repr__`. -/
def intText (n : ℤ) : Str := if n < 0 then 45 :: natText n.natAbs else natText n.natAbs

def digitsValue (s : Str) : ℕ := s.foldl (fun n c => n*10+(c.val-48)) 0

theorem digitChar_val (n : ℕ) (h : n < 10) : (digitChar n).val = 48+n :=
  codePoint_val _ (by omega)

theorem digitChar_isDigit (n : ℕ) (h : n < 10) : IsDigit (digitChar n) := by
  have := digitChar_val n h
  unfold IsDigit
  omega

theorem natText_digit (n : ℕ) : ∀ c ∈ natText n, IsDigit c := by
  intro c hc
  unfold natText at hc
  split at hc
  · obtain rfl := List.mem_singleton.mp hc
    exact digitChar_isDigit 0 (by decide)
  · obtain ⟨d,hd,rfl⟩ := List.mem_map.mp (List.mem_reverse.mp hc)
    exact digitChar_isDigit d (Nat.digits_lt_base (by decide) hd)

theorem natText_ne_nil (n : ℕ) : natText n ≠ [] := by
  unfold natText
  split
  · simp
  · next h => simpa [Nat.digits_eq_nil_iff_eq_zero] using h

theorem digitsValue_append (s t : Str) :
    digitsValue (s++t) = digitsValue s*10^t.length+digitsValue t := by
  have h : ∀ (t : Str) (m : ℕ), t.foldl (fun n c => n*10+(c.val-48)) m =
      m*10^t.length+digitsValue t := by
    intro t
    induction t with
    | nil => simp [digitsValue]
    | cons c t ih =>
      intro m
      rw [digitsValue, List.foldl_cons, List.foldl_cons, ih, ih (0*10+_)]
      simp only [List.length_cons, pow_succ]
      ring
  rw [digitsValue, List.foldl_append]
  exact h t _

theorem digitsValue_digits (ds : List ℕ) (h : ∀ d ∈ ds, d < 10) :
    digitsValue (ds.map digitChar).reverse = Nat.ofDigits 10 ds := by
  induction ds with
  | nil => rfl
  | cons d ds ih =>
    rw [List.map_cons, List.reverse_cons, digitsValue_append, ih (fun e he => h e (by simp [he])),
      Nat.ofDigits_cons]
    simp only [digitsValue, List.foldl_cons, List.foldl_nil, List.length_cons, List.length_nil,
      digitChar_val d (h d (by simp))]
    omega

theorem digitsValue_natText (n : ℕ) : digitsValue (natText n) = n := by
  unfold natText
  split
  · next h => rw [h]; decide
  · rw [digitsValue_digits _ (fun d hd => Nat.digits_lt_base (by decide) hd), Nat.ofDigits_digits]

theorem natText_head (n : ℕ) (h : n ≠ 0) : ∃ c cs, natText n = c::cs ∧ 49 ≤ c.val ∧ c.val < 58 := by
  have hne : Nat.digits 10 n ≠ [] := Nat.digits_ne_nil_iff_ne_zero.mpr h
  have hl := Nat.getLast_digit_ne_zero 10 h
  have hlt : (Nat.digits 10 n).getLast hne < 10 :=
    Nat.digits_lt_base (by decide) (List.getLast_mem hne)
  have hv := digitChar_val _ hlt
  refine ⟨digitChar ((Nat.digits 10 n).getLast hne),
    (((Nat.digits 10 n).dropLast).map digitChar).reverse,?_,by omega,by omega⟩
  rw [natText, if_neg h]
  conv_lhs => rw [← List.dropLast_append_getLast hne]
  simp

/-- Number of decimal digits, the measure of the interpreter's limit. -/
def digitCount (n : ℤ) : ℕ := (natText n.natAbs).length

def takeDigits : Str → Str × Str
  | [] => ([],[])
  | c::cs => if IsDigit c then (c::(takeDigits cs).1,(takeDigits cs).2) else ([],c::cs)

def scanInt : Str → Option (Str × Str)
  | [] => none
  | c::cs =>
    if c = 48 then some ([c],cs)
    else if IsDigit c then some (c::(takeDigits cs).1,(takeDigits cs).2) else none

def scanFraction (s : Str) : Str × Str :=
  match s with
  | c::cs => if c = 46 ∧ (takeDigits cs).1 ≠ [] then (c::(takeDigits cs).1,(takeDigits cs).2)
      else ([],s)
  | [] => ([],s)

def scanSign (s : Str) : Str × Str :=
  match s with
  | c::cs => if c = 43 ∨ c = 45 then ([c],cs) else ([],s)
  | [] => ([],s)

def scanExponent (s : Str) : Str × Str :=
  match s with
  | c::cs =>
    let sign := scanSign cs
    let ds := takeDigits sign.2
    if (c = 101 ∨ c = 69) ∧ ds.1 ≠ [] then (c::sign.1++ds.1,ds.2) else ([],s)
  | [] => ([],s)

def scanMinus (s : Str) : Str × Str :=
  match s with
  | c::cs => if c = 45 then ([c],cs) else ([],s)
  | [] => ([],s)

/-- The longest number at the head of a text: whether it has a fraction or an
exponent, its characters, and what follows. -/
def scanNumber (s : Str) : Option (Bool × Str × Str) :=
  let minus := scanMinus s
  (scanInt minus.2).map fun int =>
    let frac := scanFraction int.2
    let exp := scanExponent frac.2
    (decide (frac.1 ≠ [] ∨ exp.1 ≠ []), minus.1++int.1++frac.1++exp.1, exp.2)

def infinityText : Str := lit "Infinity"
def nanText : Str := lit "NaN"

/-- What a float prints as: a number with a fraction or an exponent, or one of
the three constants. -/
def FloatShape (s : Str) : Prop :=
  scanNumber s = some (true,s,[]) ∨ s = nanText ∨ s = infinityText ∨ s = 45::infinityText

instance (s : Str) : Decidable (FloatShape s) := inferInstanceAs (Decidable (_ ∨ _))

/-- Floating-point numbers as far as JSON carries them. -/
class FloatText (F : Type) where
  /-- `float(text)` -/
  read : Str → F
  /-- `float.__repr__`, with JSON's spelling of the constants -/
  write : F → Str
  isZero : F → Bool
  write_shape : ∀ x, FloatShape (write x)
  read_write : ∀ x, read (write x) = x

variable [FloatText F]

def quoteChar : CodePoint := 34
def backslash : CodePoint := 92

def escapeChar (c : CodePoint) : Str :=
  if c = quoteChar then [backslash,quoteChar]
  else if c = backslash then [backslash,backslash]
  else if c = 10 then [backslash,110]
  else if c = 13 then [backslash,114]
  else if c = 9 then [backslash,116]
  else if c = 12 then [backslash,102]
  else if c = 8 then [backslash,98]
  else if c.val < 0x20 then [backslash,117,48,48,digitChar (c.val/16),
    if c.val%16 < 10 then digitChar (c.val%16) else codePoint (87+c.val%16)]
  else [c]

def quoted (e : CodePoint → Str) (s : Str) : Str := quoteChar :: s.flatMap e++[quoteChar]

mutual
def dumpsWith (e : CodePoint → Str) : Value F → Str
  | .null => lit "null"
  | .bool true => lit "true"
  | .bool false => lit "false"
  | .int n => intText n
  | .float x => FloatText.write x
  | .str s => quoted e s
  | .arr [] => [91,93]
  | .arr (x::xs) => 91 :: dumpsWith e x++dumpsItems e xs
  | .obj [] => [123,125]
  | .obj ((k,v)::ms) => 123 :: quoted e k++58::dumpsWith e v++dumpsMembers e ms
def dumpsItems (e : CodePoint → Str) : List (Value F) → Str
  | [] => [93]
  | x::xs => 44 :: dumpsWith e x++dumpsItems e xs
def dumpsMembers (e : CodePoint → Str) : List (Str × Value F) → Str
  | [] => [125]
  | (k,v)::ms => 44 :: quoted e k++58::dumpsWith e v++dumpsMembers e ms
end

/-- `json.dumps(obj, separators=(",", ":"), ensure_ascii=False)`. -/
def dumps (v : Value F) : Str := dumpsWith escapeChar v

mutual
def intsWithin (limit : ℕ) : Value F → Bool
  | .int n => decide (digitCount n ≤ limit)
  | .arr xs => itemsWithin limit xs
  | .obj ms => membersWithin limit ms
  | _ => true
def itemsWithin (limit : ℕ) : List (Value F) → Bool
  | [] => true
  | x::xs => intsWithin limit x && itemsWithin limit xs
def membersWithin (limit : ℕ) : List (Str × Value F) → Bool
  | [] => true
  | (_,v)::ms => intsWithin limit v && membersWithin limit ms
end

end Lib.Json
