import Valiss.Lib.Base64
import Valiss.Lib.Calendar

/-!
# ISO 8601 text of instants

Rendering follows `strftime` with six-digit microseconds; reading follows
`datetime.fromisoformat` on text of the RFC 3339 shape, whose separators are
already checked. What is rendered with a fraction cut at its trailing zeros is
read back exactly, for years of four digits.
-/

set_option autoImplicit false

namespace Lib.IsoTime
open Lib.Unicode Lib.Json Lib.Base64 Lib.Calendar

def two (n : ℕ) : Str := [digitChar (n/10), digitChar (n%10)]

/-- `f"{n:06d}"` for `n` below a million. -/
def six (n : ℕ) : Str :=
  [digitChar (n/100000), digitChar (n/10000%10), digitChar (n/1000%10), digitChar (n/100%10),
    digitChar (n/10%10), digitChar (n%10)]

/-- `ts.strftime("%Y-%m-%dT%H:%M:%S")`; the year is not padded. -/
def isoSeconds (f : Fields) : Str :=
  natText f.year++45::two f.month++45::two f.day++84::two f.hour++58::two f.minute++
    58::two f.second

def digitRuns : List ℕ :=
  [0x30,0x660,0x6f0,0x7c0,0x966,0x9e6,0xa66,0xae6,0xb66,0xbe6,0xc66,0xce6,0xd66,0xde6,0xe50,0xed0,
    0xf20,0x1040,0x1090,0x17e0,0x1810,0x1946,0x19d0,0x1a80,0x1a90,0x1b50,0x1bb0,0x1c40,0x1c50,
    0xa620,0xa8d0,0xa900,0xa9d0,0xa9f0,0xaa50,0xabf0,0xff10,0x104a0,0x10d30,0x11066,0x110f0,
    0x11136,0x111d0,0x112f0,0x11450,0x114d0,0x11650,0x116c0,0x11730,0x118e0,0x11950,0x11c50,
    0x11d50,0x11da0,0x16a60,0x16ac0,0x16b50,0x1d7ce,0x1d7d8,0x1d7e2,0x1d7ec,0x1d7f6,0x1e140,
    0x1e2f0,0x1e950,0x1fbf0]

/-- `\d` in a pattern for text. -/
def IsDecimal (c : CodePoint) : Prop := ∃ n ∈ digitRuns, n ≤ c.val ∧ c.val < n+10

instance (c : CodePoint) : Decidable (IsDecimal c) := List.decidableBEx _ digitRuns

theorem isDecimal_digit (c : CodePoint) (h : IsDigit c) : IsDecimal c :=
  ⟨0x30,by decide,h.1,h.2⟩

section Shape
variable (D : CodePoint → Prop) [DecidablePred D]

/-- `Z|[+-]\d{2}:\d{2}`, the digit class being a parameter. -/
def ZoneShape : Str → Prop
  | [z] => z = 90
  | [g,a,b,c,d,e] => (g = 43 ∨ g = 45) ∧ D a ∧ D b ∧ c = 58 ∧ D d ∧ D e
  | _ => False

instance (s : Str) : Decidable (ZoneShape D s) := by
  unfold ZoneShape
  split <;> infer_instance

/-- `(\.\d+)?` and then the zone. -/
def FractionShape : Str → Prop
  | [] => False
  | c::cs => if c = 46 then cs.takeWhile (fun x => decide (D x)) ≠ [] ∧
      ZoneShape D (cs.dropWhile fun x => decide (D x)) else ZoneShape D (c::cs)

instance (s : Str) : Decidable (FractionShape D s) := by
  unfold FractionShape
  split <;> infer_instance

/-- `\d{4}-\d{2}-\d{2}T\d{2}:\d{2}:\d{2}(\.\d+)?(Z|[+-]\d{2}:\d{2})`. -/
def Rfc3339Shape : Str → Prop
  | y1::y2::y3::y4::a::m1::m2::b::d1::d2::c::h1::h2::e::n1::n2::f::s1::s2::rest =>
    (D y1 ∧ D y2 ∧ D y3 ∧ D y4 ∧ a = 45 ∧ D m1 ∧ D m2 ∧ b = 45 ∧ D d1 ∧ D d2 ∧ c = 84) ∧
      (D h1 ∧ D h2 ∧ e = 58 ∧ D n1 ∧ D n2 ∧ f = 58 ∧ D s1 ∧ D s2) ∧ FractionShape D rest
  | _ => False

instance (s : Str) : Decidable (Rfc3339Shape D s) := by
  unfold Rfc3339Shape
  split <;> infer_instance

omit [DecidablePred D] in
theorem zone_chars (P : CodePoint → Prop) (hD : ∀ c, D c → P c)
    (hm : ∀ c ∈ ([43,45,46,58,84,90] : Str), P c) (s : Str) (h : ZoneShape D s) :
    ∀ c ∈ s, P c := by
  unfold ZoneShape at h
  split at h
  · intro c hc
    rw [List.mem_singleton.mp hc, h]
    exact hm 90 (by decide)
  · obtain ⟨h1,h2,h3,h4,h5,h6⟩ := h
    simp only [List.mem_cons, List.not_mem_nil, or_false]
    rintro c (rfl | rfl | rfl | rfl | rfl | rfl)
    · rcases h1 with rfl | rfl <;> exact hm _ (by decide)
    · exact hD _ h2
    · exact hD _ h3
    · rw [h4]
      exact hm 58 (by decide)
    · exact hD _ h5
    · exact hD _ h6
  · exact absurd h (by simp)

theorem fraction_chars (P : CodePoint → Prop) (hD : ∀ c, D c → P c)
    (hm : ∀ c ∈ ([43,45,46,58,84,90] : Str), P c) (s : Str) (h : FractionShape D s) :
    ∀ c ∈ s, P c := by
  unfold FractionShape at h
  split at h
  · cases h
  · next c cs =>
    split_ifs at h with hc
    · obtain ⟨_,hz⟩ := h
      have hcs := @List.takeWhile_append_dropWhile _ (fun x => decide (D x)) cs
      rw [← hcs]
      simp only [List.forall_mem_cons, List.forall_mem_append]
      refine ⟨hc ▸ hm 46 (by decide),?_,zone_chars D P hD hm _ hz⟩
      intro x hx
      have hd := List.mem_takeWhile_imp hx
      exact hD x (by simpa using hd)
    · exact zone_chars D P hD hm _ h

theorem shape_chars (P : CodePoint → Prop) (hD : ∀ c, D c → P c)
    (hm : ∀ c ∈ ([43,45,46,58,84,90] : Str), P c) (s : Str) (h : Rfc3339Shape D s) :
    ∀ c ∈ s, P c := by
  unfold Rfc3339Shape at h
  split at h
  · obtain ⟨⟨h1,h2,h3,h4,h5,h6,h7,h8,h9,h10,h11⟩,⟨g1,g2,g3,g4,g5,g6,g7,g8⟩,hf⟩ := h
    have hrest : ∀ c ∈ _, P c := fraction_chars D P hD hm _ hf
    simp only [List.forall_mem_cons, h5, h8, h11, g3, g6]
    exact ⟨hD _ h1,hD _ h2,hD _ h3,hD _ h4,hm 45 (by decide),hD _ h6,hD _ h7,hm 45 (by decide),
      hD _ h9,hD _ h10,hm 84 (by decide),hD _ g1,hD _ g2,hm 58 (by decide),hD _ g4,hD _ g5,
      hm 58 (by decide),hD _ g7,hD _ g8,hrest⟩
  · exact absurd h (by simp)

end Shape

def number (s : Str) : Option ℕ := if ∀ c ∈ s, IsDigit c then some (digitsValue s) else none

def zoneMark (c : CodePoint) : Bool := decide (c = 90 ∨ c = 43 ∨ c = 45)

/-- Microseconds and zone text after the seconds; digits past the sixth are dropped. -/
def readFraction (s : Str) : Option (ℕ × Str) :=
  match s with
  | [] => none
  | c::cs =>
    if c = 46 then do
      let ds := (cs.takeWhile fun x => !zoneMark x).take 6
      let n ← number ds
      some (n*10^(6-ds.length),cs.dropWhile fun x => !zoneMark x)
    else some (0,c::cs)

/-- Offset in minutes. Minutes beyond 59 are not refused, whole days are. -/
def readZone : Str → Option ℤ
  | [_] => some 0
  | [g,a,b,_,d,e] => do
    let h ← number [a,b]
    let m ← number [d,e]
    let off : ℕ := h*60+m
    if 1440 ≤ off then none else some (if g = 45 then -(off : ℤ) else off)
  | _ => none

/-- `datetime.fromisoformat`, as microseconds since 1970; `none` is ValueError. -/
def fromIso : Str → Option ℤ
  | y1::y2::y3::y4::_::m1::m2::_::d1::d2::_::h1::h2::_::n1::n2::_::s1::s2::rest => do
    let year ← number [y1,y2,y3,y4]
    let month ← number [m1,m2]
    let day ← number [d1,d2]
    let hour ← number [h1,h2]
    let minute ← number [n1,n2]
    let second ← number [s1,s2]
    let (us,zone) ← readFraction rest
    let off ← readZone zone
    let f : Fields := ⟨year,month,day,hour,minute,second,us⟩
    if f.Valid then some (f.micros-off*60000000) else none
  | _ => none

theorem number_digits (ns : List ℕ) (h : ∀ n ∈ ns, n < 10) :
    number (ns.map digitChar) = some (Nat.ofDigits 10 ns.reverse) := by
  rw [number, if_pos]
  · have := digitsValue_digits ns.reverse (fun d hd => h d (List.mem_reverse.mp hd))
    rw [← this, List.map_reverse, List.reverse_reverse]
  · intro c hc
    obtain ⟨n,hn,rfl⟩ := List.mem_map.mp hc
    exact digitChar_isDigit n (h n hn)

theorem number_two (n : ℕ) (h : n < 100) : number (two n) = some n := by
  have := number_digits [n/10,n%10] (by simp; omega)
  rw [show two n = [n/10,n%10].map digitChar from rfl, this]
  simp [Nat.ofDigits_cons]
  omega

theorem natText_four (n : ℕ) (h1 : 1000 ≤ n) (h2 : n < 10000) :
    natText n = [n/1000,n/100%10,n/10%10,n%10].map digitChar := by
  have hd : Nat.digits 10 n = [n%10,n/10%10,n/100%10,n/1000] := by
    rw [Nat.digits_def' (by decide) (by omega), Nat.digits_def' (by decide) (by omega),
      Nat.digits_def' (by decide) (by omega), Nat.digits_of_lt 10 (n/10/10/10) (by omega) (by omega),
      Nat.div_div_eq_div_mul, Nat.div_div_eq_div_mul]
  rw [natText, if_neg (by omega), hd]
  rfl

theorem number_four (n : ℕ) (h1 : 1000 ≤ n) (h2 : n < 10000) : number (natText n) = some n := by
  rw [natText_four n h1 h2, number_digits _ (by simp; omega)]
  simp [Nat.ofDigits_cons]
  omega

theorem digitsValue_six (n : ℕ) (h : n < 1000000) : digitsValue (six n) = n := by
  have := digitsValue_digits [n%10,n/10%10,n/100%10,n/1000%10,n/10000%10,n/100000]
    (by simp; omega)
  rw [show six n = ([n%10,n/10%10,n/100%10,n/1000%10,n/10000%10,n/100000].map digitChar).reverse
    from rfl, this]
  simp [Nat.ofDigits_cons]
  omega

theorem six_digit (n : ℕ) (h : n < 1000000) : ∀ c ∈ six n, IsDigit c := by
  intro c hc
  simp only [six, List.mem_cons, List.not_mem_nil, or_false] at hc
  rcases hc with rfl | rfl | rfl | rfl | rfl | rfl <;> exact digitChar_isDigit _ (by omega)

theorem digitsValue_zeros (k : ℕ) : digitsValue (List.replicate k 48) = 0 := by
  induction k with
  | zero => rfl
  | succ k ih =>
    rw [List.replicate_succ', digitsValue_append, ih]
    decide

theorem readFraction_rstrip (n : ℕ) (h : n < 1000000) :
    readFraction (46::rstrip 48 (six n)++[90]) = some (n,[90]) := by
  obtain ⟨k,hk⟩ := rstrip_split 48 (six n)
  have hlen : (rstrip 48 (six n)).length+k = 6 := by
    have := congrArg List.length hk
    simpa [six] using this.symm
  have hdig : ∀ c ∈ rstrip 48 (six n), IsDigit c := fun c hc =>
    six_digit n h c (by rw [hk]; exact List.mem_append_left _ hc)
  have hmark : ∀ c ∈ rstrip 48 (six n), (!zoneMark c) = true := by
    intro c hc
    have := hdig c hc
    have h90 : c ≠ 90 := by rintro rfl; exact absurd this (by decide)
    have h43 : c ≠ 43 := by rintro rfl; exact absurd this (by decide)
    have h45 : c ≠ 45 := by rintro rfl; exact absurd this (by decide)
    simp [zoneMark, h90, h43, h45]
  have hv := digitsValue_append (rstrip 48 (six n)) (List.replicate k 48)
  rw [← hk, digitsValue_six n h, digitsValue_zeros, List.length_replicate, Nat.add_zero] at hv
  simp only [List.cons_append, readFraction, if_true,
    List.takeWhile_append_of_pos hmark, List.dropWhile_append_of_pos hmark]
  rw [show List.takeWhile (fun x => !zoneMark x) [90] = [] by decide,
    show List.dropWhile (fun x => !zoneMark x) [90] = [90] by decide, List.append_nil,
    List.take_of_length_le (by omega), number, if_pos hdig]
  simp only [Option.bind_eq_bind, Option.bind_some]
  rw [show 6-(rstrip 48 (six n)).length = k by omega, ← hv]

theorem fromIso_seconds (f : Fields) (hf : f.Valid) (hy : 1000 ≤ f.year) (hy' : f.year ≤ 9999)
    (rest : Str) (hr : readFraction rest = some (f.microsecond,[90])) :
    fromIso (isoSeconds f++rest) = some f.micros := by
  have hn := natText_four f.year hy (by omega)
  have h4 := number_four f.year hy (by omega)
  obtain ⟨_,hm1,hm2,hd1,hd2,hh,hmi,hs,hus⟩ := id hf
  have hday : f.day < 100 := by
    have : daysInMonth (isLeap f.year) f.month ≤ 31 := by
      unfold daysInMonth
      split_ifs <;> omega
    omega
  have em := number_two f.month (by omega)
  have ed := number_two f.day (by omega)
  have eh := number_two f.hour (by omega)
  have en := number_two f.minute (by omega)
  have es := number_two f.second (by omega)
  rw [hn] at h4
  simp only [two, List.map_cons, List.map_nil] at h4 em ed eh en es
  simp only [isoSeconds, hn, two, List.map_cons, List.map_nil, List.cons_append, List.nil_append,
    fromIso, h4, em, ed, eh, en, es, hr]
  simp [readZone, hf]

theorem isoSeconds_shape (D : CodePoint → Prop) [DecidablePred D] (hD : ∀ c, IsDigit c → D c)
    (f : Fields) (hf : f.Valid) (hy : 1000 ≤ f.year) (hy' : f.year ≤ 9999) (rest : Str)
    (hr : FractionShape D rest) : Rfc3339Shape D (isoSeconds f++rest) := by
  obtain ⟨_,hm1,hm2,hd1,hd2,hh,hmi,hs,hus⟩ := id hf
  have hday : f.day < 100 := by
    have : daysInMonth (isLeap f.year) f.month ≤ 31 := by
      unfold daysInMonth
      split_ifs <;> omega
    omega
  have hd : ∀ n, n < 10 → D (digitChar n) := fun n hn => hD _ (digitChar_isDigit n hn)
  simp only [isoSeconds, natText_four f.year hy (by omega), two, List.map_cons, List.map_nil,
    List.cons_append, List.nil_append, Rfc3339Shape, true_and]
  exact ⟨⟨hd _ (by omega),hd _ (by omega),hd _ (by omega),hd _ (by omega),hd _ (by omega),
    hd _ (by omega),hd _ (by omega),hd _ (by omega),trivial⟩,⟨hd _ (by omega),hd _ (by omega),
    hd _ (by omega),hd _ (by omega),hd _ (by omega),hd _ (by omega)⟩,hr⟩

theorem rstrip_fraction (D : CodePoint → Prop) [DecidablePred D] (hD : ∀ c, IsDigit c → D c)
    (hz : ¬ D 90) (n : ℕ) (h : n < 1000000) (hn : rstrip 48 (six n) ≠ []) :
    FractionShape D (46::rstrip 48 (six n)++[90]) := by
  obtain ⟨k,hk⟩ := rstrip_split 48 (six n)
  have hdig : ∀ c ∈ rstrip 48 (six n), decide (D c) = true := fun c hc => by
    have := six_digit n h c (by rw [hk]; exact List.mem_append_left _ hc)
    simpa using hD c this
  rw [List.cons_append, FractionShape, if_pos rfl, List.takeWhile_append_of_pos hdig,
    List.dropWhile_append_of_pos hdig]
  simp [hz, hn, ZoneShape]

end Lib.IsoTime
