import Mathlib.Data.Nat.Bitwise
import Mathlib.Logic.Function.Iterate
import Mathlib.Tactic.Common

/-!
# Cyclic redundancy checks

A register is shifted once for every bit that is fed to it. Shifting is linear,
so what a change of the bits does to the register depends on the change alone.
With a polynomial that has a constant term shifting also loses nothing: a change
within as many bits as the register has shows in it, however many bits follow.
-/

set_option autoImplicit false

namespace Lib.Crc

/-- The low `n` bits, the highest first. -/
def bits : ℕ → ℕ → List Bool
  | 0, _ => []
  | n+1, x => x.testBit n :: bits n x

@[simp] theorem bits_length (n x : ℕ) : (bits n x).length = n := by
  induction n with
  | zero => rfl
  | succ n ih => rw [bits, List.length_cons, ih]

theorem bits_getD (n x i : ℕ) (h : i < n) : (bits n x).getD i false = x.testBit (n-1-i) := by
  induction n generalizing i with
  | zero => omega
  | succ n ih =>
    cases i with
    | zero => rfl
    | succ i =>
      rw [bits, List.getD_cons_succ, ih i (by omega)]
      congr 1
      omega

theorem bits_congr (n x y : ℕ) (h : ∀ i < n, x.testBit i = y.testBit i) : bits n x = bits n y := by
  induction n with
  | zero => rfl
  | succ n ih =>
    rw [bits, bits, h n (Nat.lt_succ_self n), ih fun i hi => h i (Nat.lt_succ_of_lt hi)]

theorem bits_append (m n u v : ℕ) (h : v < 2^n) : bits (m+n) (u*2^n+v) = bits m u ++ bits n v := by
  have hbit : ∀ j, (u*2^n+v).testBit j = if j < n then v.testBit j else u.testBit (j-n) := by
    intro j
    rw [Nat.mul_comm, Nat.testBit_two_pow_mul_add u h]
  induction m with
  | zero =>
    rw [Nat.zero_add, bits, List.nil_append]
    exact bits_congr n _ _ fun i hi => by rw [hbit, if_pos hi]
  | succ m ih =>
    rw [show m+1+n = m+n+1 by omega, bits, bits, List.cons_append, ih, hbit, if_neg (by omega),
      Nat.add_sub_cancel]

theorem bits_xor (n x y : ℕ) : bits n (x ^^^ y) = List.zipWith xor (bits n x) (bits n y) := by
  induction n with
  | zero => rfl
  | succ n ih => rw [bits, bits, bits, List.zipWith_cons_cons, ih, Nat.testBit_xor]

theorem bits_false (n x i : ℕ) (h : true ∉ bits n x) (hi : i < n) : x.testBit i = false := by
  induction n with
  | zero => omega
  | succ n ih =>
    rw [bits, List.mem_cons, not_or] at h
    rcases Nat.lt_succ_iff_lt_or_eq.1 hi with hi | rfl
    · exact ih h.2 hi
    · simpa using Ne.symm h.1

theorem bits_true (n x : ℕ) (h : x < 2^n) (hx : x ≠ 0) : true ∈ bits n x := by
  by_contra hn
  apply hx
  apply Nat.eq_of_testBit_eq
  intro i
  rw [Nat.zero_testBit]
  by_cases hi : i < n
  · exact bits_false n x i hn hi
  · exact Nat.testBit_lt_two_pow (lt_of_lt_of_le h (Nat.pow_le_pow_right (by omega) (by omega)))

variable {w : ℕ} (poly : BitVec w)

def shift (c : BitVec w) : BitVec w := if c.msb then (c <<< 1) ^^^ poly else c <<< 1

def top (b : Bool) : BitVec w := if b then BitVec.twoPow w (w-1) else 0#w

def feed (c : BitVec w) (b : Bool) : BitVec w := shift poly (c ^^^ top b)

def crc (c : BitVec w) (bs : List Bool) : BitVec w := bs.foldl (feed poly) c

theorem crc_cons (c : BitVec w) (b : Bool) (bs : List Bool) :
    crc poly c (b::bs) = crc poly (feed poly c b) bs := rfl

theorem crc_append (c : BitVec w) (bs cs : List Bool) :
    crc poly c (bs ++ cs) = crc poly (crc poly c bs) cs := List.foldl_append

theorem shift_xor (a b : BitVec w) : shift poly (a ^^^ b) = shift poly a ^^^ shift poly b := by
  have hp : ∀ x y : BitVec w, x ^^^ poly ^^^ (y ^^^ poly) = x ^^^ y := by
    intro x y
    rw [BitVec.xor_comm y poly, BitVec.xor_assoc x poly, ← BitVec.xor_assoc poly poly y,
      BitVec.xor_self, BitVec.zero_xor]
  unfold shift
  rw [BitVec.msb_xor, BitVec.shiftLeft_xor_distrib]
  cases a.msb <;> cases b.msb
  · rfl
  · exact BitVec.xor_assoc _ _ _
  · show a <<< 1 ^^^ b <<< 1 ^^^ poly = a <<< 1 ^^^ poly ^^^ b <<< 1
    rw [BitVec.xor_assoc, BitVec.xor_comm (b <<< 1), BitVec.xor_assoc]
  · exact (hp _ _).symm

theorem shift_zero : shift poly 0#w = 0#w := by
  simp [shift]

theorem shifts_zero (n : ℕ) : (shift poly)^[n] 0#w = 0#w :=
  Function.iterate_fixed (shift_zero poly) n

theorem top_xor (b d : Bool) : (top (b ^^ d) : BitVec w) = top b ^^^ top d := by
  cases b <;> cases d <;> simp [top]

theorem feed_xor (a b : BitVec w) (x y : Bool) :
    feed poly (a ^^^ b) (x ^^ y) = feed poly a x ^^^ feed poly b y := by
  rw [feed, feed, feed, ← shift_xor, top_xor]
  congr 1
  rw [BitVec.xor_assoc, BitVec.xor_assoc, ← BitVec.xor_assoc b, BitVec.xor_comm b,
    BitVec.xor_assoc (top x)]

theorem crc_xor (a b : BitVec w) (xs ys : List Bool) (h : xs.length = ys.length) :
    crc poly (a ^^^ b) (List.zipWith xor xs ys) = crc poly a xs ^^^ crc poly b ys := by
  induction xs generalizing ys a b with
  | nil =>
    cases ys with
    | nil => rfl
    | cons y ys => cases h
  | cons x xs ih =>
    cases ys with
    | nil => cases h
    | cons y ys =>
      rw [List.zipWith_cons_cons, crc_cons, crc_cons, crc_cons, feed_xor]
      exact ih _ _ ys (Nat.succ.inj h)

theorem crc_zeros (c : BitVec w) (n : ℕ) :
    crc poly c (List.replicate n false) = (shift poly)^[n] c := by
  induction n generalizing c with
  | zero => rfl
  | succ n ih =>
    rw [List.replicate_succ, crc_cons, ih, Function.iterate_succ_apply, feed, top]
    simp

section Odd
variable (odd : poly.getLsbD 0 = true)
include odd

theorem shift_eq_zero (c : BitVec w) (h : shift poly c = 0#w) : c = 0#w := by
  have hw : 0 < w := BitVec.lt_of_getLsbD odd
  unfold shift at h
  split_ifs at h with hm
  · have hbit := congrArg (fun x : BitVec w => x.getLsbD 0) h
    simp [odd] at hbit
  · apply BitVec.eq_of_getMsbD_eq
    intro i hi
    rw [BitVec.getMsbD_zero]
    cases i with
    | zero =>
      rw [BitVec.msb] at hm
      simpa using hm
    | succ i =>
      have hbit := congrArg (fun x : BitVec w => x.getMsbD i) h
      simpa using hbit

theorem shifts_eq_zero (n : ℕ) (c : BitVec w) (h : (shift poly)^[n] c = 0#w) : c = 0#w := by
  induction n generalizing c with
  | zero => exact h
  | succ n ih => exact shift_eq_zero poly odd c (ih _ h)

end Odd

/-- The bits at the upper end of the register. -/
def load : List Bool → BitVec w
  | [] => 0#w
  | b::bs => top b ^^^ (load bs >>> 1)

theorem load_bit (bs : List Bool) (i : ℕ) (hi : i < w) :
    (load bs : BitVec w).getMsbD i = bs.getD i false := by
  induction bs generalizing i with
  | nil => simp [load]
  | cons b bs ih =>
    have htop : (top b : BitVec w).getMsbD i = (decide (i = 0) && b) := by
      cases b
      · simp [top]
      · simp only [top, if_true, BitVec.getMsbD, BitVec.getLsbD_twoPow, Bool.and_true]
        by_cases h0 : i = 0
        · simp [h0]
          omega
        · simp [h0]
          omega
    rw [load, BitVec.getMsbD_xor, htop, BitVec.getMsbD_ushiftRight]
    cases i with
    | zero => simp
    | succ i =>
      rw [Nat.add_sub_cancel, ih i (by omega)]
      simp [hi]

theorem load_bits (c : BitVec w) : load (bits w c.toNat) = c := by
  apply BitVec.eq_of_getMsbD_eq
  intro i hi
  rw [load_bit _ i hi, bits_getD w _ i hi, BitVec.getMsbD, BitVec.getLsbD]
  simp [hi]

theorem shift_down (bs : List Bool) (h : bs.length < w) :
    shift poly ((load bs : BitVec w) >>> 1) = load bs := by
  have hm : ((load bs : BitVec w) >>> 1).msb = false := by
    simp [BitVec.msb, BitVec.getMsbD_ushiftRight]
  rw [shift, hm, if_neg Bool.false_ne_true]
  apply BitVec.eq_of_getMsbD_eq
  intro i hi
  rw [BitVec.getMsbD_shiftLeft, BitVec.getMsbD_ushiftRight, Nat.add_sub_cancel]
  by_cases hl : i+1 < w
  · simp [hl]
  · rw [load_bit _ i hi, List.getD_eq_default _ _ (by omega)]
    simp [hl]

theorem crc_load (c : BitVec w) (bs : List Bool) (h : bs.length ≤ w) :
    crc poly c bs = (shift poly)^[bs.length] (c ^^^ load bs) := by
  induction bs generalizing c with
  | nil => simp [crc, load]
  | cons b bs ih =>
    rw [List.length_cons] at h ⊢
    rw [crc_cons, ih _ (by omega), Function.iterate_succ_apply, load, ← BitVec.xor_assoc, shift_xor,
      shift_down poly bs (by omega), feed]

theorem crc_self (c : BitVec w) : crc poly c (bits w c.toNat) = 0#w := by
  rw [crc_load poly c _ (by rw [bits_length]), load_bits, BitVec.xor_self, shifts_zero]

/-- A burst no longer than the register never cancels out. -/
theorem burst (odd : poly.getLsbD 0 = true) (m n : ℕ) (bs : List Bool) (h : bs.length ≤ w)
    (hb : true ∈ bs) :
    crc poly 0#w (List.replicate m false ++ (bs ++ List.replicate n false)) ≠ 0#w := by
  rw [crc_append, crc_zeros, shifts_zero, crc_append, crc_zeros, crc_load poly _ bs h,
    BitVec.zero_xor]
  intro he
  have hload := shifts_eq_zero poly odd _ _ (shifts_eq_zero poly odd _ _ he)
  obtain ⟨i,hi,hbit⟩ := List.getElem_of_mem hb
  have hbit' := load_bit (w := w) bs i (by omega)
  rw [hload, BitVec.getMsbD_zero, List.getD_eq_getElem _ _ hi, hbit] at hbit'
  cases hbit'

end Lib.Crc
