import Valiss.Lib.Calendar

/-!
# Seconds of an instant

The seconds read from a timestamp in double precision are the whole seconds of
the instant, cut towards 1970, unless the fraction is so near the next second
that the double is that second. This needs more than 2^34 seconds before or
after 1970.
-/

set_option autoImplicit false

namespace Lib.Timestamps
open Lib.Calendar

def wholeSeconds (t : DateTime) : ℤ := t.micros.tdiv 1000000

/-- Units of a double to a second, at the magnitude of `n` microseconds. -/
def units (n : ℕ) : ℕ := 2^(53-(Nat.log2 (n/1000000)+1))

/-- What is missing to the next second is at most half a unit. -/
def RoundsAway (t : DateTime) : Prop :=
  2*units t.micros.natAbs*(1000000-t.micros.natAbs%1000000) ≤ 1000000

instance (t : DateTime) : Decidable (RoundsAway t) := inferInstanceAs (Decidable (_ ≤ _))

theorem natAbs_bound (t : DateTime) : t.micros.natAbs < 253402300800000000 := by
  have hl := t.low
  have hh := t.high
  simp only [minMicros, maxMicros] at hl hh
  omega

theorem seconds_log (n : ℕ) (h : n < 253402300800000000) : Nat.log2 (n/1000000) ≤ 37 := by
  by_cases hz : n/1000000 = 0
  · rw [hz]
    decide
  · have hlt : n/1000000 < 2^38 := by omega
    exact Nat.le_of_lt_succ ((Nat.log2_lt hz).2 hlt)

theorem units_even (n : ℕ) (h : n < 253402300800000000) : ∃ k, 0 < k ∧ units n = 2*k := by
  have hl := seconds_log n h
  refine ⟨2^(52-(Nat.log2 (n/1000000)+1)),Nat.two_pow_pos _,?_⟩
  rw [units, ← Nat.pow_succ']
  congr 1
  omega

theorem rounded_seconds (n s : ℕ) (hs : ∃ k, 0 < k ∧ s = 2*k) :
    let q := n*s/1000000
    let r := n*s%1000000
    (if 1000000 < 2*r ∨ (2*r = 1000000 ∧ q%2 = 1) then q+1 else q)/s =
      n/1000000+if 2*s*(1000000-n%1000000) ≤ 1000000 then 1 else 0 := by
  obtain ⟨k,hk,rfl⟩ := hs
  dsimp only
  generalize hw : n/1000000 = w
  generalize hf : n%1000000 = f
  have hfl : f < 1000000 := by omega
  have hn : n*(2*k) = 1000000*(w*(2*k))+f*(2*k) := by
    rw [show n = 1000000*w+f by omega]
    ring
  have hg : (1000000-f)*(2*k)+f*(2*k) = 1000000*(2*k) := by
    rw [← Nat.add_mul]
    congr 1
    omega
  have hnext : (w+1)*(2*k) = w*(2*k)+2*k := by ring
  have hodd : w*(2*k) = 2*(w*k) := by ring
  have hgap : 2*(2*k)*(1000000-f) = 2*((1000000-f)*(2*k)) := by ring
  have hpos : 0 < (1000000-f)*(2*k) := Nat.mul_pos (by omega) (by omega)
  rw [hn, hgap]
  generalize (1000000-f)*(2*k) = g at hg hpos ⊢
  generalize f*(2*k) = b at hg ⊢
  generalize hA : w*(2*k) = a at hnext hodd ⊢
  generalize w*k = c at hodd
  by_cases hr : 2*g ≤ 1000000
  · rw [if_pos hr, if_pos (by omega)]
    apply Nat.div_eq_of_lt_le
    · rw [hnext]
      omega
    · rw [show (w+1+1)*(2*k) = (w+1)*(2*k)+2*k by ring, hnext]
      omega
  · rw [if_neg hr, Nat.add_zero w]
    split_ifs
    all_goals
      apply Nat.div_eq_of_lt_le
      · rw [hA]
        omega
      · rw [hnext]
        omega

theorem wholeSeconds_eq (t : DateTime) : wholeSeconds t =
    if t.micros < 0 then -((t.micros.natAbs/1000000 : ℕ) : ℤ) else (t.micros.natAbs/1000000 : ℕ) := by
  unfold wholeSeconds
  generalize t.micros = m
  split_ifs with h
  · obtain ⟨n,rfl⟩ : ∃ n : ℕ, m = -n := ⟨m.natAbs,by omega⟩
    rw [Int.neg_tdiv, Int.natAbs_neg, Int.natAbs_natCast]
    rfl
  · obtain ⟨n,rfl⟩ : ∃ n : ℕ, m = n := ⟨m.natAbs,by omega⟩
    rfl

theorem timestampInt_eq (t : DateTime) : timestampInt t =
    if RoundsAway t then (if t.micros < 0 then wholeSeconds t-1 else wholeSeconds t+1)
    else wholeSeconds t := by
  have h := rounded_seconds t.micros.natAbs (units t.micros.natAbs)
    (units_even _ (natAbs_bound t))
  dsimp only [units] at h
  rw [timestampInt, h, wholeSeconds_eq]
  unfold RoundsAway units
  split_ifs <;> omega

theorem timestampInt_exact (t : DateTime) : timestampInt t = wholeSeconds t ↔ ¬ RoundsAway t := by
  rw [timestampInt_eq]
  split_ifs with hr hn
  · exact iff_of_false (by omega) (not_not.2 hr)
  · exact iff_of_false (by omega) (not_not.2 hr)
  · exact iff_of_true rfl hr

theorem near_exact (t : DateTime) (h : t.micros.natAbs < 17179869184000000) : ¬ RoundsAway t := by
  have hlog : Nat.log2 (t.micros.natAbs/1000000) ≤ 33 := by
    by_cases hz : t.micros.natAbs/1000000 = 0
    · rw [hz]
      decide
    · have hlt : t.micros.natAbs/1000000 < 2^34 := by omega
      exact Nat.le_of_lt_succ ((Nat.log2_lt hz).2 hlt)
  have hu : 2^19 ≤ units t.micros.natAbs := Nat.pow_le_pow_right (by decide) (by omega)
  have hf : 1 ≤ 1000000-t.micros.natAbs%1000000 := by omega
  have hm := Nat.mul_le_mul (Nat.mul_le_mul_left 2 hu) hf
  unfold RoundsAway
  omega

theorem timestampInt_zero (t : DateTime) : timestampInt t = 0 ↔ wholeSeconds t = 0 := by
  by_cases hr : RoundsAway t
  · have hfar : ¬ t.micros.natAbs < 17179869184000000 := fun h => near_exact t h hr
    rw [timestampInt_eq, if_pos hr, wholeSeconds_eq]
    split_ifs <;> omega
  · rw [(timestampInt_exact t).2 hr]

theorem wholeSeconds_range (t : DateTime) :
    -62135596800 ≤ wholeSeconds t ∧ wholeSeconds t ≤ 253402300799 := by
  have hl := t.low
  have hh := t.high
  simp only [minMicros, maxMicros] at hl hh
  rw [wholeSeconds_eq]
  split_ifs <;> omega

theorem roundsAway_fraction (t : DateTime) (h : RoundsAway t) : t.micros%1000000 ≠ 0 := by
  intro hz
  obtain ⟨k,hk,hu⟩ := units_even _ (natAbs_bound t)
  have hm : t.micros.natAbs%1000000 = 0 := by omega
  rw [RoundsAway, hm, hu] at h
  omega

theorem timestampInt_low (t : DateTime) : -62135596800 ≤ timestampInt t := by
  have hl := t.low
  simp only [minMicros] at hl
  have hw := wholeSeconds_range t
  rw [timestampInt_eq]
  split_ifs with hr hneg
  · have hf := roundsAway_fraction t hr
    rw [wholeSeconds_eq, if_pos hneg]
    omega
  · omega
  · exact hw.1

theorem timestampInt_high (t : DateTime) : timestampInt t ≤ 253402300800 := by
  have hw := wholeSeconds_range t
  rw [timestampInt_eq]
  split_ifs <;> omega

def truncated (t : DateTime) : DateTime :=
  ⟨wholeSeconds t*1000000,
    by have := (wholeSeconds_range t).1; unfold minMicros; omega,
    by have := (wholeSeconds_range t).2; unfold maxMicros; omega⟩

def nextSecond (t : DateTime) : ℤ := (t.micros/1000000+1)*1000000

def Deferred (t : DateTime) : Prop :=
  (t.micros < 0 ∧ t.micros%1000000 ≠ 0 ∧ ¬ RoundsAway t) ∨ (0 ≤ t.micros ∧ RoundsAway t)

instance (t : DateTime) : Decidable (Deferred t) := inferInstanceAs (Decidable (_ ∨ _))

theorem written_deferred (t : DateTime) (h : Deferred t) :
    timestampInt t*1000000 = nextSecond t := by
  unfold nextSecond
  rcases h with ⟨hneg,hf,hr⟩ | ⟨hpos,hr⟩
  · rw [(timestampInt_exact t).2 hr, wholeSeconds_eq, if_pos hneg]
    omega
  · rw [timestampInt_eq, if_pos hr, if_neg (by omega), wholeSeconds_eq, if_neg (by omega)]
    omega

theorem written_not_later (t : DateTime) (h : ¬ Deferred t) :
    timestampInt t*1000000 ≤ t.micros := by
  rw [timestampInt_eq, wholeSeconds_eq]
  by_cases hr : RoundsAway t
  · have hneg : t.micros < 0 := by
      by_contra hn
      exact h (Or.inr ⟨by omega,hr⟩)
    have hf := roundsAway_fraction t hr
    rw [if_pos hr, if_pos hneg, if_pos hneg]
    omega
  · by_cases hneg : t.micros < 0
    · have hf : t.micros%1000000 = 0 := by
        by_contra hf
        exact h (Or.inl ⟨hneg,hf,hr⟩)
      rw [if_neg hr, if_pos hneg]
      omega
    · rw [if_neg hr, if_neg hneg]
      omega

end Lib.Timestamps
