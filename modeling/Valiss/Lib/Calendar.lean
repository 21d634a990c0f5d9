import Mathlib.Tactic.Linarith
import Mathlib.Tactic.IntervalCases
import Valiss.Lib.Json

/-!
# Proleptic Gregorian dates and instants

Ordinals count days from 0001-01-01, as `datetime` does, and the date of an
ordinal is computed by its cycle arithmetic. An instant is a number of
microseconds since 1970 inside the years 1 to 9999, both ends included; moving
an instant outside them is an overflow.
-/

set_option autoImplicit false

namespace Lib.Calendar

def isLeap (y : ℕ) : Bool := decide (y%4 = 0 ∧ (y%100 ≠ 0 ∨ y%400 = 0))

def daysBeforeYear (y : ℕ) : ℕ := (y-1)*365+(y-1)/4-(y-1)/100+(y-1)/400

/-- Days before a month in a common year; index 0 is unused. -/
def daysBefore : List ℕ := [0,0,31,59,90,120,151,181,212,243,273,304,334]

def daysBeforeMonth (leap : Bool) (m : ℕ) : ℕ :=
  daysBefore.getD m 0+(if 2 < m ∧ leap then 1 else 0)

def daysInMonth (leap : Bool) (m : ℕ) : ℕ :=
  if m = 2 then (if leap then 29 else 28)
  else if m = 4 ∨ m = 6 ∨ m = 9 ∨ m = 11 then 30 else 31

def ymd2ord (y m d : ℕ) : ℕ := daysBeforeYear y+daysBeforeMonth (isLeap y) m+d

def monthDay (leap : Bool) (n : ℕ) : ℕ × ℕ :=
  let month := (n+50)/32
  if n < daysBeforeMonth leap month then (month-1,n-daysBeforeMonth leap (month-1)+1)
  else (month,n-daysBeforeMonth leap month+1)

/-- `_ord2ymd`. -/
def ord2ymd (ord : ℕ) : ℕ × ℕ × ℕ :=
  let n := ord-1
  let n400 := n/146097
  let n := n%146097
  let n100 := n/36524
  let n := n%36524
  let n4 := n/1461
  let n := n%1461
  let n1 := n/365
  let n := n%365
  let year := n400*400+1+n100*100+n4*4+n1
  if n1 = 4 ∨ n100 = 4 then (year-1,12,31)
  else
    let leap := decide (n1 = 3 ∧ (n4 ≠ 24 ∨ n100 = 3))
    (year,monthDay leap n)

theorem monthDay_spec : ∀ (leap : Bool) (n : Fin 366), (n.val < 365 ∨ leap) →
    let p := monthDay leap n
    1 ≤ p.1 ∧ p.1 ≤ 12 ∧ 1 ≤ p.2 ∧ p.2 ≤ daysInMonth leap p.1 ∧
      daysBeforeMonth leap p.1+p.2 = n.val+1 := by decide +kernel

theorem daysBeforeYear_cycles (a b c d : ℕ) (hb : b ≤ 3) (hc : c ≤ 24) (hd : d ≤ 3) :
    daysBeforeYear (a*400+1+b*100+c*4+d) = a*146097+b*36524+c*1461+d*365 := by
  have h1 : a*400+1+b*100+c*4+d-1 = a*400+b*100+c*4+d := by omega
  have h4 : (a*400+b*100+c*4+d)/4 = a*100+b*25+c := by omega
  have h100 : (a*400+b*100+c*4+d)/100 = a*4+b := by omega
  have h400 : (a*400+b*100+c*4+d)/400 = a := by omega
  rw [daysBeforeYear, h1, h4, h100, h400]
  omega

theorem isLeap_cycles (a b c d : ℕ) (hb : b ≤ 3) (hc : c ≤ 24) (hd : d ≤ 3) :
    isLeap (a*400+1+b*100+c*4+d) = decide (d = 3 ∧ (c ≠ 24 ∨ b = 3)) := by
  simp only [isLeap]
  congr 1
  apply propext
  omega

/-- The date of an ordinal is a date, and its ordinal is the one it came from. -/
theorem ymd2ord_ord2ymd (ord : ℕ) (h : 1 ≤ ord) :
    let p := ord2ymd ord
    1 ≤ p.2.1 ∧ p.2.1 ≤ 12 ∧ 1 ≤ p.2.2 ∧ p.2.2 ≤ daysInMonth (isLeap p.1) p.2.1 ∧
      ymd2ord p.1 p.2.1 p.2.2 = ord := by
  simp only [ord2ymd]
  generalize ha : (ord-1)/146097 = a
  generalize hb : (ord-1)%146097/36524 = b
  generalize hc : (ord-1)%146097%36524/1461 = c
  generalize hd : (ord-1)%146097%36524%1461/365 = d
  generalize hr : (ord-1)%146097%36524%1461%365 = r
  have hn : ord = a*146097+b*36524+c*1461+d*365+r+1 := by omega
  split
  · next hlast =>
    -- the last day of a cycle of four or of four hundred years, counted one year too far
    have hcase : (b ≤ 3 ∧ c ≤ 23 ∧ d = 4 ∧ r = 0) ∨ (b = 4 ∧ c = 0 ∧ d = 0 ∧ r = 0) := by omega
    rcases hcase with ⟨hb3,hc23,rfl,rfl⟩ | ⟨rfl,rfl,rfl,rfl⟩
    · have hy : a*400+1+b*100+c*4+4-1 = a*400+1+b*100+c*4+3 := by omega
      have hl : isLeap (a*400+1+b*100+c*4+3) = true := by
        rw [isLeap_cycles a b c 3 hb3 (by omega) (le_refl _)]
        exact decide_eq_true ⟨rfl,Or.inl (by omega)⟩
      simp only [hy, hl, ymd2ord, daysBeforeYear_cycles a b c 3 hb3 (by omega) (le_refl _)]
      refine ⟨by omega,by omega,by omega,by decide,?_⟩
      rw [show daysBeforeMonth true 12 = 335 from rfl]
      omega
    · have hy : a*400+1+4*100+0*4+0-1 = a*400+1+3*100+24*4+3 := by omega
      have hl : isLeap (a*400+1+3*100+24*4+3) = true := by
        rw [isLeap_cycles a 3 24 3 (by omega) (by omega) (le_refl _)]
        simp
      simp only [hy, hl, ymd2ord, daysBeforeYear_cycles a 3 24 3 (by omega) (by omega) (le_refl _)]
      refine ⟨by omega,by omega,by omega,by decide,?_⟩
      rw [show daysBeforeMonth true 12 = 335 from rfl]
      omega
  · next hlast =>
    have hb3 : b ≤ 3 := by omega
    have hc24 : c ≤ 24 := by omega
    have hd3 : d ≤ 3 := by omega
    have hm := monthDay_spec (decide (d = 3 ∧ (c ≠ 24 ∨ b = 3))) ⟨r,by omega⟩
      (Or.inl (by simp only; omega))
    simp only [← isLeap_cycles a b c d hb3 hc24 hd3] at hm ⊢
    obtain ⟨h1,h2,h3,h4,h5⟩ := hm
    refine ⟨h1,h2,h3,h4,?_⟩
    rw [ymd2ord, daysBeforeYear_cycles a b c d hb3 hc24 hd3]
    omega

theorem ord2ymd_year (ord : ℕ) (h : 1 ≤ ord) (hle : ord ≤ 3652059) :
    1 ≤ (ord2ymd ord).1 ∧ (ord2ymd ord).1 ≤ 9999 := by
  simp only [ord2ymd]
  generalize ha : (ord-1)/146097 = a
  generalize hb : (ord-1)%146097/36524 = b
  generalize hc : (ord-1)%146097%36524/1461 = c
  generalize hd : (ord-1)%146097%36524%1461/365 = d
  split
  · simp only
    omega
  · simp only
    omega

abbrev TimeDelta := ℤ

def minMicros : ℤ := -62135596800000000
def maxMicros : ℤ := 253402300799999999

/-- An aware datetime, in microseconds since 1970-01-01T00:00:00Z. -/
structure DateTime where
  micros : ℤ
  low : minMicros ≤ micros
  high : micros ≤ maxMicros
  deriving DecidableEq

/-- The instant of a count of microseconds; `none` is OverflowError. -/
def instant (n : ℤ) : Option DateTime :=
  if h : minMicros ≤ n ∧ n ≤ maxMicros then some ⟨n,h.1,h.2⟩ else none

theorem instant_some (n : ℤ) (t : DateTime) : instant n = some t ↔ t.micros = n := by
  unfold instant
  constructor
  · intro h
    split at h
    · exact (Option.some.inj h) ▸ rfl
    · cases h
  · rintro rfl
    rw [dif_pos ⟨t.low,t.high⟩]

def DateTime.plus (t : DateTime) (d : TimeDelta) : Option DateTime := instant (t.micros+d)

def DateTime.minus (t : DateTime) (d : TimeDelta) : Option DateTime := instant (t.micros-d)

@[simp] theorem minus_some (t u : DateTime) (d : TimeDelta) :
    t.minus d = some u ↔ u.micros = t.micros-d := instant_some _ _

@[simp] theorem plus_some (t u : DateTime) (d : TimeDelta) :
    t.plus d = some u ↔ u.micros = t.micros+d := instant_some _ _

/-- `int(t.timestamp())`: the quotient by a million rounded to the nearest double,
ties to even, then cut to its integer part. The integer part of an instant has
at most 38 bits, so its double keeps 53 minus that many bits of the fraction. -/
def timestampInt (t : DateTime) : ℤ :=
  let n := t.micros.natAbs
  let scale := 2^(53-(Nat.log2 (n/1000000)+1))
  let q := n*scale/1000000
  let r := n*scale%1000000
  let m := if 1000000 < 2*r ∨ (2*r = 1000000 ∧ q%2 = 1) then q+1 else q
  let whole : ℤ := (m/scale : ℕ)
  if t.micros < 0 then -whole else whole

structure Fields where
  year : ℕ
  month : ℕ
  day : ℕ
  hour : ℕ
  minute : ℕ
  second : ℕ
  microsecond : ℕ
  deriving DecidableEq, Repr

def DateTime.total (t : DateTime) : ℕ := (t.micros-minMicros).toNat

def DateTime.fields (t : DateTime) : Fields :=
  let n := t.total
  let ymd := ord2ymd (n/86400000000+1)
  let us := n%86400000000
  ⟨ymd.1,ymd.2.1,ymd.2.2,us/3600000000,us/60000000%60,us/1000000%60,us%1000000⟩

def Fields.Valid (f : Fields) : Prop :=
  1 ≤ f.year ∧ 1 ≤ f.month ∧ f.month ≤ 12 ∧ 1 ≤ f.day ∧
    f.day ≤ daysInMonth (isLeap f.year) f.month ∧ f.hour < 24 ∧ f.minute < 60 ∧ f.second < 60 ∧
    f.microsecond < 1000000

instance (f : Fields) : Decidable f.Valid := inferInstanceAs (Decidable (_ ∧ _))

def Fields.micros (f : Fields) : ℤ :=
  minMicros+((((ymd2ord f.year f.month f.day-1)*24+f.hour)*60+f.minute)*60+f.second : ℕ)*1000000+
    f.microsecond

theorem fields_micros (t : DateTime) : t.fields.micros = t.micros := by
  have h := ymd2ord_ord2ymd (t.total/86400000000+1) (by omega)
  simp only at h
  have ht : (t.total : ℤ) = t.micros-minMicros := Int.toNat_of_nonneg (by have := t.low; omega)
  simp only [DateTime.fields, Fields.micros, h.2.2.2.2]
  omega

theorem total_bound (t : DateTime) : t.total/86400000000+1 ≤ 3652059 := by
  have hl := t.low
  have hh := t.high
  simp only [DateTime.total, minMicros, maxMicros] at *
  omega

theorem fields_year (t : DateTime) : 1 ≤ t.fields.year ∧ t.fields.year ≤ 9999 :=
  ord2ymd_year _ (by omega) (total_bound t)

theorem fields_valid (t : DateTime) : t.fields.Valid := by
  have h := ymd2ord_ord2ymd (t.total/86400000000+1) (by omega)
  refine ⟨(fields_year t).1,h.1,h.2.1,h.2.2.1,h.2.2.2.1,?_,?_,?_,?_⟩
  all_goals
    simp only [DateTime.fields]
    omega

end Lib.Calendar
