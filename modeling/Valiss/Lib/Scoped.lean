import Mathlib.Data.List.Nodup
import Mathlib.Logic.Function.Basic

/-!
# A variable set for the time of a call

In each context a call sets a variable, keeps what was there before, and puts
it back when it ends. While calls of one context end in the reverse order of
their beginnings, the variable reads the value of the innermost open call, and
nothing once none is open.
-/

set_option autoImplicit false

namespace Lib.Scoped

variable {α : Type}

structure Frame (α : Type) where
  call : ℕ
  value : α
  outer : Option α

/-- What the variable reads with these calls open, the innermost first. -/
def Nested : List (Frame α) → Option α → Prop
  | [], v => v = none
  | f::fs, v => v = some f.value ∧ Nested fs f.outer

/-- The variable and the open calls of every context. -/
structure Contexts (α : Type) where
  var : ℕ → Option α
  frames : ℕ → List (Frame α)

def Contexts.empty : Contexts α := ⟨fun _ => none,fun _ => []⟩

def Contexts.set (c : Contexts α) (t k : ℕ) (a : α) : Contexts α where
  var := Function.update c.var t (some a)
  frames := Function.update c.frames t (⟨k,a,c.var t⟩::c.frames t)

def Contexts.reset (c : Contexts α) (t k : ℕ) (outer : Option α) : Contexts α where
  var := Function.update c.var t outer
  frames := Function.update c.frames t ((c.frames t).filter fun f => decide (f.call ≠ k))

theorem Contexts.mem_set (c : Contexts α) (t k : ℕ) (a : α) (x : ℕ) (f : Frame α) :
    f ∈ (c.set t k a).frames x ↔ f ∈ c.frames x ∨ (x = t ∧ f = ⟨k,a,c.var t⟩) := by
  by_cases hx : x = t
  · subst hx
    simp [Contexts.set, or_comm]
  · simp [Contexts.set, hx]

theorem Contexts.mem_reset (c : Contexts α) (t k : ℕ) (outer : Option α) (x : ℕ) (f : Frame α) :
    f ∈ (c.reset t k outer).frames x ↔ f ∈ c.frames x ∧ (x = t → f.call ≠ k) := by
  by_cases hx : x = t
  · subst hx
    simp [Contexts.reset]
  · simp [Contexts.reset, hx]

structure Contexts.Orderly (c : Contexts α) : Prop where
  nested : ∀ t, Nested (c.frames t) (c.var t)
  single : ∀ t, ((c.frames t).map Frame.call).Nodup

theorem orderly_empty : (Contexts.empty : Contexts α).Orderly :=
  ⟨fun _ => rfl,fun _ => List.nodup_nil⟩

theorem Contexts.Orderly.set {c : Contexts α} (h : c.Orderly) (t k : ℕ) (a : α)
    (hk : k ∉ (c.frames t).map Frame.call) : (c.set t k a).Orderly := by
  constructor
  · intro x
    by_cases hx : x = t
    · subst hx
      simp only [Contexts.set, Function.update_self]
      exact ⟨rfl,h.nested x⟩
    · simp only [Contexts.set, Function.update_of_ne hx]
      exact h.nested x
  · intro x
    by_cases hx : x = t
    · subst hx
      simp only [Contexts.set, Function.update_self, List.map_cons]
      exact List.nodup_cons.2 ⟨hk,h.single x⟩
    · simp only [Contexts.set, Function.update_of_ne hx]
      exact h.single x

theorem filter_inner (f : Frame α) (fs : List (Frame α)) (h : f.call ∉ fs.map Frame.call) :
    ((f::fs).filter fun g => decide (g.call ≠ f.call)) = fs := by
  rw [List.filter_cons_of_neg (by simp), List.filter_eq_self]
  intro g hg
  apply decide_eq_true
  exact fun he => h (he ▸ List.mem_map_of_mem hg)

theorem Contexts.Orderly.reset {c : Contexts α} (h : c.Orderly) (t : ℕ) (f : Frame α)
    (fs : List (Frame α)) (hf : c.frames t = f::fs) :
    (c.reset t f.call f.outer).Orderly ∧ (c.reset t f.call f.outer).frames t = fs := by
  have hn := h.nested t
  have hs := h.single t
  rw [hf] at hn hs
  obtain ⟨hnot,hfs⟩ := List.nodup_cons.1 hs
  have hrest : (c.reset t f.call f.outer).frames t = fs := by
    simp only [Contexts.reset, Function.update_self, hf]
    exact filter_inner f fs hnot
  refine ⟨⟨?_,?_⟩,hrest⟩
  · intro x
    by_cases hx : x = t
    · subst hx
      rw [hrest]
      simp only [Contexts.reset, Function.update_self]
      exact hn.2
    · simp only [Contexts.reset, Function.update_of_ne hx]
      exact h.nested x
  · intro x
    by_cases hx : x = t
    · subst hx
      rw [hrest]
      exact hfs
    · simp only [Contexts.reset, Function.update_of_ne hx]
      exact h.single x

theorem Contexts.Orderly.reads {c : Contexts α} (h : c.Orderly) (t : ℕ) (f : Frame α)
    (hf : (c.frames t).head? = some f) : c.var t = some f.value := by
  have hn := h.nested t
  cases hc : c.frames t with
  | nil =>
    rw [hc] at hf
    cases hf
  | cons g gs =>
    rw [hc] at hf hn
    obtain rfl := Option.some.inj hf
    exact hn.1

theorem Contexts.Orderly.unset {c : Contexts α} (h : c.Orderly) (t : ℕ) (hf : c.frames t = []) :
    c.var t = none := by
  have hn := h.nested t
  rw [hf] at hn
  exact hn

end Lib.Scoped
