import Mathlib.Data.List.Nodup
import Valiss.Lib.Runs

/-!
# Linearization

Concurrent calls on a sequential object. At most one step of a call is its point:
there what the calls share changes as the object changes it, and the call is bound
to the object's answer. The points of a run are then operations which, one after
another, explain the run, and those of its beginning come first.
-/

set_option autoImplicit false

namespace Lib.Linearization
open Lib.Runs

variable {σ ε α κ τ ρ : Type}

section Sequence
variable (object : α → τ → ρ × τ)

def after : List α → τ → τ
  | [], s => s
  | x::xs, s => after xs (object x s).2

def answered : List α → τ → List (α × ρ)
  | [], _ => []
  | x::xs, s => (x,(object x s).1) :: answered xs (object x s).2

theorem after_append (xs ys : List α) (s : τ) :
    after object (xs++ys) s = after object ys (after object xs s) := by
  induction xs generalizing s with
  | nil => rfl
  | cons x xs ih => exact ih _

theorem answered_append (xs ys : List α) (s : τ) : answered object (xs++ys) s =
    answered object xs s ++ answered object ys (after object xs s) := by
  induction xs generalizing s with
  | nil => rfl
  | cons x xs ih => simp only [List.cons_append, answered, ih, after]

theorem answered_fst (xs : List α) (s : τ) : (answered object xs s).map Prod.fst = xs := by
  induction xs generalizing s with
  | nil => rfl
  | cons x xs ih => simp only [answered, List.map_cons, ih]

end Sequence

section Points
variable (step : σ → ε → Option σ) (point : σ → ε → Option α)

def points : σ → List ε → List α
  | _, [] => []
  | s, e::es => match step s e with
    | some t => (point s e).toList ++ points t es
    | none => []

theorem points_append (s t : σ) (es ds : List ε) (h : run step s es = some t) :
    points step point s (es++ds) = points step point s es ++ points step point t ds := by
  induction es generalizing s with
  | nil =>
    obtain rfl := Option.some.inj h
    rfl
  | cons e es ih =>
    obtain ⟨u,hu,h⟩ := (run_cons step s t e es).1 h
    simp only [List.cons_append, points, hu, ih u h, List.append_assoc]

theorem points_forall (Inv : σ → Prop) (P : α → Prop)
    (keeps : ∀ s e t, step s e = some t → Inv s → Inv t)
    (allows : ∀ s e x, Inv s → point s e = some x → P x) (s : σ) (es : List ε) (hs : Inv s) :
    ∀ x ∈ points step point s es, P x := by
  induction es generalizing s with
  | nil => simp [points]
  | cons e es ih =>
    intro x hx
    rw [points] at hx
    split at hx
    next t ht =>
      rcases List.mem_append.1 hx with hx | hx
      · exact allows s e x hs (Option.mem_toList.1 hx)
      · exact ih t (keeps s e t ht hs) x hx
    next => cases hx

variable (object : α → τ → ρ × τ) (call : α → κ) (shared : σ → τ)

/-- Only the points change what is shared; each takes its call from the pending ones. -/
structure Linear (Inv : σ → Prop) (Pending : σ → κ → Prop) (Agreed : σ → α → ρ → Prop) :
    Prop where
  keeps : ∀ s e t, step s e = some t → Inv s → Inv t
  quiet : ∀ s e t, Inv s → step s e = some t → point s e = none → shared t = shared s ∧
    (∀ k, Pending t k ↔ Pending s k) ∧ ∀ y r, Agreed s y r → Agreed t y r
  acts : ∀ s e t x, Inv s → step s e = some t → point s e = some x → Pending s (call x) ∧
    shared t = (object x (shared s)).2 ∧ (∀ k, Pending t k ↔ Pending s k ∧ k ≠ call x) ∧
    Agreed t x (object x (shared s)).1 ∧
    ∀ y r, call y ≠ call x → Agreed s y r → Agreed t y r

/-- Executed one after another, the operations leave what is shared, and answer what
each call that is not pending has got. -/
structure Explains (Pending : σ → κ → Prop) (Agreed : σ → α → ρ → Prop) (first : τ)
    (xs : List α) (s : σ) : Prop where
  once : (xs.map call).Nodup
  state : after object xs first = shared s
  calls : ∀ k, k ∈ xs.map call ↔ ¬ Pending s k
  answers : ∀ p ∈ answered object xs first, Agreed s p.1 p.2

variable {step point object call shared}
variable {Inv : σ → Prop} {Pending : σ → κ → Prop} {Agreed : σ → α → ρ → Prop}

theorem explains_step (hl : Linear step point object call shared Inv Pending Agreed) {first : τ}
    {xs : List α} {s t : σ} {e : ε} (h : Explains object call shared Pending Agreed first xs s)
    (hi : Inv s) (ht : step s e = some t) :
    Explains object call shared Pending Agreed first (xs ++ (point s e).toList) t := by
  cases hp : point s e with
  | none =>
    obtain ⟨hstate,hpending,hagreed⟩ := hl.quiet s e t hi ht hp
    rw [Option.toList_none, List.append_nil]
    refine ⟨h.once,h.state.trans hstate.symm,?_,fun p hp => hagreed _ _ (h.answers p hp)⟩
    intro k
    rw [h.calls, hpending]
  | some x =>
    obtain ⟨hopen,hstate,hpending,hanswer,hagreed⟩ := hl.acts s e t x hi ht hp
    have hnew : call x ∉ xs.map call := fun hm => (h.calls _).1 hm hopen
    rw [Option.toList_some]
    refine ⟨?_,?_,?_,?_⟩
    · rw [List.map_append, List.map_singleton]
      refine List.nodup_append.2 ⟨h.once,List.nodup_singleton _,?_⟩
      rintro k hk _ hx rfl
      exact hnew (List.mem_singleton.1 hx ▸ hk)
    · rw [after_append, h.state, hstate]
      rfl
    · intro k
      rw [List.map_append, List.mem_append, h.calls, hpending, not_and_or, not_not]
      simp
    · rw [answered_append, h.state]
      simp only [answered, List.mem_append, List.mem_singleton]
      rintro p (hp | rfl)
      · have hm : call p.1 ∈ xs.map call := by
          rw [← answered_fst object xs first, List.map_map]
          exact List.mem_map_of_mem hp
        exact hagreed _ _ (fun he => hnew (he ▸ hm)) (h.answers p hp)
      · exact hanswer

/-- A run is explained by its points. -/
theorem explains_run (hl : Linear step point object call shared Inv Pending Agreed) {first : τ}
    {xs : List α} {s t : σ} {es : List ε}
    (h : Explains object call shared Pending Agreed first xs s) (hi : Inv s)
    (hrun : run step s es = some t) :
    Explains object call shared Pending Agreed first (xs ++ points step point s es) t := by
  induction es generalizing s xs with
  | nil =>
    obtain rfl := Option.some.inj hrun
    rwa [points, List.append_nil]
  | cons e es ih =>
    obtain ⟨u,hu,hrun⟩ := (run_cons step s t e es).1 hrun
    have hnext := ih (explains_step hl h hi hu) (hl.keeps s e u hu hi) hrun
    rw [List.append_assoc] at hnext
    rw [points, hu]
    exact hnext

end Points

end Lib.Linearization
