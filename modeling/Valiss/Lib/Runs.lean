import Mathlib.Tactic.Common

/-!
# Runs of a partial step function

A run feeds a list of events to a step function that refuses the events which
cannot happen. An invariant is carried from step to step, and a condition on
the steps may be assumed along the way.
-/

set_option autoImplicit false

namespace Lib.Runs

variable {σ ε : Type} (step : σ → ε → Option σ)

def run : σ → List ε → Option σ
  | s, [] => some s
  | s, e::es => match step s e with
    | some t => run t es
    | none => none

/-- Every step of the run is taken in a state that meets the condition. -/
def Meets (ok : σ → ε → Prop) : σ → List ε → Prop
  | _, [] => True
  | s, e::es => ok s e ∧ match step s e with
    | some t => Meets ok t es
    | none => True

instance decidableMeets (ok : σ → ε → Prop) [∀ s e, Decidable (ok s e)] (s : σ) (es : List ε) :
    Decidable (Meets step ok s es) :=
  match es with
  | [] => isTrue trivial
  | e::es => match h : step s e with
    | some t => match decidableMeets ok t es with
      | isTrue ht => decidable_of_iff (ok s e) (by simp [Meets, h, ht])
      | isFalse ht => isFalse (by simp [Meets, h, ht])
    | none => decidable_of_iff (ok s e) (by simp [Meets, h])

theorem run_cons (s t : σ) (e : ε) (es : List ε) :
    run step s (e::es) = some t ↔ ∃ u, step s e = some u ∧ run step u es = some t := by
  rw [run]
  cases step s e <;> simp

theorem run_append (s t : σ) (es ds : List ε) :
    run step s (es++ds) = some t ↔ ∃ u, run step s es = some u ∧ run step u ds = some t := by
  induction es generalizing s with
  | nil => simp [run]
  | cons e es ih =>
    rw [List.cons_append, run_cons]
    constructor
    · rintro ⟨u,hu,h⟩
      obtain ⟨x,hx,h⟩ := (ih u).1 h
      exact ⟨x,(run_cons step s x e es).2 ⟨u,hu,hx⟩,h⟩
    · rintro ⟨x,hx,h⟩
      obtain ⟨u,hu,hx⟩ := (run_cons step s x e es).1 hx
      exact ⟨u,hu,(ih u).2 ⟨x,hx,h⟩⟩

theorem run_establishes (P : σ → Prop) (s t : σ) (es : List ε) (h : run step s es = some t)
    (hs : ¬ P s) (ht : P t) : ∃ before e after u w, es = before++e::after ∧
      run step s before = some u ∧ step u e = some w ∧ ¬ P u ∧ P w := by
  induction es generalizing s with
  | nil =>
    obtain rfl := Option.some.inj h
    exact absurd ht hs
  | cons e es ih =>
    obtain ⟨u,hu,h⟩ := (run_cons step s t e es).1 h
    by_cases hp : P u
    · exact ⟨[],e,es,s,u,rfl,rfl,hu,hs,hp⟩
    · obtain ⟨before,d,after,x,w,rfl,hx,hw,hn,hpw⟩ := ih u h hp
      exact ⟨e::before,d,after,x,w,rfl,(run_cons step s x e before).2 ⟨u,hu,hx⟩,hw,hn,hpw⟩

theorem meets_of_forall (ok : σ → ε → Prop) (es : List ε) (h : ∀ e ∈ es, ∀ s, ok s e) (s : σ) :
    Meets step ok s es := by
  induction es generalizing s with
  | nil => trivial
  | cons e es ih =>
    refine ⟨h e List.mem_cons_self s,?_⟩
    split
    next => exact ih (fun d hd => h d (List.mem_cons_of_mem _ hd)) _
    next => trivial

/-- What every step that meets the condition keeps holds after such a run. -/
theorem run_invariant (ok : σ → ε → Prop) (Inv : σ → Prop)
    (keeps : ∀ s e t, ok s e → step s e = some t → Inv s → Inv t) (s t : σ) (es : List ε)
    (hm : Meets step ok s es) (h : run step s es = some t) (hs : Inv s) : Inv t := by
  induction es generalizing s with
  | nil =>
    obtain rfl := Option.some.inj h
    exact hs
  | cons e es ih =>
    obtain ⟨u,hu,h⟩ := (run_cons step s t e es).1 h
    rw [Meets, hu] at hm
    apply ih u hm.2 h
    exact keeps s e u hm.1 hu hs

theorem meets_last (ok : σ → ε → Prop) (s t : σ) (es : List ε) (e : ε)
    (hm : Meets step ok s (es++[e])) (h : run step s es = some t) : ok t e := by
  induction es generalizing s with
  | nil =>
    obtain rfl := Option.some.inj h
    exact hm.1
  | cons d es ih =>
    obtain ⟨u,hu,h⟩ := (run_cons step s t d es).1 h
    rw [List.cons_append, Meets, hu] at hm
    exact ih u hm.2 h

theorem meets_append (ok : σ → ε → Prop) (s : σ) (es ds : List ε) : Meets step ok s (es++ds) ↔
    Meets step ok s es ∧ ∀ t, run step s es = some t → Meets step ok t ds := by
  induction es generalizing s with
  | nil => simp [Meets, run]
  | cons e es ih =>
    rw [List.cons_append, Meets, Meets, run]
    cases step s e with
    | none => simp
    | some u =>
      dsimp only
      rw [ih u, and_assoc]

theorem run_meets_cons (ok : σ → ε → Prop) (s u t : σ) (e : ε) (es : List ε) (he : ok s e)
    (hs : step s e = some u) (h : run step u es = some t ∧ Meets step ok u es) :
    run step s (e::es) = some t ∧ Meets step ok s (e::es) := by
  rw [run, Meets, hs]
  exact ⟨h.1,he,h.2⟩

theorem run_meets_append (ok : σ → ε → Prop) (s u t : σ) (es ds : List ε)
    (h : run step s es = some u ∧ Meets step ok s es)
    (h' : run step u ds = some t ∧ Meets step ok u ds) :
    run step s (es++ds) = some t ∧ Meets step ok s (es++ds) := by
  refine ⟨(run_append step s t es ds).2 ⟨u,h.1,h'.1⟩,(meets_append step ok s es ds).2 ⟨h.2,?_⟩⟩
  intro x hx
  obtain rfl := Option.some.inj (h.1.symm.trans hx)
  exact h'.2

theorem meets_congr (fit : ε → Prop) (Inv : σ → Prop) (P Q : σ → ε → Prop)
    (keeps : ∀ s e t, fit e → step s e = some t → Inv s → Inv t)
    (agree : ∀ s e, fit e → Inv s → (P s e ↔ Q s e)) (s : σ) (es : List ε)
    (hf : ∀ e ∈ es, fit e) (hs : Inv s) : Meets step P s es ↔ Meets step Q s es := by
  induction es generalizing s with
  | nil => exact Iff.rfl
  | cons e es ih =>
    have he := hf e List.mem_cons_self
    apply and_congr (agree s e he hs)
    cases ht : step s e with
    | none => exact Iff.rfl
    | some t => exact ih t (fun d hd => hf d (List.mem_cons_of_mem _ hd)) (keeps s e t he ht hs)

end Lib.Runs
