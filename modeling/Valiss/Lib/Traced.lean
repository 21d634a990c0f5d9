import Mathlib.Data.List.Range
import Valiss.Lib.Fallible

/-!
# Actions with a log

An action is noted when it leaves an entry behind, made of what it returned. An
action over a state with a log does what the plain one does and adds to the log.
-/

set_option autoImplicit false

namespace Lib.Fallible

variable {ε σ α β E : Type}

namespace Act

/-- The action, and an entry about its outcome at the end of the log. -/
def noted (f : Except ε α → E) (x : Act ε σ α) : Act ε (σ × List E) α := fun s =>
  ((x.run s.1).1,((x.run s.1).2,s.2 ++ [f (x.run s.1).1]))

/-- From the state `s`, `y` does what `x` does and adds `more` to the log. -/
def Logs (x : Act ε σ α) (y : Act ε (σ × List E) α) (s : σ) (more : List E) : Prop :=
  ∀ log, y.run (s,log) = ((x.run s).1,((x.run s).2,log ++ more))

theorem logs_noted (f : Except ε α → E) (x : Act ε σ α) (s : σ) :
    Logs x (x.noted f) s [f (x.run s).1] := fun _ => rfl

theorem logs_pure (a : α) (s : σ) :
    Logs (pure a : Act ε σ α) (pure a : Act ε (σ × List E) α) s [] := by
  intro log
  rw [run_pure, run_pure, List.append_nil]

theorem logs_bind {x : Act ε σ α} {y : Act ε (σ × List E) α} {f : α → Act ε σ β}
    {g : α → Act ε (σ × List E) β} {s t : σ} {a : α} {m n : List E}
    (hx : x.run s = (.ok a,t)) (hy : Logs x y s m) (hf : Logs (f a) (g a) t n) :
    Logs (x >>= f) (y >>= g) s (m ++ n) := by
  intro log
  rw [run_bind, run_bind, hy, hx, ← List.append_assoc]
  exact hf (log ++ m)

theorem logs_bind_error {x : Act ε σ α} {y : Act ε (σ × List E) α} (f : α → Act ε σ β)
    (g : α → Act ε (σ × List E) β) {s t : σ} {e : ε} {m : List E} (hx : x.run s = (.error e,t))
    (hy : Logs x y s m) : Logs (x >>= f) (y >>= g) s m := by
  intro log
  rw [run_bind, run_bind, hy, hx]

theorem logs_lift_ok {a : α} {f : α → Act ε σ β} {g : α → Act ε (σ × List E) β} {s : σ}
    {m : List E} (hf : Logs (f a) (g a) s m) :
    Logs (liftM (.ok a : Except ε α) >>= f) (liftM (.ok a : Except ε α) >>= g) s m := by
  intro log
  rw [run_lift_bind, run_lift_bind]
  exact hf log

theorem logs_lift_error (e : ε) (f : α → Act ε σ β) (g : α → Act ε (σ × List E) β) (s : σ) :
    Logs (liftM (.error e : Except ε α) >>= f) (liftM (.error e : Except ε α) >>= g) s [] := by
  intro log
  rw [run_lift_bind, run_lift_bind, List.append_nil]

theorem logs_lift (x : Except ε α) (s : σ) :
    Logs (liftM x : Act ε σ α) (liftM x : Act ε (σ × List E) α) s [] := by
  intro log
  rw [run_lift, run_lift, List.append_nil]

theorem run_bind_pure (x : Act ε σ α) (f : α → β) (s : σ) :
    (x >>= fun a => pure (f a)).run s = ((x.run s).1.map f,(x.run s).2) := by
  rw [run_bind]
  rcases x.run s with ⟨e | a,t⟩ <;> rfl

theorem logs_bind_pure {x : Act ε σ α} {y : Act ε (σ × List E) α} (f : α → β) {s : σ}
    {m : List E} (hy : Logs x y s m) :
    Logs (x >>= fun a => pure (f a)) (y >>= fun a => pure (f a)) s m := by
  intro log
  rw [run_bind_pure, run_bind_pure, hy]

theorem logs_mapError {x : Act ε σ α} {y : Act ε (σ × List E) α} (f : ε → ε) {s : σ} {m : List E}
    (hy : Logs x y s m) : Logs (x.mapError f) (y.mapError f) s m := by
  intro log
  rw [run_mapError, run_mapError, hy]
  rcases x.run s with ⟨e | a,t⟩ <;> rfl

end Act

end Lib.Fallible
