import Mathlib.Tactic.Common

/-!
# Computations that fail, and actions that also change a state

Inversion rules for `Except`, and the actions `Act ε σ`, whose state survives a
failure: what was written before an exception stays written.
-/

set_option autoImplicit false

namespace Lib.Fallible

variable {ε σ α β γ : Type}

/-- `if c: raise e` -/
def raiseIf (c : Prop) [Decidable c] (e : ε) : Except ε Unit := if c then .error e else .ok ()

def ofOption (e : ε) : Option α → Except ε α
  | some a => .ok a
  | none => .error e

@[simp] theorem bind_ok (x : Except ε α) (f : α → Except ε β) (b : β) :
    (x >>= f) = .ok b ↔ ∃ a, x = .ok a ∧ f a = .ok b := by
  cases x <;> simp [bind, Except.bind]

@[simp] theorem map_ok (x : Except ε α) (f : α → β) (b : β) :
    (f <$> x) = .ok b ↔ ∃ a, x = .ok a ∧ f a = b := by
  cases x <;> simp [Functor.map, Except.map]

@[simp] theorem pure_ok (a b : α) : (pure a : Except ε α) = .ok b ↔ a = b := by
  simp [pure, Except.pure]

@[simp] theorem throw_ok (e : ε) (a : α) : (throw e : Except ε α) = .ok a ↔ False := by
  simp [throw, throwThe, MonadExceptOf.throw]

@[simp] theorem raiseIf_ok (c : Prop) [Decidable c] (e : ε) (u : Unit) :
    raiseIf c e = .ok u ↔ ¬ c := by
  by_cases h : c <;> simp [raiseIf, h]

theorem raiseIf_pos (c : Prop) [Decidable c] (e : ε) (h : c) : raiseIf c e = .error e := if_pos h

theorem raiseIf_neg (c : Prop) [Decidable c] (e : ε) (h : ¬ c) : raiseIf c e = .ok () := if_neg h

@[simp] theorem ofOption_ok (e : ε) (x : Option α) (a : α) : ofOption e x = .ok a ↔ x = some a := by
  cases x <;> simp [ofOption]

theorem ok_bind (a : α) (f : α → Except ε β) : (Except.ok a >>= f) = f a := rfl

theorem error_bind (e : ε) (f : α → Except ε β) : (Except.error e >>= f) = .error e := rfl

theorem exists_ok (x : Except ε α) (h : x.isOk = true) : ∃ a, x = .ok a := by
  cases x with
  | ok a => exact ⟨a,rfl⟩
  | error e => cases h

theorem bind_error (x : Except ε α) (f : α → Except ε β) (e : ε) :
    (x >>= f) = .error e ↔ x = .error e ∨ ∃ a, x = .ok a ∧ f a = .error e := by
  cases x <;> simp [bind, Except.bind]

theorem bind_eq_on (x : Except ε α) (f g : α → Except ε β) (h : ∀ a, x = .ok a → f a = g a) :
    (x >>= f) = (x >>= g) := by
  cases x with
  | ok a => exact h a rfl
  | error e => rfl

def Raises (P : ε → Prop) (x : Except ε α) : Prop := ∀ e, x = .error e → P e

@[simp] theorem raises_ok (P : ε → Prop) (a : α) : Raises P (.ok a : Except ε α) := by
  intro e h
  cases h

@[simp] theorem raises_pure (P : ε → Prop) (a : α) : Raises P (pure a : Except ε α) :=
  raises_ok P a

@[simp] theorem raises_error (P : ε → Prop) (e : ε) : Raises P (.error e : Except ε α) ↔ P e := by
  simp [Raises]

theorem raises_bind (P : ε → Prop) (x : Except ε α) (f : α → Except ε β) :
    Raises P (x >>= f) ↔ Raises P x ∧ ∀ a, x = .ok a → Raises P (f a) := by
  cases x with
  | ok a => simp [ok_bind]
  | error e => simp [error_bind]

theorem Raises.bind {P : ε → Prop} {x : Except ε α} {f : α → Except ε β} (hx : Raises P x)
    (hf : ∀ a, x = .ok a → Raises P (f a)) : Raises P (x >>= f) := (raises_bind P x f).2 ⟨hx,hf⟩

theorem raises_raiseIf (P : ε → Prop) (c : Prop) [Decidable c] (e : ε) :
    Raises P (raiseIf c e) ↔ (c → P e) := by
  by_cases h : c <;> simp [raiseIf, h]

theorem raises_ofOption (P : ε → Prop) (e : ε) (x : Option α) :
    Raises P (ofOption e x) ↔ (x = none → P e) := by
  cases x <;> simp [ofOption]

def Act (ε σ α : Type) : Type := σ → Except ε α × σ

namespace Act

def run (x : Act ε σ α) (s : σ) : Except ε α × σ := x s

protected def pure (a : α) : Act ε σ α := fun s => (.ok a,s)

protected def bind (x : Act ε σ α) (f : α → Act ε σ β) : Act ε σ β := fun s =>
  match x s with
  | (.ok a,t) => f a t
  | (.error e,t) => (.error e,t)

instance : Monad (Act ε σ) where
  pure := Act.pure
  bind := Act.bind

def ofExcept (x : Except ε α) : Act ε σ α := fun s => (x,s)

instance : MonadLift (Except ε) (Act ε σ) := ⟨ofExcept⟩

@[simp] theorem run_pure (a : α) (s : σ) : (pure a : Act ε σ α).run s = (.ok a,s) := rfl

@[simp] theorem run_lift (x : Except ε α) (s : σ) :
    (liftM x : Act ε σ α).run s = (x,s) := rfl

theorem run_bind (x : Act ε σ α) (f : α → Act ε σ β) (s : σ) :
    (x >>= f).run s = match x.run s with
      | (.ok a,t) => (f a).run t
      | (.error e,t) => (.error e,t) := rfl

@[simp] theorem bind_ok (x : Act ε σ α) (f : α → Act ε σ β) (s u : σ) (b : β) :
    (x >>= f).run s = (.ok b,u) ↔ ∃ a t, x.run s = (.ok a,t) ∧ (f a).run t = (.ok b,u) := by
  rw [run_bind]
  rcases h : x.run s with ⟨e | a,t⟩ <;> simp

theorem lift_bind_ok (x : Except ε α) (f : α → Act ε σ β) (s u : σ) (b : β) :
    ((liftM x : Act ε σ α) >>= f).run s = (.ok b,u) ↔ ∃ a, x = .ok a ∧ (f a).run s = (.ok b,u) := by
  simp

theorem run_lift_bind (x : Except ε α) (f : α → Act ε σ β) (s : σ) :
    ((liftM x : Act ε σ α) >>= f).run s = match x with
      | .ok a => (f a).run s
      | .error e => (.error e,s) := by
  rw [run_bind, run_lift]
  cases x <;> rfl

def mapError (f : ε → ε) (x : Act ε σ α) : Act ε σ α := fun s =>
  match x.run s with
  | (.ok a,t) => (.ok a,t)
  | (.error e,t) => (.error (f e),t)

theorem run_mapError (f : ε → ε) (x : Act ε σ α) (s : σ) :
    (x.mapError f).run s = match x.run s with
      | (.ok a,t) => (.ok a,t)
      | (.error e,t) => (.error (f e),t) := rfl

@[simp] theorem mapError_ok (f : ε → ε) (x : Act ε σ α) (s t : σ) (a : α) :
    (x.mapError f).run s = (.ok a,t) ↔ x.run s = (.ok a,t) := by
  rw [run_mapError]
  rcases x.run s with ⟨e | b,u⟩ <;> simp

def catching (p : ε → Bool) (x : Act ε σ α) : Act ε σ (Except ε α) := fun s =>
  match x.run s with
  | (.ok a,t) => (.ok (.ok a),t)
  | (.error e,t) => if p e then (.ok (.error e),t) else (.error e,t)

theorem run_catching (p : ε → Bool) (x : Act ε σ α) (s : σ) :
    (x.catching p).run s = match x.run s with
      | (.ok a,t) => (.ok (.ok a),t)
      | (.error e,t) => if p e then (.ok (.error e),t) else (.error e,t) := rfl

theorem catching_ok (p : ε → Bool) (x : Act ε σ α) (s t : σ) (a : α) :
    (x.catching p).run s = (.ok (.ok a),t) ↔ x.run s = (.ok a,t) := by
  rw [run_catching]
  rcases x.run s with ⟨e | b,u⟩
  · by_cases h : p e = true <;> simp [h]
  · simp

/-- Whatever `x` raises satisfies `P`, in every state. -/
protected def Raises (P : ε → Prop) (x : Act ε σ α) : Prop :=
  ∀ s e t, x.run s = (.error e,t) → P e

theorem raises_pure (P : ε → Prop) (a : α) : Act.Raises P (pure a : Act ε σ α) := by
  intro s e t h
  simp at h

theorem raises_lift {P : ε → Prop} {x : Except ε α} (h : Fallible.Raises P x) :
    Act.Raises P (liftM x : Act ε σ α) := by
  intro s e t he
  rw [run_lift, Prod.mk.injEq] at he
  exact h e he.1

theorem raises_bind {P : ε → Prop} {x : Act ε σ α} {f : α → Act ε σ β} (hx : Act.Raises P x)
    (hf : ∀ s a t, x.run s = (.ok a,t) → Act.Raises P (f a)) : Act.Raises P (x >>= f) := by
  intro s e t h
  rw [run_bind] at h
  rcases hs : x.run s with ⟨e' | a,u⟩
  · rw [hs, Prod.mk.injEq] at h
    obtain ⟨he,rfl⟩ := h
    obtain rfl := Except.error.inj he
    exact hx s e' u hs
  · rw [hs] at h
    exact hf s a u hs u e t h

end Act

end Lib.Fallible
