import Valiss.Lib.Fallible

/-!
# Layers around an action

A layer makes an action of one that it may call. Two actions are compared from
the states of a set that neither leaves; a layer is confined to the set when it
cannot tell such actions apart and does not leave it either.
-/

set_option autoImplicit false

namespace Lib.Layers
open Lib.Fallible

variable {ε σ α β : Type} {P : σ → Prop}

/-- From a state of `P` both do the same and end in `P`. -/
def Alike (P : σ → Prop) (f g : Act ε σ α) : Prop :=
  ∀ s, P s → f.run s = g.run s ∧ P (f.run s).2

def Confined (P : σ → Prop) (layer : Act ε σ α → Act ε σ α) : Prop :=
  ∀ f g, Alike P f g → Alike P (layer f) (layer g)

/-- The first layer is the outermost. -/
def stacked (layers : List (Act ε σ α → Act ε σ α)) (f : Act ε σ α) : Act ε σ α :=
  layers.foldr (fun layer g => layer g) f

theorem confined_stacked (layers : List (Act ε σ α → Act ε σ α))
    (h : ∀ layer ∈ layers, Confined P layer) : Confined P (stacked layers) := by
  intro f g hfg
  induction layers with
  | nil => exact hfg
  | cons layer layers ih =>
    exact h layer List.mem_cons_self _ _ (ih fun l hl => h l (List.mem_cons_of_mem _ hl))

theorem Alike.bind {x y : Act ε σ β} {f g : β → Act ε σ α} (hx : Alike P x y)
    (h : ∀ b, Alike P (f b) (g b)) : Alike P (x >>= f) (y >>= g) := by
  intro s hs
  obtain ⟨heq,ht⟩ := hx s hs
  rw [Act.run_bind, Act.run_bind, ← heq]
  rcases he : x.run s with ⟨e | b,t⟩
  · rw [he] at ht
    exact ⟨rfl,ht⟩
  · rw [he] at ht
    exact h b t ht

theorem alike_lift (x : Except ε α) : Alike P (liftM x : Act ε σ α) (liftM x) :=
  fun _ hs => ⟨rfl,hs⟩

end Lib.Layers
