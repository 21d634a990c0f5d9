import Mathlib.Algebra.Order.Group.Defs
import Mathlib.Algebra.Order.Sub.Basic
import Mathlib.Order.Interval.Set.Defs

/-!
# Windows with optional ends

The points between two bounds, either of which may be absent, and the window
widened at both of its ends. A test may move the slack from the bound to the
point instead.
-/

set_option autoImplicit false

namespace Lib.Windows

variable {α : Type*}

section Order
variable [Preorder α]

def between (start stop : Option α) : Set α := {x | (∀ a ∈ start, a ≤ x) ∧ ∀ b ∈ stop, x ≤ b}

theorem between_none : between (none : Option α) none = Set.univ := by
  ext x
  simp [between]

end Order

section Group
variable [AddCommGroup α] [Preorder α] [AddLeftMono α]

def widened (slack : α) (start stop : Option α) : Set α :=
  between (start.map (· - slack)) (stop.map (· + slack))

theorem mem_widened (slack : α) (start stop : Option α) (x : α) :
    x ∈ widened slack start stop ↔ (∀ b ∈ stop, x-slack ≤ b) ∧ ∀ a ∈ start, a ≤ x+slack := by
  simp only [widened, between, Set.mem_ofPred_eq, Option.mem_map, forall_exists_index, and_imp,
    forall_apply_eq_imp_iff₂, sub_le_iff_le_add]
  exact And.comm

theorem mem_around (slack t x : α) :
    x ∈ Set.Icc (t-slack) (t+slack) ↔ x-t ≤ slack ∧ -slack ≤ x-t := by
  rw [Set.mem_Icc, sub_le_iff_le_add, neg_le_sub_iff_le_add, sub_le_iff_le_add, add_comm t slack]
  exact And.comm

end Group

end Lib.Windows
