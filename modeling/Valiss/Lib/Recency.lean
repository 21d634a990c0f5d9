import Mathlib.Data.Finset.Card
import Mathlib.Data.List.TakeWhile
import Mathlib.Tactic.Common

/-!
# Order of last use

A log of uses, the latest first, and the keys that are kept in the order of
their last uses. The number of other keys used since says how far a key is from
the front.
-/

set_option autoImplicit false

namespace Lib.Recency

variable {α : Type} [DecidableEq α]

def since (k : α) (uses : List α) : List α := uses.takeWhile fun j => decide (j ≠ k)

/-- How many other keys were used after the last use of `k`. -/
def others (k : α) (uses : List α) : ℕ := (since k uses).toFinset.card

/-- The keys stand in the order of their last uses, the oldest first. -/
def Aged (uses keys : List α) : Prop := keys.Pairwise fun i j => j ∈ since i uses

theorem since_ne (k j : α) (uses : List α) (h : j ≠ k) :
    since k (j::uses) = j :: since k uses := by simp [since, h]

theorem notMem_since (k : α) (uses : List α) : k ∉ since k uses := by
  intro h
  have := List.mem_takeWhile_imp h
  simp at this

theorem others_mono (k j : α) (uses : List α) (h : j ≠ k) :
    others k uses ≤ others k (j::uses) := by
  rw [others, others, since_ne k j uses h, List.toFinset_cons]
  exact Finset.card_le_card (Finset.subset_insert _ _)

theorem Aged.sublist {uses keys sub : List α} (h : Aged uses keys) (hs : sub.Sublist keys) :
    Aged uses sub := List.Pairwise.sublist hs h

theorem Aged.nodup {uses keys : List α} (h : Aged uses keys) : keys.Nodup := by
  apply List.Pairwise.imp _ h
  rintro i j hj rfl
  exact notMem_since i uses hj

theorem Aged.touch {uses keys : List α} (k : α) (h : Aged uses keys) (hk : k ∉ keys) :
    Aged (k::uses) (keys++[k]) := by
  have hne : ∀ i ∈ keys, k ≠ i := fun i hi he => hk (he ▸ hi)
  rw [Aged, List.pairwise_append]
  refine ⟨?_,List.pairwise_singleton _ _,?_⟩
  · apply List.Pairwise.imp_of_mem _ h
    intro i j hi _ hj
    rw [since_ne i k uses (hne i hi)]
    exact List.mem_cons_of_mem _ hj
  · intro i hi j hj
    obtain rfl := List.mem_singleton.1 hj
    rw [since_ne i j uses (hne i hi)]
    exact List.mem_cons_self

theorem Aged.length_le {uses keys : List α} {j : α} (h : Aged uses (j::keys)) :
    keys.length ≤ others j uses := by
  obtain ⟨hj,hk⟩ := List.pairwise_cons.1 h
  rw [others, ← List.toFinset_card_of_nodup (Aged.nodup hk)]
  apply Finset.card_le_card
  intro i hi
  exact List.mem_toFinset.2 (hj i (List.mem_toFinset.1 hi))

end Lib.Recency
