import Mathlib.Data.List.Nodup

/-!
# Association lists

What a lookup finds is an entry, and with no key repeated every entry is found.
-/

set_option autoImplicit false

namespace Lib.Assoc

variable {α β : Type*} [BEq α] [LawfulBEq α]

theorem mem_of_lookup {l : List (α × β)} {a : α} {b : β} (h : l.lookup a = some b) :
    (a,b) ∈ l := by
  obtain ⟨before,after,rfl,_⟩ := List.lookup_eq_some_iff.1 h
  exact List.mem_append_right _ List.mem_cons_self

theorem lookup_of_mem {l : List (α × β)} {a : α} {b : β} (hn : (l.map Prod.fst).Nodup)
    (h : (a,b) ∈ l) : l.lookup a = some b := by
  obtain ⟨before,after,rfl⟩ := List.append_of_mem h
  refine List.lookup_eq_some_iff.2 ⟨before,after,rfl,?_⟩
  intro e he
  rw [List.map_append, List.map_cons] at hn
  have hne : e.1 ≠ a := fun heq => (List.nodup_append.1 hn).2.2 e.1 (List.mem_map_of_mem he) a
    List.mem_cons_self heq
  simpa using hne.symm

theorem lookup_iff_mem {l : List (α × β)} (hn : (l.map Prod.fst).Nodup) (a : α) (b : β) :
    l.lookup a = some b ↔ (a,b) ∈ l := ⟨mem_of_lookup,lookup_of_mem hn⟩

theorem lookup_reverse {l : List (α × β)} (hn : (l.map Prod.fst).Nodup) (a : α) :
    l.reverse.lookup a = l.lookup a := by
  have hr : (l.reverse.map Prod.fst).Nodup := by rwa [List.map_reverse, List.nodup_reverse]
  apply Option.ext
  intro b
  rw [lookup_iff_mem hr, lookup_iff_mem hn, List.mem_reverse]

end Lib.Assoc
