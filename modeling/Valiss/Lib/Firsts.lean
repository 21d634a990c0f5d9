import Mathlib.Data.List.Nodup
import Mathlib.Data.List.Pairwise
import Mathlib.Data.List.Perm.Subperm
import Mathlib.Tactic.Common

/-!
# The first of each key

A list is filtered to the first element of each key. Whatever is kept is one
element of each key, and every choice of one element of each key is kept for
some order of the list.
-/

set_option autoImplicit false

namespace Lib.Firsts

variable {α κ : Type} (key : α → κ)

/-- One element of each key of the list. -/
structure Selects (cs kept : List α) : Prop where
  sub : ∀ c ∈ kept, c ∈ cs
  single : (kept.map key).Nodup
  covers : ∀ c ∈ cs, ∃ d ∈ kept, key d = key c

section Choice
variable {key}

theorem Selects.perm {cs cs' kept : List α} (h : Selects key cs kept) (hp : cs.Perm cs') :
    Selects key cs' kept :=
  ⟨fun c hc => hp.mem_iff.1 (h.sub c hc),h.single,fun c hc => h.covers c (hp.mem_iff.2 hc)⟩

theorem Selects.meets {cs kept kept' : List α} (h : Selects key cs kept)
    (h' : Selects key cs kept') (c : α) (hc : c ∈ kept) : ∃ d ∈ kept', key d = key c :=
  h'.covers c (h.sub c hc)

theorem Selects.pairwise_iff {cs kept : List α} (h : Selects key cs kept) (R : α → α → Prop)
    (hR : ∀ c d, R c d → R d c) :
    kept.Pairwise R ↔ ∀ c ∈ kept, ∀ d ∈ kept, key c ≠ key d → R c d := by
  constructor
  · intro hp c hc d hd hk
    have hsymm : Std.Symm R := ⟨hR⟩
    exact hp.forall hc hd fun he => hk (he ▸ rfl)
  · intro ha
    apply List.Nodup.pairwise_of_forall_ne (List.Nodup.of_map key h.single)
    intro c hc d hd hne
    exact ha c hc d hd fun hk => hne (List.inj_on_of_nodup_map h.single hc hd hk)

end Choice

variable [DecidableEq κ]

def firsts : List κ → List α → List α
  | _, [] => []
  | seen, c::cs => if key c ∈ seen then firsts seen cs else c :: firsts (key c::seen) cs

theorem firsts_sub (seen : List κ) (cs : List α) : ∀ c ∈ firsts key seen cs, c ∈ cs := by
  induction cs generalizing seen with
  | nil => simp [firsts]
  | cons d cs ih =>
    intro c hc
    rw [firsts] at hc
    split_ifs at hc
    · exact List.mem_cons_of_mem _ (ih seen c hc)
    · rcases List.mem_cons.1 hc with rfl | hc
      · exact List.mem_cons_self
      · exact List.mem_cons_of_mem _ (ih _ c hc)

theorem firsts_unseen (seen : List κ) (cs : List α) : ∀ c ∈ firsts key seen cs, key c ∉ seen := by
  induction cs generalizing seen with
  | nil => simp [firsts]
  | cons d cs ih =>
    intro c hc
    rw [firsts] at hc
    split_ifs at hc with hd
    · exact ih seen c hc
    · rcases List.mem_cons.1 hc with rfl | hc
      · exact hd
      · exact fun hs => ih _ c hc (List.mem_cons_of_mem _ hs)

theorem firsts_single (seen : List κ) (cs : List α) : ((firsts key seen cs).map key).Nodup := by
  induction cs generalizing seen with
  | nil => exact List.nodup_nil
  | cons d cs ih =>
    rw [firsts]
    split_ifs
    · exact ih seen
    · refine List.nodup_cons.2 ⟨?_,ih _⟩
      intro hm
      obtain ⟨c,hc,hk⟩ := List.mem_map.1 hm
      exact firsts_unseen key _ cs c hc (hk ▸ List.mem_cons_self)

theorem firsts_covers (seen : List κ) (cs : List α) (c : α) (hc : c ∈ cs) (hs : key c ∉ seen) :
    ∃ d ∈ firsts key seen cs, key d = key c := by
  induction cs generalizing seen with
  | nil => cases hc
  | cons e cs ih =>
    rw [firsts]
    split_ifs with he
    · rcases List.mem_cons.1 hc with rfl | hc
      · exact absurd he hs
      · exact ih seen hc hs
    · by_cases hk : key e = key c
      · exact ⟨e,List.mem_cons_self,hk⟩
      · rcases List.mem_cons.1 hc with rfl | hc
        · exact absurd rfl hk
        · obtain ⟨d,hd,hdk⟩ := ih (key e::seen) hc (by simp [hs, Ne.symm hk])
          exact ⟨d,List.mem_cons_of_mem _ hd,hdk⟩

theorem firsts_selects (cs : List α) : Selects key cs (firsts key [] cs) :=
  ⟨firsts_sub key [] cs,firsts_single key [] cs,fun c hc => firsts_covers key [] cs c hc (by simp)⟩

theorem firsts_seen (seen : List κ) (cs : List α) (h : ∀ c ∈ cs, key c ∈ seen) :
    firsts key seen cs = [] := by
  induction cs with
  | nil => rfl
  | cons c cs ih =>
    rw [firsts, if_pos (h c List.mem_cons_self)]
    exact ih fun d hd => h d (List.mem_cons_of_mem _ hd)

theorem firsts_front (seen : List κ) (kept rest : List α) (hs : (kept.map key).Nodup)
    (hn : ∀ c ∈ kept, key c ∉ seen) (hr : ∀ c ∈ rest, key c ∈ seen ∨ ∃ d ∈ kept, key d = key c) :
    firsts key seen (kept++rest) = kept := by
  induction kept generalizing seen with
  | nil =>
    apply firsts_seen
    intro c hc
    simpa using hr c hc
  | cons d kept ih =>
    obtain ⟨hd,hs⟩ := List.nodup_cons.1 hs
    rw [List.cons_append, firsts, if_neg (hn d List.mem_cons_self), ih _ hs]
    · intro c hc hm
      rcases List.mem_cons.1 hm with hk | hm
      · exact hd (hk ▸ List.mem_map_of_mem hc)
      · exact hn c (List.mem_cons_of_mem _ hc) hm
    · intro c hc
      rcases hr c hc with h | ⟨e,he,hk⟩
      · exact Or.inl (List.mem_cons_of_mem _ h)
      · rcases List.mem_cons.1 he with rfl | he
        · exact Or.inl (hk ▸ List.mem_cons_self)
        · exact Or.inr ⟨e,he,hk⟩

variable {key}

theorem Selects.ordered {cs kept : List α} (h : Selects key cs kept) :
    ∃ cs', cs'.Perm cs ∧ firsts key [] cs' = kept := by
  have hn : kept.Nodup := List.Nodup.of_map key h.single
  obtain ⟨l,hl,hs⟩ := List.subperm_of_subset hn h.sub
  obtain ⟨rest,hrest⟩ := hs.exists_perm_append
  have hp : cs.Perm (kept++rest) := hrest.trans (hl.append_right rest)
  refine ⟨kept++rest,hp.symm,?_⟩
  apply firsts_front key [] kept rest h.single (by simp)
  intro c hc
  exact Or.inr (h.covers c (hp.mem_iff.2 (List.mem_append_right _ hc)))

end Lib.Firsts
