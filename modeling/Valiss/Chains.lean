import Valiss.Message

/-!
# Chain cache

Chains by the user key that emits under them. The memory cache keeps its
entries from least to most recently used and drops the front one when full.
-/

set_option autoImplicit false

namespace Valiss.Chains
open Lib.Unicode Lib.Json Lib.Assoc Valiss.TokenClaims Valiss.Message

/-- The cache operations over a state `σ`; each is atomic. -/
structure ChainCache (σ : Type) where
  get : Str → σ → Option Chain × σ
  put : Str → Chain → σ → σ
  delete : Str → σ → σ

/-- What was just put is found. -/
structure ChainCache.Lawful {σ : Type} (c : ChainCache σ) : Prop where
  get_put : ∀ k v s, (c.get k (c.put k v s)).1 = some v

/-- Entries, the least recently used first. -/
abbrev Lru := Dict Chain

def without (k : Str) (d : Lru) : Lru := d.filter fun e => decide (e.1 ≠ k)

def lruGet (k : Str) (d : Lru) : Option Chain × Lru :=
  match d.lookup k with
  | some c => (some c,without k d ++ [(k,c)])
  | none => (none,d)

def lruPut (cap : ℕ) (k : Str) (c : Chain) (d : Lru) : Lru :=
  if (d.lookup k).isSome then without k d ++ [(k,c)]
  else (if cap ≤ d.length then d.drop 1 else d) ++ [(k,c)]

def lruDelete (k : Str) (d : Lru) : Lru := without k d

def memoryChainCacheCap : ℕ := 1024

def memoryChainCache : ChainCache Lru := ⟨lruGet,lruPut memoryChainCacheCap,lruDelete⟩

theorem mem_without (k : Str) (d : Lru) (e : Str × Chain) :
    e ∈ without k d ↔ e ∈ d ∧ e.1 ≠ k := by simp [without]

theorem mem_lruGet (k : Str) (d : Lru) (e : Str × Chain) (h : e ∈ (lruGet k d).2) : e ∈ d := by
  unfold lruGet at h
  split at h
  next c hc =>
    rcases List.mem_append.mp h with h | h
    · exact ((mem_without k d e).1 h).1
    · rw [List.mem_singleton.mp h]
      exact mem_of_lookup hc
  next => exact h

theorem mem_lruPut (cap : ℕ) (k : Str) (c : Chain) (d : Lru) (e : Str × Chain)
    (h : e ∈ lruPut cap k c d) : e = (k,c) ∨ e ∈ d := by
  unfold lruPut at h
  split_ifs at h
  · rcases List.mem_append.mp h with h | h
    · exact Or.inr ((mem_without k d e).1 h).1
    · exact Or.inl (List.mem_singleton.mp h)
  · rcases List.mem_append.mp h with h | h
    · exact Or.inr (List.mem_of_mem_drop h)
    · exact Or.inl (List.mem_singleton.mp h)
  · rcases List.mem_append.mp h with h | h
    · exact Or.inr h
    · exact Or.inl (List.mem_singleton.mp h)

theorem mem_lruDelete (k : Str) (d : Lru) (e : Str × Chain) (h : e ∈ lruDelete k d) : e ∈ d :=
  ((mem_without k d e).1 h).1

theorem lookup_last (k : Str) (c : Chain) (d : Lru) (h : ∀ e ∈ d, e.1 ≠ k) :
    (d ++ [(k,c)]).lookup k = some c := by
  apply List.lookup_eq_some_iff.2
  refine ⟨d,[],rfl,?_⟩
  intro e he
  simpa using (h e he).symm

theorem memoryChainCache_lawful : memoryChainCache.Lawful := by
  constructor
  intro k c d
  have hput : (lruPut memoryChainCacheCap k c d).lookup k = some c := by
    unfold lruPut
    split_ifs with hk hcap
    · exact lookup_last k c _ fun e he => ((mem_without k d e).1 he).2
    · apply lookup_last
      intro e he hek
      apply hk
      rw [List.lookup_isSome_iff]
      exact ⟨e,List.mem_of_mem_drop he,by simp [hek]⟩
    · apply lookup_last
      intro e he hek
      apply hk
      rw [List.lookup_isSome_iff]
      exact ⟨e,he,by simp [hek]⟩
  simp only [memoryChainCache, lruGet, hput]

theorem lookup_without (k j : Str) (d : Lru) :
    (without k d).lookup j = if j = k then none else d.lookup j := by
  induction d with
  | nil => simp [without]
  | cons e d ih =>
    obtain ⟨i,c⟩ := e
    rw [without] at ih
    by_cases hi : i = k
    · rw [without, List.filter_cons_of_neg (by simp [hi]), ih]
      by_cases hj : j = k
      · simp [hj]
      · rw [if_neg hj, if_neg hj, List.lookup_cons, beq_eq_false_iff_ne.2 (hi ▸ hj)]
    · rw [without, List.filter_cons_of_pos (by simp [hi]), List.lookup_cons, List.lookup_cons, ih]
      by_cases hj : j = k
      · rw [if_pos hj, if_pos hj, beq_eq_false_iff_ne.2 (fun h => hi (h.symm.trans hj))]
      · rw [if_neg hj, if_neg hj]

theorem lookup_lruGet (k j : Str) (d : Lru) : (lruGet k d).2.lookup j = d.lookup j := by
  unfold lruGet
  split
  next c hc =>
    dsimp only
    rw [List.lookup_append, lookup_without]
    by_cases hj : j = k
    · simp [hj, hc]
    · rw [if_neg hj, List.lookup_cons, beq_eq_false_iff_ne.2 hj]
      simp
  next => rfl

theorem lookup_lruPut (cap : ℕ) (k j : Str) (c : Chain) (d : Lru)
    (hroom : (d.lookup k).isSome = true ∨ d.length < cap) (h : d.lookup j ≠ none) :
    (lruPut cap k c d).lookup j ≠ none := by
  unfold lruPut
  split_ifs with hk hcap
  · rw [List.lookup_append, lookup_without]
    by_cases hj : j = k
    · simp [hj]
    · rw [if_neg hj, Ne, Option.or_eq_none_iff]
      exact fun hn => h hn.1
  · exact absurd hcap (Nat.not_le.2 (hroom.resolve_left hk))
  · rw [List.lookup_append, Ne, Option.or_eq_none_iff]
    exact fun hn => h hn.1

theorem lruPut_full (cap : ℕ) (k : Str) (c : Chain) (d : Lru) (hk : d.lookup k = none)
    (hcap : cap ≤ d.length) (hpos : 0 < cap) (hd : (d.map Prod.fst).Nodup) :
    ∃ j old, d.lookup j = some old ∧ (lruPut cap k c d).lookup j = none := by
  cases d with
  | nil =>
    rw [List.length_nil] at hcap
    omega
  | cons e d =>
    obtain ⟨j,old⟩ := e
    refine ⟨j,old,by simp,?_⟩
    have hjk : j ≠ k := by
      rintro rfl
      simp at hk
    rw [lruPut, hk, if_neg (by simp), if_pos hcap, List.drop_one, List.tail_cons,
      List.lookup_append, (lookup_none_iff d j).2 (List.nodup_cons.1 hd).1, List.lookup_cons,
      beq_eq_false_iff_ne.2 hjk]
    rfl

theorem nodup_without (k : Str) (d : Lru) (h : (d.map Prod.fst).Nodup) :
    ((without k d).map Prod.fst).Nodup := h.sublist ((List.filter_sublist).map _)

theorem nodup_snoc (k : Str) (c : Chain) (d : Lru) (hk : d.lookup k = none)
    (h : (d.map Prod.fst).Nodup) : ((d ++ [(k,c)]).map Prod.fst).Nodup := by
  rw [List.map_append, List.map_cons, List.map_nil, List.nodup_append]
  refine ⟨h,List.nodup_singleton _,?_⟩
  intro a ha b hb hab
  rw [List.mem_singleton] at hb
  subst hb
  exact (lookup_none_iff d _).1 hk (hab ▸ ha)

theorem nodup_lruGet (k : Str) (d : Lru) (h : (d.map Prod.fst).Nodup) :
    ((lruGet k d).2.map Prod.fst).Nodup := by
  unfold lruGet
  split
  · exact nodup_snoc k _ _ (by simp [lookup_without]) (nodup_without k d h)
  · exact h

theorem nodup_lruPut (cap : ℕ) (k : Str) (c : Chain) (d : Lru) (h : (d.map Prod.fst).Nodup) :
    ((lruPut cap k c d).map Prod.fst).Nodup := by
  unfold lruPut
  split_ifs with hk hcap
  · exact nodup_snoc k c _ (by simp [lookup_without]) (nodup_without k d h)
  · rw [Option.not_isSome_iff_eq_none, lookup_none_iff] at hk
    apply nodup_snoc k c
    · rw [lookup_none_iff]
      intro hm
      obtain ⟨e,he,hek⟩ := List.mem_map.1 hm
      exact hk (List.mem_map.2 ⟨e,List.mem_of_mem_drop he,hek⟩)
    · exact h.sublist ((List.drop_sublist 1 d).map _)
  · exact nodup_snoc k c d (Option.not_isSome_iff_eq_none.1 hk) h

end Valiss.Chains
