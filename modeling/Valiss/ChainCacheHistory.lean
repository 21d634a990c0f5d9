import Valiss.Chains
import Valiss.Lib.Recency

/-!
# The memory chain cache over its history

The cache is run beside the log of the keys it used: a store uses its key, a
lookup uses it when it hits. What a lookup finds is told from the operations and
the log alone.
-/

set_option autoImplicit false

namespace Valiss.ChainCacheHistory
open Lib.Unicode Lib.Json Lib.Assoc Lib.Recency Valiss.TokenClaims Valiss.Message Valiss.Chains

inductive Op
  | get (k : Str)
  | put (k : Str) (c : Chain)
  | delete (k : Str)

structure History where
  cache : Lru
  uses : List Str

def History.next (cap : ℕ) (h : History) : Op → History
  | .get k => ⟨(lruGet k h.cache).2,if (lruGet k h.cache).1.isSome then k::h.uses else h.uses⟩
  | .put k c => ⟨lruPut cap k c h.cache,k::h.uses⟩
  | .delete k => ⟨lruDelete k h.cache,h.uses⟩

def after (cap : ℕ) (ops : List Op) : History := ops.foldl (History.next cap) ⟨[],[]⟩

def Op.writes : Op → Option Str
  | .get _ => none
  | .put k _ => some k
  | .delete k => some k

/-- The latest store of `k` stored `c`, and `k` was not deleted since. -/
def Stored (k : Str) (c : Chain) (ops : List Op) : Prop :=
  ∃ before later, ops = before ++ .put k c :: later ∧ ∀ op ∈ later, op.writes ≠ some k

def Gone (k : Str) (ops : List Op) : Prop :=
  ∀ before c later, ops = before ++ .put k c :: later → Op.delete k ∈ later

theorem after_snoc (cap : ℕ) (ops : List Op) (op : Op) :
    after cap (ops++[op]) = (after cap ops).next cap op := by
  rw [after, List.foldl_concat]
  rfl

theorem stored_nil (k : Str) (c : Chain) : ¬ Stored k c [] := by
  rintro ⟨before,later,he,_⟩
  simp at he

theorem stored_snoc (k : Str) (c : Chain) (ops : List Op) (op : Op) :
    Stored k c (ops++[op]) ↔ op = .put k c ∨ (op.writes ≠ some k ∧ Stored k c ops) := by
  constructor
  · rintro ⟨before,later,he,hl⟩
    rcases List.eq_nil_or_concat later with rfl | ⟨later,last,rfl⟩
    · exact Or.inl (List.singleton_inj.1 (List.append_inj' he rfl).2)
    · rw [List.concat_eq_append, ← List.cons_append, ← List.append_assoc] at he
      obtain ⟨hops,hlast⟩ := List.append_inj' he rfl
      obtain rfl := List.singleton_inj.1 hlast
      exact Or.inr ⟨hl op (by simp),before,later,hops,fun o ho => hl o (by simp [ho])⟩
  · rintro (rfl | ⟨hw,before,later,rfl,hl⟩)
    · exact ⟨ops,[],rfl,by simp⟩
    · refine ⟨before,later++[op],by simp,?_⟩
      intro o ho
      rcases List.mem_append.1 ho with ho | ho
      · exact hl o ho
      · exact List.mem_singleton.1 ho ▸ hw

theorem stored_unique (k : Str) (c v : Chain) (ops : List Op) (hc : Stored k c ops)
    (hv : Stored k v ops) : c = v := by
  induction ops using List.reverseRecOn with
  | nil => exact absurd hc (stored_nil k c)
  | append_singleton ops op ih =>
    rcases (stored_snoc k c ops op).1 hc with rfl | ⟨hw,hc⟩
    · rcases (stored_snoc k v ops _).1 hv with h | ⟨hw,_⟩
      · exact (Op.put.inj h).2
      · exact absurd rfl hw
    · rcases (stored_snoc k v ops op).1 hv with rfl | ⟨_,hv⟩
      · exact absurd rfl hw
      · exact ih hc hv

theorem gone_not_stored (k : Str) (c : Chain) (ops : List Op) (h : Gone k ops) :
    ¬ Stored k c ops := by
  rintro ⟨before,later,he,hl⟩
  exact hl _ (h before c later he) rfl

def keys (d : Lru) : List Str := d.map Prod.fst

/-- What the cache keeps, and why it lost what it does not keep. -/
structure Faithful (cap : ℕ) (ops : List Op) (h : History) : Prop where
  room : h.cache.length ≤ cap
  aged : Aged h.uses (keys h.cache)
  kept : ∀ k c, h.cache.lookup k = some c → Stored k c ops
  lost : ∀ k c, Stored k c ops → h.cache.lookup k = none → cap ≤ others k h.uses

theorem faithful_nil (cap : ℕ) : Faithful cap [] (after cap []) := by
  constructor
  · exact Nat.zero_le _
  · exact List.Pairwise.nil
  · intro k c h
    cases h
  · intro k c h
    exact absurd h (stored_nil k c)

theorem keys_without (k : Str) (d : Lru) :
    (keys (without k d)).Sublist (keys d) ∧ k ∉ keys (without k d) := by
  refine ⟨(List.filter_sublist).map _,?_⟩
  intro h
  obtain ⟨e,he,hk⟩ := List.mem_map.1 h
  exact ((mem_without k d e).1 he).2 hk

theorem aged_back (k : Str) (c : Chain) (uses : List Str) (d : Lru) (h : Aged uses (keys d)) :
    Aged (k::uses) (keys (without k d ++ [(k,c)])) := by
  obtain ⟨hs,hk⟩ := keys_without k d
  rw [keys, List.map_append]
  exact Aged.touch k (h.sublist hs) hk

theorem lookup_back (k j : Str) (c : Chain) (d : Lru) :
    (without k d ++ [(k,c)]).lookup j = if j = k then some c else d.lookup j := by
  rw [List.lookup_append, lookup_without]
  by_cases hj : j = k
  · simp [hj]
  · rw [if_neg hj, if_neg hj, List.lookup_cons, beq_eq_false_iff_ne.2 hj]
    simp

theorem length_back (k : Str) (c : Chain) (d : Lru) (h : (d.lookup k).isSome = true) :
    (without k d ++ [(k,c)]).length ≤ d.length := by
  obtain ⟨v,hv⟩ := Option.isSome_iff_exists.1 h
  have hlt : (without k d).length < d.length :=
    List.length_filter_lt_length_iff_exists.2 ⟨(k,v),mem_of_lookup hv,by simp⟩
  simpa using hlt

theorem faithful_back (cap : ℕ) (ops : List Op) (op : Op) (h : History) (k : Str) (c : Chain)
    (hf : Faithful cap ops h) (hin : (h.cache.lookup k).isSome = true)
    (hk : Stored k c (ops++[op])) (hop : ∀ j ≠ k, ∀ v, Stored j v (ops++[op]) ↔ Stored j v ops) :
    Faithful cap (ops++[op]) ⟨without k h.cache ++ [(k,c)],k::h.uses⟩ := by
  constructor
  · exact (length_back k c h.cache hin).trans hf.room
  · exact aged_back k c h.uses h.cache hf.aged
  · intro j v hj
    rw [lookup_back] at hj
    split_ifs at hj with he
    · obtain rfl := Option.some.inj hj
      exact he ▸ hk
    · exact (hop j he v).2 (hf.kept j v hj)
  · intro j v hs hj
    rw [lookup_back] at hj
    split_ifs at hj with he
    exact (hf.lost j v ((hop j he v).1 hs) hj).trans (others_mono j k h.uses (Ne.symm he))

theorem stored_get (k j : Str) (c : Chain) (ops : List Op) :
    Stored j c (ops++[.get k]) ↔ Stored j c ops := by
  rw [stored_snoc]
  simp [Op.writes]

theorem stored_put_self (k : Str) (c v : Chain) (ops : List Op) :
    Stored k v (ops++[.put k c]) ↔ v = c := by
  rw [stored_snoc]
  simp [Op.writes, eq_comm]

theorem stored_put_ne (k j : Str) (c v : Chain) (ops : List Op) (h : j ≠ k) :
    Stored j v (ops++[.put k c]) ↔ Stored j v ops := by
  rw [stored_snoc]
  simp [Op.writes, Ne.symm h]

theorem stored_delete (k j : Str) (v : Chain) (ops : List Op) :
    Stored j v (ops++[.delete k]) ↔ k ≠ j ∧ Stored j v ops := by
  rw [stored_snoc]
  simp [Op.writes]

theorem faithful_get (cap : ℕ) (ops : List Op) (h : History) (k : Str)
    (hf : Faithful cap ops h) : Faithful cap (ops++[.get k]) (h.next cap (.get k)) := by
  rw [History.next, lruGet]
  cases hc : h.cache.lookup k with
  | some c =>
    apply faithful_back cap ops _ h k c hf (by simp [hc])
    · exact (stored_get k k c ops).2 (hf.kept k c hc)
    · exact fun j _ v => stored_get k j v ops
  | none =>
    constructor
    · exact hf.room
    · exact hf.aged
    · exact fun j v hj => (stored_get k j v ops).2 (hf.kept j v hj)
    · exact fun j v hs hj => hf.lost j v ((stored_get k j v ops).1 hs) hj

theorem faithful_delete (cap : ℕ) (ops : List Op) (h : History) (k : Str)
    (hf : Faithful cap ops h) : Faithful cap (ops++[.delete k]) (h.next cap (.delete k)) := by
  have hlen : (without k h.cache).length ≤ h.cache.length := List.length_filter_le _ _
  constructor
  · exact hlen.trans hf.room
  · exact hf.aged.sublist (keys_without k h.cache).1
  · intro j v hj
    rw [History.next, lruDelete, lookup_without] at hj
    split_ifs at hj with he
    exact (stored_delete k j v ops).2 ⟨Ne.symm he,hf.kept j v hj⟩
  · intro j v hs hj
    obtain ⟨hne,hs⟩ := (stored_delete k j v ops).1 hs
    rw [History.next, lruDelete, lookup_without, if_neg (Ne.symm hne)] at hj
    exact hf.lost j v hs hj

theorem without_absent (k : Str) (d : Lru) (h : d.lookup k = none) : without k d = d := by
  apply List.filter_eq_self.2
  intro e he
  have hk := (lookup_none_iff d k).1 h
  exact decide_eq_true fun hek => hk (List.mem_map.2 ⟨e,he,hek⟩)

theorem lruPut_back (cap : ℕ) (k : Str) (c : Chain) (d : Lru)
    (h : (d.lookup k).isSome = true ∨ d.length < cap) :
    lruPut cap k c d = without k d ++ [(k,c)] := by
  unfold lruPut
  split_ifs with hk hcap
  · rfl
  · exact absurd hcap (Nat.not_le.2 (h.resolve_left hk))
  · rw [without_absent k d (Option.not_isSome_iff_eq_none.1 hk)]

theorem lruPut_evicts (cap : ℕ) (k j : Str) (c old : Chain) (d : Lru)
    (hk : ((j,old)::d).lookup k = none) (hcap : cap ≤ ((j,old)::d).length) :
    lruPut cap k c ((j,old)::d) = d ++ [(k,c)] := by
  rw [lruPut, hk, if_neg (by simp), if_pos hcap, List.drop_one, List.tail_cons]

theorem lookup_snoc (k j : Str) (c : Chain) (d : Lru) (hk : d.lookup k = none) :
    (d ++ [(k,c)]).lookup j = if j = k then some c else d.lookup j := by
  have h := lookup_back k j c d
  rwa [without_absent k d hk] at h

/-- An evicted key has as many keys used since its last use as the cache has room for. -/
theorem evicted_others (uses : List Str) (k j : Str) (old : Chain) (d : Lru)
    (h : Aged uses (keys ((j,old)::d))) (hk : k ∉ keys ((j,old)::d)) :
    ((j,old)::d).length ≤ others j (k::uses) := by
  have ht : Aged (k::uses) (j::(keys d++[k])) := h.touch k hk
  have := ht.length_le
  simpa [keys] using this

theorem lookup_tail (uses : List Str) (i j : Str) (old : Chain) (d : Lru)
    (h : Aged uses (keys ((j,old)::d))) :
    d.lookup i = if i = j then none else ((j,old)::d).lookup i := by
  by_cases hi : i = j
  · rw [if_pos hi, lookup_none_iff, hi]
    exact (List.nodup_cons.1 h.nodup).1
  · rw [if_neg hi, List.lookup_cons, beq_eq_false_iff_ne.2 hi]

theorem faithful_new (cap : ℕ) (ops : List Op) (h : History) (k : Str) (c : Chain) (rest : Lru)
    (hf : Faithful cap ops h) (hk : h.cache.lookup k = none) (hs : rest.Sublist h.cache)
    (hroom : rest.length < cap)
    (hkept : ∀ j v, rest.lookup j = some v → h.cache.lookup j = some v)
    (hlost : ∀ j ≠ k, ∀ v, h.cache.lookup j = some v → rest.lookup j = none →
      cap ≤ others j (k::h.uses)) :
    Faithful cap (ops++[.put k c]) ⟨rest++[(k,c)],k::h.uses⟩ := by
  have hnew : k ∉ keys h.cache := (lookup_none_iff _ _).1 hk
  have hrest : k ∉ keys rest := fun hm => hnew ((hs.map Prod.fst).subset hm)
  have hlook := fun j => lookup_snoc k j c rest ((lookup_none_iff _ _).2 hrest)
  constructor
  · simpa using hroom
  · rw [keys, List.map_append]
    exact (hf.aged.sublist (hs.map _)).touch k hrest
  · intro j v hj
    rw [hlook] at hj
    split_ifs at hj with he
    · rw [he]
      exact (stored_put_self k c v ops).2 (Option.some.inj hj).symm
    · exact (stored_put_ne k j c v ops he).2 (hf.kept j v (hkept j v hj))
  · intro j v hs hj
    rw [hlook] at hj
    split_ifs at hj with he
    have hs := (stored_put_ne k j c v ops he).1 hs
    cases hc : h.cache.lookup j with
    | none => exact (hf.lost j v hs hc).trans (others_mono j k h.uses (Ne.symm he))
    | some w => exact hlost j he w hc hj

theorem faithful_put (cap : ℕ) (hcap : 0 < cap) (ops : List Op) (h : History) (k : Str)
    (c : Chain) (hf : Faithful cap ops h) :
    Faithful cap (ops++[.put k c]) (h.next cap (.put k c)) := by
  rw [History.next]
  by_cases hin : (h.cache.lookup k).isSome = true
  · rw [lruPut_back cap k c h.cache (Or.inl hin)]
    apply faithful_back cap ops _ h k c hf hin
    · exact (stored_put_self k c c ops).2 rfl
    · exact fun j hj v => stored_put_ne k j c v ops hj
  have hk : h.cache.lookup k = none := Option.not_isSome_iff_eq_none.1 hin
  by_cases hroom : h.cache.length < cap
  · rw [lruPut_back cap k c h.cache (Or.inr hroom), without_absent k h.cache hk]
    apply faithful_new cap ops h k c h.cache hf hk (List.Sublist.refl _) hroom
    · exact fun j v hj => hj
    · intro j _ v hv hn
      rw [hn] at hv
      cases hv
  · obtain ⟨cache,uses⟩ := h
    cases cache with
    | nil => exact absurd hcap hroom
    | cons e d =>
      -- the front entry goes, and its key is the only one that is lost
      obtain ⟨j,old⟩ := e
      have hfull : ((j,old)::d).length = cap := le_antisymm hf.room (Nat.not_lt.1 hroom)
      rw [lruPut_evicts cap k j c old d hk hfull.ge]
      apply faithful_new cap ops _ k c d hf hk (List.sublist_cons_self _ _) (by
        rw [← hfull]
        exact Nat.lt_succ_self _)
      · intro i v hi
        rw [lookup_tail uses i j old d hf.aged] at hi
        split_ifs at hi
        exact hi
      · intro i _ v hv hn
        rw [lookup_tail uses i j old d hf.aged] at hn
        split_ifs at hn with hij
        · rw [hij, ← hfull]
          exact evicted_others uses k j old d hf.aged ((lookup_none_iff _ _).1 hk)
        · rw [hn] at hv
          cases hv

theorem faithful_after (cap : ℕ) (hcap : 0 < cap) (ops : List Op) :
    Faithful cap ops (after cap ops) := by
  induction ops using List.reverseRecOn with
  | nil => exact faithful_nil cap
  | append_singleton ops op ih =>
    rw [after_snoc]
    cases op with
    | get k => exact faithful_get cap ops _ k ih
    | put k c => exact faithful_put cap hcap ops _ k c ih
    | delete k => exact faithful_delete cap ops _ k ih

theorem stored_used (cap : ℕ) (k : Str) (c : Chain) (ops : List Op) (h : Stored k c ops) :
    k ∈ (after cap ops).uses := by
  induction ops using List.reverseRecOn with
  | nil => exact absurd h (stored_nil k c)
  | append_singleton ops op ih =>
    rw [after_snoc]
    rcases (stored_snoc k c ops op).1 h with rfl | ⟨_,hs⟩
    · exact List.mem_cons_self
    cases op with
    | get j =>
      rw [History.next]
      dsimp only
      split_ifs
      · exact List.mem_cons_of_mem _ (ih hs)
      · exact ih hs
    | put j c => exact List.mem_cons_of_mem _ (ih hs)
    | delete j => exact ih hs

theorem lruGet_fst (k : Str) (d : Lru) : (lruGet k d).1 = d.lookup k := by
  rw [lruGet]
  cases d.lookup k <;> rfl

theorem full_put (cap : ℕ) (h : History) (ops : List Op) (k : Str) (c : Chain)
    (hf : Faithful cap ops h) (hcap : 0 < cap) (hk : h.cache.lookup k = none)
    (hfull : h.cache.length = cap) :
    ∃ j old, h.cache.lookup j = some old ∧
      (∀ i, i ≠ j → h.cache.lookup i ≠ none → i ∈ since j h.uses) ∧
      ∀ i, (lruPut cap k c h.cache).lookup i =
        if i = k then some c else if i = j then none else h.cache.lookup i := by
  obtain ⟨cache,uses⟩ := h
  cases cache with
  | nil =>
    rw [List.length_nil] at hfull
    omega
  | cons e d =>
    obtain ⟨j,old⟩ := e
    refine ⟨j,old,by simp,?_,?_⟩
    · intro i hi hin
      have hd : d.lookup i ≠ none := by
        rwa [lookup_tail uses i j old d hf.aged, if_neg hi]
      rw [Ne, lookup_none_iff, not_not] at hd
      exact (List.pairwise_cons.1 hf.aged).1 i hd
    · intro i
      have hd : d.lookup k = none := by
        rw [lookup_tail uses k j old d hf.aged, hk, ite_self]
      rw [lruPut_evicts cap k j c old d hk hfull.ge, lookup_snoc k i c d hd,
        lookup_tail uses i j old d hf.aged]

theorem memory_chain_cache_lru (cap : ℕ) (hcap : 1 ≤ cap) (ops : List Op) :
    (after cap ops).cache.length ≤ cap ∧
    (∀ k c, Stored k c ops → others k (after cap ops).uses < cap →
      (lruGet k (after cap ops).cache).1 = some c) ∧
    (∀ k, Gone k ops → (lruGet k (after cap ops).cache).1 = none) ∧
    (∀ k c, (after cap ops).cache.lookup k = none → (after cap ops).cache.length = cap →
      ∃ j old, (after cap ops).cache.lookup j = some old ∧ j ∈ (after cap ops).uses ∧
        (∀ i, i ≠ j → (after cap ops).cache.lookup i ≠ none → i ∈ since j (after cap ops).uses) ∧
        ∀ i, (lruPut cap k c (after cap ops).cache).lookup i =
          if i = k then some c else if i = j then none else (after cap ops).cache.lookup i) ∧
    ∀ k c, (after cap ops).cache.lookup k ≠ none →
      ∀ i, (lruPut cap k c (after cap ops).cache).lookup i =
        if i = k then some c else (after cap ops).cache.lookup i := by
  have hf := faithful_after cap hcap ops
  refine ⟨hf.room,?_,?_,?_,?_⟩
  · intro k c hs hlt
    rw [lruGet_fst]
    cases hc : (after cap ops).cache.lookup k with
    | none => exact absurd (hf.lost k c hs hc) (Nat.not_le.2 hlt)
    | some v => rw [stored_unique k c v ops hs (hf.kept k v hc)]
  · intro k hg
    rw [lruGet_fst]
    cases hc : (after cap ops).cache.lookup k with
    | none => rfl
    | some v => exact absurd (hf.kept k v hc) (gone_not_stored k v ops hg)
  · intro k c hk hfull
    obtain ⟨j,old,hj,hold,hput⟩ := full_put cap (after cap ops) ops k c hf hcap hk hfull
    exact ⟨j,old,hj,stored_used cap j old ops (hf.kept j old hj),hold,hput⟩
  · intro k c hk i
    rw [lruPut_back cap k c _ (Or.inl (Option.isSome_iff_ne_none.2 hk)), lookup_back]

/-- With room for two, a hit keeps the older key and the next store drops the other. -/
theorem memory_chain_cache_lru_two :
    let ops := [.put [1] ([],[]),.put [2] ([],[]),.get [1],Op.put [3] ([],[])]
    (lruGet [1] (after 2 ops).cache).1 = some ([],[]) ∧ (after 2 ops).cache.length ≤ 2 := by
  intro ops
  obtain ⟨hlen,hget,_⟩ := memory_chain_cache_lru 2 (by decide) ops
  refine ⟨hget [1] ([],[]) ⟨[],_,rfl,?_⟩ ?_,hlen⟩
  · intro op hop
    simp only [List.mem_cons, List.not_mem_nil, or_false] at hop
    rcases hop with rfl | rfl | rfl <;> simp [Op.writes]
  · decide

end Valiss.ChainCacheHistory
