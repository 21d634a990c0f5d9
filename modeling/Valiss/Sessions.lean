import Mathlib.Algebra.BigOperators.Group.Finset.Basic
import Mathlib.Algebra.Order.BigOperators.Group.Finset
import Valiss.Lib.Runs
import Valiss.TwoSends

/-!
# Sessions

Emitters in front of one receiver with a memory chain cache. Each sends one
message after the other and repeats a send when its flow says so; the steps of
their calls mix freely. While the cache has room for all of them an emitter
sends its chain along once, if at all, however many messages it sends.
-/

set_option autoImplicit false

namespace Valiss.Sessions
open Lib.Unicode Lib.Json Lib.Calendar Lib.Fallible Lib.Runs Lib.Dialogue Lib.Assoc Valiss.Errors
open Valiss.TokenClaims Valiss.Message Valiss.Chains Valiss.MsgTransport Valiss.ChainRuns
open Valiss.Exchange Valiss.TwoSends Valiss.Recorded Recorded.Widgets Valiss.Negotiation

section Runs
variable [Platform]

abbrev Client := Flow Delivery Outcome Outcome

/-- The receiver, whose call `i` is the one emitter `i` waits for; what each emitter
does with the answer; and how often it has sent a message again. -/
structure Session where
  server : World Lru
  next : ℕ → Option (Outcome → Client)
  resent : ℕ → ℕ

inductive Event where
  | serve (e : ChainRuns.Event)
  | emit (i : ℕ) (f : Client)
  | hear (i : ℕ)

def Session.start (clock : DateTime) : Session := ⟨World.start clock [],fun _ => none,fun _ => 0⟩

def Session.rest (w : Session) (i : ℕ) : Session :=
  {w with
    server := {w.server with calls := fun j => if j = i then none else w.server.calls j}
    next := fun j => if j = i then none else w.next j}

def Session.send (w : Session) (i : ℕ) (q : Call) (next : Outcome → Client) : Session :=
  {w with
    server := w.server.move i (.waiting q)
    next := fun j => if j = i then some next else w.next j}

def Session.spend (w : Session) (i : ℕ) : Session :=
  {w with resent := fun j => if j = i then w.resent i+1 else w.resent j}

variable (r : Receiver)

def step (w : Session) : Event → Option Session
  | .serve (.arrive _ _) => none
  | .serve e => (ChainRuns.step (some memoryChainCache) w.server e).map
      fun s => {w with server := s}
  | .emit i (.send d next) => match w.next i with
    | none => some (w.send i ⟨r,d⟩ next)
    | some _ => none
  | .emit _ (.done _) => none
  | .hear i => match w.next i, w.server.calls i with
    | some next, some (.answered _ _ _ out) => match next out with
      | .done _ => some (w.rest i)
      | .send d more => some ((w.send i ⟨r,d⟩ more).spend i)
    | _, _ => none

variable {r}

theorem step_serve (w u : Session) (e : ChainRuns.Event) (h : step r w (.serve e) = some u) :
    (∀ i q, e ≠ .arrive i q) ∧ ∃ s, ChainRuns.step (some memoryChainCache) w.server e = some s ∧
      u = {w with server := s} := by
  cases e with
  | arrive i q => cases h
  | _ =>
    simp only [step, Option.map_eq_some_iff] at h
    obtain ⟨s,hs,rfl⟩ := h
    refine ⟨?_,s,hs,rfl⟩
    intro i q h
    cases h

theorem step_emit (w u : Session) (i : ℕ) (d : Delivery) (next : Outcome → Client)
    (h : step r w (.emit i (.send d next)) = some u) :
    w.next i = none ∧ u = w.send i ⟨r,d⟩ next := by
  simp only [step] at h
  split at h
  next hn => exact ⟨hn,(Option.some.inj h).symm⟩
  next => cases h

theorem step_hear (w u : Session) (i : ℕ) (h : step r w (.hear i) = some u) :
    ∃ next l t₁ t₂ out, w.next i = some next ∧
      w.server.calls i = some (.answered l t₁ t₂ out) ∧
      ((∃ x, next out = .done x ∧ u = w.rest i) ∨
        ∃ d more, next out = .send d more ∧ u = (w.send i ⟨r,d⟩ more).spend i) := by
  simp only [step] at h
  split at h
  next next l t₁ t₂ out hn hc =>
    refine ⟨next,l,t₁,t₂,out,hn,hc,?_⟩
    split at h
    next x hx => exact Or.inl ⟨x,hx,(Option.some.inj h).symm⟩
    next d more hx => exact Or.inr ⟨d,more,hx,(Option.some.inj h).symm⟩
  next => cases h

def asksChain : Outcome → Bool
  | .reject x => x.chainRequired
  | .claims _ => false

variable {e : Emitter} {negotiate : Bool}

def emission (x : Emission e negotiate) : Client :=
  onceMore x.first x.again fun out => negotiate && asksChain out

def afterFirst (x : Emission e negotiate) (out : Outcome) : Client :=
  if (negotiate && asksChain out) = true then .send x.again .done else .done out

theorem emission_first (x : Emission e negotiate) :
    emission x = .send x.first (afterFirst x) := rfl

/-- The cache holds the chains of the first `n` emitters, each under its own key. -/
structure Entries (em : ℕ → Emitter) (n : ℕ) (store : Lru) : Prop where
  nodup : (store.map Prod.fst).Nodup
  own : ∀ x ∈ store, ∃ i < n, x = ((em i).key,(em i).chain)

def Cached (e : Emitter) (store : Lru) : Prop := store.lookup e.key = some e.chain

/-- A chain is sent once, and then it is in the cache. -/
def Spent (e : Emitter) (store : Lru) (k : ℕ) : Prop := k ≤ 1 ∧ (k = 1 → Cached e store)

def FirstPhase (e : Emitter) (negotiate : Bool) (k : ℕ) : Phase → Prop
  | .waiting _ => True
  | .looked l | .timed l _ | .ready l _ _ =>
    l.key = some e.key ∧ (l.found = some e.chain ∨ l.found = none ∧ k = 0)
  | .answered _ _ _ out =>
    (∃ c, out = .claims c) ∨ negotiate = true ∧ k = 0 ∧ out = .reject chainRequired
  | .failed _ _ => False

def AgainPhase (e : Emitter) (store : Lru) : Phase → Prop
  | .waiting _ | .looked _ | .timed _ _ | .ready _ _ _ => True
  | .answered _ _ _ out => (∃ c, out = .claims c) ∧ Cached e store
  | .failed _ _ => False

inductive Stage (r : Receiver) (e : Emitter) (store : Lru) :
    Option (Outcome → Client) → Option Phase → ℕ → Prop
  | rest (k : ℕ) (spent : Spent e store k) : Stage r e store none none k
  | first {negotiate : Bool} (x : Emission e negotiate) (p : Phase) (k : ℕ)
      (call : p.call = ⟨r,x.first⟩) (phase : FirstPhase e negotiate k p)
      (spent : Spent e store k) : Stage r e store (some (afterFirst x)) (some p) k
  | again (x : Emission e true) (p : Phase) (call : p.call = ⟨r,x.again⟩)
      (phase : AgainPhase e store p) : Stage r e store (some .done) (some p) 1

structure Steady (r : Receiver) (em : ℕ → Emitter) (n : ℕ) (w : Session) : Prop where
  entries : Entries em n w.server.store
  stage : ∀ i < n, Stage r (em i) w.server.store (w.next i) (w.server.calls i) (w.resent i)
  beyond : ∀ i, n ≤ i → w.next i = none ∧ w.server.calls i = none ∧ w.resent i = 0

def Keeps (em : ℕ → Emitter) (n : ℕ) (s t : Lru) : Prop :=
  Entries em n t ∧ ∀ i < n, Cached (em i) s → Cached (em i) t

theorem stage_keeps (s t : Lru) (next : Option (Outcome → Client)) (p : Option Phase) (k : ℕ)
    (h : Stage r e s next p k) (hkeeps : Cached e s → Cached e t) : Stage r e t next p k := by
  cases h with
  | rest k spent => exact .rest k ⟨spent.1,fun hk => hkeeps (spent.2 hk)⟩
  | first x p k call phase spent =>
    exact .first x p k call phase ⟨spent.1,fun hk => hkeeps (spent.2 hk)⟩
  | again x p call phase =>
    refine .again x p call ?_
    cases p with
    | answered l t₁ t₂ out => exact ⟨phase.1,hkeeps phase.2⟩
    | _ => exact phase

variable {em : ℕ → Emitter} {n : ℕ}

theorem steady_move (w u : Session) (k : ℕ) (hw : Steady r em n w)
    (hkeeps : Keeps em n w.server.store u.server.store)
    (hothers : ∀ j, j ≠ k → u.next j = w.next j ∧ u.server.calls j = w.server.calls j ∧
      u.resent j = w.resent j) (hk : k < n)
    (hstage : Stage r (em k) u.server.store (u.next k) (u.server.calls k) (u.resent k)) :
    Steady r em n u := by
  refine ⟨hkeeps.1,?_,?_⟩
  · intro i hi
    by_cases hik : i = k
    · rw [hik]
      exact hstage
    · obtain ⟨hn,hc,hr⟩ := hothers i hik
      rw [hn, hc, hr]
      exact stage_keeps _ _ _ _ _ (hw.stage i hi) (hkeeps.2 i hi)
  · intro i hi
    obtain ⟨hn,hc,hr⟩ := hothers i (by omega)
    rw [hn, hc, hr]
    exact hw.beyond i hi

def Distinct (em : ℕ → Emitter) (n : ℕ) : Prop :=
  ∀ i < n, ∀ j < n, (em i).key = (em j).key → i = j

theorem cached_or_none (store : Lru) (h : Entries em n store) (hd : Distinct em n) (i : ℕ)
    (hi : i < n) : Cached (em i) store ∨ store.lookup (em i).key = none := by
  cases hl : store.lookup (em i).key with
  | none => exact Or.inr rfl
  | some c =>
    obtain ⟨j,hj,he⟩ := h.own _ (mem_of_lookup hl)
    obtain ⟨hkey,rfl⟩ := Prod.mk.inj he
    obtain rfl := hd i hi j hj hkey
    exact Or.inl hl

theorem keeps_get (store : Lru) (h : Entries em n store) (k : Str) :
    Keeps em n store (lruGet k store).2 := by
  refine ⟨⟨nodup_lruGet k store h.nodup,fun x hx => h.own x (mem_lruGet k store x hx)⟩,?_⟩
  intro i _ hc
  rw [Cached, lookup_lruGet]
  exact hc

theorem entries_room (store : Lru) (h : Entries em n store) (i : ℕ) (hi : i < n)
    (hn : store.lookup (em i).key = none) : store.length < n := by
  have hsub : insert (em i).key (store.map Prod.fst).toFinset ⊆
      (Finset.range n).image fun j => (em j).key := by
    intro k hk
    rw [Finset.mem_insert, List.mem_toFinset] at hk
    rw [Finset.mem_image]
    rcases hk with rfl | hk
    · exact ⟨i,Finset.mem_range.2 hi,rfl⟩
    · obtain ⟨x,hx,rfl⟩ := List.mem_map.1 hk
      obtain ⟨j,hj,rfl⟩ := h.own x hx
      exact ⟨j,Finset.mem_range.2 hj,rfl⟩
  have hnot : (em i).key ∉ (store.map Prod.fst).toFinset := by
    rw [List.mem_toFinset]
    exact (lookup_none_iff store _).1 hn
  have hcard := (Finset.card_le_card hsub).trans Finset.card_image_le
  rw [Finset.card_insert_of_notMem hnot, List.toFinset_card_of_nodup h.nodup, List.length_map,
    Finset.card_range] at hcard
  omega

theorem keeps_put (store : Lru) (h : Entries em n store) (hd : Distinct em n)
    (hcap : n ≤ memoryChainCacheCap) (i : ℕ) (hi : i < n) :
    Keeps em n store (lruPut memoryChainCacheCap (em i).key (em i).chain store) ∧
      Cached (em i) (lruPut memoryChainCacheCap (em i).key (em i).chain store) := by
  set t := lruPut memoryChainCacheCap (em i).key (em i).chain store with ht
  have hentries : Entries em n t := by
    refine ⟨nodup_lruPut _ _ _ store h.nodup,?_⟩
    intro x hx
    rcases mem_lruPut _ _ _ store x hx with rfl | hx
    · exact ⟨i,hi,rfl⟩
    · exact h.own x hx
  have hroom : (store.lookup (em i).key).isSome = true ∨ store.length < memoryChainCacheCap := by
    rcases cached_or_none store h hd i hi with hc | hn
    · left
      rw [show store.lookup (em i).key = some (em i).chain from hc]
      rfl
    · exact Or.inr ((entries_room store h i hi hn).trans_le hcap)
  refine ⟨⟨hentries,?_⟩,?_⟩
  · intro j hj hc
    have hstays := lookup_lruPut memoryChainCacheCap (em i).key (em j).key (em i).chain store hroom
      (by rw [show store.lookup (em j).key = some (em j).chain from hc]; simp)
    exact (cached_or_none t hentries hd j hj).resolve_right hstays
  · have hput := memoryChainCache_lawful.get_put (em i).key (em i).chain store
    have hget : (lruGet (em i).key t).1 = some (em i).chain := hput
    unfold lruGet at hget
    split at hget
    next c hc => exact hc.trans hget
    next => cases hget

theorem stage_some (e : Emitter) (s : Lru) (next : Option (Outcome → Client)) (p : Phase) (k : ℕ)
    (h : Stage r e s next (some p) k) :
    (∃ negotiate, ∃ x : Emission e negotiate, next = some (afterFirst x) ∧ p.call = ⟨r,x.first⟩ ∧
      FirstPhase e negotiate k p ∧ Spent e s k) ∨
    ∃ x : Emission e true, next = some .done ∧ k = 1 ∧ p.call = ⟨r,x.again⟩ ∧ AgainPhase e s p := by
  cases h with
  | first x _ k call phase spent => exact Or.inl ⟨_,x,rfl,call,phase,spent⟩
  | again x _ call phase => exact Or.inr ⟨x,rfl,rfl,call,phase⟩

theorem stage_resent (e : Emitter) (s : Lru) (next : Option (Outcome → Client))
    (p : Option Phase) (k : ℕ) (h : Stage r e s next p k) : k ≤ 1 := by
  cases h with
  | rest _ spent => exact spent.1
  | first _ _ _ _ _ spent => exact spent.1
  | again => exact le_rfl

theorem stage_none (e : Emitter) (s : Lru) (p : Option Phase) (k : ℕ)
    (h : Stage r e s none p k) : p = none ∧ Spent e s k := by
  cases h with
  | rest _ spent => exact ⟨rfl,spent⟩

omit [Platform] in
theorem lruGet_fst (k : Str) (d : Lru) : (lruGet k d).1 = d.lookup k := by
  unfold lruGet
  split
  next c hc => exact hc.symm
  next hc => exact hc.symm

theorem look_first (hon : HonestSignatures) (w : World Lru) (k : ℕ) (x : Emission e negotiate) :
    w.look (some memoryChainCache) k ⟨r,x.first⟩ = {w with store := (lruGet e.key w.store).2}.move k
      (.looked ⟨⟨r,x.first⟩,some e.key,w.store.lookup e.key⟩) := by
  have hkey := lookupKey_first hon x (some memoryChainCache)
  rw [Option.isSome_some, if_pos rfl] at hkey
  rw [World.look, hkey, ← lruGet_fst]
  rfl

theorem again_detached (x : Emission e true) : x.again.detached = true := by
  rw [again_full]
  exact full_detached _

theorem look_again (w : World Lru) (k : ℕ) (x : Emission e true) :
    w.look (some memoryChainCache) k ⟨r,x.again⟩ = w.move k (.looked ⟨⟨r,x.again⟩,none,none⟩) := by
  have hkey : lookupKey (some memoryChainCache) x.again = .ok none := by
    rw [lookupKey, Option.isSome_some, if_pos rfl, cacheKey, if_pos (again_detached x)]
  rw [World.look, hkey]
  rfl

theorem called_known (w : Session) (k : ℕ) (p : Phase) (hw : Steady r em n w)
    (hk : w.server.calls k = some p) : k < n := by
  by_contra hge
  rw [(hw.beyond k (not_lt.1 hge)).2.1] at hk
  cases hk

theorem steady_look (hon : HonestSignatures) (w : Session) (k : ℕ) (q : Call)
    (hw : Steady r em n w) (hd : Distinct em n)
    (hk : w.server.calls k = some (.waiting q)) :
    Steady r em n {w with server := w.server.look (some memoryChainCache) k q} := by
  have hkn := called_known w k _ hw hk
  have hstage := hw.stage k hkn
  rw [hk] at hstage
  rcases stage_some _ _ _ _ _ hstage with ⟨neg,x,hnext,hcall,hphase,hspent⟩ |
    ⟨x,hnext,hone,hcall,hphase⟩
  · obtain rfl : q = ⟨r,x.first⟩ := hcall
    rw [look_first hon]
    refine steady_move w _ k hw ?_ ?_ hkn ?_
    · exact keeps_get w.server.store hw.entries (em k).key
    · intro j hj
      simp only [World.move, if_neg hj, and_self]
    · simp only [World.move, if_true, hnext]
      refine .first x _ _ rfl ⟨rfl,?_⟩ ⟨hspent.1,?_⟩
      · rcases cached_or_none w.server.store hw.entries hd k hkn with hc | hn
        · exact Or.inl hc
        · refine Or.inr ⟨hn,?_⟩
          by_contra hne
          have hone : w.resent k = 1 := by have := hspent.1; omega
          have hcached := hspent.2 hone
          rw [Cached, hn] at hcached
          cases hcached
      · intro hone
        rw [Cached, lookup_lruGet]
        exact hspent.2 hone
  · obtain rfl : q = ⟨r,x.again⟩ := hcall
    rw [look_again]
    refine steady_move w _ k hw ?_ ?_ hkn ?_
    · exact ⟨hw.entries,fun _ _ h => h⟩
    · intro j hj
      simp only [World.move, if_neg hj, and_self]
    · simp only [World.move, if_true, hnext, hone]
      exact .again x _ rfl trivial

theorem steady_read (w : Session) (k : ℕ) (p q : Phase) (hw : Steady r em n w)
    (hk : w.server.calls k = some p) (hcall : q.call = p.call)
    (hfirst : ∀ negotiate c, FirstPhase (em k) negotiate c p → FirstPhase (em k) negotiate c q)
    (hagain : AgainPhase (em k) w.server.store p → AgainPhase (em k) w.server.store q) :
    Steady r em n {w with server := w.server.move k q} := by
  have hkn := called_known w k p hw hk
  have hstage := hw.stage k hkn
  rw [hk] at hstage
  refine steady_move w _ k hw ?_ ?_ hkn ?_
  · exact ⟨hw.entries,fun _ _ h => h⟩
  · intro j hj
    simp only [World.move, if_neg hj, and_self]
  · simp only [World.move, if_true]
    rcases stage_some _ _ _ _ _ hstage with ⟨neg,x,hnext,hc,hphase,hspent⟩ |
      ⟨x,hnext,hone,hc,hphase⟩
    · rw [hnext]
      exact .first x q _ (hcall.trans hc) (hfirst _ _ hphase) hspent
    · rw [hnext, hone]
      exact .again x q (hcall.trans hc) (hagain hphase)

theorem steady_finish (hon : HonestSignatures) (digest : ∀ b, Platform.sha256 b ≠ [])
    (hpin : r.options.chain = none) (hd : Distinct em n) (hcap : n ≤ memoryChainCacheCap)
    (w : Session) (k : ℕ) (l : Looked) (t₁ t₂ : DateTime) (hw : Steady r em n w)
    (hk : w.server.calls k = some (.ready l t₁ t₂))
    (hdue : ∀ negotiate (x : Emission (em k) negotiate),
      l.call.delivery = x.first ∨ l.call.delivery = x.again → Due x.message r t₁) :
    Steady r em n {w with server := w.server.finish (some memoryChainCache) k l t₁ t₂} := by
  have hkn := called_known w k _ hw hk
  have hstage := hw.stage k hkn
  rw [hk] at hstage
  rcases stage_some _ _ _ _ _ hstage with ⟨neg,x,hnext,hcall,hphase,hspent⟩ |
    ⟨x,hnext,hone,hcall,hphase⟩
  · have hcall : l.call = ⟨r,x.first⟩ := hcall
    obtain ⟨_,hfound⟩ := hphase
    have hstays : ∀ out, settle l.call.receiver (some memoryChainCache).isSome l.call.delivery l.key
        l.found t₁ t₂ = .ok (out,.none) →
        FirstPhase (em k) neg (w.resent k) (.answered l t₁ t₂ out) →
        Steady r em n {w with server := w.server.finish (some memoryChainCache) k l t₁ t₂} := by
      intro out hs hout
      rw [World.finish, hs]
      refine steady_move w _ k hw ?_ ?_ hkn ?_
      · exact ⟨hw.entries,fun _ _ h => h⟩
      · intro j hj
        simp only [World.move, if_neg hj, and_self]
      · simp only [World.move, if_true, hnext]
        exact .first x _ _ hcall hout hspent
    have hsettle := settle_first hon digest x r hpin true l.key l.found (hfound.imp_right And.left)
      t₁ t₂ (hdue neg x (Or.inl (congrArg Call.delivery hcall)))
    rw [hcall] at hstays
    rcases hsettle with ⟨c,hs⟩ | ⟨hneg,hnone,hs⟩
    · exact hstays _ hs (Or.inl ⟨c,rfl⟩)
    · refine hstays _ hs (Or.inr ⟨hneg,?_,rfl⟩)
      rcases hfound with hsome | hzero
      · rw [hnone] at hsome
        cases hsome
      · exact hzero.2
  · have hcall : l.call = ⟨r,x.again⟩ := hcall
    obtain ⟨c,hs⟩ := settle_full hon digest x.message r hpin true l.key l.found t₁ t₂
      (hdue true x (Or.inr (congrArg Call.delivery hcall)))
    rw [← again_full] at hs
    obtain ⟨hkeeps,hcached⟩ := keeps_put w.server.store hw.entries hd hcap k hkn
    have hfinish : w.server.finish (some memoryChainCache) k l t₁ t₂ =
        {w.server with
          store := lruPut memoryChainCacheCap (em k).key (em k).chain w.server.store
          log := logged l.call t₁ (.put (em k).key (em k).chain) w.server.log}.move k
            (.answered l t₁ t₂ (.claims c)) := by
      rw [World.finish, hcall, Option.isSome_some, hs]
      rfl
    rw [hfinish]
    refine steady_move w _ k hw hkeeps ?_ hkn ?_
    · intro j hj
      simp only [World.move, if_neg hj, and_self]
    · simp only [World.move, if_true, hnext, hone]
      exact .again x _ hcall ⟨⟨c,rfl⟩,hcached⟩

theorem steady_emit (w u : Session) (i : ℕ) (hw : Steady r em n w) (hi : i < n)
    (x : Emission (em i) negotiate) (h : step r w (.emit i (emission x)) = some u) :
    Steady r em n u := by
  rw [emission_first] at h
  obtain ⟨hnext,rfl⟩ := step_emit w u i _ _ h
  have hstage := hw.stage i hi
  rw [hnext] at hstage
  obtain ⟨_,hspent⟩ := stage_none _ _ _ _ hstage
  refine steady_move w _ i hw ?_ ?_ hi ?_
  · exact ⟨hw.entries,fun _ _ h => h⟩
  · intro j hj
    simp only [Session.send, World.move, if_neg hj, and_self]
  · simp only [Session.send, World.move, if_true]
    exact .first x _ _ rfl trivial hspent

theorem steady_hear (w u : Session) (i : ℕ) (hw : Steady r em n w)
    (h : step r w (.hear i) = some u) : Steady r em n u := by
  obtain ⟨next,l,t₁,t₂,out,hnext,hk,hu⟩ := step_hear w u i h
  have hi := called_known w i _ hw hk
  have hstage := hw.stage i hi
  rw [hk, hnext] at hstage
  have hrest : Spent (em i) w.server.store (w.resent i) → Steady r em n (w.rest i) := by
    intro hspent
    refine steady_move w _ i hw ?_ ?_ hi ?_
    · exact ⟨hw.entries,fun _ _ h => h⟩
    · intro j hj
      simp only [Session.rest, if_neg hj, and_self]
    · simp only [Session.rest, if_true]
      exact .rest _ hspent
  rcases stage_some _ _ _ _ _ hstage with ⟨neg,x,hn,hcall,hphase,hspent⟩ |
    ⟨x,hn,hone,hcall,hphase⟩
  · obtain rfl := Option.some.inj hn
    rcases hphase with ⟨c,rfl⟩ | ⟨rfl,hzero,rfl⟩
    · rcases hu with ⟨y,_,rfl⟩ | ⟨d,more,hsend,_⟩
      · exact hrest hspent
      · rw [afterFirst, asksChain, Bool.and_false] at hsend
        cases hsend
    · rcases hu with ⟨y,hdone,_⟩ | ⟨d,more,hsend,rfl⟩
      · cases hdone
      · obtain ⟨rfl,rfl⟩ := Flow.send.inj hsend
        refine steady_move w _ i hw ?_ ?_ hi ?_
        · exact ⟨hw.entries,fun _ _ h => h⟩
        · intro j hj
          simp only [Session.spend, Session.send, World.move, if_neg hj, and_self]
        · simp only [Session.spend, Session.send, World.move, if_true, hzero]
          exact .again x _ rfl trivial
  · obtain rfl := Option.some.inj hn
    rcases hu with ⟨y,_,rfl⟩ | ⟨d,more,hsend,_⟩
    · exact hrest ⟨hone.le,fun _ => hphase.2⟩
    · cases hsend

/-- Emitters send their own messages, which are current where they are verified. -/
def Fair (r : Receiver) (em : ℕ → Emitter) (n : ℕ) (w : Session) : Event → Prop
  | .serve (.finish k) => ∀ l t₁ t₂, w.server.calls k = some (.ready l t₁ t₂) →
      ∀ negotiate (x : Emission (em k) negotiate),
        l.call.delivery = x.first ∨ l.call.delivery = x.again → Due x.message r t₁
  | .emit i f => i < n ∧ ∃ negotiate, ∃ x : Emission (em i) negotiate, f = emission x
  | _ => True

theorem steady_step (hon : HonestSignatures) (digest : ∀ b, Platform.sha256 b ≠ [])
    (hpin : r.options.chain = none) (hd : Distinct em n) (hcap : n ≤ memoryChainCacheCap)
    (w : Session) (ev : Event) (u : Session) (hf : Fair r em n w ev)
    (h : step r w ev = some u) (hw : Steady r em n w) : Steady r em n u := by
  cases ev with
  | emit i f =>
    obtain ⟨hi,neg,x,rfl⟩ := hf
    exact steady_emit w u i hw hi x h
  | hear i => exact steady_hear w u i hw h
  | serve ev =>
    obtain ⟨hne,s,hs,rfl⟩ := step_serve w u ev h
    cases ev with
    | tick t =>
      obtain ⟨_,rfl⟩ := (step_tick _ _ _).1 hs
      exact ⟨hw.entries,hw.stage,hw.beyond⟩
    | arrive k q => exact absurd rfl (hne k q)
    | look k =>
      obtain ⟨q,hk,rfl⟩ := (step_look _ _ _).1 hs
      exact steady_look hon w k q hw hd hk
    | readFirst k =>
      obtain ⟨l,hk,rfl⟩ := (step_readFirst _ _ _).1 hs
      exact steady_read w k _ _ hw hk rfl (fun _ _ h => h) fun _ => trivial
    | readSecond k =>
      obtain ⟨l,t₁,hk,rfl⟩ := (step_readSecond _ _ _).1 hs
      exact steady_read w k _ _ hw hk rfl (fun _ _ h => h) fun _ => trivial
    | finish k =>
      obtain ⟨l,t₁,t₂,hk,rfl⟩ := (step_finish _ _ _).1 hs
      exact steady_finish hon digest hpin hd hcap w k l t₁ t₂ hw hk (hf l t₁ t₂ hk)

/-- Emitters of distinct keys that the cache has room for: however their calls mix, each
sends its chain along at most once over all its messages, no call fails, and a message
is accepted unless it is the first of its emitter to need the chain, when that is asked
for. -/
theorem sessions_amortised (hon : HonestSignatures) (digest : ∀ b, Platform.sha256 b ≠ [])
    (r : Receiver) (hpin : r.options.chain = none) (em : ℕ → Emitter) (n : ℕ)
    (hd : Distinct em n) (hcap : n ≤ memoryChainCacheCap) (clock : DateTime) (es : List Event)
    (w : Session) (hm : Meets (step r) (Fair r em n) (Session.start clock) es)
    (h : run (step r) (Session.start clock) es = some w) :
    ((∀ i, w.resent i ≤ 1) ∧ ∑ i ∈ Finset.range n, w.resent i ≤ n) ∧
    (∀ i q x, w.server.calls i ≠ some (.failed q x)) ∧
    ∀ i l t₁ t₂ out, w.server.calls i = some (.answered l t₁ t₂ out) →
      (∃ c, out = .claims c) ∨ w.resent i = 0 ∧ out = .reject chainRequired := by
  have hstart : Steady r em n (Session.start clock) := by
    refine ⟨⟨List.nodup_nil,fun x hx => by cases hx⟩,?_,fun i _ => ⟨rfl,rfl,rfl⟩⟩
    intro i _
    exact .rest 0 ⟨Nat.zero_le 1,fun h => by cases h⟩
  have hw : Steady r em n w := run_invariant _ (Fair r em n) (Steady r em n)
    (steady_step hon digest hpin hd hcap) _ w es hm h hstart
  have hresent : ∀ i, w.resent i ≤ 1 := by
    intro i
    by_cases hi : i < n
    · exact stage_resent _ _ _ _ _ (hw.stage i hi)
    · rw [(hw.beyond i (not_lt.1 hi)).2.2]
      exact Nat.zero_le 1
  refine ⟨⟨hresent,?_⟩,?_,?_⟩
  · calc ∑ i ∈ Finset.range n, w.resent i ≤ ∑ _i ∈ Finset.range n, 1 :=
          Finset.sum_le_sum fun i _ => hresent i
      _ = n := by simp
  · intro i q x hk
    have hstage := hw.stage i (called_known w i _ hw hk)
    rw [hk] at hstage
    rcases stage_some _ _ _ _ _ hstage with ⟨_,_,_,_,hphase,_⟩ | ⟨_,_,_,_,hphase⟩
    · exact hphase
    · exact hphase
  · intro i l t₁ t₂ out hk
    have hstage := hw.stage i (called_known w i _ hw hk)
    rw [hk] at hstage
    rcases stage_some _ _ _ _ _ hstage with ⟨_,_,_,_,hphase,_⟩ | ⟨_,_,_,_,hphase⟩
    · exact hphase.imp_right And.right
    · exact Or.inl hphase.1

theorem due_alike (hon : HonestSignatures) (digest : ∀ b, Platform.sha256 b ≠ [])
    (hpin : r.options.chain = none) (x : Emission e true) (y : Emission e negotiate) (t : DateTime)
    (h : Due x.message r t) (htoken : x.token = y.token) (hbody : x.message.body = y.message.body)
    (haud : x.message.audience = y.message.audience) : Due y.message r t := by
  obtain ⟨d,hd,_,_,_,_,hnone,_⟩ := message_read hon x.message
  rw [← negotiated_token, htoken] at hd
  cases negotiate with
  | false =>
    have hchain := (embedded_read hon y).2 d ((messageToken_ok _ _).1 hd).1
    rw [hnone] at hchain
    cases hchain
  | true =>
    have hsame : y.message.bare = x.message.bare := by
      rw [Minted.bare, Minted.bare, ← negotiated_token, ← negotiated_token, htoken, hbody, haud]
    obtain ⟨c,hc,_⟩ := verify_own hon digest x.message r hpin t h
    exact due_of_verified hon y.message r hpin t c (hsame ▸ hc)

def served : List Event :=
  [.serve (.look 0),.serve (.readFirst 0),.serve (.readSecond 0),.serve (.finish 0)]

theorem served_run (em : ℕ → Emitter) (n : ℕ) (w : Session) (q : Call) (key : Option Str)
    (found : Option Chain) (s : Lru) (out : Outcome) (write : Write)
    (hcall : w.server.calls 0 = some (.waiting q))
    (hlook : w.server.look (some memoryChainCache) 0 q =
      {w.server with store := s}.move 0 (.looked ⟨q,key,found⟩))
    (hsettle : settle q.receiver true q.delivery key found w.server.clock w.server.clock =
      .ok (out,write))
    (hdue : ∀ negotiate (x : Emission (em 0) negotiate),
      q.delivery = x.first ∨ q.delivery = x.again → Due x.message r w.server.clock) :
    ∃ u, (run (step r) w served = some u ∧ Meets (step r) (Fair r em n) w served) ∧
      u.server.calls 0 =
        some (.answered ⟨q,key,found⟩ w.server.clock w.server.clock out) ∧
      u.server.store = applyWrite (some memoryChainCache) write s ∧ u.server.clock = w.server.clock ∧
      u.next = w.next ∧ u.resent = w.resent := by
  simp [served, run, Meets, step, ChainRuns.step, hcall, hlook, World.move, World.finish, hsettle,
    Fair]
  exact ⟨hdue false,hdue true⟩

end Runs

section Widgets
local instance : Platform := lateDomain.honest

def opening (f : Client) : List Event := .emit 0 f :: served

theorem widget_due (x : Emission emitter true) (t : DateTime) (h : Due x.message negotiating t)
    (d : Delivery) (ht : d.token = x.token) (hb : d.body = x.message.body)
    (ha : d.audience = x.message.audience) (negotiate : Bool) (y : Emission emitter negotiate)
    (hd : d = y.first ∨ d = y.again) : Due y.message negotiating t := by
  apply due_alike (honest_signatures lateDomain) widget_digests rfl x y t h
  · rw [← ht]
    rcases hd with rfl | rfl <;> rfl
  · rw [← hb]
    rcases hd with rfl | rfl <;> rfl
  · rw [← ha]
    rcases hd with rfl | rfl <;> rfl

def Goes (w : Session) (es : List Event) (u : Session) : Prop :=
  run (step negotiating) w es = some u ∧
    Meets (step negotiating) (Fair negotiating (fun _ => emitter) 1) w es

theorem opening_asked (x : Emission emitter true) (hx : Due x.message negotiating requestedAt) :
    ∃ u, Goes (Session.start requestedAt) (opening (emission x)) u ∧
      (∃ l t₁ t₂, u.server.calls 0 = some (.answered l t₁ t₂ (.reject chainRequired))) ∧
      u.next 0 = some (afterFirst x) ∧ u.resent 0 = 0 ∧ u.server.store = [] ∧
      u.server.clock = requestedAt := by
  obtain ⟨u,hu,hasked,hempty,hclock,hnext,hsent⟩ := served_run (fun _ => emitter) 1
    ((Session.start requestedAt).send 0 ⟨negotiating,x.first⟩ (afterFirst x))
    ⟨negotiating,x.first⟩ (some emitter.key) none [] _ _ rfl
    (look_first (honest_signatures _) _ 0 x)
    (settle_unknown (honest_signatures _) x negotiating rfl true _ requestedAt requestedAt)
    (widget_due x requestedAt hx _ rfl rfl rfl)
  have hgoes := run_meets_cons (step negotiating) (Fair negotiating (fun _ => emitter) 1)
    (Session.start requestedAt) _ u (.emit 0 (emission x)) served ⟨Nat.one_pos,true,x,rfl⟩ rfl hu
  exact ⟨u,hgoes,⟨_,_,_,hasked⟩,by rw [hnext]; rfl,by rw [hsent]; rfl,hempty,hclock⟩

theorem sequel_accepted (x : Emission emitter true) (hx : Due x.message negotiating requestedAt)
    (w : Session) (hasked : ∃ l t₁ t₂, w.server.calls 0 =
      some (.answered l t₁ t₂ (.reject chainRequired)))
    (hnext : w.next 0 = some (afterFirst x)) (hclock : w.server.clock = requestedAt)
    (hempty : w.server.store = []) : ∃ u, Goes w (.hear 0 :: served) u ∧
      (∃ l t₁ t₂ c, u.server.calls 0 = some (.answered l t₁ t₂ (.claims c))) ∧
      u.next 0 = some .done ∧ u.resent 0 = w.resent 0+1 ∧
      u.server.store = [(emitter.key,emitter.chain)] ∧ u.server.clock = requestedAt := by
  obtain ⟨l,t₁,t₂,hasked⟩ := hasked
  obtain ⟨c,hfull⟩ := settle_full (honest_signatures _) widget_digests x.message negotiating rfl true
    none none requestedAt requestedAt hx
  rw [← again_full] at hfull
  have hhear : step negotiating w (.hear 0) =
      some ((w.send 0 ⟨negotiating,x.again⟩ .done).spend 0) := by
    simp [step, hnext, hasked, afterFirst, asksChain, chainRequired]
  obtain ⟨u,hu,hanswer,hstore,hclock',hnext',hsent⟩ := served_run (fun _ => emitter) 1
    ((w.send 0 ⟨negotiating,x.again⟩ .done).spend 0) ⟨negotiating,x.again⟩ none none w.server.store
    _ _ (by simp [Session.send, Session.spend, World.move]) (look_again _ 0 x)
    (hclock ▸ hfull) (widget_due x _ (hclock ▸ hx) _ rfl rfl rfl)
  refine ⟨u,run_meets_cons _ _ _ _ _ _ _ trivial hhear hu,⟨_,_,_,_,hanswer⟩,?_,?_,?_,
    hclock'.trans hclock⟩
  · rw [hnext']
    simp [Session.spend, Session.send]
  · rw [hsent]
    simp [Session.spend, Session.send]
  · rw [hstore, hempty]
    rfl

theorem sequel_known (y : Emission emitter true) (hy : Due y.message negotiating requestedAt)
    (w : Session) (hdone : ∃ l t₁ t₂ c, w.server.calls 0 = some (.answered l t₁ t₂ (.claims c)))
    (hnext : w.next 0 = some .done) (hclock : w.server.clock = requestedAt)
    (hstore : w.server.store = [(emitter.key,emitter.chain)]) :
    ∃ u, Goes w (.hear 0 :: opening (emission y)) u ∧
      (∃ l t₁ t₂ c, u.server.calls 0 = some (.answered l t₁ t₂ (.claims c))) ∧
      u.resent 0 = w.resent 0 := by
  obtain ⟨l,t₁,t₂,c,hanswer⟩ := hdone
  obtain ⟨c',hknown⟩ := settle_known (honest_signatures _) widget_digests y.message negotiating rfl
    true (some emitter.key) requestedAt requestedAt hy
  rw [← first_bare] at hknown
  have hrest : step negotiating w (.hear 0) = some (w.rest 0) := by
    simp [step, hnext, hanswer]
  have hemit : step negotiating (w.rest 0) (.emit 0 (emission y)) =
      some ((w.rest 0).send 0 ⟨negotiating,y.first⟩ (afterFirst y)) := by
    simp [step, emission_first, Session.rest]
  have hlook := look_first (honest_signatures _) (r := negotiating)
    ((w.rest 0).send 0 ⟨negotiating,y.first⟩ (afterFirst y)).server 0 y
  have hfound : ((w.rest 0).send 0 ⟨negotiating,y.first⟩ (afterFirst y)).server.store.lookup
      emitter.key = some emitter.chain := by
    show w.server.store.lookup emitter.key = some emitter.chain
    simp [hstore]
  rw [hfound] at hlook
  obtain ⟨u,hu,hclaims,_,_,_,hsent⟩ := served_run (fun _ => emitter) 1
    ((w.rest 0).send 0 ⟨negotiating,y.first⟩ (afterFirst y)) ⟨negotiating,y.first⟩ _ _ _
    _ _ (by simp [Session.send, World.move]) hlook
    (hclock ▸ hknown) (widget_due y _ (hclock ▸ hy) _ rfl rfl rfl)
  have hopening := run_meets_cons (step negotiating) (Fair negotiating (fun _ => emitter) 1)
    (w.rest 0) _ u (.emit 0 (emission y)) served ⟨Nat.one_pos,true,y,rfl⟩ hemit hu
  exact ⟨u,run_meets_cons _ _ _ _ _ _ _ trivial hrest hopening,⟨_,_,_,_,hclaims⟩,
    congrFun hsent 0⟩

/-- The first message is asked for its chain and accepted when it comes again; the
second is accepted at once. -/
theorem sessions_amortised_widgets : ∃ (x y : Emission emitter true) (u w : Session),
    run (step negotiating) (Session.start requestedAt) (opening (emission x)) = some u ∧
    (∃ l t₁ t₂, u.server.calls 0 = some (.answered l t₁ t₂ (.reject chainRequired))) ∧
    run (step negotiating) u (.hear 0 :: served ++ .hear 0 :: opening (emission y)) = some w ∧
    (∃ l t₁ t₂ c, w.server.calls 0 = some (.answered l t₁ t₂ (.claims c))) ∧
    w.resent 0 = 1 ∧ ∑ i ∈ Finset.range 1, w.resent i ≤ 1 := by
  obtain ⟨x,_,_,_,_,hx⟩ := widget_emission destination (by decide) (by decide)
  obtain ⟨y,_,_,_,_,hy⟩ := widget_emission (lit "api.example.com/v1/gadgets") (by decide) (by decide)
  obtain ⟨u,hu,hasked,hnext,hnone,hempty,hclock⟩ := opening_asked x hx
  obtain ⟨v,hv,haccepted,hdone,hsent,hstore,hclock'⟩ := sequel_accepted x hx u hasked hnext hclock
    hempty
  obtain ⟨w,hw,hanswer,hsame⟩ := sequel_known y hy v haccepted hdone hclock' hstore
  have hsequel := run_meets_append _ _ _ _ _ _ _ hv hw
  have hall := run_meets_append _ _ _ _ _ _ _ hu hsequel
  have hsteady := sessions_amortised (honest_signatures _) widget_digests negotiating rfl
    (fun _ => emitter) 1 (fun i hi j hj _ => by omega) (by decide) requestedAt _ w hall.2 hall.1
  exact ⟨x,y,u,w,hu.1,hasked,hsequel.1,hanswer,by rw [hsame, hsent, hnone],hsteady.1.2⟩

end Widgets

end Valiss.Sessions
