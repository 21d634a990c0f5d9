import Valiss.ChainCacheRuns
import Valiss.Exchange

/-!
# Who is evicted, and who is asked again

A call may drop the entry it looked up and found failing, and nothing else; a
chainless message that fails for a reason of its own, under a valid cached
chain, is to be refused plainly. The code attributes such a failure to the
chain, deletes whatever is under the key by then, and makes room in a full
cache. A run keeps the rule exactly when none of its steps comes to that.
-/

set_option autoImplicit false

namespace Valiss.EvictionRuns
open Lib.Unicode Lib.Json Lib.Calendar Lib.Fallible Lib.Runs Valiss.Errors Valiss.TokenClaims
open Valiss.Decode Valiss.Verify Valiss.Message Valiss.Chains Valiss.MsgTransport Valiss.ChainRuns
open Valiss.Exchange Valiss.ChainCacheRuns Valiss.Recorded

section Runs
variable [Platform]

/-- The chain verifies for the key at `now`: under the anchor, in its windows, at
one epoch. -/
structure Valid (r : Receiver) (now : DateTime) (k : Str) (c : Chain) (account : AccountClaims)
    (operator : Option OperatorClaims) (user : UserClaims) : Prop where
  anchor : messageAnchor r.anchor r.options.operatorToken (.str c.1) = .ok (account,operator)
  below : verifyUser c.2 account.subject = .ok user
  subject : user.subject = k
  epochs : user.epoch = account.epoch ∧ ∀ o ∈ operator, o.epoch = account.epoch
  operatorWindow : ∀ o ∈ operator, o.expired now r.options.skew = .ok false ∧
    o.notYetValid now r.options.skew = .ok false
  accountWindow : account.expired now r.options.skew = .ok false ∧
    account.notYetValid now r.options.skew = .ok false
  userWindow : user.expired now r.options.skew = .ok false ∧
    user.notYetValid now r.options.skew = .ok false

def Chainless (tok k : Str) : Prop :=
  ∃ d, messageToken tok = .ok d ∧ d.issuer = k ∧ d.chain = none

def ownReasons : List Reason :=
  [.checksumMismatch,.checksumMissing,.wrongAudience,.expired,.notYetValid,.epochMismatch]

def Failing (l : Looked) (t₁ : DateTime) (c : Chain) : Prop :=
  ∃ text reason, runVerify l.call.receiver l.call.delivery t₁ (some c) = .error (.valiss text reason)

/-- A chainless message that fails for a reason of its own under a valid cached chain. -/
structure OwnFault (l : Looked) (t₁ : DateTime) (k : Str) (c : Chain) : Prop where
  key : l.key = some k
  found : l.found = some c
  chainless : Chainless l.call.delivery.token k
  valid : ∃ account operator user,
    Valid l.call.receiver (Receiver.at l.call.receiver t₁) k c account operator user
  rejected : ∃ text, ∃ r ∈ ownReasons,
    runVerify l.call.receiver l.call.delivery t₁ (some c) = .error (.valiss text (some r))

/-- What a step may do to the answers and the entries of others. -/
structure Attributed (w : World Lru) (e : Event) (u : World Lru) : Prop where
  plain : ∀ j l t₁ t₂ k c, e = .finish j → w.calls j = some (.ready l t₁ t₂) →
    OwnFault l t₁ k c → (∃ text, u.calls j = some (.answered l t₁ t₂ (.reject ⟨text,false⟩))) ∧
      u.store.lookup k = w.store.lookup k
  removed : ∀ k c, w.store.lookup k = some c → u.store.lookup k = none →
    ∃ j l t₁ t₂, e = .finish j ∧ w.calls j = some (.ready l t₁ t₂) ∧ l.key = some k ∧
      l.found = some c ∧ Failing l t₁ c

/-- The chain found is given up: it fails, and without it the message verifies or
lacks a chain. -/
structure GivenUp (l : Looked) (t₁ t₂ : DateTime) (c : Chain) : Prop where
  failing : Failing l t₁ c
  without : (∃ claims, runVerify l.call.receiver l.call.delivery t₂ none = .ok claims) ∨
    ∃ text, runVerify l.call.receiver l.call.delivery t₂ none =
      .error (.valiss text (some .noChain))

/-- A call that ends without coming to the misattribution, to a changed entry or
to a full cache. -/
structure Careful (store : Lru) (l : Looked) (t₁ t₂ : DateTime) : Prop where
  noFault : ∀ k c, ¬ OwnFault l t₁ k c
  unchanged : ∀ k c, l.key = some k → l.found = some c → GivenUp l t₁ t₂ c →
    store.lookup k = none ∨ store.lookup k = some c
  room : l.call.delivery.detached = true → ∀ claims, runVerify l.call.receiver l.call.delivery t₁
    (some (l.call.delivery.chainAccount,l.call.delivery.chainUser)) = .ok claims →
    (store.lookup claims.subject).isSome = true ∨ store.length < memoryChainCacheCap

def CarefulStep (w : World Lru) : Event → Prop
  | .finish j => ∀ l t₁ t₂, w.calls j = some (.ready l t₁ t₂) → Careful w.store l t₁ t₂
  | _ => True

def AttributedStep (w : World Lru) (e : Event) : Prop :=
  ∀ u, step (some memoryChainCache) w e = some u → Attributed w e u

def Unpinned : Event → Prop
  | .arrive _ q => q.receiver.options.chain = none
  | _ => True

/-- The key of a call is the one it computes, and only with a key is a chain found. -/
structure Kept (w : World Lru) : Prop where
  nodup : (w.store.map Prod.fst).Nodup
  unpinned : ∀ j p, w.calls j = some p → p.call.receiver.options.chain = none
  looked : ∀ j p l, w.calls j = some p → p.looked? = some l →
    lookupKey (some memoryChainCache) l.call.delivery = .ok l.key ∧
      (l.found.isSome = true → l.key.isSome = true)

theorem kept_start (clock : DateTime) : Kept (World.start clock []) := by
  constructor <;> simp [World.start]

theorem kept_move (w : World Lru) (j : ℕ) (p : Phase) (h : Kept w)
    (hp : p.call.receiver.options.chain = none)
    (hl : ∀ l, p.looked? = some l → lookupKey (some memoryChainCache) l.call.delivery = .ok l.key ∧
      (l.found.isSome = true → l.key.isSome = true)) : Kept (w.move j p) := by
  constructor
  · exact h.nodup
  · intro i q hq
    by_cases hi : i = j
    · simp only [World.move, hi, if_true, Option.some.injEq] at hq
      exact hq ▸ hp
    · simp only [World.move, if_neg hi] at hq
      exact h.unpinned i q hq
  · intro i q l hq
    by_cases hi : i = j
    · simp only [World.move, hi, if_true, Option.some.injEq] at hq
      exact hq ▸ hl l
    · simp only [World.move, if_neg hi] at hq
      exact h.looked i q l hq

theorem kept_step (w : World Lru) (e : Event) (u : World Lru) (hf : Unpinned e)
    (h : step (some memoryChainCache) w e = some u) (hw : Kept w) : Kept u := by
  cases e with
  | tick t =>
    obtain ⟨_,rfl⟩ := (step_tick _ _ _).1 h
    exact ⟨hw.nodup,hw.unpinned,hw.looked⟩
  | arrive k q =>
    obtain ⟨_,rfl⟩ := (step_arrive _ _ _ _).1 h
    exact kept_move w k _ hw hf fun l hl => by cases hl
  | look k =>
    obtain ⟨q,hk,rfl⟩ := (step_look _ _ _).1 h
    have hq := hw.unpinned k _ hk
    unfold World.look
    split
    next => exact kept_move w k _ hw hq fun l hl => by cases hl
    next key hkey =>
      have hstore : ((lookupChain (some memoryChainCache) key w.store).2.map Prod.fst).Nodup := by
        cases key with
        | none => exact hw.nodup
        | some k => exact nodup_lruGet k w.store hw.nodup
      refine kept_move _ k _ ⟨hstore,hw.unpinned,hw.looked⟩ hq ?_
      intro l hl
      obtain rfl := Option.some.inj hl
      refine ⟨hkey,?_⟩
      cases key with
      | none => simp [lookupChain]
      | some k => simp
  | readFirst k =>
    obtain ⟨l,hk,rfl⟩ := (step_readFirst _ _ _).1 h
    exact kept_move w k _ hw (hw.unpinned k (.looked l) hk) fun m hm => hw.looked k _ m hk hm
  | readSecond k =>
    obtain ⟨l,t₁,hk,rfl⟩ := (step_readSecond _ _ _).1 h
    exact kept_move w k _ hw (hw.unpinned k (.timed l t₁) hk) fun m hm => hw.looked k _ m hk hm
  | finish k =>
    obtain ⟨l,t₁,t₂,hk,rfl⟩ := (step_finish _ _ _).1 h
    have hl := hw.unpinned k _ hk
    unfold World.finish
    split
    next => exact kept_move w k _ hw hl fun m hm => by cases hm
    next out write _ =>
      have hstore : ((applyWrite (some memoryChainCache) write w.store).map Prod.fst).Nodup := by
        cases write with
        | none => exact hw.nodup
        | put key c => exact nodup_lruPut _ key c w.store hw.nodup
        | delete key => exact nodup_without key w.store hw.nodup
      exact kept_move _ k (.answered l t₁ t₂ out) ⟨hstore,hw.unpinned,hw.looked⟩ hl
        fun m hm => hw.looked k _ m hk hm

theorem chainless_noChain (r : Receiver) (m : Delivery) (k : Str) (t : DateTime)
    (hpin : r.options.chain = none) (h : Chainless m.token k) : runVerify r m t none =
      .error (errFor (lit "valiss: message token carries no chain and none was supplied")
        .noChain) := by
  obtain ⟨d,hd,_,hchain⟩ := h
  simp only [runVerify, verifyUnder, hd, ok_bind, messageChain, hpin, Option.getD_none, hchain,
    selectChain]
  rfl

theorem undetached (w : World Lru) (hw : Kept w) (j : ℕ) (l : Looked) (t₁ t₂ : DateTime) (c : Chain)
    (hj : w.calls j = some (.ready l t₁ t₂)) (hc : l.found = some c) :
    l.call.delivery.detached = false := by
  obtain ⟨hkey,hsome⟩ := hw.looked j _ l hj rfl
  cases hd : l.call.delivery.detached with
  | false => rfl
  | true =>
    simp only [lookupKey, Option.isSome_some, if_true, cacheKey, hd, Except.ok.injEq] at hkey
    rw [← hkey, hc] at hsome
    simp at hsome

theorem settle_givenUp (l : Looked) (t₁ t₂ : DateTime) (k : Str) (c : Chain)
    (hd : l.call.delivery.detached = false) (hk : l.key = some k) (hc : l.found = some c)
    (h : GivenUp l t₁ t₂ c) :
    ∃ out, settle l.call.receiver true l.call.delivery l.key l.found t₁ t₂ = .ok (out,.delete k) := by
  obtain ⟨⟨text,reason,hv⟩,hn⟩ := h
  unfold settle
  simp only [hd, Bool.false_eq_true, if_false, hk, hc, hv]
  rcases hn with ⟨claims,hn⟩ | ⟨text',hn⟩
  · rw [hn]
    exact ⟨_,rfl⟩
  · rw [hn]
    exact ⟨_,rfl⟩

theorem settle_delete (l : Looked) (t₁ t₂ : DateTime) (out : Outcome) (k : Str)
    (hd : ∀ c, l.found = some c → l.call.delivery.detached = false)
    (h : settle l.call.receiver true l.call.delivery l.key l.found t₁ t₂ = .ok (out,.delete k)) :
    l.key = some k ∧ ∃ c, l.found = some c ∧ GivenUp l t₁ t₂ c := by
  unfold settle at h
  dsimp only at h
  split at h
  next => split_ifs at h <;> simp at h
  next => cases h
  next text reason hv =>
    split at h
    next c key hfound hkey =>
      rw [hd c hfound, if_neg (by simp), hfound] at hv
      split at h
      next claims hn =>
        obtain ⟨_,rfl⟩ := by simpa using h
        exact ⟨hkey,c,hfound,⟨text,reason,hv⟩,Or.inl ⟨claims,hn⟩⟩
      next => cases h
      next text' reason' hn =>
        split_ifs at h with hr
        · obtain ⟨_,rfl⟩ := by simpa using h
          exact ⟨hkey,c,hfound,⟨text,reason,hv⟩,Or.inr ⟨text',hr ▸ hn⟩⟩
        · simp at h
    next => simp at h

theorem settle_fault (l : Looked) (t₁ t₂ : DateTime) (k : Str) (c : Chain)
    (hpin : l.call.receiver.options.chain = none) (hd : l.call.delivery.detached = false)
    (h : OwnFault l t₁ k c) :
    settle l.call.receiver true l.call.delivery l.key l.found t₁ t₂ =
      .ok (.reject chainRequired,.delete k) := by
  obtain ⟨text,r,_,hv⟩ := h.rejected
  unfold settle
  simp only [hd, Bool.false_eq_true, if_false, h.key, h.found, hv,
    chainless_noChain _ _ k t₂ hpin h.chainless]
  rfl

theorem finish_settled (w : World Lru) (j : ℕ) (l : Looked) (t₁ t₂ : DateTime) (out : Outcome)
    (write : Write) (h : settle l.call.receiver true l.call.delivery l.key l.found t₁ t₂ =
      .ok (out,write)) :
    (w.finish (some memoryChainCache) j l t₁ t₂).store =
        applyWrite (some memoryChainCache) write w.store ∧
      (w.finish (some memoryChainCache) j l t₁ t₂).calls j = some (.answered l t₁ t₂ out) := by
  have hs : settle l.call.receiver (some memoryChainCache).isSome l.call.delivery l.key l.found
      t₁ t₂ = .ok (out,write) := h
  unfold World.finish
  rw [hs]
  exact ⟨rfl,by simp [World.move]⟩

theorem finish_removed (w : World Lru) (j : ℕ) (l : Looked) (t₁ t₂ : DateTime) (k : Str) (c : Chain)
    (hk : w.store.lookup k = some c)
    (hn : (w.finish (some memoryChainCache) j l t₁ t₂).store.lookup k = none) :
    ∃ out write, settle l.call.receiver true l.call.delivery l.key l.found t₁ t₂ =
      .ok (out,write) ∧ (write = .delete k ∨ ∃ s v, write = .put s v ∧ w.store.lookup s = none ∧
        memoryChainCacheCap ≤ w.store.length) := by
  cases hs : settle l.call.receiver true l.call.delivery l.key l.found t₁ t₂ with
  | error e =>
    have hstore : (w.finish (some memoryChainCache) j l t₁ t₂).store = w.store := by
      have hs' : settle l.call.receiver (some memoryChainCache).isSome l.call.delivery l.key
        l.found t₁ t₂ = .error e := hs
      unfold World.finish
      rw [hs']
      rfl
    rw [hstore, hk] at hn
    cases hn
  | ok x =>
    obtain ⟨out,write⟩ := x
    rw [(finish_settled w j l t₁ t₂ out write hs).1] at hn
    refine ⟨out,write,rfl,?_⟩
    cases write with
    | none =>
      rw [applyWrite, hk] at hn
      cases hn
    | delete i =>
      left
      by_contra hne
      have hi : k ≠ i := fun h => hne (h ▸ rfl)
      simp only [applyWrite, memoryChainCache, lruDelete, lookup_without, if_neg hi, hk] at hn
      cases hn
    | put s v =>
      right
      refine ⟨s,v,rfl,?_⟩
      by_contra hroom
      apply lookup_lruPut memoryChainCacheCap s k v w.store _ (by simp [hk]) hn
      by_cases hs : w.store.lookup s = none
      · exact Or.inr (Nat.lt_of_not_le fun hle => hroom ⟨hs,hle⟩)
      · exact Or.inl (Option.isSome_iff_ne_none.2 hs)

theorem careful_attributed (w : World Lru) (hw : Kept w) (j : ℕ) (l : Looked) (t₁ t₂ : DateTime)
    (hj : w.calls j = some (.ready l t₁ t₂)) (h : Careful w.store l t₁ t₂) :
    Attributed w (.finish j) (w.finish (some memoryChainCache) j l t₁ t₂) := by
  have hd := fun c => undetached w hw j l t₁ t₂ c hj
  constructor
  · intro i m s₁ s₂ k c he hi hf
    obtain rfl := Event.finish.inj he
    rw [hj, Option.some.injEq, Phase.ready.injEq] at hi
    obtain ⟨rfl,rfl,rfl⟩ := hi
    exact absurd hf (h.noFault k c)
  · intro k c hk hn
    obtain ⟨out,write,hs,hw' | ⟨s,v,hput,hnone,hfull⟩⟩ := finish_removed w j l t₁ t₂ k c hk hn
    · subst hw'
      obtain ⟨hkey,c',hc',hgiven⟩ := settle_delete l t₁ t₂ out k hd hs
      have hsame : w.store.lookup k = some c' := by
        rcases h.unchanged k c' hkey hc' hgiven with hx | hx
        · rw [hk] at hx
          cases hx
        · exact hx
      rw [hk, Option.some.injEq] at hsame
      subst hsame
      exact ⟨j,l,t₁,t₂,rfl,hj,hkey,hc',hgiven.failing⟩
    · subst hput
      obtain ⟨hdet,rfl,claims,hv,rfl⟩ := settle_put _ _ _ _ _ _ _ _ _ _ hs
      rcases h.room hdet claims hv with hx | hx
      · rw [hnone] at hx
        cases hx
      · omega

theorem attributed_careful (w : World Lru) (hw : Kept w) (j : ℕ) (l : Looked) (t₁ t₂ : DateTime)
    (hj : w.calls j = some (.ready l t₁ t₂))
    (h : Attributed w (.finish j) (w.finish (some memoryChainCache) j l t₁ t₂)) :
    Careful w.store l t₁ t₂ := by
  have hd := fun c => undetached w hw j l t₁ t₂ c hj
  have hpin : l.call.receiver.options.chain = none := hw.unpinned j _ hj
  have hself : ∀ i m s₁ s₂, Event.finish j = .finish i → w.calls i = some (.ready m s₁ s₂) →
      m = l ∧ s₁ = t₁ := by
    intro i m s₁ s₂ he hi
    rw [← Event.finish.inj he, hj, Option.some.injEq, Phase.ready.injEq] at hi
    exact ⟨hi.1.symm,hi.2.1.symm⟩
  constructor
  · intro k c hf
    have hs := settle_fault l t₁ t₂ k c hpin (hd c hf.found) hf
    obtain ⟨text,htext⟩ := (h.plain j l t₁ t₂ k c rfl hj hf).1
    rw [(finish_settled w j l t₁ t₂ _ _ hs).2, Option.some.injEq, Phase.answered.injEq] at htext
    exact Bool.noConfusion (congrArg Reject.chainRequired (Outcome.reject.inj htext.2.2.2))
  · intro k c hkey hc hgiven
    obtain ⟨out,hs⟩ := settle_givenUp l t₁ t₂ k c (hd c hc) hkey hc hgiven
    have hstore := (finish_settled w j l t₁ t₂ _ _ hs).1
    cases hk : w.store.lookup k with
    | none => exact Or.inl rfl
    | some v =>
      right
      obtain ⟨i,m,s₁,s₂,he,hi,_,hfound,_⟩ := h.removed k v hk
        (by rw [hstore]; simp [applyWrite, memoryChainCache, lruDelete, lookup_without])
      obtain ⟨rfl,_⟩ := hself i m s₁ s₂ he hi
      rw [← hfound, hc]
  · intro hdet claims hv
    by_contra hroom
    rw [not_or, Option.not_isSome_iff_eq_none, Nat.not_lt] at hroom
    have hs := settle_stored l.call.receiver true l.call.delivery l.key l.found t₁ t₂ claims hdet hv
    obtain ⟨k,v,hk,hn⟩ := lruPut_full memoryChainCacheCap claims.subject
      (l.call.delivery.chainAccount,l.call.delivery.chainUser) w.store hroom.1 hroom.2 (by decide)
      hw.nodup
    obtain ⟨i,m,s₁,s₂,he,hi,_,hfound,_⟩ := h.removed k v hk
      (by rw [(finish_settled w j l t₁ t₂ _ _ hs).1]; exact hn)
    obtain ⟨rfl,_⟩ := hself i m s₁ s₂ he hi
    rw [hd v hfound] at hdet
    cases hdet

theorem attributed_other (w u : World Lru) (e : Event)
    (he : ∀ j, e ≠ .finish j) (h : step (some memoryChainCache) w e = some u) :
    Attributed w e u := by
  constructor
  · intro j _ _ _ _ _ hj
    exact absurd hj (he j)
  · intro k c hk hn
    have hsame : u.store.lookup k = w.store.lookup k := by
      cases e with
      | tick t =>
        obtain ⟨_,rfl⟩ := (step_tick _ _ _).1 h
        rfl
      | arrive j q =>
        obtain ⟨_,rfl⟩ := (step_arrive _ _ _ _).1 h
        rfl
      | look j =>
        obtain ⟨q,_,rfl⟩ := (step_look _ _ _).1 h
        unfold World.look
        split
        next => rfl
        next key _ =>
          cases key with
          | none => rfl
          | some i => exact lookup_lruGet i k w.store
      | readFirst j =>
        obtain ⟨l,_,rfl⟩ := (step_readFirst _ _ _).1 h
        rfl
      | readSecond j =>
        obtain ⟨l,t₁,_,rfl⟩ := (step_readSecond _ _ _).1 h
        rfl
      | finish j => exact absurd rfl (he j)
    rw [hsame, hk] at hn
    cases hn

theorem step_attributed (w : World Lru) (e : Event) (hw : Kept w) :
    AttributedStep w e ↔ CarefulStep w e := by
  cases e with
  | finish j =>
    constructor
    · intro h l t₁ t₂ hj
      exact attributed_careful w hw j l t₁ t₂ hj (h _ ((step_finish _ _ _).2 ⟨l,t₁,t₂,hj,rfl⟩))
    · intro h u hu
      obtain ⟨l,t₁,t₂,hj,rfl⟩ := (step_finish _ _ _).1 hu
      exact careful_attributed w hw j l t₁ t₂ hj (h l t₁ t₂ hj)
  | _ =>
    apply iff_of_true
    · intro u hu
      exact attributed_other w u _ (fun _ h => by cases h) hu
    · trivial

/-- Over an initially empty cache and without pinned chains, a run keeps to the
rule at every step exactly when each of its steps is careful. -/
theorem eviction_attributed (clock : DateTime) (es : List Event) (hf : ∀ e ∈ es, Unpinned e) :
    Meets (step (some memoryChainCache)) AttributedStep (World.start clock []) es ↔
      Meets (step (some memoryChainCache)) CarefulStep (World.start clock []) es :=
  meets_congr _ Unpinned Kept AttributedStep CarefulStep kept_step
    (fun w e _ hw => step_attributed w e hw) _ es hf (kept_start clock)

theorem tampered_fault (r : Receiver) (m m' : Delivery) (t : DateTime) (k : Str) (chain : Chain)
    (c : MessageClaims) (hpin : r.options.chain = none) (htok : m'.token = m.token)
    (haud : m'.audience = m.audience) (hk : Chainless m.token k)
    (hv : runVerify r m t (some chain) = .ok c) (hbody : checksum m.body ≠ checksum m'.body) :
    OwnFault ⟨⟨r,m'⟩,some k,some chain⟩ t k chain := by
  obtain ⟨d,hd,hi,hnone⟩ := hk
  obtain ⟨d',hd',hchain,hw,hb⟩ := (verifyUnder_ok _ _ _ _).1 hv
  rw [hd, Except.ok.injEq] at hd'
  subst hd'
  obtain ⟨ca,ut,account,operator,user,hsel,hanchor,huser,hsub,he,hclaims⟩ :=
    (messageChain_ok _ _ _ _).1 hchain
  simp only [hpin, hnone, Option.getD_none, selectChain, Except.ok.injEq, Prod.mk.injEq,
    Value.str.injEq] at hsel
  obtain ⟨rfl,rfl⟩ := hsel
  obtain ⟨hpol,hea,heu⟩ := (messageEpochs_ok _ _ _ _ _ _ _).1 he
  have hwin := hw
  simp only [messageWindows, bind_ok, checkWindow_ok, hclaims] at hwin
  obtain ⟨_,hwa,_,hwu,_⟩ := hwin
  obtain ⟨ha,hsum,_⟩ := (messageBindings_ok _ _ _).1 hb
  obtain ⟨hne,hsame⟩ := hsum m.body rfl
  constructor
  · rfl
  · rfl
  · exact ⟨d,htok ▸ hd,hi,hnone⟩
  · refine ⟨account,operator,user,hanchor,huser,hsub.trans hi,⟨heu.symm.trans hea,?_⟩,?_,hwa,hwu⟩
    · exact fun o ho => (hpol o ho).2.2.symm.trans hea
    · exact fun o ho => ⟨(hpol o ho).1,(hpol o ho).2.1⟩
  · refine ⟨lit "valiss: payload checksum mismatch",.checksumMismatch,by decide,?_⟩
    have hother : c.checksum ≠ checksum m'.body := hsame ▸ hbody
    unfold runVerify verifyUnder
    rw [htok, haud, hd, ok_bind]
    -- the walk down the chain and the windows do not look at the body
    apply (congrArg (fun x => x >>= _) hchain).trans
    rw [ok_bind]
    apply (congrArg (fun x => x >>= _) hw).trans
    rw [ok_bind, messageBindings, raiseIf_neg _ _ (fun h => ha.elim h.1 h.2), ok_bind]
    dsimp only
    rw [raiseIf_neg _ _ hne, ok_bind, raiseIf_pos _ _ hother]
    rfl

def twoCalls (q₀ q₁ : Call) (t : DateTime) : List Event :=
  alone 0 q₀ t t ++ [.arrive 1 q₁,.look 1,.readFirst 1,.readSecond 1]

theorem twoCalls_run (q₀ q₁ : Call) (t : DateTime) (k : Str) (chain : Chain) (out : Outcome)
    (h₀ : lookupKey (some memoryChainCache) q₀.delivery = .ok none)
    (hs : settle q₀.receiver true q₀.delivery none none t t = .ok (out,.put k chain))
    (h₁ : lookupKey (some memoryChainCache) q₁.delivery = .ok (some k)) :
    ∃ w, run (step (some memoryChainCache)) (World.start t []) (twoCalls q₀ q₁ t) = some w ∧
      w.calls 1 = some (.ready ⟨q₁,some k,some chain⟩ t t) := by
  have hput : memoryChainCache.put k chain [] = [(k,chain)] := by
    simp [memoryChainCache, lruPut, memoryChainCacheCap]
  have hget : memoryChainCache.get k [(k,chain)] = (some chain,[(k,chain)]) := by
    simp [memoryChainCache, lruGet, without]
  simp [twoCalls, alone, run, step, World.start, World.move, World.look, h₀, h₁, World.finish, hs,
    lookupChain, applyWrite, hput, hget]

theorem unpinned_calls (q₀ q₁ : Call) (t : DateTime) (h₀ : q₀.receiver.options.chain = none)
    (h₁ : q₁.receiver.options.chain = none) :
    ∀ e ∈ twoCalls q₀ q₁ t ++ [.finish 1], Unpinned e := by
  intro e he
  simp only [twoCalls, alone, List.cons_append, List.nil_append, List.mem_cons,
    List.not_mem_nil, or_false] at he
  rcases he with rfl | rfl | rfl | rfl | rfl | rfl | rfl | rfl | rfl | rfl | rfl | rfl
  all_goals first | exact h₀ | exact h₁ | trivial

theorem fault_breaks (w : World Lru) (j : ℕ) (l : Looked) (t₁ t₂ : DateTime) (k : Str) (c : Chain)
    (hpin : l.call.receiver.options.chain = none) (hd : l.call.delivery.detached = false)
    (hj : w.calls j = some (.ready l t₁ t₂)) (hf : OwnFault l t₁ k c) :
    ¬ AttributedStep w (.finish j) := by
  intro h
  have hs := settle_fault l t₁ t₂ k c hpin hd hf
  obtain ⟨text,htext⟩ :=
    ((h _ ((step_finish _ _ _).2 ⟨l,t₁,t₂,hj,rfl⟩)).plain j l t₁ t₂ k c rfl hj hf).1
  rw [(finish_settled w j l t₁ t₂ _ _ hs).2, Option.some.injEq, Phase.answered.injEq] at htext
  exact Bool.noConfusion (congrArg Reject.chainRequired (Outcome.reject.inj htext.2.2.2))

end Runs

section Widgets
local instance : Platform := domain.ideal

def tampered : Call :=
  ⟨⟨.pinned operatorKey,{}⟩,messageSample.token,encodePass (lit "tampered"),destination,[],[]⟩

theorem widget_read : ∃ d, messageToken messageSample.token = .ok d ∧ d.issuer = userKey ∧
    d.chain = none := by
  exact ⟨Widgets.messageRead,Widgets.message_read,rfl,rfl⟩

theorem widget_key : lookupKey (some memoryChainCache) widgetCall.delivery = .ok none := by
  have hd : widgetCall.delivery.detached = true := Widgets.bundled_detached
  simp only [lookupKey, Option.isSome_some, if_true, cacheKey, hd]

theorem widget_accepted : runVerify widgetCall.receiver widgetCall.delivery requestedAt
    (some Widgets.widgetChain) = .ok (Widgets.widgetMessage none) := by
  exact Widgets.widget_run {} widgetCall.delivery requestedAt (some Widgets.widgetChain) none rfl
    rfl rfl rfl rfl (Or.inl rfl) (by decide) (by decide) (by decide)

theorem widget_first (q : Call) (ht : q.delivery.token = messageSample.token)
    (hd : q.delivery.detached = false) :
    ∃ w, run (step (some memoryChainCache)) (World.start requestedAt [])
        (twoCalls widgetCall q requestedAt) = some w ∧
      w.calls 1 = some (.ready ⟨q,some userKey,some Widgets.widgetChain⟩ requestedAt
        requestedAt) := by
  obtain ⟨d,hread,hi,_⟩ := widget_read
  have hkey : lookupKey (some memoryChainCache) q.delivery = .ok (some userKey) := by
    rw [lookupKey, Option.isSome_some, if_pos rfl, ← hi]
    exact cacheKey_read q.delivery d (ht ▸ hread) hd
  have hs := settle_stored widgetCall.receiver true widgetCall.delivery none none requestedAt
    requestedAt _ Widgets.bundled_detached widget_accepted
  exact twoCalls_run widgetCall q requestedAt userKey Widgets.widgetChain _ widget_key hs hkey

/-- The valid chain is dropped and asked for again. -/
theorem tampered_evicted : ¬ ∀ clock es, (∀ e ∈ es, Unpinned e) →
    Meets (step (some memoryChainCache)) AttributedStep (World.start clock []) es := by
  intro h
  obtain ⟨d,hd,hi,hnone⟩ := widget_read
  have hfault : OwnFault ⟨tampered,some userKey,some Widgets.widgetChain⟩ requestedAt userKey
      Widgets.widgetChain :=
    tampered_fault _ widgetCall.delivery tampered.delivery requestedAt userKey Widgets.widgetChain _
      rfl rfl rfl ⟨d,hd,hi,hnone⟩ widget_accepted (by decide +kernel)
  obtain ⟨w,hw,hready⟩ := widget_first tampered rfl rfl
  have hlast := meets_last _ _ _ w _ _
    (h requestedAt _ (unpinned_calls widgetCall tampered requestedAt rfl rfl)) hw
  exact fault_breaks w 1 _ _ _ userKey Widgets.widgetChain rfl rfl hready hfault hlast

theorem careful_first (l : Looked) (t₁ t₂ : DateTime) (h : l.found = none) :
    Careful [] l t₁ t₂ := by
  constructor
  · intro k c hf
    rw [hf.found] at h
    cases h
  · intro k c _ hc
    rw [hc] at h
    cases h
  · intro _ _ _
    exact Or.inr (by decide)

theorem careful_accepted (store : Lru) (l : Looked) (t₁ t₂ : DateTime) (claims : MessageClaims)
    (hd : l.call.delivery.detached = false)
    (hv : ∀ c, l.found = some c →
      runVerify l.call.receiver l.call.delivery t₁ (some c) = .ok claims) :
    Careful store l t₁ t₂ := by
  constructor
  · intro k c hf
    obtain ⟨text,r,_,he⟩ := hf.rejected
    cases (hv c hf.found).symm.trans he
  · intro k c _ hc hgiven
    obtain ⟨text,reason,he⟩ := hgiven.failing
    cases (hv c hc).symm.trans he
  · intro hdet
    rw [hd] at hdet
    cases hdet

theorem careful_opening (q : Call) : Meets (step (some memoryChainCache)) CarefulStep
    (World.start requestedAt []) (twoCalls widgetCall q requestedAt) := by
  rw [twoCalls, meets_append]
  constructor
  · simp [alone, Meets, step, World.start, World.move, World.look, widget_key, lookupChain,
      CarefulStep, careful_first]
  · intro x _
    apply meets_of_forall
    intro e he y
    simp only [List.mem_cons, List.not_mem_nil, or_false] at he
    rcases he with rfl | rfl | rfl | rfl <;> trivial

def repeated : Call := ⟨⟨.pinned operatorKey,{}⟩,messageSample.token,bodyBytes,destination,[],[]⟩

theorem repeated_accepted : runVerify repeated.receiver repeated.delivery requestedAt
    (some Widgets.widgetChain) = .ok (Widgets.widgetMessage none) := by
  exact Widgets.widget_run {} repeated.delivery requestedAt (some Widgets.widgetChain) none rfl rfl
    rfl rfl rfl (Or.inl rfl) (by decide) (by decide) (by decide)

/-- A delivery with its chain and a chainless one that is accepted under the
chain the first has left. -/
theorem eviction_attributed_widgets : ∃ w u l,
    run (step (some memoryChainCache)) (World.start requestedAt [])
      (twoCalls widgetCall repeated requestedAt) = some w ∧
    step (some memoryChainCache) w (.finish 1) = some u ∧
    w.calls 1 = some (.ready l requestedAt requestedAt) ∧ l.found = some Widgets.widgetChain ∧
    u.calls 1 = some (.answered l requestedAt requestedAt (.claims (Widgets.widgetMessage none))) ∧
    Meets (step (some memoryChainCache)) AttributedStep (World.start requestedAt [])
      (twoCalls widgetCall repeated requestedAt ++ [.finish 1]) := by
  obtain ⟨w,hw,hready⟩ := widget_first repeated rfl rfl
  obtain ⟨l,hl⟩ : ∃ l : Looked, l = ⟨repeated,some userKey,some Widgets.widgetChain⟩ := ⟨_,rfl⟩
  have hsettle : settle l.call.receiver true l.call.delivery l.key l.found requestedAt
      requestedAt = .ok (.claims (Widgets.widgetMessage none),.none) := by
    simp only [settle, hl, show repeated.delivery.detached = false by rfl, Bool.false_eq_true,
      if_false, repeated_accepted, Bool.false_and]
  rw [← hl] at hready
  have hanswer := (finish_settled w 1 l requestedAt requestedAt _ _ hsettle).2
  have hu : step (some memoryChainCache) w (.finish 1) =
      some (w.finish (some memoryChainCache) 1 l requestedAt requestedAt) :=
    (step_finish _ _ _).2 ⟨l,_,_,hready,rfl⟩
  refine ⟨w,_,l,hw,hu,hready,congrArg Looked.found hl,hanswer,?_⟩
  apply (eviction_attributed requestedAt _ (unpinned_calls widgetCall repeated requestedAt rfl rfl)).2
  refine (meets_append _ _ _ _ _).2 ⟨careful_opening repeated,?_⟩
  intro x hx
  obtain rfl := Option.some.inj (hw.symm.trans hx)
  refine ⟨?_,by split <;> trivial⟩
  intro m t₁ t₂ hm
  rw [hready, Option.some.injEq, Phase.ready.injEq] at hm
  obtain ⟨rfl,rfl,rfl⟩ := hm
  subst hl
  apply careful_accepted w.store _ _ _ (Widgets.widgetMessage none) rfl
  intro c hc
  obtain rfl := Option.some.inj hc
  exact repeated_accepted

end Widgets

end Valiss.EvictionRuns
