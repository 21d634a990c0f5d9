import Valiss.ChainRuns
import Valiss.Recorded

/-!
# What the chain cache holds

A call stores the detached chain of its headers after a successful
verification. The verification has seen that chain unless the receiver pins
another one, so a cache that starts empty holds verified chains as long as no
call both pins a chain and brings a different one.
-/

set_option autoImplicit false

namespace Valiss.ChainCacheRuns
open Lib.Unicode Lib.Json Lib.Calendar Lib.Fallible Lib.Runs Valiss.Errors Valiss.TokenClaims
open Valiss.Decode Valiss.Verify Valiss.Message Valiss.Chains Valiss.MsgTransport Valiss.ChainRuns
open Valiss.Recorded

section Runs
variable [Platform]

/-- When the chain was stored, a message had just verified with it: its account
token held under the anchor, its user token under the account, for the key. -/
structure Vouched (a : TrustAnchor) (s : Stored) (o : MessageOptions) (c : MessageClaims)
    (operator : Option OperatorClaims) : Prop where
  verified : verifyUnder a s.call.delivery.token o = .ok c
  now : o.now = s.call.receiver.options.now.getD s.reading
  selected : ∃ d, messageToken s.call.delivery.token = .ok d ∧
    selectChain d.chain o.chain = .ok (.str s.chain.1,.str s.chain.2)
  account : messageAnchor a o.operatorToken (.str s.chain.1) = .ok (c.account,operator)
  user : verifyUser s.chain.2 c.account.subject = .ok c.user
  subject : c.user.subject = s.key
  accountWindow : c.account.expired o.now o.skew = .ok false ∧
    c.account.notYetValid o.now o.skew = .ok false
  userWindow : c.user.expired o.now o.skew = .ok false ∧
    c.user.notYetValid o.now o.skew = .ok false

/-- Every entry of the cache was stored, and every chain stored was verified. -/
structure AllVerified (a : TrustAnchor) (w : World Lru) : Prop where
  held : ∀ e ∈ w.store, ∃ s ∈ w.log, s.key = e.1 ∧ s.chain = e.2
  vouched : ∀ s ∈ w.log, ∃ o c operator, Vouched a s o c operator

def Agrees (m : Delivery) : Option (Option Chain) → Prop
  | none => True
  | some (some c) => c = (m.chainAccount,m.chainUser)
  | some none => ∀ d use, messageToken m.token = .ok d → d.chain = some use →
      chainPart use "account" = .str m.chainAccount ∧ chainPart use "user" = .str m.chainUser

/-- No complete chain is detached, or the receiver pins no other. -/
def Aligned (q : Call) : Prop :=
  q.delivery.detached = true → Agrees q.delivery q.receiver.options.chain

def Fit (a : TrustAnchor) : Event → Prop
  | .arrive _ q => q.receiver.anchor = a ∧ Aligned q
  | _ => True

theorem selectChain_supplied (embedded : Option (Dict Json)) (c : Chain) (x : Json × Json)
    (h : selectChain embedded (some c) = .ok x) : x = (.str c.1,.str c.2) := by
  cases embedded with
  | none => exact (Except.ok.inj h).symm
  | some use =>
    obtain ⟨h1,h2,rfl⟩ := (selectChain_both _ _ _).1 h
    rw [h1, h2]

theorem selectChain_agrees (m : Delivery) (pin : Option (Option Chain)) (ha : Agrees m pin)
    (d : Decoded) (hd : messageToken m.token = .ok d) (x : Json × Json)
    (h : selectChain d.chain (pin.getD (some (m.chainAccount,m.chainUser))) = .ok x) :
    x = (.str m.chainAccount,.str m.chainUser) := by
  match pin, ha with
  | none, _ => exact selectChain_supplied _ _ _ h
  | some (some c), ha =>
    rw [Agrees] at ha
    subst ha
    exact selectChain_supplied _ _ _ h
  | some none, ha =>
    cases hc : d.chain with
    | none =>
      rw [hc] at h
      cases h
    | some use =>
      obtain ⟨h1,h2⟩ := ha d use hd hc
      rw [hc] at h
      obtain rfl := Except.ok.inj h
      rw [h1, h2]

theorem vouched_verified (s : Stored) (a : TrustAnchor) (o : MessageOptions) (c : MessageClaims)
    (h : verifyUnder a s.call.delivery.token o = .ok c)
    (hn : o.now = s.call.receiver.options.now.getD s.reading)
    (hsel : ∀ d, messageToken s.call.delivery.token = .ok d → ∀ x,
      selectChain d.chain o.chain = .ok x → x = (.str s.chain.1,.str s.chain.2))
    (hk : c.subject = s.key) : ∃ operator, Vouched a s o c operator := by
  obtain ⟨d,hd,hchain,hw,_⟩ := (verifyUnder_ok _ _ _ _).1 h
  obtain ⟨ca,ut,account,operator,user,hs,hanchor,huser,hsub,_,rfl⟩ :=
    (messageChain_ok _ _ _ _).1 hchain
  obtain ⟨rfl,hut⟩ := Prod.mk.inj (hsel d hd _ hs)
  obtain rfl := Value.str.inj hut
  obtain ⟨_,_,hself,_⟩ := (messageToken_ok _ _).1 hd
  simp only [messageWindows, bind_ok, checkWindow_ok] at hw
  obtain ⟨_,hwa,_,hwu,_⟩ := hw
  exact ⟨operator,h,hn,⟨d,hd,hs⟩,hanchor,huser,(hsub.trans hself).trans hk,hwa,hwu⟩

structure Kept (a : TrustAnchor) (w : World Lru) : Prop extends AllVerified a w where
  fit : ∀ k p, w.calls k = some p → p.call.receiver.anchor = a ∧ Aligned p.call

theorem kept_start (a : TrustAnchor) (clock : DateTime) : Kept a (World.start clock []) := by
  constructor
  · constructor <;> simp [World.start]
  · simp [World.start]

theorem kept_move (a : TrustAnchor) (w : World Lru) (k : ℕ) (p : Phase) (h : Kept a w)
    (hp : p.call.receiver.anchor = a ∧ Aligned p.call) : Kept a (w.move k p) := by
  refine ⟨⟨h.held,h.vouched⟩,?_⟩
  intro j q hj
  by_cases he : j = k
  · simp only [World.move, he, if_true, Option.some.injEq] at hj
    exact hj ▸ hp
  · simp only [World.move, if_neg he] at hj
    exact h.fit j q hj

theorem kept_look (a : TrustAnchor) (w : World Lru) (k : ℕ) (q : Call) (h : Kept a w)
    (hq : q.receiver.anchor = a ∧ Aligned q) : Kept a (w.look (some memoryChainCache) k q) := by
  unfold World.look
  split
  next => exact kept_move a w k _ h hq
  next key _ =>
    refine kept_move a _ k _ ⟨⟨?_,h.vouched⟩,h.fit⟩ hq
    intro e he
    apply h.held e
    cases key with
    | none => exact he
    | some k => exact mem_lruGet k w.store e he

theorem put_vouched (a : TrustAnchor) (q : Call) (hq : q.receiver.anchor = a ∧ Aligned q)
    (hasCache : Bool) (key : Option Str) (found : Option Chain) (t₁ t₂ : DateTime)
    (out : Outcome) (k : Str) (c : Chain)
    (h : settle q.receiver hasCache q.delivery key found t₁ t₂ = .ok (out,.put k c)) :
    ∃ o claims operator, Vouched a ⟨q,t₁,k,c⟩ o claims operator := by
  obtain ⟨hd,rfl,claims,hv,hk⟩ := settle_put _ _ _ _ _ _ _ _ _ _ h
  obtain ⟨rfl,hal⟩ := hq
  obtain ⟨operator,hvouched⟩ := vouched_verified
    ⟨q,t₁,k,(q.delivery.chainAccount,q.delivery.chainUser)⟩ q.receiver.anchor _ claims hv rfl
    (fun d hdec x hx => selectChain_agrees q.delivery _ (hal hd) d hdec x hx) hk
  exact ⟨_,claims,operator,hvouched⟩

theorem kept_finish (a : TrustAnchor) (w : World Lru) (k : ℕ) (l : Looked) (t₁ t₂ : DateTime)
    (h : Kept a w) (hl : l.call.receiver.anchor = a ∧ Aligned l.call) :
    Kept a (w.finish (some memoryChainCache) k l t₁ t₂) := by
  unfold World.finish
  split
  next => exact kept_move a w k _ h hl
  next out write hs =>
    apply kept_move a _ k (.answered l t₁ t₂ out) _ hl
    cases write with
    | none => exact ⟨⟨h.held,h.vouched⟩,h.fit⟩
    | put key c =>
      refine ⟨⟨?_,?_⟩,h.fit⟩
      · intro e he
        rcases mem_lruPut _ key c w.store e he with rfl | he
        · exact ⟨⟨l.call,t₁,key,c⟩,List.mem_cons_self,rfl,rfl⟩
        · obtain ⟨s,hs,hk⟩ := h.held e he
          exact ⟨s,List.mem_cons_of_mem _ hs,hk⟩
      · intro s hm
        rcases List.mem_cons.1 hm with rfl | hm
        · exact put_vouched a l.call hl _ _ _ _ _ _ _ _ hs
        · exact h.vouched s hm
    | delete key =>
      exact ⟨⟨fun e he => h.held e (mem_lruDelete key w.store e he),h.vouched⟩,h.fit⟩

theorem kept_step (a : TrustAnchor) (w : World Lru) (e : Event) (u : World Lru) (hf : Fit a e)
    (h : step (some memoryChainCache) w e = some u) (hw : Kept a w) : Kept a u := by
  cases e with
  | tick t =>
    obtain ⟨_,rfl⟩ := (step_tick _ _ _).1 h
    exact ⟨⟨hw.held,hw.vouched⟩,hw.fit⟩
  | arrive k q =>
    obtain ⟨_,rfl⟩ := (step_arrive _ _ _ _).1 h
    exact kept_move a w k _ hw hf
  | look k =>
    obtain ⟨q,hk,rfl⟩ := (step_look _ _ _).1 h
    exact kept_look a w k q hw (hw.fit k _ hk)
  | readFirst k =>
    obtain ⟨l,hk,rfl⟩ := (step_readFirst _ _ _).1 h
    exact kept_move a w k _ hw (hw.fit k (.looked l) hk)
  | readSecond k =>
    obtain ⟨l,t₁,hk,rfl⟩ := (step_readSecond _ _ _).1 h
    exact kept_move a w k _ hw (hw.fit k (.timed l t₁) hk)
  | finish k =>
    obtain ⟨l,t₁,t₂,hk,rfl⟩ := (step_finish _ _ _).1 h
    exact kept_finish a w k l t₁ t₂ hw (hw.fit k _ hk)

theorem cache_verified (a : TrustAnchor) (clock : DateTime) (es : List Event) (w : World Lru)
    (hf : ∀ e ∈ es, Fit a e)
    (h : run (step (some memoryChainCache)) (World.start clock []) es = some w) :
    AllVerified a w :=
  (run_invariant _ (fun _ => Fit a) (Kept a) (fun w e u => kept_step a w e u) _ w es
    (meets_of_forall _ _ es (fun e he _ => hf e he) _) h (kept_start a clock)).toAllVerified

end Runs

section Widgets
local instance : Platform := domain.ideal

def pinning : Receiver := ⟨.pinned operatorKey,{
  chain := some (some (accountSample.token,userSample.token)) }⟩

def planted : Call :=
  ⟨pinning,messageSample.token,bodyBytes,destination,lit "a",lit "u"⟩

def widgetCall : Call :=
  ⟨⟨.pinned operatorKey,{}⟩,messageSample.token,bodyBytes,destination,accountSample.token,
    userSample.token⟩

/-- The words are stored: what was verified is the pinned chain. -/
theorem planted_stored : ∃ w,
    run (step (some memoryChainCache)) (World.start requestedAt []) (alone 0 planted requestedAt
      requestedAt) = some w ∧ ¬ AllVerified (.pinned operatorKey) w := by
  have hv := Widgets.widget_run pinning.options planted.delivery requestedAt
    (some (lit "a",lit "u")) none rfl rfl rfl rfl rfl (Or.inl rfl) (by decide) (by decide)
    (by decide)
  have ha := authenticateMessage_detached pinning (some memoryChainCache) planted.delivery
    requestedAt requestedAt [] _ rfl hv
  obtain ⟨w,_,hw,_,hstore⟩ := authenticate_alone (World.start requestedAt []) 0 planted requestedAt
    requestedAt _ _ rfl le_rfl le_rfl ha
  refine ⟨w,hw,?_⟩
  intro hall
  have hmem : (userKey,lit "a",lit "u") ∈ w.store := by
    rw [hstore]
    exact List.mem_singleton.2 rfl
  obtain ⟨s,hs,_,hchain⟩ := hall.held _ hmem
  obtain ⟨o,c,operator,hv⟩ := hall.vouched s hs
  obtain ⟨⟨tok,htok,hacc⟩,_⟩ := pinnedAnchor_ok _ _ _ _ _ hv.account
  rw [hchain] at htok
  obtain rfl := Value.str.inj htok
  have hbad : verifyAccount (lit "a") operatorKey =
      .error (Codec.malformed (lit "malformed token")) := rfl
  rw [hacc] at hbad
  cases hbad

theorem cache_verified_widgets : ∃ w,
    run (step (some memoryChainCache)) (World.start requestedAt []) (alone 0 widgetCall
      requestedAt requestedAt) = some w ∧
    w.store = [(userKey,accountSample.token,userSample.token)] ∧
    AllVerified (.pinned operatorKey) w := by
  have hv := Widgets.widget_run {} Widgets.bundled requestedAt (some Widgets.widgetChain) none rfl rfl
    rfl rfl rfl (Or.inl rfl) (by decide) (by decide) (by decide)
  have ha := authenticateMessage_detached widgetCall.receiver (some memoryChainCache)
    Widgets.bundled requestedAt requestedAt [] _ Widgets.bundled_detached hv
  obtain ⟨w,_,hw,_,hstore⟩ := authenticate_alone (World.start requestedAt []) 0 widgetCall requestedAt
    requestedAt _ _ rfl le_rfl le_rfl ha
  refine ⟨w,hw,hstore.trans rfl,?_⟩
  apply cache_verified _ requestedAt _ w _ hw
  intro e he
  simp only [alone, List.mem_cons, List.not_mem_nil, or_false] at he
  rcases he with rfl | rfl | rfl | rfl | rfl | rfl | rfl
  · exact ⟨rfl,fun _ => trivial⟩
  all_goals trivial

end Widgets

end Valiss.ChainCacheRuns
