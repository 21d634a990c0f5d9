import Valiss.Agreement

/-!
# Exactly once

A signing call is let through once. Its nonce can be spent before only by another
signature over the same nonce, since every nonce the cache holds was admitted
under a verified signature of its own.
-/

set_option autoImplicit false

namespace Valiss.ExactlyOnce
open Lib.Unicode Lib.Calendar Lib.IsoTime Lib.Fallible Lib.Runs Valiss.Errors Valiss.Replay
open Valiss.Verify Valiss.SigningHistory Valiss.Provenance Valiss.ReplayRuns Valiss.Agreement
open Valiss.Recorded

section Model
variable [Platform] {σ : Type} {v : Verifier σ}

theorem step_unlocked (w u : World v) (e : Event σ) (h : step w e = some u) :
    (u.seen = w.seen ∧ u.log = w.log) ∨
    ∃ k p c, e = .lock k ∧ w.calls k = some (.ready p c) ∧ u = w.locked k p c := by
  cases step_moves w e u h with
  | lock k p c hk => exact Or.inr ⟨k,p,c,rfl,hk,rfl⟩
  | finish k r i hk =>
    unfold World.finished
    split <;> exact Or.inl ⟨rfl,rfl⟩
  | _ => exact Or.inl ⟨rfl,rfl⟩

/-- The cache holds admitted nonces only, and what was admitted is bound to its nonce. -/
structure Sourced (w : World v) : Prop extends Settled w where
  source : ∀ e ∈ w.seen, ∃ a ∈ w.log, a.pending.nonce = e.1
  bound : ∀ a ∈ w.log, Bound a.pending.request

theorem sourced_start (clock : DateTime) (store : σ) : Sourced (World.start v clock store) := by
  refine ⟨settled_start clock store,?_,?_⟩ <;> simp [World.start]

theorem sourced_locked (w : World v) (h : Sourced w) (k : ℕ) (p : Pending v) (c : DateTime)
    (hk : w.calls k = some (.ready p c)) (hs : Settled (w.locked k p c)) :
    Sourced (w.locked k p c) := by
  obtain ⟨hb,_⟩ : Traced w.clock.micros (.ready p c) := h.traced k _ hk
  have hbound : ∀ a ∈ w.log.map (Admission.reach c), Bound a.pending.request := by
    intro a ha
    obtain ⟨b,hb',_,hp,_⟩ := mem_reach c w.log a ha
    exact hp ▸ h.bound b hb'
  have hsource : ∀ e ∈ w.seen, ∃ a ∈ w.log.map (Admission.reach c), a.pending.nonce = e.1 := by
    intro e he
    obtain ⟨a,ha,hn⟩ := h.source e he
    exact ⟨a.reach c,List.mem_map_of_mem ha,hn⟩
  unfold World.locked at hs ⊢
  dsimp only at hs ⊢
  split_ifs at hs ⊢ with hseen
  · refine ⟨hs,?_,hbound⟩
    intro e he
    rcases (mem_seenAt _ _ _ _ _).1 he with ⟨he,_⟩ | ⟨hnew,_⟩
    · exact hsource e he
    · rw [hseen] at hnew
      cases hnew
  · refine ⟨hs,?_,?_⟩
    · intro e he
      rcases (mem_seenAt _ _ _ _ _).1 he with ⟨he,_⟩ | ⟨_,rfl⟩
      · obtain ⟨a,ha,hn⟩ := hsource e he
        exact ⟨a,List.mem_cons_of_mem _ ha,hn⟩
      · exact ⟨_,List.mem_cons_self,rfl⟩
    · intro a ha
      rcases List.mem_cons.mp ha with rfl | ha
      · exact hb
      · exact hbound a ha

theorem sourced_step (hc : v.replayCache.isSome = true) (w : World v) (e : Event σ) (u : World v)
    (hp : Prompt w e) (h : step w e = some u) (hw : Sourced w) : Sourced u := by
  have hs := settled_step hc w e u hp h hw.toSettled
  rcases step_unlocked w u e h with ⟨hseen,hlog⟩ | ⟨k,p,c,rfl,hk,rfl⟩
  · exact ⟨hs,by rw [hseen, hlog]; exact hw.source,by rw [hlog]; exact hw.bound⟩
  · exact sourced_locked w hw k p c hk hs

/-- A call of `sign_request` over a context that ends with the nonce. -/
def SignsOver (nonce : Str) (call : Call) : Prop :=
  ∃ kp head t, call = .request kp (encodePass (head ++ 10 :: nonce)) t

theorem answers_over {call : Call} {key : Str} {r : Request} (h : Answers call key r)
    (hr : Bound r) : SignsOver r.nonce call := by
  obtain ⟨kp,t,_,rfl,_,_⟩ := h
  obtain ⟨head,hhead,_⟩ := hr
  exact ⟨kp,head,t,by rw [hhead]⟩

theorem pending_answers (inj : Function.Injective Platform.sha256) (history : List Call)
    (ideal : IdealSignatures history) (p : Pending v) :
    ∃ call ∈ history, Answers call p.identity.subject p.request := by
  rcases (checked_entitled inj history ideal v _ _ _ _ p.passed).request with
    ⟨_,ht,_⟩ | ⟨kp,t,sig,hmem,hholds,hsign⟩
  · obtain ⟨t,hiso,_⟩ := pending_window p
    rw [ht] at hiso
    cases hiso
  · exact ⟨_,hmem,kp,t,sig,rfl,hholds,hsign⟩

theorem locked_call (w u : World v) (k : ℕ) (p : Pending v) (c : DateTime)
    (hk : w.calls k = some (.ready p c)) (hu : step w (.lock k) = some u) :
    u.calls k = some (if (seenAt c p.nonce p.expiry w.seen).1 = true
      then .rejected p.request replayed else .admitted p.request p.identity) := by
  simp only [step, hk, Option.some.injEq] at hu
  rw [← hu, World.locked]
  dsimp only
  split_ifs <;> simp [World.move]

theorem again_refused (w : World v) (hw : Sourced w) (k : ℕ) (p : Pending v) (c : DateTime)
    (hk : w.calls k = some (.ready p c)) (hlock : Prompt w (.lock k)) (call : Call)
    (hp : Answers call p.identity.subject p.request) (a : Admission v) (ha : a ∈ w.log)
    (haa : Answers call a.pending.identity.subject a.pending.request) :
    (seenAt c p.nonce p.expiry w.seen).1 = true := by
  have hbound : Bound p.request := (hw.traced k _ hk).1
  obtain ⟨hcontext,hstamp⟩ := haa.same hp
  exact refused_again w hw.toSettled k p c hk hlock a ha
    ⟨(hw.bound a ha).nonce hbound hcontext,hstamp⟩

theorem refused_over (inj : Function.Injective Platform.sha256) (history : List Call)
    (ideal : IdealSignatures history) (w : World v) (hw : Sourced w) (p : Pending v) (c : DateTime)
    (h : (seenAt c p.nonce p.expiry w.seen).1 = true) : ∃ a ∈ w.log, ∃ call ∈ history,
      Answers call a.pending.identity.subject a.pending.request ∧
        SignsOver p.request.nonce call := by
  obtain ⟨expiry,he,_⟩ := (seenAt_true _ _ _ _).1 h
  obtain ⟨a,ha,han⟩ := hw.source _ he
  obtain ⟨call,hcall,haa⟩ := pending_answers inj history ideal a.pending
  obtain ⟨hnonce,_⟩ := entry_of _ _ _ _ _ a.pending.passed
  obtain ⟨hnonce',_⟩ := entry_of _ _ _ _ _ p.passed
  have hsame : a.pending.request.nonce = p.request.nonce := by
    rw [← hnonce, han, ← hnonce']
  exact ⟨a,ha,call,hcall,haa,hsame ▸ answers_over haa (hw.bound a ha)⟩

/-- In a run of prompt checks, a check lets its request through or refuses it as a
replay. It refuses whatever goes back to a signing call that was let through before, and
refuses nothing over whose nonce no call that was let through had signed. -/
theorem exactly_once (inj : Function.Injective Platform.sha256) (history : List Call)
    (ideal : IdealSignatures history) (hc : v.replayCache.isSome = true) (clock : DateTime)
    (store : σ) (es : List (Event σ)) (w : World v)
    (hp : Meets step Prompt (World.start v clock store) es)
    (h : run step (World.start v clock store) es = some w) (k : ℕ) (p : Pending v) (c : DateTime)
    (hk : w.calls k = some (.ready p c)) (hlock : Prompt w (.lock k)) (u : World v)
    (hu : step w (.lock k) = some u) :
    (u.calls k = some (.admitted p.request p.identity) ∨
      u.calls k = some (.rejected p.request replayed)) ∧
    (u.calls k = some (.rejected p.request replayed) → ∃ a ∈ w.log, ∃ call ∈ history,
      Answers call a.pending.identity.subject a.pending.request ∧
        SignsOver p.request.nonce call) ∧
    ∃ call ∈ history, Answers call p.identity.subject p.request ∧
      ((∃ a ∈ w.log, Answers call a.pending.identity.subject a.pending.request) →
        u.calls k = some (.rejected p.request replayed)) ∧
      ((∀ other ∈ history, SignsOver p.request.nonce other → other = call) →
        (u.calls k = some (.admitted p.request p.identity) ↔
          ∀ a ∈ w.log, ¬ Answers call a.pending.identity.subject a.pending.request)) := by
  have hw : Sourced w := run_invariant step Prompt Sourced (sourced_step hc) _ w es hp h
    (sourced_start clock store)
  obtain ⟨call,hmem,hanswers⟩ := pending_answers inj history ideal p
  have hagain := again_refused w hw k p c hk hlock call hanswers
  have hover := refused_over inj history ideal w hw p c
  rw [locked_call w u k p c hk hu]
  cases hseen : (seenAt c p.nonce p.expiry w.seen).1 with
  | true =>
    obtain ⟨a,ha,other,hother,haa,hsigns⟩ := hover hseen
    refine ⟨Or.inr rfl,fun _ => ⟨a,ha,other,hother,haa,hsigns⟩,call,hmem,hanswers,fun _ => rfl,?_⟩
    intro honly
    have hnone : ¬ ∀ a ∈ w.log, ¬ Answers call a.pending.identity.subject a.pending.request :=
      fun hall => hall a ha (honly other hother hsigns ▸ haa)
    exact iff_of_false (by simp) hnone
  | false =>
    have hnone : ∀ a ∈ w.log, ¬ Answers call a.pending.identity.subject a.pending.request := by
      intro a ha haa
      rw [hagain a ha haa] at hseen
      cases hseen
    refine ⟨Or.inl rfl,fun hr => by simp at hr,call,hmem,hanswers,?_,fun _ => ?_⟩
    · rintro ⟨a,ha,haa⟩
      exact absurd haa (hnone a ha)
    · exact iff_of_true rfl hnone

def firstEvents (r : Request) : List (Event σ) := [.arrive 0 r,.readVerifier 0,.readCache 0]

theorem first_waits (r : Request) (t : DateTime) (i : Identity) (nonce : Str) (x : DateTime)
    (s : σ) (hr : Received r) (hn : 10 ∉ r.nonce) (h : checked v t r = .ok (i,some (nonce,x))) :
    Meets step Prompt (World.start v t s) (firstEvents r) ∧
    ∃ w, run step (World.start v t s) (firstEvents r) = some w ∧
      w.calls 0 = some (.ready ⟨r,t,i,nonce,x,h⟩ t) ∧ w.log = [] ∧ w.clock = t := by
  constructor
  · simp [firstEvents, Meets, Prompt, step, World.start, World.move, phaseAt_timed _ _ _ _ _ h, hr,
      hn]
  · simp [firstEvents, run, step, World.start, World.move, phaseAt_timed _ _ _ _ _ h]

def secondEvents (r : Request) (t t' : DateTime) : List (Event σ) :=
  alone 0 r t ++ [.tick t',.arrive 1 r,.readVerifier 1,.readCache 1]

theorem second_waits (r : Request) (t t' : DateTime) (i : Identity) (nonce : Str)
    (x y : DateTime) (s : σ) (stamp : ℤ) (hr : Received r) (hn : 10 ∉ r.nonce)
    (hstamp : fromIso r.timestamp = some stamp) (hle : t.micros ≤ t'.micros)
    (hlt : t.micros < stamp+v.skew) (h : checked v t r = .ok (i,some (nonce,x)))
    (h' : checked v t' r = .ok (i,some (nonce,y)))
    (hseen : seenAt t nonce x [] = (false,[(nonce,x)]))
    (hh : (hooks v.toOptions r i).run s = (.ok (),s)) :
    Meets step Prompt (World.start v t s) (secondEvents r t t') ∧
    ∃ w, run step (World.start v t s) (secondEvents r t t') = some w ∧
      w.calls 0 = some (.accepted r i) ∧ w.calls 1 = some (.ready ⟨r,t',i,nonce,y,h'⟩ t') ∧
      w.log = [⟨0,⟨r,t,i,nonce,x,h⟩,t.micros⟩] ∧ w.clock = t' := by
  constructor
  · simp [secondEvents, alone, Meets, Prompt, readyAt, step, World.start, World.move,
      phaseAt_timed _ _ _ _ _ h, phaseAt_timed _ _ _ _ _ h', World.locked, hseen, World.finished,
      hh, hr, hn, hstamp, hle, hlt]
  · simp [secondEvents, alone, run, step, World.start, World.move, phaseAt_timed _ _ _ _ _ h,
      phaseAt_timed _ _ _ _ _ h', World.locked, hseen, World.finished, hh, hle]

theorem prompt_lock (w : World v) (k : ℕ) (p : Pending v) (c : DateTime)
    (hk : w.calls k = some (.ready p c)) (t : ℤ) (ht : fromIso p.request.timestamp = some t)
    (h : w.clock.micros < t+v.skew) : Prompt w (.lock k) := by
  intro q hq t' ht'
  rw [readyAt, hk, Option.mem_some_iff] at hq
  subst hq
  rw [ht, Option.mem_some_iff] at ht'
  exact ht' ▸ h

end Model

section Widgets
local instance : Platform := domain.ideal

theorem domain_request {nonce : Str} : ∀ call ∈ domainHistory, SignsOver nonce call →
    call = .request userPair widgetContext requestedAt := by
  rintro call h ⟨kp,head,t,rfl⟩
  simpa only [domainHistory, List.mem_cons, reduceCtorEq, List.not_mem_nil, or_false,
    false_or] using h

/-- The request is admitted when it first comes, and refused when it comes again. -/
theorem exactly_once_widgets :
    (∃ w p u, run step (World.start cachedVerifier windowStart ()) (firstEvents widgetRequest) =
        some w ∧ w.calls 0 = some (.ready p windowStart) ∧ step w (.lock 0) = some u ∧
      u.calls 0 = some (.admitted widgetRequest p.identity)) ∧
    ∃ w p u, run step (World.start cachedVerifier windowStart ())
        (secondEvents widgetRequest windowStart requestedAt) = some w ∧
      w.calls 0 = some (.accepted widgetRequest p.identity) ∧
      w.calls 1 = some (.ready p requestedAt) ∧ step w (.lock 1) = some u ∧
      u.calls 1 = some (.rejected widgetRequest replayed) := by
  constructor
  · obtain ⟨hprompt,w,hw,hk,hlog,hclock⟩ := first_waits widgetRequest windowStart _ _ _ ()
      widget_received (by decide) widget_start
    have hlock : Prompt w (.lock 0) := prompt_lock w 0 _ _ hk requestedAt.micros widget_stamp
      (by rw [hclock]; decide)
    obtain ⟨u,hu⟩ : ∃ u, step w (.lock 0) = some u := ⟨_,by rw [step, hk]⟩
    obtain ⟨_,_,call,hcall,hanswers,_,honly⟩ := exactly_once (domain_injective _) domainHistory
      domain_ideal rfl windowStart () _ w hprompt hw 0 _ windowStart hk hlock u hu
    have hbound : Bound widgetRequest := widget_received.bound (by decide)
    have hone := domain_request call hcall (answers_over hanswers hbound)
    refine ⟨w,_,u,hw,hk,hu,(honly ?_).2 (by simp [hlog])⟩
    intro other hother hsigns
    rw [hone, domain_request other hother hsigns]
  · obtain ⟨hprompt,w,hw,hr,hk,hlog,hclock⟩ := second_waits widgetRequest windowStart requestedAt _
      _ _ _ () requestedAt.micros widget_received (by decide) widget_stamp (by decide) (by decide)
      widget_start widget_later widget_first widget_hooks
    have hlock : Prompt w (.lock 1) := prompt_lock w 1 _ _ hk requestedAt.micros widget_stamp
      (by rw [hclock]; decide)
    obtain ⟨u,hu⟩ : ∃ u, step w (.lock 1) = some u := ⟨_,by rw [step, hk]⟩
    obtain ⟨_,_,call,_,hanswers,hagain,_⟩ := exactly_once (domain_injective _) domainHistory
      domain_ideal rfl windowStart () _ w hprompt hw 1 _ requestedAt hk hlock u hu
    have hlog' : ∃ a ∈ w.log, Answers call a.pending.identity.subject a.pending.request := by
      rw [hlog]
      exact ⟨_,List.mem_singleton_self _,hanswers⟩
    exact ⟨w,_,u,hw,hr,hk,hu,hagain hlog'⟩

end Widgets

end Valiss.ExactlyOnce
