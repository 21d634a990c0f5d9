import Valiss.Asgi
import Valiss.Django
import Valiss.GrpcAuth
import Valiss.ReplayRuns

/-!
# Injective agreement

Acceptances of signed requests against calls of `sign_request`. The replay
cache forgets a nonce no sooner than the last instant its request can pass, so
while the locked checks run before that instant, each signing call answers for
at most one acceptance.
-/

set_option autoImplicit false

namespace Valiss.Agreement
open Lib.Unicode Lib.Calendar Lib.IsoTime Lib.Fallible Lib.Runs Valiss.Errors
open Valiss.RequestSignature Valiss.Replay Valiss.Verify Valiss.SigningHistory Valiss.Asgi
open Valiss.Provenance Valiss.ReplayRuns Valiss.Recorded

/-- The context's last line is the nonce. -/
def Bound (r : Request) : Prop :=
  ∃ head, r.context = encodePass (head ++ 10 :: r.nonce) ∧ 10 ∉ r.nonce

theorem last_line (a b n m : Str) (hn : 10 ∉ n) (hm : 10 ∉ m) (h : a ++ 10 :: n = b ++ 10 :: m) :
    n = m := by
  have hr : n.reverse ++ 10 :: a.reverse = m.reverse ++ 10 :: b.reverse := by
    simpa using congrArg List.reverse h
  have hsplit := congrArg (splitOn 10) hr
  rw [splitOn_cons _ _ _ (by simpa using hn), splitOn_cons _ _ _ (by simpa using hm),
    List.cons.injEq] at hsplit
  exact List.reverse_injective hsplit.1

theorem Bound.nonce {r q : Request} (hr : Bound r) (hq : Bound q) (h : r.context = q.context) :
    r.nonce = q.nonce := by
  obtain ⟨a,ha,hn⟩ := hr
  obtain ⟨b,hb,hm⟩ := hq
  rw [ha, hb] at h
  exact last_line a b _ _ hn hm (encodePass_injective h)

theorem http_bound (r : Request) (method host path : Str)
    (hc : r.context = encodePass (HttpAuth.contextText method host path r.nonce))
    (h : 10 ∉ r.nonce) : Bound r := by
  refine ⟨lit "http\n" ++ (method ++ 10 :: (host ++ 10 :: path)),?_,h⟩
  rw [hc]
  simp [HttpAuth.contextText]

theorem rpc_bound (r : Request) (fullMethod : Str)
    (hc : r.context = encodePass (GrpcAuth.contextText fullMethod r.nonce)) (h : 10 ∉ r.nonce) :
    Bound r := by
  refine ⟨lit "grpc\n" ++ fullMethod,?_,h⟩
  rw [hc]
  simp [GrpcAuth.contextText]

section Model
variable [Platform] {σ : Type} {v : Verifier σ}

/-- A request as one of the three servers makes it of a call. -/
inductive Received : Request → Prop where
  | asgi (scope : Scope) : Received scope.request
  | django (q : Django.HttpRequest) : Received q.request
  | rpc (metadata : List (Str × Str)) (fullMethod : Str) :
    Received (GrpcAuth.callRequest metadata fullMethod)

theorem Received.bound {r : Request} (hr : Received r) (h : 10 ∉ r.nonce) : Bound r := by
  cases hr with
  | asgi scope => exact http_bound _ scope.method scope.host scope.path rfl h
  | django q => exact http_bound _ (q.method.getD []) q.host q.path rfl h
  | rpc metadata fullMethod => exact rpc_bound _ fullMethod rfl h

/-- What arrives is what a server received, its nonce on one line like every header, and
a locked check runs before the end of its request's window. -/
def Prompt (w : World v) : Event σ → Prop
  | .arrive _ r => Received r ∧ 10 ∉ r.nonce
  | .lock k => ∀ q ∈ readyAt w k, ∀ t ∈ fromIso q.1.request.timestamp,
      w.clock.micros < t+v.skew
  | _ => True

/-- What is known of a call whose readings do not lie ahead of an instant. -/
def Traced (stop : ℤ) : Phase v → Prop
  | .waiting r => Bound r
  | .timed p => Bound p.request ∧ p.reading.micros ≤ stop
  | .ready p c => Bound p.request ∧ p.reading.micros ≤ stop ∧ c.micros ≤ stop
  | .admitted r i | .accepted r i => Bound r ∧ ∃ now e, now.micros ≤ stop ∧
      checked v now r = .ok (i,e)
  | .rejected _ _ => True

theorem Traced.later {stop stop' : ℤ} {p : Phase v} (h : Traced stop p) (hs : stop ≤ stop') :
    Traced stop' p := by
  cases p with
  | waiting r => exact h
  | timed p => exact ⟨h.1,h.2.trans hs⟩
  | ready p c => exact ⟨h.1,h.2.1.trans hs,h.2.2.trans hs⟩
  | admitted r i =>
    obtain ⟨hb,now,e,hle,hc⟩ := h
    exact ⟨hb,now,e,hle.trans hs,hc⟩
  | accepted r i =>
    obtain ⟨hb,now,e,hle,hc⟩ := h
    exact ⟨hb,now,e,hle.trans hs,hc⟩
  | rejected r e => trivial

theorem traced_phaseAt (now : DateTime) (r : Request) (h : Bound r) :
    Traced now.micros (phaseAt now r : Phase v) := by
  unfold phaseAt
  split
  next i nonce expiry hc => exact ⟨h,le_refl _⟩
  next i hc => exact ⟨h,now,none,le_refl _,hc⟩
  next => trivial

theorem pending_window (p : Pending v) : ∃ t, fromIso p.request.timestamp = some t ∧
    p.reading.micros-t ≤ v.skew ∧ -v.skew ≤ p.reading.micros-t := by
  obtain ⟨_,_,_,_,_,_,hp⟩ := (checked_ok _ _ _ _).1 p.passed
  rcases possession_ok _ _ _ _ _ hp with ⟨_,_,_,he⟩ | ⟨hsig,_⟩
  · cases he
  · exact ((verifySignature_ok _ _ _ _ _ _ _).1 hsig).2.1

def Alike (r q : Request) : Prop := r.nonce = q.nonce ∧ r.timestamp = q.timestamp

/-- Besides what every timely step keeps: no reading lies ahead of the clock,
and one call made all admissions of a nonce and a timestamp. -/
structure Settled (w : World v) : Prop extends Guarded w where
  traced : ∀ k p, w.calls k = some p → Traced w.clock.micros p
  reached : ∀ a ∈ w.log, a.reached ≤ w.clock.micros
  alone : ∀ a ∈ w.log, ∀ b ∈ w.log, Alike a.pending.request b.pending.request → a.call = b.call

theorem settled_start (clock : DateTime) (store : σ) : Settled (World.start v clock store) := by
  refine ⟨guarded_start clock store,?_,?_,?_⟩ <;> simp [World.start]

theorem recorded (w : World v) (h : Settled w) (k : ℕ) (p : Pending v) (c : DateTime)
    (hk : w.calls k = some (.ready p c)) (hp : Prompt w (.lock k)) (a : Admission v)
    (ha : a ∈ w.log) (hs : a.pending.request.timestamp = p.request.timestamp) :
    max a.reached c.micros < a.pending.reading.micros+2*v.skew := by
  obtain ⟨t,ht,hlate,hearly⟩ := pending_window a.pending
  have hclock := hp (p,c) (by simp [readyAt, hk]) t (by rw [← hs]; exact ht)
  have hreached := h.reached a ha
  have hc : c.micros ≤ w.clock.micros := (h.traced k _ hk).2.2
  rw [max_lt_iff]
  constructor <;> linarith

theorem prompt_timely (w : World v) (h : Settled w) (e : Event σ) (hp : Prompt w e) :
    Timely w e := by
  cases e with
  | lock k =>
    rintro ⟨p,c⟩ hq a ha hs
    have hk : w.calls k = some (.ready p c) := by
      unfold readyAt at hq
      split at hq
      next hk =>
        obtain ⟨rfl,rfl⟩ := Prod.mk.inj (Option.some.inj hq)
        exact hk
      next => cases hq
    exact recorded w h k p c hk hp a ha hs.2.1
  | _ => trivial

theorem settled_move (w : World v) (k : ℕ) (p : Phase v) (h : Settled w)
    (hg : Guarded (w.move k p)) (hp : Traced w.clock.micros p) : Settled (w.move k p) := by
  refine ⟨hg,?_,h.reached,h.alone⟩
  intro j q hj
  by_cases he : j = k
  · subst he
    simp only [World.move, if_true, Option.some.injEq] at hj
    exact hj ▸ hp
  · exact h.traced j q (by simpa [World.move, he] using hj)

theorem refused_again (w : World v) (h : Settled w) (k : ℕ) (p : Pending v) (c : DateTime)
    (hk : w.calls k = some (.ready p c)) (hp : Prompt w (.lock k)) (a : Admission v)
    (ha : a ∈ w.log) (hs : Alike a.pending.request p.request) :
    (seenAt c p.nonce p.expiry w.seen).1 = true := by
  have hmax := recorded w h k p c hk hp a ha hs.2
  obtain ⟨hn,hx⟩ := entry_of _ _ _ _ _ a.pending.passed
  obtain ⟨hn',_⟩ := entry_of _ _ _ _ _ p.passed
  rw [max_lt_iff, ← hx] at hmax
  have hmem := h.held a ha hmax.1
  rw [hn, hs.1, ← hn'] at hmem
  exact (seenAt_true _ _ _ _).2 ⟨_,hmem,hmax.2⟩

theorem reached_reach (w : World v) (h : Settled w) (c : DateTime)
    (hc : c.micros ≤ w.clock.micros) :
    ∀ a ∈ w.log.map (Admission.reach c), a.reached ≤ w.clock.micros := by
  intro a ha
  obtain ⟨b,hb,_,_,hr⟩ := mem_reach c w.log a ha
  rw [hr]
  exact max_le (h.reached b hb) hc

theorem alone_reach (w : World v) (h : Settled w) (c : DateTime) :
    ∀ a ∈ w.log.map (Admission.reach c), ∀ b ∈ w.log.map (Admission.reach c),
      Alike a.pending.request b.pending.request → a.call = b.call := by
  intro a ha b hb hs
  obtain ⟨a',ha',hac,hap,_⟩ := mem_reach c w.log a ha
  obtain ⟨b',hb',hbc,hbp,_⟩ := mem_reach c w.log b hb
  rw [hap, hbp] at hs
  rw [hac, hbc]
  exact h.alone a' ha' b' hb' hs

theorem settled_locked (w : World v) (h : Settled w) (k : ℕ) (p : Pending v) (c : DateTime)
    (hk : w.calls k = some (.ready p c)) (hp : Prompt w (.lock k))
    (hg : Guarded (w.locked k p c)) : Settled (w.locked k p c) := by
  obtain ⟨hb,hreading,hc⟩ : Traced w.clock.micros (.ready p c) := h.traced k _ hk
  have hreached := reached_reach w h c hc
  have halone := alone_reach w h c
  have hphase : ∀ q : Phase v, Traced w.clock.micros q → ∀ j x,
      (if j = k then some q else w.calls j) = some x → Traced w.clock.micros x := by
    intro q hq j x hx
    split_ifs at hx
    · exact Option.some.inj hx ▸ hq
    · exact h.traced j x hx
  unfold World.locked at hg ⊢
  dsimp only at hg ⊢
  split_ifs at hg ⊢ with hseen
  · exact ⟨hg,hphase (.rejected p.request replayed) trivial,hreached,halone⟩
  · have hnew : ∀ a ∈ w.log.map (Admission.reach c), ¬ Alike a.pending.request p.request := by
      intro a ha hs
      obtain ⟨b,hb',_,hbp,_⟩ := mem_reach c w.log a ha
      rw [hbp] at hs
      exact hseen (refused_again w h k p c hk hp b hb' hs)
    refine ⟨hg,hphase (.admitted p.request p.identity) ⟨hb,p.reading,_,hreading,p.passed⟩,?_,?_⟩
    · intro a ha
      rcases List.mem_cons.mp ha with rfl | ha
      · exact hreading
      · exact hreached a ha
    · intro a ha b hb hs
      rcases List.mem_cons.mp ha with rfl | ha
      · rcases List.mem_cons.mp hb with rfl | hb
        · rfl
        · exact absurd ⟨hs.1.symm,hs.2.symm⟩ (hnew b hb)
      · rcases List.mem_cons.mp hb with rfl | hb
        · exact absurd hs (hnew a ha)
        · exact halone a ha b hb hs

theorem settled_finished (w : World v) (h : Settled w) (k : ℕ) (r : Request) (i : Identity)
    (hk : w.calls k = some (.admitted r i)) (hg : Guarded (w.finished k r i)) :
    Settled (w.finished k r i) := by
  have hstore : ∀ s, Settled {w with store := s} := fun s =>
    ⟨guarded_store w s h.toGuarded,h.traced,h.reached,h.alone⟩
  have ht : Traced w.clock.micros (.admitted r i) := h.traced k _ hk
  rcases hh : (hooks v.toOptions r i).run w.store with ⟨e | x,s⟩
  · simp only [World.finished, hh] at hg ⊢
    exact settled_move _ k _ (hstore s) hg trivial
  · simp only [World.finished, hh] at hg ⊢
    exact settled_move _ k _ (hstore s) hg ht

theorem settled_step (hc : v.replayCache.isSome = true) (w : World v) (e : Event σ) (u : World v)
    (hp : Prompt w e) (h : step w e = some u) (hw : Settled w) : Settled u := by
  have hg := guarded_step hc w e u (prompt_timely w hw e hp) h hw.toGuarded
  cases step_moves w e u h with
  | tick t hle =>
    exact ⟨hg,fun k p hk => (hw.traced k p hk).later hle,
      fun a ha => (hw.reached a ha).trans hle,hw.alone⟩
  | arrive k r hk => exact settled_move w k _ hw hg (hp.1.bound hp.2)
  | readVerifier k r hk => exact settled_move w k _ hw hg (traced_phaseAt _ r (hw.traced k _ hk))
  | readCache k p hk =>
    obtain ⟨hb,hle⟩ : Traced w.clock.micros (.timed p) := hw.traced k _ hk
    exact settled_move w k _ hw hg ⟨hb,hle,le_refl _⟩
  | lock k p c hk => exact settled_locked w hw k p c hk hp hg
  | finish k r i hk => exact settled_finished w hw k r i hk hg
  | outside s => exact ⟨hg,hw.traced,hw.reached,hw.alone⟩

/-- The call is one of `sign_request`, by a holder of the key, that returned this
timestamp for this context. -/
def Answers (c : Call) (key : Str) (r : Request) : Prop :=
  ∃ kp t sig, c = .request kp r.context t ∧ Holds kp key ∧
    signRequest kp r.context t = .ok (r.timestamp,sig)

/-- The call accepted a signed request that goes back to this signing call. -/
def AcceptedOn (w : World v) (k : ℕ) (c : Call) : Prop :=
  ∃ r i, w.calls k = some (.accepted r i) ∧ Signed r ∧ Answers c i.subject r

theorem Answers.same {c : Call} {key key' : Str} {r q : Request} (h : Answers c key r)
    (h' : Answers c key' q) : r.context = q.context ∧ r.timestamp = q.timestamp := by
  obtain ⟨kp,t,sig,rfl,_,hr⟩ := h
  obtain ⟨kp',t',sig',he,_,hq⟩ := h'
  rw [Call.request.injEq] at he
  obtain ⟨rfl,hc,rfl⟩ := he
  rw [← hc, hr, Except.ok.injEq, Prod.mk.injEq] at hq
  exact ⟨hc,hq.1⟩

theorem settled_alone (w : World v) (h : Settled w) (j k : ℕ) (c : Call)
    (hj : AcceptedOn w j c) (hk : AcceptedOn w k c) : j = k := by
  obtain ⟨r,i,hj,hr,hc⟩ := hj
  obtain ⟨q,i',hk,hq,hc'⟩ := hk
  obtain ⟨hcontext,hstamp⟩ := hc.same hc'
  have hb : Bound r := (h.traced j _ hj).1
  have hb' : Bound q := (h.traced k _ hk).1
  obtain ⟨a,ha,rfl,har⟩ := h.logged j r i (Or.inr hj) hr
  obtain ⟨b,hb'',rfl,hbr⟩ := h.logged k q i' (Or.inr hk) hq
  apply h.alone a ha b hb''
  rw [har, hbr]
  exact ⟨hb.nonce hb' hcontext,hstamp⟩

/-- In every run whose locked checks are prompt, an accepted request was
entitled when it was checked, every accepted signature goes back to a call of
`sign_request`, and no two acceptances to one call. -/
theorem injective_agreement (inj : Function.Injective Platform.sha256) (history : List Call)
    (ideal : IdealSignatures history) (hc : v.replayCache.isSome = true) (clock : DateTime)
    (store : σ) (es : List (Event σ)) (w : World v)
    (hp : Meets step Prompt (World.start v clock store) es)
    (h : run step (World.start v clock store) es = some w) :
    (∀ k r i, w.calls k = some (.accepted r i) → ∃ now, now.micros ≤ w.clock.micros ∧
      Entitled history v now r i) ∧
    (∀ k r i, w.calls k = some (.accepted r i) → Signed r → ∃ c ∈ history, AcceptedOn w k c) ∧
    ∀ j k c, AcceptedOn w j c → AcceptedOn w k c → j = k := by
  have hw : Settled w := run_invariant step Prompt Settled (settled_step hc) _ w es hp h
    (settled_start clock store)
  have hentitled : ∀ k r i, w.calls k = some (.accepted r i) → ∃ now,
      now.micros ≤ w.clock.micros ∧ Entitled history v now r i := by
    intro k r i hk
    obtain ⟨_,now,e,hle,hchecked⟩ := hw.traced k _ hk
    exact ⟨now,hle,checked_entitled inj history ideal v now r i e hchecked⟩
  refine ⟨hentitled,?_,settled_alone w hw⟩
  intro k r i hk hr
  obtain ⟨now,_,he⟩ := hentitled k r i hk
  rcases he.request with ⟨_,hts,hsig⟩ | ⟨kp,t,sig,hmem,hholds,hsign⟩
  · exact absurd ⟨hts,hsig⟩ hr
  · exact ⟨_,hmem,r,i,hk,hr,kp,t,sig,rfl,hholds,hsign⟩

theorem second_prompt (r : Request) (t t' : DateTime) (i : Identity) (nonce : Str)
    (x y : DateTime) (s : σ) (stamp : ℤ) (hr : Received r) (hn : 10 ∉ r.nonce)
    (hstamp : fromIso r.timestamp = some stamp) (hle : t.micros ≤ t'.micros)
    (hlt : t'.micros < stamp+v.skew) (h : checked v t r = .ok (i,some (nonce,x)))
    (h' : checked v t' r = .ok (i,some (nonce,y)))
    (hseen : seenAt t nonce x [] = (false,[(nonce,x)]))
    (hseen' : seenAt t' nonce y [(nonce,x)] = (true,[(nonce,x)]))
    (hh : (hooks v.toOptions r i).run s = (.ok (),s)) :
    Meets step Prompt (World.start v t s) (alone 0 r t ++ .tick t' :: upToLock 1 r) := by
  have hlt' : t.micros < stamp+v.skew := hle.trans_lt hlt
  simp [alone, upToLock, Meets, Prompt, readyAt, step, World.start, World.move,
    phaseAt_timed _ _ _ _ _ h, phaseAt_timed _ _ _ _ _ h', World.locked, hseen, hseen',
    World.finished, hh, hr, hn, hstamp, hle, hlt, hlt']

end Model

section Widgets
local instance : Platform := domain.ideal

theorem widget_received : Received widgetRequest := by
  have hread : Django.widgetGet.request = widgetRequest := by
    obtain ⟨hhost,haccount,huser,hstamp,hsig,hnonce⟩ := Django.widgetGet_headers
    rw [Django.HttpRequest.request, Django.HttpRequest.host, hhost, haccount, huser, hstamp, hsig,
      hnonce]
    rfl
  exact hread ▸ .django Django.widgetGet

theorem widget_stamp : fromIso widgetRequest.timestamp = some requestedAt.micros := by
  decide +kernel

theorem widget_prompt : Meets step Prompt (World.start cachedVerifier windowStart ())
    (alone 0 widgetRequest windowStart ++ .tick requestedAt :: upToLock 1 widgetRequest) :=
  second_prompt widgetRequest windowStart requestedAt _ _ _ _ () requestedAt.micros widget_received
    (by decide) widget_stamp (by decide) (by decide) widget_start widget_later widget_first
    widget_second widget_hooks

theorem injective_agreement_widgets : ∃ w, run step (World.start cachedVerifier windowStart ())
      (alone 0 widgetRequest windowStart ++ .tick requestedAt :: upToLock 1 widgetRequest) =
        some w ∧
    w.calls 1 = some (.rejected widgetRequest replayed) ∧
    (∃ c ∈ domainHistory, AcceptedOn w 0 c) ∧
    ∀ j k c, AcceptedOn w j c → AcceptedOn w k c → j = k := by
  obtain ⟨_,w,hw,hr,hq⟩ := second_timely widgetRequest windowStart requestedAt _ _ _ _ ()
    (by decide) (by decide) widget_start widget_later widget_first widget_second widget_hooks
  obtain ⟨_,hsigned,hone⟩ := injective_agreement (domain_injective _) domainHistory domain_ideal rfl
    windowStart () _ w widget_prompt hw
  exact ⟨w,hw,hq,hsigned 0 _ _ hr Widgets.widget_signed,hone⟩

end Widgets

end Valiss.Agreement
