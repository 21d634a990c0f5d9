import Valiss.Lib.Runs
import Valiss.Recorded

/-!
# Concurrent verifications over one memory cache

Each call reads the verifier's clock, then the cache's clock, then runs the
locked check, and these steps of different calls mix freely. A recorded nonce
lives until twice the skew after the verifier's reading. The cache forgets it
at that very instant, at which the request may still be inside its window, so
no request is accepted twice as long as no reading has reached the instant.
-/

set_option autoImplicit false

namespace Valiss.ReplayRuns
open Lib.Unicode Lib.Calendar Lib.Fallible Lib.Runs Valiss.Errors Valiss.Replay Valiss.Verify
open Valiss.Recorded

def Signed (r : Request) : Prop := ¬ (r.timestamp = [] ∧ r.signature = [])

/-- The same signed request, whatever tokens came with it. -/
def Same (r q : Request) : Prop :=
  r.nonce = q.nonce ∧ r.timestamp = q.timestamp ∧ r.signature = q.signature ∧
    r.context = q.context

theorem Same.symm {r q : Request} (h : Same r q) : Same q r :=
  ⟨h.1.symm,h.2.1.symm,h.2.2.1.symm,h.2.2.2.symm⟩

instance (r q : Request) : Decidable (Same r q) := inferInstanceAs (Decidable (_ ∧ _))

instance (r : Request) : Decidable (Signed r) := inferInstanceAs (Decidable (¬ _))

theorem Signed.same {r q : Request} (h : Signed r) (hs : Same r q) : Signed q := by
  rw [Signed, ← hs.2.1, ← hs.2.2.1]
  exact h

section Model
variable [Platform] {σ : Type} (v : Verifier σ)

structure Pending where
  request : Request
  reading : DateTime
  identity : Identity
  nonce : Str
  expiry : DateTime
  passed : checked v reading request = .ok (identity,some (nonce,expiry))

inductive Phase where
  | waiting (r : Request)
  | timed (p : Pending v)
  | ready (p : Pending v) (cache : DateTime)
  | admitted (r : Request) (i : Identity)
  | accepted (r : Request) (i : Identity)
  | rejected (r : Request) (e : Exc)

/-- A call the cache let through, with the latest cache reading since. -/
structure Admission where
  call : ℕ
  pending : Pending v
  reached : ℤ

/-- The shared clock and cache, the consumer's state, the calls, and the
admissions so far. -/
structure World where
  clock : DateTime
  seen : Seen
  store : σ
  calls : ℕ → Option (Phase v)
  log : List (Admission v)

inductive Event (σ : Type) where
  | tick (t : DateTime)
  | arrive (k : ℕ) (r : Request)
  | readVerifier (k : ℕ)
  | readCache (k : ℕ)
  | lock (k : ℕ)
  | finish (k : ℕ)
  | outside (s : σ)

variable {v}

def World.move (w : World v) (k : ℕ) (p : Phase v) : World v :=
  {w with calls := fun j => if j = k then some p else w.calls j}

def phaseAt (now : DateTime) (r : Request) : Phase v :=
  match h : checked v now r with
  | .ok (i,some (nonce,expiry)) => .timed ⟨r,now,i,nonce,expiry,h⟩
  | .ok (i,none) => .admitted r i
  | .error e => .rejected r e

def replayed : Exc := errFor (lit "valiss: request nonce already seen (replay)") .replay

def Admission.reach (c : DateTime) (a : Admission v) : Admission v :=
  {a with reached := max a.reached c.micros}

/-- The locked section of a call whose cache clock read `c`. -/
def World.locked (w : World v) (k : ℕ) (p : Pending v) (c : DateTime) : World v :=
  let (seen,kept) := seenAt c p.nonce p.expiry w.seen
  let log := w.log.map (Admission.reach c)
  if seen then {w with seen := kept,log := log}.move k (.rejected p.request replayed)
  else {w with seen := kept,log := ⟨k,p,p.reading.micros⟩ :: log}.move k
    (.admitted p.request p.identity)

def World.finished (w : World v) (k : ℕ) (r : Request) (i : Identity) : World v :=
  match (hooks v.toOptions r i).run w.store with
  | (.ok _,s) => {w with store := s}.move k (.accepted r i)
  | (.error e,s) => {w with store := s}.move k (.rejected r e)

def step (w : World v) : Event σ → Option (World v)
  | .tick t => if w.clock.micros ≤ t.micros then some {w with clock := t} else none
  | .arrive k r => match w.calls k with
    | none => some (w.move k (.waiting r))
    | some _ => none
  | .readVerifier k => match w.calls k with
    | some (.waiting r) => some (w.move k (phaseAt w.clock r))
    | _ => none
  | .readCache k => match w.calls k with
    | some (.timed p) => some (w.move k (.ready p w.clock))
    | _ => none
  | .lock k => match w.calls k with
    | some (.ready p c) => some (w.locked k p c)
    | _ => none
  | .finish k => match w.calls k with
    | some (.admitted r i) => some (w.finished k r i)
    | _ => none
  | .outside s => some {w with store := s}

def World.start (v : Verifier σ) (clock : DateTime) (store : σ) : World v :=
  ⟨clock,[],store,fun _ => none,[]⟩

/-- No two calls have accepted the same signed request. -/
def NoReplay (w : World v) : Prop :=
  ∀ j k r i q i', w.calls j = some (.accepted r i) → w.calls k = some (.accepted q i') →
    Signed r → Same r q → j = k

def readyAt (w : World v) (k : ℕ) : Option (Pending v × DateTime) :=
  match w.calls k with
  | some (.ready p c) => some (p,c)
  | _ => none

/-- A locked check of a request that was let through before: neither its own
cache reading nor one used since has reached the end of the retention. -/
def Timely (w : World v) : Event σ → Prop
  | .lock k => ∀ q ∈ readyAt w k, ∀ a ∈ w.log, Same a.pending.request q.1.request →
      max a.reached q.2.micros < a.pending.reading.micros+2*v.skew
  | _ => True

instance (w : World v) (e : Event σ) : Decidable (Timely w e) :=
  match e with
  | .lock k => inferInstanceAs (Decidable (∀ q ∈ readyAt w k, ∀ a ∈ w.log, _))
  | .tick _ | .arrive _ _ | .readVerifier _ | .readCache _ | .finish _ | .outside _ => isTrue trivial

inductive Moves (w : World v) : Event σ → World v → Prop where
  | tick (t : DateTime) (hle : w.clock.micros ≤ t.micros) : Moves w (.tick t) {w with clock := t}
  | arrive (k : ℕ) (r : Request) (hk : w.calls k = none) :
    Moves w (.arrive k r) (w.move k (.waiting r))
  | readVerifier (k : ℕ) (r : Request) (hk : w.calls k = some (.waiting r)) :
    Moves w (.readVerifier k) (w.move k (phaseAt w.clock r))
  | readCache (k : ℕ) (p : Pending v) (hk : w.calls k = some (.timed p)) :
    Moves w (.readCache k) (w.move k (.ready p w.clock))
  | lock (k : ℕ) (p : Pending v) (c : DateTime) (hk : w.calls k = some (.ready p c)) :
    Moves w (.lock k) (w.locked k p c)
  | finish (k : ℕ) (r : Request) (i : Identity) (hk : w.calls k = some (.admitted r i)) :
    Moves w (.finish k) (w.finished k r i)
  | outside (s : σ) : Moves w (.outside s) {w with store := s}

theorem step_moves (w : World v) (e : Event σ) (u : World v) (h : step w e = some u) :
    Moves w e u := by
  cases e with
  | tick t =>
    simp only [step, Option.ite_none_right_eq_some, Option.some.injEq] at h
    obtain ⟨hle,rfl⟩ := h
    exact .tick t hle
  | arrive k r =>
    simp only [step] at h
    split at h
    next hk =>
      obtain rfl := Option.some.inj h
      exact .arrive k r hk
    next => cases h
  | readVerifier k =>
    simp only [step] at h
    split at h
    next r hk =>
      obtain rfl := Option.some.inj h
      exact .readVerifier k r hk
    next => cases h
  | readCache k =>
    simp only [step] at h
    split at h
    next p hk =>
      obtain rfl := Option.some.inj h
      exact .readCache k p hk
    next => cases h
  | lock k =>
    simp only [step] at h
    split at h
    next p c hk =>
      obtain rfl := Option.some.inj h
      exact .lock k p c hk
    next => cases h
  | finish k =>
    simp only [step] at h
    split at h
    next r i hk =>
      obtain rfl := Option.some.inj h
      exact .finish k r i hk
    next => cases h
  | outside s =>
    obtain rfl := Option.some.inj h
    exact .outside s

def beside (f : ClaimsValidator σ) : ClaimsValidator (Seen × σ) := fun r i s =>
  (((f r i).run s.2).1,s.1,((f r i).run s.2).2)

def cacheBeside (c : DateTime) : ReplayCache (Seen × σ) := fun nonce expiry s =>
  ((memoryReplayCache c nonce expiry s.1).1,(memoryReplayCache c nonce expiry s.1).2,s.2)

/-- The options with the memory cache, its clock reading `c`, in its own part of
the state. -/
def shared (o : Options σ) (c : DateTime) : Options (Seen × σ) where
  allowlist := o.allowlist
  skew := o.skew
  resolver := o.resolver
  replayCache := some (cacheBeside c)
  validators := o.validators.map beside
  extensionTypes := o.extensionTypes

def verifierShared (v : Verifier σ) (c : DateTime) : Verifier (Seen × σ) :=
  ⟨shared v.toOptions c,v.anchor⟩

theorem checked_shared (hc : v.replayCache.isSome = true) (c now : DateTime) (r : Request) :
    checked (verifierShared v c) now r = checked v now r := by
  have hs : (shared v.toOptions c).replayCache.isSome = true := rfl
  have hp : ∀ i, possession (shared v.toOptions c) now r i = possession v.toOptions now r i := by
    intro i
    simp only [possession, hc, hs]
    rfl
  unfold checked
  simp only [verifierShared, hp]
  rfl

theorem suppress_shared (o : Options σ) (c : DateTime) (nonce : Str) (expiry : DateTime)
    (s t : Seen × σ) : (suppress (shared o c) (some (nonce,expiry))).run s = (.ok (),t) ↔
      seenAt c nonce expiry s.1 = (false,t.1) ∧ s.2 = t.2 := by
  have hm : (cacheBeside c nonce expiry).run s =
      (.ok (seenAt c nonce expiry s.1).1,(seenAt c nonce expiry s.1).2,s.2) := rfl
  rw [suppress, shared, Act.run_bind, hm]
  dsimp only
  rw [Act.run_lift]
  cases hs : (seenAt c nonce expiry s.1).1 <;> simp [raiseIf, Prod.ext_iff, hs]

theorem validators_shared (fs : List (ClaimsValidator σ)) (r : Request) (i : Identity)
    (seen : Seen) (s : σ) : (runValidators r i (fs.map beside)).run (seen,s) =
      (((runValidators r i fs).run s).1,seen,((runValidators r i fs).run s).2) := by
  induction fs generalizing s with
  | nil => rfl
  | cons f fs ih =>
    have hb : (beside f r i).run (seen,s) = (((f r i).run s).1,seen,((f r i).run s).2) := rfl
    rw [List.map_cons, runValidators, runValidators, Act.run_bind, Act.run_bind, Act.run_mapError,
      Act.run_mapError, hb]
    rcases (f r i).run s with ⟨e | u,t⟩
    · rfl
    · exact ih t

theorem hooks_shared (o : Options σ) (c : DateTime) (r : Request) (i : Identity) (seen : Seen)
    (s : σ) : (hooks (shared o c) r i).run (seen,s) =
      (((hooks o r i).run s).1,seen,((hooks o r i).run s).2) := by
  simp only [hooks, Act.run_lift_bind, shared]
  cases checkExtensions i o.extensionTypes with
  | ok u => exact validators_shared o.validators r i seen s
  | error e => rfl

theorem entry_of (now : DateTime) (r : Request) (i : Identity) (nonce : Str) (expiry : DateTime)
    (h : checked v now r = .ok (i,some (nonce,expiry))) :
    nonce = r.nonce ∧ expiry.micros = now.micros+2*v.skew := by
  obtain ⟨_,_,_,_,_,_,hp⟩ := (checked_ok _ _ _ _).1 h
  rcases possession_ok _ _ _ _ _ hp with ⟨_,_,_,he⟩ | ⟨_,⟨_,he⟩ | ⟨_,_,x,hx,he⟩⟩
  · cases he
  · cases he
  · obtain ⟨rfl,rfl⟩ : nonce = r.nonce ∧ expiry = x := by simpa using he
    exact ⟨rfl,(plus_some _ _ _).1 hx⟩

theorem signed_entry (hc : v.replayCache.isSome = true) (now : DateTime) (r : Request)
    (hr : Signed r) (i : Identity) (e : Option (Str × DateTime))
    (h : checked v now r = .ok (i,e)) : ∃ p, e = some p := by
  obtain ⟨_,_,_,_,_,_,hp⟩ := (checked_ok _ _ _ _).1 h
  rcases possession_ok _ _ _ _ _ hp with ⟨ht,hs,_⟩ | ⟨_,⟨hn,_⟩ | ⟨_,_,x,_,he⟩⟩
  · exact absurd ⟨ht,hs⟩ hr
  · rw [hc] at hn
    cases hn
  · exact ⟨_,he⟩

theorem phaseAt_timed (now : DateTime) (r : Request) (i : Identity) (nonce : Str)
    (expiry : DateTime) (h : checked v now r = .ok (i,some (nonce,expiry))) :
    phaseAt now r = .timed ⟨r,now,i,nonce,expiry,h⟩ := by
  unfold phaseAt
  split
  next j n x hj =>
    rw [h, Except.ok.injEq, Prod.mk.injEq, Option.some.injEq, Prod.mk.injEq] at hj
    obtain ⟨rfl,rfl,rfl⟩ := hj
    rfl
  next j hj =>
    rw [h] at hj
    simp at hj
  next e hj =>
    rw [h] at hj
    cases hj

def alone (k : ℕ) (r : Request) (c : DateTime) : List (Event σ) :=
  [.arrive k r,.readVerifier k,.tick c,.readCache k,.lock k,.finish k]

theorem alone_accepted (w : World v) (k : ℕ) (r : Request) (c : DateTime) (i : Identity)
    (nonce : Str) (expiry : DateTime) (kept : Seen) (s : σ) (hk : w.calls k = none)
    (hle : w.clock.micros ≤ c.micros) (h : checked v w.clock r = .ok (i,some (nonce,expiry)))
    (hseen : seenAt c nonce expiry w.seen = (false,kept))
    (hh : (hooks v.toOptions r i).run w.store = (.ok (),s)) :
    ∃ u, run step w (alone k r c) = some u ∧ u.calls k = some (.accepted r i) ∧ u.seen = kept ∧
      u.store = s := by
  simp [alone, run, step, hk, World.move, hle, phaseAt_timed _ _ _ _ _ h, World.locked, hseen,
    World.finished, hh]

theorem twice_accepted (r : Request) (t t' : DateTime) (i : Identity) (nonce : Str)
    (x y : DateTime) (s : σ) (hle : t.micros ≤ t'.micros)
    (h : checked v t r = .ok (i,some (nonce,x))) (h' : checked v t' r = .ok (i,some (nonce,y)))
    (hseen : seenAt t nonce x [] = (false,[(nonce,x)]))
    (hseen' : seenAt t' nonce y [(nonce,x)] = (false,[(nonce,y)]))
    (hh : (hooks v.toOptions r i).run s = (.ok (),s)) :
    ∃ w, run step (World.start v t s) (alone 0 r t ++ .tick t' :: alone 1 r t') = some w ∧
      w.calls 0 = some (.accepted r i) ∧ w.calls 1 = some (.accepted r i) := by
  simp [alone, run, step, World.start, World.move, phaseAt_timed _ _ _ _ _ h,
    phaseAt_timed _ _ _ _ _ h', World.locked, hseen, hseen', World.finished, hle, hh]

def upToLock (k : ℕ) (r : Request) : List (Event σ) :=
  [.arrive k r,.readVerifier k,.readCache k,.lock k]

theorem second_timely (r : Request) (t t' : DateTime) (i : Identity) (nonce : Str)
    (x y : DateTime) (s : σ) (hle : t.micros ≤ t'.micros) (hlt : t'.micros < t.micros+2*v.skew)
    (h : checked v t r = .ok (i,some (nonce,x))) (h' : checked v t' r = .ok (i,some (nonce,y)))
    (hseen : seenAt t nonce x [] = (false,[(nonce,x)]))
    (hseen' : seenAt t' nonce y [(nonce,x)] = (true,[(nonce,x)]))
    (hh : (hooks v.toOptions r i).run s = (.ok (),s)) :
    Meets step Timely (World.start v t s) (alone 0 r t ++ .tick t' :: upToLock 1 r) ∧
    ∃ w, run step (World.start v t s) (alone 0 r t ++ .tick t' :: upToLock 1 r) = some w ∧
      w.calls 0 = some (.accepted r i) ∧ w.calls 1 = some (.rejected r replayed) := by
  constructor
  · simp [alone, upToLock, Meets, Timely, readyAt, step, World.start, World.move,
      phaseAt_timed _ _ _ _ _ h, phaseAt_timed _ _ _ _ _ h', World.locked, hseen, hseen',
      World.finished, hle, hh]
    omega
  · simp [alone, upToLock, run, step, World.start, World.move, phaseAt_timed _ _ _ _ _ h,
      phaseAt_timed _ _ _ _ _ h', World.locked, hseen, hseen', World.finished, hle, hh]

/-- Whatever `verify` accepts, the steps of the call accept, with the same cache. -/
theorem verify_alone (hc : v.replayCache.isSome = true) (w : World v) (k : ℕ) (r : Request)
    (hr : Signed r) (c : DateTime) (i : Identity) (kept : Seen) (s : σ) (hk : w.calls k = none)
    (hle : w.clock.micros ≤ c.micros)
    (h : (verify (verifierShared v c) w.clock r).run (w.seen,w.store) = (.ok i,(kept,s))) :
    ∃ u, run step w (alone k r c) = some u ∧ u.calls k = some (.accepted r i) ∧ u.seen = kept ∧
      u.store = s := by
  obtain ⟨e,he,t,hs,hh⟩ := (verify_ok _ _ _ _ _ _).1 h
  rw [checked_shared hc] at he
  obtain ⟨⟨nonce,expiry⟩,rfl⟩ := signed_entry hc _ _ hr _ _ he
  obtain ⟨t₁,t₂⟩ := t
  obtain ⟨hseen,rfl⟩ := (suppress_shared _ _ _ _ _ _).1 hs
  have hrun := hooks_shared v.toOptions c r i t₁ w.store
  rw [show (verifierShared v c).toOptions = shared v.toOptions c from rfl, hrun] at hh
  simp only [Prod.mk.injEq] at hh
  obtain ⟨ha,rfl,rfl⟩ := hh
  exact alone_accepted w k r c i nonce expiry t₁ _ hk hle he hseen (Prod.ext ha rfl)

/-- Admissions the clock has not overtaken are still recorded, one call made all
admissions of a request, and what was let through is in the log. -/
structure Guarded (w : World v) : Prop where
  held : ∀ a ∈ w.log, a.reached < a.pending.expiry.micros →
    (a.pending.nonce,a.pending.expiry) ∈ w.seen
  single : ∀ a ∈ w.log, ∀ b ∈ w.log, Same a.pending.request b.pending.request → a.call = b.call
  logged : ∀ k r i, (w.calls k = some (.admitted r i) ∨ w.calls k = some (.accepted r i)) →
    Signed r → ∃ a ∈ w.log, a.call = k ∧ a.pending.request = r

theorem guarded_start (clock : DateTime) (store : σ) : Guarded (World.start v clock store) := by
  constructor <;> simp [World.start]

theorem guarded_move (w : World v) (k : ℕ) (p : Phase v) (h : Guarded w)
    (hp : ∀ r i, (p = .admitted r i ∨ p = .accepted r i) → Signed r →
      ∃ a ∈ w.log, a.call = k ∧ a.pending.request = r) : Guarded (w.move k p) := by
  constructor
  · exact h.held
  · exact h.single
  · intro j r i hj hr
    by_cases he : j = k
    · subst he
      simp only [World.move, if_true, Option.some.injEq] at hj
      exact hp r i hj hr
    · simp only [World.move, if_neg he] at hj
      exact h.logged j r i hj hr

theorem mem_reach (c : DateTime) (log : List (Admission v)) (a : Admission v)
    (h : a ∈ log.map (Admission.reach c)) : ∃ b ∈ log, a.call = b.call ∧ a.pending = b.pending ∧
      a.reached = max b.reached c.micros := by
  obtain ⟨b,hb,rfl⟩ := List.mem_map.mp h
  exact ⟨b,hb,rfl,rfl,rfl⟩

theorem seen_again (w : World v) (h : Guarded w) (p : Pending v) (c : DateTime)
    (a : Admission v) (ha : a ∈ w.log) (hs : Same a.pending.request p.request)
    (ht : max a.reached c.micros < a.pending.reading.micros+2*v.skew) :
    (seenAt c p.nonce p.expiry w.seen).1 = true := by
  obtain ⟨hn,hx⟩ := entry_of _ _ _ _ _ a.pending.passed
  obtain ⟨hn',_⟩ := entry_of _ _ _ _ _ p.passed
  rw [max_lt_iff, ← hx] at ht
  have hmem := h.held a ha ht.1
  rw [hn, hs.1, ← hn'] at hmem
  exact (seenAt_true _ _ _ _).2 ⟨_,hmem,ht.2⟩

theorem guarded_locked (w : World v) (h : Guarded w) (k : ℕ) (p : Pending v) (c : DateTime)
    (ht : ∀ a ∈ w.log, Same a.pending.request p.request →
      max a.reached c.micros < a.pending.reading.micros+2*v.skew) : Guarded (w.locked k p c) := by
  have hheld : ∀ a ∈ w.log.map (Admission.reach c), a.reached < a.pending.expiry.micros →
      (a.pending.nonce,a.pending.expiry) ∈ (seenAt c p.nonce p.expiry w.seen).2 := by
    intro a ha hlt
    obtain ⟨b,hb,_,hp,hr⟩ := mem_reach c w.log a ha
    rw [hp] at hlt ⊢
    rw [hr, max_lt_iff] at hlt
    exact (mem_seenAt _ _ _ _ _).2 (Or.inl ⟨h.held b hb hlt.1,hlt.2⟩)
  have hsingle : ∀ a ∈ w.log.map (Admission.reach c), ∀ b ∈ w.log.map (Admission.reach c),
      Same a.pending.request b.pending.request → a.call = b.call := by
    intro a ha b hb hs
    obtain ⟨a',ha',hac,hap,_⟩ := mem_reach c w.log a ha
    obtain ⟨b',hb',hbc,hbp,_⟩ := mem_reach c w.log b hb
    rw [hap, hbp] at hs
    rw [hac, hbc]
    exact h.single a' ha' b' hb' hs
  have hlogged : ∀ j r i, (w.calls j = some (.admitted r i) ∨ w.calls j = some (.accepted r i)) →
      Signed r → ∃ a ∈ w.log.map (Admission.reach c), a.call = j ∧ a.pending.request = r := by
    intro j r i hj hr
    obtain ⟨a,ha,hc,hq⟩ := h.logged j r i hj hr
    exact ⟨a.reach c,List.mem_map_of_mem ha,hc,hq⟩
  unfold World.locked
  dsimp only
  split_ifs with hseen
  · exact guarded_move {w with seen := _,log := _} k _ ⟨hheld,hsingle,hlogged⟩ (by simp)
  · have hnew : ∀ a ∈ w.log.map (Admission.reach c), ¬ Same a.pending.request p.request := by
      intro a ha hs
      obtain ⟨b,hb,_,hp,_⟩ := mem_reach c w.log a ha
      rw [hp] at hs
      exact hseen (seen_again w h p c b hb hs (ht b hb hs))
    have hfalse : (seenAt c p.nonce p.expiry w.seen).1 = false := by simpa using hseen
    apply guarded_move _ k (.admitted p.request p.identity)
    · constructor
      · intro a ha hlt
        rcases List.mem_cons.mp ha with rfl | ha
        · exact (mem_seenAt _ _ _ _ _).2 (Or.inr ⟨hfalse,rfl⟩)
        · exact hheld a ha hlt
      · intro a ha b hb hs
        rcases List.mem_cons.mp ha with rfl | ha
        · rcases List.mem_cons.mp hb with rfl | hb
          · rfl
          · exact absurd hs.symm (hnew b hb)
        · rcases List.mem_cons.mp hb with rfl | hb
          · exact absurd hs (hnew a ha)
          · exact hsingle a ha b hb hs
      · intro j r i hj hr
        obtain ⟨a,ha,hc,hq⟩ := hlogged j r i hj hr
        exact ⟨a,List.mem_cons_of_mem _ ha,hc,hq⟩
    · intro r i hp _
      simp only [Phase.admitted.injEq, reduceCtorEq, or_false] at hp
      exact ⟨_,List.mem_cons_self,rfl,hp.1⟩

theorem guarded_store (w : World v) (s : σ) (h : Guarded w) : Guarded {w with store := s} :=
  ⟨h.held,h.single,h.logged⟩

theorem guarded_finished (w : World v) (h : Guarded w) (k : ℕ) (r : Request) (i : Identity)
    (hk : w.calls k = some (.admitted r i)) : Guarded (w.finished k r i) := by
  unfold World.finished
  split
  · apply guarded_move _ k _ (guarded_store w _ h)
    intro q j hq hr
    simp only [reduceCtorEq, false_or, Phase.accepted.injEq] at hq
    obtain ⟨rfl,rfl⟩ := hq
    exact h.logged k r i (Or.inl hk) hr
  · exact guarded_move _ k _ (guarded_store w _ h) (by simp)

theorem guarded_phaseAt (hc : v.replayCache.isSome = true) (w : World v) (h : Guarded w) (k : ℕ)
    (r : Request) : Guarded (w.move k (phaseAt w.clock r)) := by
  apply guarded_move w k _ h
  intro q i hq hr
  unfold phaseAt at hq
  split at hq
  next => simp at hq
  next j hj =>
    simp only [Phase.admitted.injEq, reduceCtorEq, or_false] at hq
    obtain ⟨rfl,rfl⟩ := hq
    obtain ⟨p,hp⟩ := signed_entry hc _ _ hr _ _ hj
    cases hp
  next => simp at hq

theorem guarded_step (hc : v.replayCache.isSome = true) (w : World v) (e : Event σ)
    (u : World v) (ht : Timely w e) (h : step w e = some u) (hw : Guarded w) : Guarded u := by
  cases e with
  | tick t =>
    simp only [step, Option.ite_none_right_eq_some, Option.some.injEq] at h
    obtain ⟨_,rfl⟩ := h
    exact ⟨hw.held,hw.single,hw.logged⟩
  | arrive k r =>
    simp only [step] at h
    split at h
    · obtain rfl := Option.some.inj h
      exact guarded_move w k _ hw (by simp)
    · cases h
  | readVerifier k =>
    simp only [step] at h
    split at h
    next r _ =>
      obtain rfl := Option.some.inj h
      exact guarded_phaseAt hc w hw k r
    next => cases h
  | readCache k =>
    simp only [step] at h
    split at h
    · obtain rfl := Option.some.inj h
      exact guarded_move w k _ hw (by simp)
    · cases h
  | lock k =>
    simp only [step] at h
    split at h
    next p c hk =>
      obtain rfl := Option.some.inj h
      exact guarded_locked w hw k p c (ht (p,c) (by simp [readyAt, hk]))
    next => cases h
  | finish k =>
    simp only [step] at h
    split at h
    next r i hk =>
      obtain rfl := Option.some.inj h
      exact guarded_finished w hw k r i hk
    next => cases h
  | outside s =>
    obtain rfl := Option.some.inj h
    exact guarded_store w s hw

theorem guarded_noReplay (w : World v) (h : Guarded w) : NoReplay w := by
  intro j k r i q i' hj hk hr hs
  have hq : Signed q := hr.same hs
  obtain ⟨a,ha,rfl,har⟩ := h.logged j r i (Or.inr hj) hr
  obtain ⟨b,hb,rfl,hbr⟩ := h.logged k q i' (Or.inr hk) hq
  exact h.single a ha b hb (by rw [har, hbr]; exact hs)

theorem no_replay (hc : v.replayCache.isSome = true) (clock : DateTime) (store : σ)
    (es : List (Event σ)) (w : World v)
    (ht : Meets step Timely (World.start v clock store) es)
    (h : run step (World.start v clock store) es = some w) : NoReplay w :=
  guarded_noReplay w (run_invariant step Timely Guarded (guarded_step hc) _ w es ht h
    (guarded_start clock store))

end Model

section Widgets
local instance : Platform := domain.ideal

def windowStart : DateTime := ⟨requestedAt.micros-120000000,by decide,by decide⟩

def windowEnd : DateTime := ⟨requestedAt.micros+120000000,by decide,by decide⟩

def cachedVerifier : Verifier Unit where
  allowlist _ := true
  skew := 120000000
  resolver := none
  replayCache := some fun _ _ s => (.ok false,s)
  validators := []
  extensionTypes := []
  anchor := .pinned operatorKey none

def acceptedAt (w : World cachedVerifier) (k : ℕ) : Bool :=
  match w.calls k with
  | some (.accepted r _) => decide (Same r widgetRequest)
  | _ => false

def replayEvents : List (Event Unit) :=
  alone 0 widgetRequest windowStart ++ .tick windowEnd :: alone 1 widgetRequest windowEnd

theorem widget_timed (now expiry : DateTime) (h : now.micros-requestedAt.micros ≤ 120000000)
    (h' : -120000000 ≤ now.micros-requestedAt.micros) (hx : now.plus 240000000 = some expiry) :
    checked cachedVerifier now widgetRequest =
      .ok (Widgets.widgetIdentity none,some (lit "n-1",expiry)) :=
  Widgets.widget_checked cachedVerifier now none (Widgets.widget_pinned none) (Or.inl rfl) rfl h h'
    expiry fun _ => hx

theorem widget_start : checked cachedVerifier windowStart widgetRequest =
    .ok (Widgets.widgetIdentity none,some (lit "n-1",windowEnd)) :=
  widget_timed windowStart windowEnd (by decide) (by decide) rfl

theorem widget_first :
    seenAt windowStart (lit "n-1") windowEnd [] = (false,[(lit "n-1",windowEnd)]) := rfl

theorem widget_hooks :
    (hooks cachedVerifier.toOptions widgetRequest (Widgets.widgetIdentity none)).run () =
      (.ok (),()) := rfl

theorem replay_at_end : cachedVerifier.replayCache.isSome = true ∧ 0 < cachedVerifier.skew ∧
    ∃ w, run step (World.start cachedVerifier windowStart ()) replayEvents = some w ∧
      ¬ NoReplay w := by
  have hend := widget_timed windowEnd ⟨requestedAt.micros+360000000,by decide,by decide⟩ (by decide)
    (by decide) rfl
  -- the first entry lives until the window ends, and is gone at that instant
  obtain ⟨w,hw,hr,hq⟩ := twice_accepted widgetRequest windowStart windowEnd _ _ _ _ ()
    (by decide) widget_start hend widget_first rfl widget_hooks
  refine ⟨rfl,by decide,w,hw,fun hn => ?_⟩
  have := hn 0 1 _ _ _ _ hr hq Widgets.widget_signed ⟨rfl,rfl,rfl,rfl⟩
  exact absurd this (by decide)

theorem widget_later : checked cachedVerifier requestedAt widgetRequest =
    .ok (Widgets.widgetIdentity none,
      some (lit "n-1",⟨requestedAt.micros+240000000,by decide,by decide⟩)) :=
  widget_timed requestedAt _ (by decide) (by decide) rfl

theorem widget_second : seenAt requestedAt (lit "n-1")
    ⟨requestedAt.micros+240000000,by decide,by decide⟩ [(lit "n-1",windowEnd)] =
      (true,[(lit "n-1",windowEnd)]) := rfl

def timelyEvents : List (Event Unit) :=
  alone 0 widgetRequest windowStart ++ [.tick requestedAt,.arrive 1 widgetRequest,
    .readVerifier 1,.readCache 1,.lock 1]

theorem no_replay_in_time : ∃ w,
    run step (World.start cachedVerifier windowStart ()) timelyEvents = some w ∧
    acceptedAt w 0 = true ∧ NoReplay w := by
  obtain ⟨hmeets,w,hw,hr,_⟩ := second_timely widgetRequest windowStart requestedAt _ _ _ _ ()
    (by decide) (by decide) widget_start widget_later widget_first widget_second widget_hooks
  refine ⟨w,hw,?_,no_replay rfl windowStart () timelyEvents w hmeets hw⟩
  rw [acceptedAt, hr]
  exact decide_eq_true ⟨rfl,rfl,rfl,rfl⟩

end Widgets

end Valiss.ReplayRuns
