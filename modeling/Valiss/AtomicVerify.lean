import Valiss.Lib.Linearization
import Valiss.ReplayRuns

/-!
# Verifications as if one after another

A call that fails before the cache, or needs none, takes its point where it reads
the verifier's clock; every other call at its locked check. In the order of these
points the calls can be run one after another, each as one `verify` at its own two
clock readings, with the same verdicts and the same cache.
-/

set_option autoImplicit false

namespace Valiss.AtomicVerify
open Lib.Unicode Lib.Calendar Lib.Fallible Lib.Runs Lib.Linearization Valiss.Errors Valiss.Replay
open Valiss.Verify Valiss.ReplayRuns Valiss.Recorded

/-- One verification: the call it is of, its request, and its readings of the clocks of
the verifier and the cache. -/
structure Visit where
  call : ℕ
  request : Request
  reading : DateTime
  cache : DateTime

section Model
variable [Platform] {v : Verifier Unit}

/-- `verify` in one go, over the memory cache. -/
def visit (v : Verifier Unit) (x : Visit) : Act Exc (Seen × Unit) Identity :=
  verify (verifierShared v x.cache) x.reading x.request

def visited (w : World v) : Event Unit → Option Visit
  | .readVerifier k => match w.calls k with
    | some (.waiting r) => match checked v w.clock r with
      | .ok (_,some _) => none
      | _ => some ⟨k,r,w.clock,w.clock⟩
    | _ => none
  | .lock k => match w.calls k with
    | some (.ready p c) => some ⟨k,p.request,p.reading,c⟩
    | _ => none
  | _ => none

def Waits : Phase v → Prop
  | .waiting _ | .timed _ | .ready _ _ => True
  | .admitted _ _ | .accepted _ _ | .rejected _ _ => False

def hooked (v : Verifier Unit) (r : Request) (i : Identity) : Py Identity :=
  ((hooks v.toOptions r i).run ()).1.map fun _ => i

def Gives (x : Visit) (answer : Py Identity) : Phase v → Prop
  | .admitted r i => x.request = r ∧ answer = hooked v r i
  | .accepted r i => x.request = r ∧ answer = .ok i
  | .rejected r e => x.request = r ∧ answer = .error e
  | .waiting _ | .timed _ | .ready _ _ => False

def Open (w : World v) (k : ℕ) : Prop := ∀ p ∈ w.calls k, Waits p

def Agreed (w : World v) (x : Visit) (answer : Py Identity) : Prop :=
  (x.reading.micros ≤ x.cache.micros ∧ x.cache.micros ≤ w.clock.micros) ∧
    ∃ p ∈ w.calls x.call, Gives x answer p

/-- Readings come one after the other, and none before `low` or after `now`. -/
def Dated (low now : ℤ) : Phase v → Prop
  | .timed p => low ≤ p.reading.micros ∧ p.reading.micros ≤ now
  | .ready p c => low ≤ p.reading.micros ∧ p.reading.micros ≤ c.micros ∧ c.micros ≤ now
  | .waiting _ | .admitted _ _ | .accepted _ _ | .rejected _ _ => True

def Ordered (low : ℕ → ℤ) (w : World v) : Prop :=
  ∀ k, low k ≤ w.clock.micros ∧ ∀ p ∈ w.calls k, Dated (low k) w.clock.micros p

theorem hooks_visit (v : Verifier Unit) (c : DateTime) (r : Request) (i : Identity)
    (s : Seen × Unit) : (do hooks (shared v.toOptions c) r i; return i : Act _ _ _).run s =
      (hooked v r i,s) := by
  rw [Act.run_bind, hooks_shared]
  unfold hooked
  cases ((hooks v.toOptions r i).run s.2).1 <;> rfl

theorem visit_failed (hc : v.replayCache.isSome = true) (x : Visit) (e : Exc)
    (h : checked v x.reading x.request = .error e) (s : Seen × Unit) :
    (visit v x).run s = (.error e,s) := by
  rw [visit, verify, Act.run_lift_bind, checked_shared hc, h]

theorem visit_unrecorded (hc : v.replayCache.isSome = true) (x : Visit) (i : Identity)
    (h : checked v x.reading x.request = .ok (i,none)) (s : Seen × Unit) :
    (visit v x).run s = (hooked v x.request i,s) := by
  rw [visit, verify, Act.run_lift_bind, checked_shared hc, h]
  exact hooks_visit v x.cache x.request i s

theorem suppress_visit (o : Options Unit) (c : DateTime) (nonce : Str) (expiry : DateTime)
    (s : Seen × Unit) : (suppress (shared o c) (some (nonce,expiry))).run s =
      (raiseIf ((seenAt c nonce expiry s.1).1 = true)
        (errFor (lit "valiss: request nonce already seen (replay)") .replay),
        (seenAt c nonce expiry s.1).2,s.2) := by
  have hm : (cacheBeside c nonce expiry).run s =
      (.ok (seenAt c nonce expiry s.1).1,(seenAt c nonce expiry s.1).2,s.2) := rfl
  rw [suppress, shared, Act.run_bind, hm]
  rfl

theorem visit_recorded (hc : v.replayCache.isSome = true) (x : Visit) (i : Identity) (nonce : Str)
    (expiry : DateTime) (h : checked v x.reading x.request = .ok (i,some (nonce,expiry)))
    (s : Seen × Unit) : ((visit v x).run s).2 = ((seenAt x.cache nonce expiry s.1).2,()) ∧
      ((seenAt x.cache nonce expiry s.1).1 = true → ((visit v x).run s).1 = .error replayed) ∧
      ((seenAt x.cache nonce expiry s.1).1 = false →
        ((visit v x).run s).1 = hooked v x.request i) := by
  have hrun : (visit v x).run s = match raiseIf ((seenAt x.cache nonce expiry s.1).1 = true)
        (errFor (lit "valiss: request nonce already seen (replay)") .replay) with
      | .ok _ => (hooked v x.request i,((seenAt x.cache nonce expiry s.1).2,()))
      | .error e => (.error e,((seenAt x.cache nonce expiry s.1).2,())) := by
    rw [visit, verify, Act.run_lift_bind, checked_shared hc, h]
    show (suppress (shared v.toOptions x.cache) (some (nonce,expiry)) >>= fun _ => do
      hooks (shared v.toOptions x.cache) x.request i; return i).run s = _
    rw [Act.run_bind, suppress_visit]
    cases raiseIf ((seenAt x.cache nonce expiry s.1).1 = true)
        (errFor (lit "valiss: request nonce already seen (replay)") .replay) with
    | ok _ => exact hooks_visit v x.cache x.request i _
    | error e => rfl
  rw [hrun]
  cases (seenAt x.cache nonce expiry s.1).1 with
  | true => exact ⟨rfl,fun _ => rfl,fun hf => absurd hf (by decide)⟩
  | false => exact ⟨rfl,fun ht => absurd ht (by decide),fun _ => rfl⟩

theorem ordered_move {low : ℕ → ℤ} (w : World v) (k : ℕ) (p : Phase v) (h : Ordered low w)
    (hp : Dated (low k) w.clock.micros p) : Ordered low (w.move k p) := by
  intro j
  refine ⟨(h j).1,?_⟩
  by_cases hj : j = k
  · subst hj
    simpa [World.move] using hp
  · simpa [World.move, hj] using (h j).2

theorem phaseAt_dated (low : ℤ) (now : DateTime) (r : Request) (h : low ≤ now.micros) :
    Dated low now.micros (phaseAt (v := v) now r) := by
  unfold phaseAt
  split
  next => exact ⟨h,le_refl _⟩
  next => trivial
  next => trivial

theorem ordered_step (low : ℕ → ℤ) (w : World v) (e : Event Unit) (u : World v)
    (h : step w e = some u) (hw : Ordered low w) : Ordered low u := by
  cases step_moves w e u h with
  | tick t hle =>
    intro k
    refine ⟨(hw k).1.trans hle,?_⟩
    intro p hp
    have hd := (hw k).2 p hp
    cases p with
    | timed p => exact ⟨hd.1,hd.2.trans hle⟩
    | ready p c => exact ⟨hd.1,hd.2.1,hd.2.2.trans hle⟩
    | _ => trivial
  | outside s => exact hw
  | arrive k r hk => exact ordered_move w k _ hw trivial
  | readVerifier k r hk => exact ordered_move w k _ hw (phaseAt_dated _ _ _ (hw k).1)
  | readCache k p hk =>
    have hd := (hw k).2 _ hk
    exact ordered_move w k _ hw ⟨hd.1,hd.2,le_refl _⟩
  | lock k p c hk =>
    unfold World.locked
    dsimp only
    split_ifs
    · exact ordered_move {w with seen := _,log := _} k _ hw trivial
    · exact ordered_move {w with seen := _,log := _} k _ hw trivial
  | finish k r i hk =>
    unfold World.finished
    split
    · exact ordered_move {w with store := _} k _ hw trivial
    · exact ordered_move {w with store := _} k _ hw trivial

structure Quiet (w u : World v) : Prop where
  seen : u.seen = w.seen
  calls : ∀ k, Open u k ↔ Open w k
  kept : ∀ y a, Agreed w y a → Agreed u y a

theorem quiet_move (w : World v) (k : ℕ) (p : Phase v) (hnone : w.calls k = none → Waits p)
    (hsome : ∀ q, w.calls k = some q → (Waits p ↔ Waits q) ∧ ∀ y a, Gives y a q → Gives y a p) :
    Quiet w (w.move k p) := by
  refine ⟨rfl,?_,?_⟩
  · intro j
    by_cases hj : j = k
    · subst hj
      cases hq : w.calls j with
      | none => simpa [Open, World.move, hq] using hnone hq
      | some q => simpa [Open, World.move, hq] using (hsome q hq).1
    · simp [Open, World.move, hj]
  · rintro y a ⟨hr,q,hq,hg⟩
    refine ⟨hr,?_⟩
    by_cases hy : y.call = k
    · exact ⟨p,by simp [World.move, hy],(hsome q (hy ▸ hq)).2 y a hg⟩
    · exact ⟨q,by simpa [World.move, hy] using hq,hg⟩

theorem acts_moved (w u : World v) (x : Visit) (p q : Phase v) (a : Py Identity)
    (hq : w.calls x.call = some q) (hw : Waits q) (hp : ¬ Waits p) (hg : Gives x a p)
    (hcalls : ∀ j, u.calls j = if j = x.call then some p else w.calls j)
    (hclock : u.clock = w.clock)
    (hr : x.reading.micros ≤ x.cache.micros ∧ x.cache.micros ≤ w.clock.micros) :
    Open w x.call ∧ (∀ k, Open u k ↔ Open w k ∧ k ≠ x.call) ∧ Agreed u x a ∧
      ∀ y b, y.call ≠ x.call → Agreed w y b → Agreed u y b := by
  refine ⟨by simpa [Open, hq] using hw,?_,⟨hclock ▸ hr,p,by simp [hcalls],hg⟩,?_⟩
  · intro k
    by_cases hk : k = x.call
    · simp [Open, hcalls, hk, hp]
    · simp [Open, hcalls, hk]
  · rintro y b hy ⟨hyr,z,hz,hgz⟩
    exact ⟨hclock ▸ hyr,z,by rw [hcalls, if_neg hy]; exact hz,hgz⟩

theorem phaseAt_admitted (now : DateTime) (r : Request) (i : Identity)
    (h : checked v now r = .ok (i,none)) : phaseAt (v := v) now r = .admitted r i := by
  unfold phaseAt
  split
  next j n x hj =>
    rw [h] at hj
    simp at hj
  next j hj =>
    rw [h, Except.ok.injEq, Prod.mk.injEq] at hj
    rw [hj.1]
  next e hj =>
    rw [h] at hj
    cases hj

theorem phaseAt_rejected (now : DateTime) (r : Request) (e : Exc)
    (h : checked v now r = .error e) : phaseAt (v := v) now r = .rejected r e := by
  unfold phaseAt
  split
  next hj =>
    rw [h] at hj
    cases hj
  next hj =>
    rw [h] at hj
    cases hj
  next d hj =>
    rw [h, Except.error.injEq] at hj
    rw [hj]

theorem visited_reading (hc : v.replayCache.isSome = true) (w : World v) (k : ℕ) (r : Request)
    (hk : w.calls k = some (.waiting r)) :
    (visited w (.readVerifier k) = none ∧ ∃ p : Pending v, phaseAt w.clock r = .timed p ∧
      p.reading = w.clock) ∨
    (visited w (.readVerifier k) = some ⟨k,r,w.clock,w.clock⟩ ∧
      ¬ Waits (phaseAt (v := v) w.clock r) ∧ ∀ s,
        ((visit v ⟨k,r,w.clock,w.clock⟩).run s).2 = s ∧
        Gives ⟨k,r,w.clock,w.clock⟩ ((visit v ⟨k,r,w.clock,w.clock⟩).run s).1
          (phaseAt (v := v) w.clock r)) := by
  cases hch : checked v w.clock r with
  | error e =>
    refine Or.inr ⟨by simp [visited, hk, hch],?_,fun s => ?_⟩
    · simp [phaseAt_rejected _ _ _ hch, Waits]
    · rw [visit_failed hc ⟨k,r,w.clock,w.clock⟩ e hch, phaseAt_rejected _ _ _ hch]
      exact ⟨rfl,rfl,rfl⟩
  | ok p =>
    obtain ⟨i,_ | ⟨nonce,expiry⟩⟩ := p
    · refine Or.inr ⟨by simp [visited, hk, hch],?_,fun s => ?_⟩
      · simp [phaseAt_admitted _ _ _ hch, Waits]
      · rw [visit_unrecorded hc ⟨k,r,w.clock,w.clock⟩ i hch, phaseAt_admitted _ _ _ hch]
        exact ⟨rfl,rfl,rfl⟩
    · exact Or.inl ⟨by simp [visited, hk, hch],_,phaseAt_timed _ _ _ _ _ hch,rfl⟩

theorem finished_quiet (w : World v) (k : ℕ) (r : Request) (i : Identity)
    (hk : w.calls k = some (.admitted r i)) : Quiet w (w.finished k r i) := by
  have hstore : ∀ s : Unit, {w with store := s} = w := fun _ => rfl
  have hmove : ∀ p : Phase v, ¬ Waits p → (∀ y, y.request = r → Gives y (hooked v r i) p) →
      Quiet w (w.move k p) := by
    intro p hp hg
    apply quiet_move w k p (by simp [hk])
    intro q hq
    rw [hk, Option.some.injEq] at hq
    subst hq
    refine ⟨iff_of_false hp (by simp [Waits]),?_⟩
    rintro y a ⟨hy,rfl⟩
    exact hg y hy
  unfold World.finished
  split
  next s hs =>
    rw [hstore]
    refine hmove _ (by simp [Waits]) fun y hy => ⟨hy,?_⟩
    rw [hooked, show (hooks v.toOptions r i).run () = (hooks v.toOptions r i).run w.store from rfl,
      hs]
    rfl
  next e s hs =>
    rw [hstore]
    refine hmove _ (by simp [Waits]) fun y hy => ⟨hy,?_⟩
    rw [hooked, show (hooks v.toOptions r i).run () = (hooks v.toOptions r i).run w.store from rfl,
      hs]
    rfl

theorem visited_lock (hc : v.replayCache.isSome = true) (w : World v) (k : ℕ) (p : Pending v)
    (c : DateTime) : ∃ q : Phase v, ¬ Waits q ∧
    (∀ j, (w.locked k p c).calls j = if j = k then some q else w.calls j) ∧
    (w.locked k p c).clock = w.clock ∧
    ((w.locked k p c).seen,()) = ((visit v ⟨k,p.request,p.reading,c⟩).run (w.seen,())).2 ∧
    Gives ⟨k,p.request,p.reading,c⟩
      ((visit v ⟨k,p.request,p.reading,c⟩).run (w.seen,())).1 q := by
  obtain ⟨hstate,hseen,hnew⟩ := visit_recorded hc ⟨k,p.request,p.reading,c⟩ p.identity p.nonce
    p.expiry p.passed (w.seen,())
  rw [hstate]
  unfold World.locked
  dsimp only at hseen hnew ⊢
  split_ifs with hs
  · exact ⟨.rejected p.request replayed,by simp [Waits],fun _ => rfl,rfl,rfl,rfl,hseen hs⟩
  · exact ⟨.admitted p.request p.identity,by simp [Waits],fun _ => rfl,rfl,rfl,rfl,
      hnew (by simpa using hs)⟩

theorem quiet_step (hc : v.replayCache.isSome = true) (w : World v) (e : Event Unit) (u : World v)
    (h : step w e = some u) (hp : visited w e = none) : Quiet w u := by
  cases step_moves w e u h with
  | tick t hle =>
    exact ⟨rfl,fun _ => Iff.rfl,fun y a ha => ⟨⟨ha.1.1,ha.1.2.trans hle⟩,ha.2⟩⟩
  | outside s => exact ⟨rfl,fun _ => Iff.rfl,fun _ _ ha => ha⟩
  | arrive k r hk => exact quiet_move w k _ (fun _ => trivial) (by simp [hk])
  | readVerifier k r hk =>
    rcases visited_reading hc w k r hk with ⟨_,p,hphase,_⟩ | ⟨hx,_⟩
    · rw [hphase]
      refine quiet_move w k _ (fun _ => trivial) ?_
      rintro q hq
      rw [hk, Option.some.injEq] at hq
      subst hq
      exact ⟨Iff.rfl,fun _ _ hg => hg.elim⟩
    · rw [hp] at hx
      cases hx
  | readCache k p hk =>
    refine quiet_move w k _ (fun _ => trivial) ?_
    rintro q hq
    rw [hk, Option.some.injEq] at hq
    subst hq
    exact ⟨Iff.rfl,fun _ _ hg => hg.elim⟩
  | lock k p c hk => simp [visited, hk] at hp
  | finish k r i hk => exact finished_quiet w k r i hk

theorem acts_step (hc : v.replayCache.isSome = true) {low : ℕ → ℤ} (w : World v) (e : Event Unit)
    (u : World v) (x : Visit) (hi : Ordered low w) (h : step w e = some u)
    (hp : visited w e = some x) : Open w x.call ∧
      (u.seen,()) = ((visit v x).run (w.seen,())).2 ∧
      (∀ k, Open u k ↔ Open w k ∧ k ≠ x.call) ∧
      Agreed u x ((visit v x).run (w.seen,())).1 ∧
      ∀ y a, y.call ≠ x.call → Agreed w y a → Agreed u y a := by
  cases step_moves w e u h with
  | readVerifier k r hk =>
    rcases visited_reading hc w k r hk with ⟨hnone,_⟩ | ⟨hx,hp',hgives⟩
    · rw [hp] at hnone
      cases hnone
    · rw [hp, Option.some.injEq] at hx
      subst hx
      obtain ⟨hsame,hg⟩ := hgives (w.seen,())
      obtain ⟨hopen,hcalls,hagreed,hother⟩ := acts_moved w (w.move k (phaseAt w.clock r))
        ⟨k,r,w.clock,w.clock⟩ _ _ _ hk trivial hp' hg (fun _ => rfl) rfl
        ⟨le_refl _,le_refl _⟩
      exact ⟨hopen,hsame.symm,hcalls,hagreed,hother⟩
  | lock k p c hk =>
    simp only [visited, hk, Option.some.injEq] at hp
    subst hp
    obtain ⟨q,hq,hcalls,hclock,hstate,hg⟩ := visited_lock hc w k p c
    obtain ⟨hopen,hpending,hagreed,hother⟩ := acts_moved w _ ⟨k,p.request,p.reading,c⟩ q _ _
      hk trivial hq hg hcalls hclock ((hi k).2 _ hk).2
    exact ⟨hopen,hstate,hpending,hagreed,hother⟩
  | _ => simp [visited] at hp

theorem linear (hc : v.replayCache.isSome = true) (low : ℕ → ℤ) :
    Linear step visited (fun x s => (visit v x).run s) Visit.call
      (fun w : World v => (w.seen,())) (Ordered low) Open Agreed := by
  refine ⟨ordered_step low,?_,fun w e u x hi h hp => acts_step hc w e u x hi h hp⟩
  intro w e u _ h hp
  have hq := quiet_step hc w e u h hp
  exact ⟨by rw [hq.seen],hq.calls,hq.kept⟩

def inTurn (v : Verifier Unit) (order : List Visit) : List (Visit × Py Identity) :=
  answered (fun x s => (visit v x).run s) order ([],())

/-- In turn, the visits leave the cache of the world and answer each call that has ended
as it was answered. -/
structure Sequential (w : World v) (order : List Visit) : Prop where
  once : (order.map Visit.call).Nodup
  cache : after (fun x s => (visit v x).run s) order ([],()) = (w.seen,())
  accepted : ∀ k r i, w.calls k = some (.accepted r i) →
    ∃ x, (x,.ok i) ∈ inTurn v order ∧ x.call = k ∧ x.request = r
  rejected : ∀ k r e, w.calls k = some (.rejected r e) →
    ∃ x, (x,.error e) ∈ inTurn v order ∧ x.call = k ∧ x.request = r

/-- At an instant of the run, the visits before it are of calls that have begun, at
readings until then, every call that has ended is among them, and a call that has not
begun is visited at later readings. -/
structure Parted (w : World v) (first later : List Visit) : Prop where
  ended : ∀ k r, ((∃ e, w.calls k = some (.rejected r e)) ∨
    ∃ i, w.calls k = some (.accepted r i)) →
    k ∈ first.map Visit.call
  past : ∀ x ∈ first, w.calls x.call ≠ none ∧ x.reading.micros ≤ x.cache.micros ∧
    x.cache.micros ≤ w.clock.micros
  future : ∀ x ∈ later, w.calls x.call = none → w.clock.micros ≤ x.reading.micros

/-- The visits of a run, one a call. -/
abbrev Explained (order : List Visit) (w : World v) : Prop :=
  Explains (fun x s => (visit v x).run s) Visit.call (fun w : World v => (w.seen,())) Open Agreed
    ([],()) order w

theorem run_explained (hc : v.replayCache.isSome = true) (clock : DateTime)
    (es : List (Event Unit)) (w : World v) (h : run step (World.start v clock ()) es = some w) :
    Explained (points step visited (World.start v clock ()) es) w := by
  have hordered : Ordered (fun _ => minMicros) (World.start v clock ()) :=
    fun k => ⟨clock.low,by simp [World.start]⟩
  have hstart : Explained [] (World.start v clock ()) :=
    ⟨List.nodup_nil,rfl,by simp [Open, World.start],by simp [answered]⟩
  exact explains_run (linear hc _) hstart hordered h

theorem visit_answered (order : List Visit) (x : Visit) (hx : x ∈ order) :
    ∃ a, (x,a) ∈ inTurn v order := by
  rw [← answered_fst (fun x s => (visit v x).run s) order ([],())] at hx
  obtain ⟨⟨y,a⟩,hya,rfl⟩ := List.mem_map.1 hx
  exact ⟨a,hya⟩

theorem Explained.answer {order : List Visit} {w : World v} (h : Explained order w) (k : ℕ)
    (p : Phase v) (hk : w.calls k = some p) (hp : ¬ Waits p) :
    ∃ x a, (x,a) ∈ inTurn v order ∧ x.call = k ∧ Gives x a p := by
  have hmem : k ∈ order.map Visit.call := (h.calls k).2 fun ho => hp (ho p hk)
  obtain ⟨x,hx,rfl⟩ := List.mem_map.1 hmem
  obtain ⟨a,ha⟩ := visit_answered order x hx
  obtain ⟨_,q,hq,hg⟩ := h.answers _ ha
  rw [hk, Option.mem_some_iff] at hq
  subst hq
  exact ⟨x,a,ha,rfl,hg⟩

theorem Explained.sequential {order : List Visit} {w : World v} (h : Explained order w) :
    Sequential w order := by
  refine ⟨h.once,h.state,?_,?_⟩
  · intro k r i hk
    obtain ⟨x,a,hx,hcall,hr,rfl⟩ := h.answer k _ hk (by simp [Waits])
    exact ⟨x,hx,hcall,hr⟩
  · intro k r e hk
    obtain ⟨x,a,hx,hcall,hr,rfl⟩ := h.answer k _ hk (by simp [Waits])
    exact ⟨x,hx,hcall,hr⟩

theorem later_visits (u : World v) (hu : Ordered (fun _ => minMicros) u)
    (es : List (Event Unit)) : ∀ x ∈ points step visited u es, u.calls x.call = none →
      u.clock.micros ≤ x.reading.micros := by
  let low : ℕ → ℤ := fun k => if (u.calls k).isNone then u.clock.micros else minMicros
  have hlow : Ordered low u := by
    intro k
    cases hk : u.calls k with
    | none => simp [low, hk]
    | some p =>
      have hd := (hu k).2 p hk
      refine ⟨by simpa [low, hk] using u.clock.low,?_⟩
      simpa [low, hk] using hd
  have hall := points_forall step visited (Ordered low) (fun x => low x.call ≤ x.reading.micros)
    (ordered_step low) (by
      intro w e x hw hx
      cases e with
      | readVerifier k =>
        simp only [visited] at hx
        split at hx
        next r hk =>
          split at hx
          next => cases hx
          next =>
            obtain rfl := Option.some.inj hx
            exact (hw k).1
        next => cases hx
      | lock k =>
        simp only [visited] at hx
        split at hx
        next p c hk =>
          obtain rfl := Option.some.inj hx
          exact ((hw k).2 _ hk).1
        next => cases hx
      | _ => simp [visited] at hx) u es hlow
  intro x hx hnone
  have hx := hall x hx
  simpa [low, hnone] using hx

/-- Every run of concurrent verifications is explained by verifications one after
another, each in one go at its own readings, in an order that keeps to real time. -/
theorem verify_linearizable (hc : v.replayCache.isSome = true) (clock : DateTime)
    (es : List (Event Unit)) (w : World v)
    (h : run step (World.start v clock ()) es = some w) : ∃ order, Sequential w order ∧
      ∀ before rest u, es = before ++ rest → run step (World.start v clock ()) before = some u →
        ∃ first later, order = first ++ later ∧ Parted u first later := by
  refine ⟨points step visited (World.start v clock ()) es,
    (run_explained hc clock es w h).sequential,?_⟩
  rintro before rest u rfl hu
  have hexplained := run_explained hc clock before u hu
  have hordered : Ordered (fun _ => minMicros) u := run_invariant step (fun _ _ => True) _
    (fun s e t _ => ordered_step _ s e t) _ _ before
    (meets_of_forall step _ before (fun _ _ _ => trivial) _) hu
    (fun k => ⟨clock.low,by simp [World.start]⟩)
  refine ⟨points step visited (World.start v clock ()) before,points step visited u rest,
    points_append step visited _ _ before rest hu,?_,?_,later_visits u hordered rest⟩
  · rintro k r (⟨e,hk⟩ | ⟨i,hk⟩)
    · exact (hexplained.calls k).2 fun ho => (ho _ hk).elim
    · exact (hexplained.calls k).2 fun ho => (ho _ hk).elim
  · intro x hx
    obtain ⟨a,ha⟩ := visit_answered (v := v) _ x hx
    obtain ⟨hreadings,p,hp,_⟩ := hexplained.answers _ ha
    refine ⟨fun hnone => ?_,hreadings⟩
    rw [hnone] at hp
    cases hp

end Model

section Widgets
local instance : Platform := domain.ideal

/-- The second of two calls with one request, while the first is recorded. -/
theorem verify_linearizable_widgets : ∃ w order x i y,
    run step (World.start cachedVerifier windowStart ())
      (alone 0 widgetRequest windowStart ++ .tick requestedAt :: upToLock 1 widgetRequest) =
        some w ∧
    Sequential w order ∧ (x,.ok i) ∈ inTurn cachedVerifier order ∧ x.call = 0 ∧
    (y,.error replayed) ∈ inTurn cachedVerifier order ∧ y.call = 1 ∧
      y.request = widgetRequest := by
  obtain ⟨_,w,hw,hr,hq⟩ := second_timely widgetRequest windowStart requestedAt _ _ _ _ ()
    (by decide) (by decide) widget_start widget_later widget_first widget_second widget_hooks
  obtain ⟨order,horder,_⟩ := verify_linearizable rfl windowStart _ w hw
  obtain ⟨x,hx,hcall,_⟩ := horder.accepted 0 _ _ hr
  obtain ⟨y,hy,hcall',hrequest⟩ := horder.rejected 1 _ _ hq
  exact ⟨w,order,x,_,y,hw,horder,hx,hcall,hy,hcall',hrequest⟩

end Widgets

end Valiss.AtomicVerify
