import Valiss.Lib.Runs
import Valiss.MsgTransport

/-!
# Concurrent deliveries over one chain cache

Each call looks its key up, reads the clock for its one or two verifications,
and ends with at most one write to the cache. The lookup and the end are atomic;
the steps of different calls mix freely. A log, which no step reads, keeps what
was stored and under which call.
-/

set_option autoImplicit false

namespace Valiss.ChainRuns
open Lib.Unicode Lib.Json Lib.Calendar Lib.Fallible Lib.Runs
open Valiss.Errors Valiss.Message Valiss.Chains Valiss.MsgTransport

variable [Platform]

/-- One `authenticate_message` call. -/
structure Call where
  receiver : Receiver
  delivery : Delivery

structure Looked where
  call : Call
  key : Option Str
  found : Option Chain

inductive Phase where
  | waiting (q : Call)
  | looked (l : Looked)
  | timed (l : Looked) (t₁ : DateTime)
  | ready (l : Looked) (t₁ t₂ : DateTime)
  | answered (l : Looked) (t₁ t₂ : DateTime) (out : Outcome)
  | failed (q : Call) (e : Exc)

def Phase.call : Phase → Call
  | .waiting q | .failed q _ => q
  | .looked l | .timed l _ | .ready l _ _ | .answered l _ _ _ => l.call

def Phase.looked? : Phase → Option Looked
  | .looked l | .timed l _ | .ready l _ _ | .answered l _ _ _ => some l
  | .waiting _ | .failed _ _ => none

structure Stored where
  call : Call
  reading : DateTime
  key : Str
  chain : Chain

structure World (σ : Type) where
  clock : DateTime
  store : σ
  calls : ℕ → Option Phase
  log : List Stored

inductive Event where
  | tick (t : DateTime)
  | arrive (k : ℕ) (q : Call)
  | look (k : ℕ)
  | readFirst (k : ℕ)
  | readSecond (k : ℕ)
  | finish (k : ℕ)

variable {σ : Type}

def World.start (clock : DateTime) (store : σ) : World σ := ⟨clock,store,fun _ => none,[]⟩

def World.move (w : World σ) (k : ℕ) (p : Phase) : World σ :=
  {w with calls := fun j => if j = k then some p else w.calls j}

def logged (q : Call) (t₁ : DateTime) : Write → List Stored → List Stored
  | .put key c, log => ⟨q,t₁,key,c⟩::log
  | _, log => log

variable (cache : Option (ChainCache σ))

def World.look (w : World σ) (k : ℕ) (q : Call) : World σ :=
  match lookupKey cache q.delivery with
  | .error e => w.move k (.failed q e)
  | .ok key => {w with store := (lookupChain cache key w.store).2}.move k
      (.looked ⟨q,key,(lookupChain cache key w.store).1⟩)

def World.finish (w : World σ) (k : ℕ) (l : Looked) (t₁ t₂ : DateTime) : World σ :=
  match settle l.call.receiver cache.isSome l.call.delivery l.key l.found t₁ t₂ with
  | .error e => w.move k (.failed l.call e)
  | .ok (out,write) =>
    {w with store := applyWrite cache write w.store,log := logged l.call t₁ write w.log}.move k
      (.answered l t₁ t₂ out)

def step (w : World σ) : Event → Option (World σ)
  | .tick t => if w.clock.micros ≤ t.micros then some {w with clock := t} else none
  | .arrive k q => match w.calls k with
    | none => some (w.move k (.waiting q))
    | some _ => none
  | .look k => match w.calls k with
    | some (.waiting q) => some (w.look cache k q)
    | _ => none
  | .readFirst k => match w.calls k with
    | some (.looked l) => some (w.move k (.timed l w.clock))
    | _ => none
  | .readSecond k => match w.calls k with
    | some (.timed l t₁) => some (w.move k (.ready l t₁ w.clock))
    | _ => none
  | .finish k => match w.calls k with
    | some (.ready l t₁ t₂) => some (w.finish cache k l t₁ t₂)
    | _ => none

variable {cache}

theorem step_tick (w u : World σ) (t : DateTime) :
    step cache w (.tick t) = some u ↔ w.clock.micros ≤ t.micros ∧ {w with clock := t} = u := by
  simp [step]

theorem step_arrive (w u : World σ) (k : ℕ) (q : Call) :
    step cache w (.arrive k q) = some u ↔ w.calls k = none ∧ w.move k (.waiting q) = u := by
  simp only [step]
  split <;> simp_all

theorem step_look (w u : World σ) (k : ℕ) : step cache w (.look k) = some u ↔
    ∃ q, w.calls k = some (.waiting q) ∧ w.look cache k q = u := by
  simp only [step]
  split <;> simp_all

theorem step_readFirst (w u : World σ) (k : ℕ) : step cache w (.readFirst k) = some u ↔
    ∃ l, w.calls k = some (.looked l) ∧ w.move k (.timed l w.clock) = u := by
  simp only [step]
  split <;> simp_all

theorem step_readSecond (w u : World σ) (k : ℕ) : step cache w (.readSecond k) = some u ↔
    ∃ l t₁, w.calls k = some (.timed l t₁) ∧ w.move k (.ready l t₁ w.clock) = u := by
  simp only [step]
  split <;> simp_all

theorem step_finish (w u : World σ) (k : ℕ) : step cache w (.finish k) = some u ↔
    ∃ l t₁ t₂, w.calls k = some (.ready l t₁ t₂) ∧ w.finish cache k l t₁ t₂ = u := by
  simp only [step]
  split <;> simp_all

/-- Once looked up, a call stays with what it found, unless it fails. -/
def Tracked (k : ℕ) (l : Looked) (w : World σ) : Prop :=
  ∃ p, w.calls k = some p ∧ (p.looked? = some l ∨ ∃ q x, p = .failed q x)

theorem tracked_move (k j : ℕ) (l : Looked) (w : World σ) (p : Phase) (h : Tracked k l w)
    (hp : ∀ q, w.calls j = some q → (q.looked? = some l ∨ ∃ c x, q = .failed c x) →
      p.looked? = some l ∨ ∃ c x, p = .failed c x) : Tracked k l (w.move j p) := by
  obtain ⟨q,hq,hl⟩ := h
  by_cases hj : k = j
  · subst hj
    exact ⟨p,by simp [World.move],hp q hq hl⟩
  · exact ⟨q,by simpa [World.move, hj] using hq,hl⟩

theorem tracked_step (k : ℕ) (l : Looked) (w : World σ) (e : Event) (u : World σ)
    (h : step cache w e = some u) (hw : Tracked k l w) : Tracked k l u := by
  cases e with
  | tick t =>
    obtain ⟨_,rfl⟩ := (step_tick _ _ _).1 h
    exact hw
  | arrive j q =>
    obtain ⟨hn,rfl⟩ := (step_arrive _ _ _ _).1 h
    apply tracked_move k j l w _ hw
    simp [hn]
  | look j =>
    obtain ⟨q,hj,rfl⟩ := (step_look _ _ _).1 h
    unfold World.look
    split
    next => exact tracked_move k j l w _ hw fun _ _ _ => Or.inr ⟨_,_,rfl⟩
    next =>
      apply tracked_move k j l
      · exact hw
      simp [hj, Phase.looked?]
  | readFirst j =>
    obtain ⟨m,hj,rfl⟩ := (step_readFirst _ _ _).1 h
    apply tracked_move k j l w _ hw
    simp [hj, Phase.looked?]
  | readSecond j =>
    obtain ⟨m,t,hj,rfl⟩ := (step_readSecond _ _ _).1 h
    apply tracked_move k j l w _ hw
    simp [hj, Phase.looked?]
  | finish j =>
    obtain ⟨m,t₁,t₂,hj,rfl⟩ := (step_finish _ _ _).1 h
    unfold World.finish
    split
    next => exact tracked_move k j l w _ hw fun _ _ _ => Or.inr ⟨_,_,rfl⟩
    next =>
      apply tracked_move k j l
      · exact hw
      simp [hj, Phase.looked?]

def alone (k : ℕ) (q : Call) (t₁ t₂ : DateTime) : List Event :=
  [.arrive k q,.look k,.tick t₁,.readFirst k,.tick t₂,.readSecond k,.finish k]

/-- Whatever `authenticate_message` answers and leaves in the cache, so do the
steps of the call. -/
theorem authenticate_alone (w : World σ) (k : ℕ) (q : Call) (t₁ t₂ : DateTime) (out : Outcome)
    (s : σ) (hk : w.calls k = none) (h₁ : w.clock.micros ≤ t₁.micros)
    (h₂ : t₁.micros ≤ t₂.micros)
    (h : (authenticateMessage q.receiver cache q.delivery t₁ t₂).run w.store = (.ok out,s)) :
    ∃ u l, run (step cache) w (alone k q t₁ t₂) = some u ∧
      u.calls k = some (.answered l t₁ t₂ out) ∧ u.store = s := by
  obtain ⟨key,write,hkey,hsettle,rfl⟩ := (authenticateMessage_ok _ _ _ _ _ _ _ _).1 h
  simp [alone, run, step, hk, World.move, World.look, hkey, h₁, h₂, World.finish, hsettle]

end Valiss.ChainRuns
