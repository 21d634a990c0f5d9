import Valiss.Destination
import Valiss.GrpcSig
import Valiss.Lib.Runs
import Valiss.Lib.Scoped
import Valiss.Provenance

/-!
# Handlers behind the interceptors

Both server interceptors wrap a handler the same way: authenticate, set a
context variable, run the handler, put the variable back. A unary response does
so in one call; a streamed one is a generator, which authenticates when it is
first advanced and puts the variable back when it ends, fails or is closed.
-/

set_option autoImplicit false

namespace Valiss.Handlers
open Lib.Unicode Lib.Base64 Lib.Json Lib.Calendar Lib.Fallible Lib.Runs Lib.Scoped Valiss.Errors
open Valiss.Verify Valiss.Message Valiss.Chains Valiss.MsgTransport Valiss.Nkeys Valiss.Decode
open Valiss.RequestSignature Valiss.SigningHistory Valiss.GrpcAuth Valiss.Provenance
open Valiss.Recorded

section Wrapping
variable {σ ρ τ β α : Type}

/-- A wrapped call: its generator not yet advanced, inside its handler, which was
begun on a thread and is at work on one or between two messages, or over. -/
inductive Phase (ρ α : Type) where
  | created (q : ρ)
  | running (q : ρ) (thread : ℕ) (a : α) (outer : Option α) (work : Option ℕ)
  | ended (q : ρ)

/-- The state the verifications act on, the variable on every thread and the calls. -/
structure World (σ ρ α : Type) where
  store : σ
  contexts : Contexts α
  calls : ℕ → Option (Phase ρ α)

/-- `start` is the server calling the wrapped behavior, `advance` the first `next` of
its generator, `pause` a `yield` of the handler and `resume` what goes on after it,
`next` or `close`, on any thread. `leave` is the handler's return or exception where it
is at work, `drop` the closing of a generator that was never advanced. -/
inductive Event (σ ρ τ : Type) where
  | start (k : ℕ) (q : ρ) (thread : ℕ) (readings : τ)
  | advance (k : ℕ) (thread : ℕ) (readings : τ)
  | pause (k : ℕ)
  | resume (k : ℕ) (thread : ℕ)
  | leave (k : ℕ)
  | drop (k : ℕ)
  | outside (s : σ)

def World.initial (store : σ) : World σ ρ α := ⟨store,Contexts.empty,fun _ => none⟩

def World.move (w : World σ ρ α) (k : ℕ) (p : Phase ρ α) : World σ ρ α :=
  {w with calls := fun j => if j = k then some p else w.calls j}

variable (streams : ρ → Bool) (authenticate : ρ → τ → σ → β × σ) (granted : β → Option α)

def World.enter (w : World σ ρ α) (k : ℕ) (q : ρ) (thread : ℕ) (readings : τ) : World σ ρ α :=
  let (b,s) := authenticate q readings w.store
  match granted b with
  | none => {w with store := s}.move k (.ended q)
  | some a => {w with store := s,contexts := w.contexts.set thread k a}.move k
      (.running q thread a (w.contexts.var thread) (some thread))

/-- `finally: reset(token)`; a token is refused on a thread it was not made on. -/
def World.exit (w : World σ ρ α) (k : ℕ) (q : ρ) (own thread : ℕ) (outer : Option α) :
    World σ ρ α :=
  if thread = own then {w with contexts := w.contexts.reset thread k outer}.move k (.ended q)
  else w.move k (.ended q)

def step (w : World σ ρ α) : Event σ ρ τ → Option (World σ ρ α)
  | .start k q thread readings => match w.calls k with
    | none => some (if streams q then w.move k (.created q)
        else w.enter authenticate granted k q thread readings)
    | some _ => none
  | .advance k thread readings => match w.calls k with
    | some (.created q) => some (w.enter authenticate granted k q thread readings)
    | _ => none
  | .pause k => match w.calls k with
    | some (.running q own a outer (some _)) =>
      if streams q then some (w.move k (.running q own a outer none)) else none
    | _ => none
  | .resume k thread => match w.calls k with
    | some (.running q own a outer none) => some (w.move k (.running q own a outer (some thread)))
    | _ => none
  | .leave k => match w.calls k with
    | some (.running q own _ outer (some thread)) => some (w.exit k q own thread outer)
    | _ => none
  | .drop k => match w.calls k with
    | some (.created q) => some (w.move k (.ended q))
    | _ => none
  | .outside s => some {w with store := s}

def Innermost (w : World σ ρ α) (k thread : ℕ) : Prop :=
  ∃ f, (w.contexts.frames thread).head? = some f ∧ f.call = k

/-- A handler ends on its own thread, and not before the handlers inside it. -/
def InTurn (w : World σ ρ α) : Event σ ρ τ → Prop
  | .leave k => ∃ q own a outer thread, w.calls k = some (.running q own a outer (some thread)) ∧
    Innermost w k thread
  | _ => True

/-- A thread serves one call at a time, from its beginning to its end. -/
def OneByOne (w : World σ ρ α) : Event σ ρ τ → Prop
  | .start _ _ thread _ => w.contexts.frames thread = []
  | .advance _ thread _ => w.contexts.frames thread = []
  | .resume k thread => Innermost w k thread
  | .pause _ | .leave _ | .drop _ | .outside _ => True

variable {streams authenticate granted}

/-- The variables are nested, and the open frames are those of the running calls,
each of which was granted what it set. -/
structure Isolated (authenticate : ρ → τ → σ → β × σ) (granted : β → Option α)
    (w : World σ ρ α) : Prop where
  orderly : w.contexts.Orderly
  open_ : ∀ k q t a outer work, w.calls k = some (.running q t a outer work) →
    ⟨k,a,outer⟩ ∈ w.contexts.frames t
  running : ∀ t f, f ∈ w.contexts.frames t → ∃ q work,
    w.calls f.call = some (.running q t f.value f.outer work)
  vouched : ∀ k q t a outer work, w.calls k = some (.running q t a outer work) →
    ∃ readings s, granted (authenticate q readings s).1 = some a

theorem isolated_initial (store : σ) :
    Isolated authenticate granted (World.initial store : World σ ρ α) := by
  refine ⟨orderly_empty,?_,?_,?_⟩ <;> simp [World.initial, Contexts.empty]

theorem Isolated.store {w : World σ ρ α} (h : Isolated authenticate granted w) (s : σ) :
    Isolated authenticate granted {w with store := s} := ⟨h.orderly,h.open_,h.running,h.vouched⟩

theorem Isolated.move {w : World σ ρ α} (h : Isolated authenticate granted w) (k : ℕ)
    (p : Phase ρ α) (hk : ∀ q t a outer work, w.calls k ≠ some (.running q t a outer work))
    (hp : ∀ q t a outer work, p ≠ .running q t a outer work) :
    Isolated authenticate granted (w.move k p) := by
  have hcalls : ∀ j q t a outer work, (w.move k p).calls j = some (.running q t a outer work) ↔
      w.calls j = some (.running q t a outer work) := by
    intro j q t a outer work
    by_cases hj : j = k
    · subst hj
      simp [World.move, hp, hk]
    · simp [World.move, hj]
  constructor
  · exact h.orderly
  · intro j q t a outer work hj
    exact h.open_ j q t a outer work ((hcalls j q t a outer work).1 hj)
  · intro t f hf
    obtain ⟨q,work,hq⟩ := h.running t f hf
    exact ⟨q,work,(hcalls _ q t _ _ _).2 hq⟩
  · intro j q t a outer work hj
    exact h.vouched j q t a outer work ((hcalls j q t a outer work).1 hj)

theorem Isolated.work {w : World σ ρ α} (h : Isolated authenticate granted w) (k : ℕ) (q : ρ)
    (t : ℕ) (a : α) (outer : Option α) (work work' : Option ℕ)
    (hk : w.calls k = some (.running q t a outer work)) :
    Isolated authenticate granted (w.move k (.running q t a outer work')) := by
  have hcalls : ∀ j q' t' a' outer' x,
      (w.move k (.running q t a outer work')).calls j = some (.running q' t' a' outer' x) →
      ∃ y, w.calls j = some (.running q' t' a' outer' y) := by
    intro j q' t' a' outer' x hj
    by_cases hjk : j = k
    · subst hjk
      simp only [World.move, if_true, Option.some.injEq, Phase.running.injEq] at hj
      obtain ⟨rfl,rfl,rfl,rfl,_⟩ := hj
      exact ⟨work,hk⟩
    · exact ⟨x,by simpa [World.move, hjk] using hj⟩
  constructor
  · exact h.orderly
  · intro j q' t' a' outer' x hj
    obtain ⟨y,hy⟩ := hcalls j q' t' a' outer' x hj
    exact h.open_ j q' t' a' outer' y hy
  · intro t' f hf
    obtain ⟨q',y,hy⟩ := h.running t' f hf
    by_cases hfk : f.call = k
    · rw [hfk, hk, Option.some.injEq, Phase.running.injEq] at hy
      obtain ⟨rfl,rfl,rfl,rfl,_⟩ := hy
      exact ⟨q,work',by simp [World.move, hfk]⟩
    · exact ⟨q',y,by simpa [World.move, hfk] using hy⟩
  · intro j q' t' a' outer' x hj
    obtain ⟨y,hy⟩ := hcalls j q' t' a' outer' x hj
    exact h.vouched j q' t' a' outer' y hy

theorem Isolated.fresh {w : World σ ρ α} (h : Isolated authenticate granted w) (k t : ℕ)
    (hk : ∀ q t a outer work, w.calls k ≠ some (.running q t a outer work)) :
    k ∉ (w.contexts.frames t).map Frame.call := by
  intro hm
  obtain ⟨f,hf,rfl⟩ := List.mem_map.1 hm
  obtain ⟨q,work,hq⟩ := h.running t f hf
  exact hk _ _ _ _ _ hq

theorem isolated_enter (w : World σ ρ α) (h : Isolated authenticate granted w) (k : ℕ) (q : ρ)
    (thread : ℕ) (readings : τ)
    (hk : ∀ q t a outer work, w.calls k ≠ some (.running q t a outer work)) :
    Isolated authenticate granted (w.enter authenticate granted k q thread readings) := by
  unfold World.enter
  dsimp only
  split
  next hg => exact (h.store _).move k _ hk (by simp)
  next a hg =>
    have hother : ∀ j p, (if j = k
        then some (Phase.running q thread a (w.contexts.var thread) (some thread))
        else w.calls j) = some p →
          (j = k ∧ p = .running q thread a (w.contexts.var thread) (some thread)) ∨
          (j ≠ k ∧ w.calls j = some p) := by
      intro j p hp
      split_ifs at hp with hj
      · exact Or.inl ⟨hj,(Option.some.inj hp).symm⟩
      · exact Or.inr ⟨hj,hp⟩
    constructor
    · exact h.orderly.set thread k a (h.fresh k thread hk)
    · intro j q' t a' outer work hj
      rcases hother j _ hj with ⟨rfl,he⟩ | ⟨hne,hj⟩
      · simp only [Phase.running.injEq] at he
        obtain ⟨_,rfl,rfl,rfl,_⟩ := he
        exact (w.contexts.mem_set t j a' t _).2 (Or.inr ⟨rfl,rfl⟩)
      · exact (w.contexts.mem_set thread k a t _).2 (Or.inl (h.open_ j q' t a' outer work hj))
    · intro t f hf
      rcases (w.contexts.mem_set thread k a t f).1 hf with hf | ⟨rfl,rfl⟩
      · obtain ⟨q',work,hq'⟩ := h.running t f hf
        have hne : f.call ≠ k := by
          rintro rfl
          exact hk _ _ _ _ _ hq'
        exact ⟨q',work,by simpa [World.move, hne] using hq'⟩
      · exact ⟨q,some t,by simp [World.move]⟩
    · intro j q' t a' outer work hj
      rcases hother j _ hj with ⟨rfl,he⟩ | ⟨hne,hj⟩
      · simp only [Phase.running.injEq] at he
        obtain ⟨rfl,_,rfl,_,_⟩ := he
        exact ⟨readings,w.store,hg⟩
      · exact h.vouched j q' t a' outer work hj

theorem Isolated.innermost {w : World σ ρ α} (h : Isolated authenticate granted w) {k : ℕ} {q : ρ}
    {own thread : ℕ} {a : α} {outer : Option α} {work : Option ℕ}
    (hk : w.calls k = some (.running q own a outer work)) (hi : Innermost w k thread) :
    own = thread ∧ ∃ fs, w.contexts.frames thread = ⟨k,a,outer⟩ :: fs := by
  obtain ⟨f,hf,rfl⟩ := hi
  obtain ⟨q',work',hq'⟩ := h.running thread f (List.mem_of_mem_head? hf)
  rw [hk, Option.some.injEq, Phase.running.injEq] at hq'
  obtain ⟨rfl,rfl,rfl,rfl,_⟩ := hq'
  obtain ⟨fs,hfs⟩ := List.head?_eq_some_iff.1 hf
  exact ⟨rfl,fs,hfs⟩

theorem isolated_exit (w : World σ ρ α) (h : Isolated authenticate granted w) (k : ℕ) (q : ρ)
    (own thread : ℕ) (a : α) (outer : Option α) (work : Option ℕ)
    (hk : w.calls k = some (.running q own a outer work)) (hi : Innermost w k thread) :
    Isolated authenticate granted (w.exit k q own thread outer) := by
  obtain ⟨rfl,fs,hfs⟩ := h.innermost hk hi
  obtain ⟨horderly,hrest⟩ := h.orderly.reset own ⟨k,a,outer⟩ fs hfs
  unfold World.exit
  rw [if_pos rfl]
  have hframes : ∀ t g, g ∈ (w.contexts.reset own k outer).frames t ↔
      g ∈ w.contexts.frames t ∧ g.call ≠ k := by
    intro t g
    rw [Contexts.mem_reset]
    refine and_congr_right fun hg => ⟨fun hown he => ?_,fun hne _ => hne⟩
    obtain ⟨q',work',hq'⟩ := h.running t g hg
    rw [he, hk, Option.some.injEq, Phase.running.injEq] at hq'
    exact hown hq'.2.1.symm he
  have hcalls : ∀ j q' t a' outer' work', ({w with contexts := w.contexts.reset own k outer}.move
      k (.ended q)).calls j = some (.running q' t a' outer' work') →
      j ≠ k ∧ w.calls j = some (.running q' t a' outer' work') := by
    intro j q' t a' outer' work' hj
    have hne : j ≠ k := by
      rintro rfl
      simp [World.move] at hj
    exact ⟨hne,by simpa [World.move, hne] using hj⟩
  constructor
  · exact horderly
  · intro j q' t a' outer' work' hj
    obtain ⟨hne,hj⟩ := hcalls j q' t a' outer' work' hj
    exact (hframes t _).2 ⟨h.open_ j q' t a' outer' work' hj,hne⟩
  · intro t g hg
    obtain ⟨hg,hne⟩ := (hframes t g).1 hg
    obtain ⟨q',work',hq'⟩ := h.running t g hg
    exact ⟨q',work',by simpa [World.move, hne] using hq'⟩
  · intro j q' t a' outer' work' hj
    obtain ⟨_,hj⟩ := hcalls j q' t a' outer' work' hj
    exact h.vouched j q' t a' outer' work' hj

inductive Moves (streams : ρ → Bool) (authenticate : ρ → τ → σ → β × σ) (granted : β → Option α)
    (w : World σ ρ α) : Event σ ρ τ → World σ ρ α → Prop where
  | create (k : ℕ) (q : ρ) (thread : ℕ) (readings : τ) (hk : w.calls k = none) :
    Moves streams authenticate granted w (.start k q thread readings) (w.move k (.created q))
  | start (k : ℕ) (q : ρ) (thread : ℕ) (readings : τ) (hk : w.calls k = none) :
    Moves streams authenticate granted w (.start k q thread readings)
      (w.enter authenticate granted k q thread readings)
  | advance (k : ℕ) (q : ρ) (thread : ℕ) (readings : τ) (hk : w.calls k = some (.created q)) :
    Moves streams authenticate granted w (.advance k thread readings)
      (w.enter authenticate granted k q thread readings)
  | pause (k : ℕ) (q : ρ) (own : ℕ) (a : α) (outer : Option α) (thread : ℕ)
    (hk : w.calls k = some (.running q own a outer (some thread))) :
    Moves streams authenticate granted w (.pause k) (w.move k (.running q own a outer none))
  | resume (k : ℕ) (q : ρ) (own : ℕ) (a : α) (outer : Option α) (thread : ℕ)
    (hk : w.calls k = some (.running q own a outer none)) :
    Moves streams authenticate granted w (.resume k thread)
      (w.move k (.running q own a outer (some thread)))
  | leave (k : ℕ) (q : ρ) (own : ℕ) (a : α) (outer : Option α) (thread : ℕ)
    (hk : w.calls k = some (.running q own a outer (some thread))) :
    Moves streams authenticate granted w (.leave k) (w.exit k q own thread outer)
  | drop (k : ℕ) (q : ρ) (hk : w.calls k = some (.created q)) :
    Moves streams authenticate granted w (.drop k) (w.move k (.ended q))
  | outside (s : σ) : Moves streams authenticate granted w (.outside s) {w with store := s}

theorem step_moves (w : World σ ρ α) (e : Event σ ρ τ) (u : World σ ρ α)
    (h : step streams authenticate granted w e = some u) :
    Moves streams authenticate granted w e u := by
  cases e with
  | start k q thread readings =>
    simp only [step] at h
    split at h
    next hk =>
      obtain rfl := Option.some.inj h
      split_ifs
      · exact .create k q thread readings hk
      · exact .start k q thread readings hk
    next => cases h
  | advance k thread readings =>
    simp only [step] at h
    split at h
    next q hk =>
      obtain rfl := Option.some.inj h
      exact .advance k q thread readings hk
    next => cases h
  | pause k =>
    simp only [step] at h
    split at h
    next q own a outer thread hk =>
      obtain ⟨_,hu⟩ := Option.ite_none_right_eq_some.1 h
      obtain rfl := Option.some.inj hu
      exact .pause k q own a outer thread hk
    next => cases h
  | resume k thread =>
    simp only [step] at h
    split at h
    next q own a outer hk =>
      obtain rfl := Option.some.inj h
      exact .resume k q own a outer thread hk
    next => cases h
  | leave k =>
    simp only [step] at h
    split at h
    next q own a outer thread hk =>
      obtain rfl := Option.some.inj h
      exact .leave k q own a outer thread hk
    next => cases h
  | drop k =>
    simp only [step] at h
    split at h
    next q hk =>
      obtain rfl := Option.some.inj h
      exact .drop k q hk
    next => cases h
  | outside s =>
    obtain rfl := Option.some.inj h
    exact .outside s

theorem isolated_step (w : World σ ρ α) (e : Event σ ρ τ) (u : World σ ρ α) (ht : InTurn w e)
    (h : step streams authenticate granted w e = some u) (hw : Isolated authenticate granted w) :
    Isolated authenticate granted u := by
  cases step_moves w e u h with
  | create k q thread readings hk => exact hw.move k _ (by simp [hk]) (by simp)
  | start k q thread readings hk => exact isolated_enter w hw k q thread readings (by simp [hk])
  | advance k q thread readings hk => exact isolated_enter w hw k q thread readings (by simp [hk])
  | pause k q own a outer thread hk => exact hw.work k q own a outer _ none hk
  | resume k q own a outer thread hk => exact hw.work k q own a outer _ (some thread) hk
  | leave k q own a outer thread hk =>
    obtain ⟨q',own',a',outer',thread',hk',hi⟩ := ht
    obtain ⟨_,_,_,_,rfl⟩ : q = q' ∧ own = own' ∧ a = a' ∧ outer = outer' ∧ thread = thread' := by
      simpa [hk] using hk'
    exact isolated_exit w hw k q own thread a outer _ hk hi
  | drop k q hk => exact hw.move k _ (by simp [hk]) (by simp)
  | outside s => exact hw.store s

theorem isolated_run (store : σ) (es : List (Event σ ρ τ)) (w : World σ ρ α)
    (ht : Meets (step streams authenticate granted) InTurn (World.initial store) es)
    (h : run (step streams authenticate granted) (World.initial store) es = some w) :
    Isolated authenticate granted w :=
  run_invariant _ InTurn (Isolated authenticate granted) isolated_step _ w es ht h
    (isolated_initial store)

theorem Isolated.reads {w : World σ ρ α} (h : Isolated authenticate granted w) (k : ℕ) (q : ρ)
    (t : ℕ) (a : α) (outer : Option α) (work : Option ℕ)
    (hk : w.calls k = some (.running q t a outer work)) (hi : Innermost w k t) :
    w.contexts.var t = some a := by
  obtain ⟨_,fs,hfs⟩ := h.innermost hk hi
  exact h.orderly.reads t ⟨k,a,outer⟩ (by rw [hfs]; rfl)

theorem Isolated.unset {w : World σ ρ α} (h : Isolated authenticate granted w) (t : ℕ) :
    (∃ k q a outer work, w.calls k = some (.running q t a outer work) ∧ Innermost w k t) ∨
      w.contexts.var t = none := by
  cases hf : w.contexts.frames t with
  | nil => exact Or.inr (h.orderly.unset t hf)
  | cons f fs =>
    obtain ⟨q,work,hq⟩ := h.running t f (by rw [hf]; exact List.mem_cons_self)
    exact Or.inl ⟨f.call,q,_,_,work,hq,f,by rw [hf]; rfl,rfl⟩

/-- Whatever is at work is at work where it began, with no other call open there. -/
def Sole (w : World σ ρ α) : Prop := ∀ k q own a outer work,
  w.calls k = some (.running q own a outer work) →
    (∀ f ∈ w.contexts.frames own, f.call = k) ∧ ∀ t ∈ work, t = own

theorem Sole.innermost {w : World σ ρ α} (hs : Sole w) (hw : Isolated authenticate granted w)
    {k : ℕ} {q : ρ} {own t : ℕ} {a : α} {outer : Option α}
    (hk : w.calls k = some (.running q own a outer (some t))) : Innermost w k t := by
  obtain ⟨hall,hwork⟩ := hs k q own a outer _ hk
  obtain rfl := hwork t rfl
  have hmem := hw.open_ k q t a outer _ hk
  cases hf : w.contexts.frames t with
  | nil =>
    rw [hf] at hmem
    cases hmem
  | cons f fs => exact ⟨f,by rw [hf]; rfl,hall f (by rw [hf]; exact List.mem_cons_self)⟩

theorem Sole.move {w : World σ ρ α} (hs : Sole w) (k : ℕ) (p : Phase ρ α)
    (hp : ∀ q own a outer work, p = .running q own a outer work →
      (∀ f ∈ w.contexts.frames own, f.call = k) ∧ ∀ t ∈ work, t = own) : Sole (w.move k p) := by
  intro j q own a outer work hj
  by_cases hjk : j = k
  · subst hjk
    simp only [World.move, if_true, Option.some.injEq] at hj
    exact hp q own a outer work hj
  · exact hs j q own a outer work (by simpa [World.move, hjk] using hj)

theorem sole_enter (w : World σ ρ α) (hw : Isolated authenticate granted w) (hs : Sole w) (k : ℕ)
    (q : ρ) (thread : ℕ) (readings : τ) (hf : w.contexts.frames thread = []) :
    Sole (w.enter authenticate granted k q thread readings) := by
  unfold World.enter
  dsimp only
  split
  next => exact Sole.move hs k _ (by simp)
  next a hg =>
    intro j q' own a' outer work hj
    by_cases hjk : j = k
    · subst hjk
      simp only [World.move, if_true, Option.some.injEq, Phase.running.injEq] at hj
      obtain ⟨_,rfl,_,_,rfl⟩ := hj
      refine ⟨?_,by simp⟩
      intro f hmem
      rcases (w.contexts.mem_set thread j a thread f).1 hmem with hmem | ⟨_,rfl⟩
      · rw [hf] at hmem
        cases hmem
      · rfl
    · have hj' : w.calls j = some (.running q' own a' outer work) := by
        simpa [World.move, hjk] using hj
      obtain ⟨hall,hwork⟩ := hs j q' own a' outer work hj'
      refine ⟨?_,hwork⟩
      intro f hmem
      rcases (w.contexts.mem_set thread k a own f).1 hmem with hmem | ⟨rfl,_⟩
      · exact hall f hmem
      · have hopen := hw.open_ j q' own a' outer work hj'
        rw [hf] at hopen
        cases hopen

theorem sole_step (w : World σ ρ α) (e : Event σ ρ τ) (u : World σ ρ α) (ht : OneByOne w e)
    (h : step streams authenticate granted w e = some u)
    (hw : Isolated authenticate granted w ∧ Sole w) :
    Isolated authenticate granted u ∧ Sole u := by
  obtain ⟨hw,hs⟩ := hw
  have hin : InTurn w e := by
    cases step_moves w e u h with
    | leave k q own a outer thread hk => exact ⟨q,own,a,outer,thread,hk,hs.innermost hw hk⟩
    | _ => trivial
  refine ⟨isolated_step w e u hin h hw,?_⟩
  cases step_moves w e u h with
  | create k q thread readings hk => exact hs.move k _ (by simp)
  | start k q thread readings hk => exact sole_enter w hw hs k q thread readings ht
  | advance k q thread readings hk => exact sole_enter w hw hs k q thread readings ht
  | pause k q own a outer thread hk =>
    refine hs.move k _ ?_
    rintro _ _ _ _ _ ⟨⟩
    exact ⟨(hs k q own a outer _ hk).1,by simp⟩
  | resume k q own a outer thread hk =>
    obtain ⟨rfl,_⟩ := hw.innermost hk ht
    refine hs.move k _ ?_
    rintro _ _ _ _ _ ⟨⟩
    exact ⟨(hs k q own a outer _ hk).1,by simp⟩
  | leave k q own a outer thread hk =>
    unfold World.exit
    split_ifs with hown
    · intro j q' own' a' outer' work' hj
      have hne : j ≠ k := by
        rintro rfl
        simp [World.move] at hj
      obtain ⟨hall,hwork⟩ := hs j q' own' a' outer' work' (by simpa [World.move, hne] using hj)
      refine ⟨?_,hwork⟩
      intro f hmem
      exact hall f ((w.contexts.mem_reset _ k outer own' f).1 hmem).1
    · exact hs.move k _ (by simp)
  | drop k q hk => exact hs.move k _ (by simp)
  | outside s => exact hs

/-- Where threads serve one call at a time, a handler at work reads what it was granted. -/
theorem reads_alone (store : σ) (es : List (Event σ ρ τ)) (w : World σ ρ α)
    (ht : Meets (step streams authenticate granted) OneByOne (World.initial store) es)
    (h : run (step streams authenticate granted) (World.initial store) es = some w) (k : ℕ) (q : ρ)
    (own : ℕ) (a : α) (outer : Option α) (t : ℕ)
    (hk : w.calls k = some (.running q own a outer (some t))) : w.contexts.var t = some a := by
  obtain ⟨hw,hs⟩ := run_invariant _ OneByOne _ sole_step _ w es ht h
    ⟨isolated_initial store,by simp [Sole, World.initial]⟩
  have hi := hs.innermost hw hk
  obtain ⟨rfl,_⟩ := hw.innermost hk hi
  exact hw.reads k q own a outer _ hk hi

section Alone
variable (streams : ρ → Bool) (authenticate : ρ → τ → σ → β × σ) (granted : β → Option α)
  (store : σ) (k : ℕ) (q : ρ) (thread : ℕ) (readings : τ)

theorem unary_runs (a : α) (hs : streams q = false)
    (ha : granted (authenticate q readings store).1 = some a) :
    ∃ w, run (step streams authenticate granted) (World.initial store)
        [.start k q thread readings] = some w ∧
      w.calls k = some (.running q thread a none (some thread)) ∧ Innermost w k thread := by
  simp [run, step, World.initial, World.enter, World.move, hs, ha, Innermost, Contexts.set,
    Contexts.empty]

def streaming (first : τ) : List (Event σ ρ τ) :=
  [.start k q thread first,.advance k thread readings,.pause k,.resume k thread]

theorem streamed_runs (first : τ) (a : α) (hs : streams q = true)
    (ha : granted (authenticate q readings store).1 = some a) :
    Meets (step streams authenticate granted) OneByOne (World.initial store)
        (streaming k q thread readings first) ∧
    ∃ w, run (step streams authenticate granted) (World.initial store)
        (streaming k q thread readings first) = some w ∧
      w.calls k = some (.running q thread a none (some thread)) := by
  simp [streaming, Meets, OneByOne, run, step, World.initial, World.enter, World.move, hs, ha,
    Innermost, Contexts.set, Contexts.empty]

end Alone

end Wrapping

section Interceptors
variable [Platform] {σ M : Type}

structure Rpc (M : Type) extends GrpcSig.GrpcCall M where
  responseStreaming : Bool

/-- `Authenticator._authenticate` on the state of its verifier. -/
def authenticateRpc (v : Verifier σ) (allowMissing : Bool) (q : Rpc M) (now : DateTime) (s : σ) :
    Except Exc Answer × σ :=
  (GrpcAuth.authenticate v now q.metadata q.method allowMissing).run s

def identityOf : Except Exc Answer → Option Identity
  | .ok (.identity i) => some i
  | _ => none

def Rpc.request (q : Rpc M) : Request := GrpcAuth.callRequest q.metadata q.method

theorem authenticateRpc_identity (v : Verifier σ) (allowMissing : Bool) (q : Rpc M)
    (now : DateTime) (s : σ) (i : Identity)
    (h : identityOf (authenticateRpc v allowMissing q now s).1 = some i) :
    (∃ u, (verify v now q.request).run s = (.ok i,u)) ∧
      GrpcAuth.authorizeExt i q.method allowMissing = .ok () := by
  unfold identityOf at h
  split at h
  next j hj =>
    obtain rfl := Option.some.inj h
    obtain ⟨context,hc,hv,ha⟩ := GrpcAuth.authenticate_ok v now q.metadata q.method allowMissing s
      (authenticateRpc v allowMissing q now s).2 j (Prod.ext hj rfl)
    obtain ⟨_,rfl⟩ := (encode_ok _ _).1 hc
    exact ⟨⟨_,hv⟩,ha⟩
  next => cases h

theorem authenticateRpc_grants (v : Verifier σ) (allowMissing : Bool) (q : Rpc M) (now : DateTime)
    (s u : σ) (i : Identity) (ht : ¬ (q.request.accountToken = [] ∧ q.request.userToken = []))
    (hc : methodContext q.method q.request.nonce = .ok q.request.context)
    (hv : (verify v now q.request).run s = (.ok i,u))
    (ha : GrpcAuth.authorizeExt i q.method allowMissing = .ok ()) :
    authenticateRpc v allowMissing q now s = (.ok (.identity i),u) := by
  have hcontext : methodContext q.method (incoming q.metadata "valiss-nonce") =
      .ok q.request.context := hc
  have hverify : (verify v now ⟨incoming q.metadata "valiss-account-token",
      incoming q.metadata "valiss-user-token",incoming q.metadata "valiss-timestamp",
      incoming q.metadata "valiss-signature",q.request.context,
      incoming q.metadata "valiss-nonce"⟩).run s = (.ok i,u) := hv
  have htokens : ¬ (incoming q.metadata "valiss-account-token" = [] ∧
      incoming q.metadata "valiss-user-token" = []) := ht
  unfold authenticateRpc GrpcAuth.authenticate
  dsimp only
  rw [if_neg htokens, Act.run_lift_bind, hcontext]
  dsimp only
  rw [Act.run_bind, Act.run_catching, hverify]
  dsimp only
  rw [ha]
  rfl

/-- However calls interleave over threads, streams and failures, a thread reads the
identity verified for the innermost call begun there, who was entitled to it and
permitted its method, or nothing. Where threads serve one call at a time, every
handler at work reads the identity of its own call. -/
theorem handlers_own_identity (inj : Function.Injective Platform.sha256) (history : List Call)
    (ideal : IdealSignatures history) (v : Verifier σ) (allowMissing : Bool) (store : σ)
    (es : List (Event σ (Rpc M) DateTime)) (w : World σ (Rpc M) Identity)
    (ht : Meets (step Rpc.responseStreaming (authenticateRpc v allowMissing) identityOf) InTurn
      (World.initial store) es)
    (h : run (step Rpc.responseStreaming (authenticateRpc v allowMissing) identityOf)
      (World.initial store) es = some w) :
    (∀ k q t i outer work, w.calls k = some (.running q t i outer work) →
      (Innermost w k t → w.contexts.var t = some i) ∧
      GrpcAuth.authorizeExt i q.method allowMissing = .ok () ∧
      ∃ now, Entitled history v now q.request i) ∧
    (∀ t, (∃ k q i outer work, w.calls k = some (.running q t i outer work) ∧ Innermost w k t) ∨
      w.contexts.var t = none) ∧
    (Meets (step Rpc.responseStreaming (authenticateRpc v allowMissing) identityOf) OneByOne
        (World.initial store) es →
      ∀ k q own i outer t, w.calls k = some (.running q own i outer (some t)) →
        w.contexts.var t = some i) := by
  have hw := isolated_run store es w ht h
  refine ⟨?_,hw.unset,fun hone => reads_alone store es w hone h⟩
  intro k q t i outer work hk
  obtain ⟨now,s,hg⟩ := hw.vouched k q t i outer work hk
  obtain ⟨⟨u,hv⟩,ha⟩ := authenticateRpc_identity v allowMissing q now s i hg
  exact ⟨hw.reads k q t i outer work hk,ha,now,
    verify_entitled inj history ideal v now q.request s u i hv⟩

/-- `_ServerInterceptor._authenticate`, on the readings of its two verifications. -/
def authenticateMessageRpc (r : Receiver) (cache : Option (ChainCache σ)) (serialize : M → Py Bytes)
    (q : Rpc M) (readings : DateTime × DateTime) (s : σ) : GrpcSig.CallEnd × σ :=
  GrpcSig.intercept r cache serialize false q.toGrpcCall readings.1 readings.2 s

def claimsOfEnd : GrpcSig.CallEnd → Option MessageClaims
  | .handled c => some c
  | _ => none

theorem authenticateMessageRpc_claims (r : Receiver) (cache : Option (ChainCache σ))
    (serialize : M → Py Bytes) (q : Rpc M) (readings : DateTime × DateTime) (s : σ)
    (c : MessageClaims)
    (h : claimsOfEnd (authenticateMessageRpc r cache serialize q readings s).1 = some c) :
    ∃ body t chain, serialize q.message = .ok body ∧
      runVerify r (GrpcSig.delivery q.toGrpcCall body) t chain = .ok c := by
  unfold authenticateMessageRpc GrpcSig.intercept at h
  simp only [Bool.false_eq_true, if_false] at h
  split_ifs at h
  · cases h
  · split at h
    next => cases h
    next body hbody =>
      split at h
      next => cases h
      next => cases h
      next c' u ha =>
        obtain rfl := Option.some.inj h
        obtain ⟨_,_,_,hs,_⟩ := (authenticateMessage_ok _ _ _ _ _ _ _ _).1 ha
        obtain ⟨t,chain,hv⟩ := settle_claims _ _ _ _ _ _ _ _ _ hs
        exact ⟨body,t,chain,hbody,hv⟩

theorem authenticateMessageRpc_handles (r : Receiver) (cache : Option (ChainCache σ))
    (serialize : M → Py Bytes) (q : Rpc M) (readings : DateTime × DateTime) (s : σ) (body : Bytes)
    (c : MessageClaims) (t : σ) (htoken : incoming q.metadata "valiss-message-token" ≠ [])
    (hbody : serialize q.message = .ok body)
    (h : (authenticateMessage r cache (GrpcSig.delivery q.toGrpcCall body) readings.1
      readings.2).run s = (.ok (.claims c),t)) :
    authenticateMessageRpc r cache serialize q readings s = (.handled c,t) := by
  unfold authenticateMessageRpc GrpcSig.intercept
  rw [if_neg (by decide), if_neg htoken, hbody]
  dsimp only
  rw [h]

/-- However calls interleave, and whatever the cache does, a thread reads the claims
verified for the innermost call begun there, minted for its method and its message, or
nothing. Where threads serve one call at a time, every handler at work reads the claims
of its own message. -/
theorem handlers_own_claims (history : List Call) (ideal : IdealSignatures history) (r : Receiver)
    (cache : Option (ChainCache σ)) (serialize : M → Py Bytes) (store : σ)
    (es : List (Event σ (Rpc M) (DateTime × DateTime))) (w : World σ (Rpc M) MessageClaims)
    (ht : Meets (step Rpc.responseStreaming (authenticateMessageRpc r cache serialize) claimsOfEnd)
      InTurn (World.initial store) es)
    (h : run (step Rpc.responseStreaming (authenticateMessageRpc r cache serialize) claimsOfEnd)
      (World.initial store) es = some w) :
    (∀ k q t c outer work, w.calls k = some (.running q t c outer work) →
      (Innermost w k t → w.contexts.var t = some c) ∧
      (q.method ≠ [] → ∃ body now, serialize q.message = .ok body ∧
        Authentic history r (GrpcSig.delivery q.toGrpcCall body) now c)) ∧
    (∀ t, (∃ k q c outer work, w.calls k = some (.running q t c outer work) ∧ Innermost w k t) ∨
      w.contexts.var t = none) ∧
    (Meets (step Rpc.responseStreaming (authenticateMessageRpc r cache serialize) claimsOfEnd)
        OneByOne (World.initial store) es →
      ∀ k q own c outer t, w.calls k = some (.running q own c outer (some t)) →
        w.contexts.var t = some c) := by
  have hw := isolated_run store es w ht h
  refine ⟨?_,hw.unset,fun hone => reads_alone store es w hone h⟩
  intro k q t c outer work hk
  refine ⟨hw.reads k q t c outer work hk,fun hne => ?_⟩
  obtain ⟨readings,s,hg⟩ := hw.vouched k q t c outer work hk
  obtain ⟨body,now,chain,hbody,hv⟩ := authenticateMessageRpc_claims r cache serialize q readings s c
    hg
  exact ⟨body,_,hbody,runVerify_authentic history ideal r _ hne now chain c hv⟩

end Interceptors

theorem incoming_same (name : String) (value : Str) (md : List (Str × Str)) :
    incoming ((lit name,value)::md) name = value := by
  simp [incoming]

theorem incoming_other (k name : String) (value : Str) (md : List (Str × Str))
    (h : (lit name == lit k) = false) : incoming ((lit k,value)::md) name = incoming md name := by
  simp only [incoming, List.lookup_cons, h]

def listContext : Bytes := encodePass (lit "grpc\n/acme.v1.Widgets/List\nn-1")

def listDigest : Bytes :=
  bytesOf 32 0xf39047c4fcd06870e5f055d364dad253eb4600e2673bce67c249d10c32ba6f25

def listSignature : Bytes :=
  bytesOf 32 0xa6ee2e8c941e933ac287feb074da0936b3002ccb1db7a069c642c27a199105e2 ++
    bytesOf 32 0x8f063904e375388f4308c0a9f2ca1663f8d8a236d65879f305644faf6b423901

def rpcDomain : Recording where
  digests := [(listContext,listDigest),accountSample.hashed]
  keys := [(operatorSeed,operatorRaw),(accountSeed,accountRaw)]
  signatures := [((accountRaw,encodePass (requestTag ++ (requestStamp ++ 10 :: hex listDigest))),
    listSignature),accountSample.signed]

section Widgets
local instance : Platform := rpcDomain.ideal

def rpcHistory : List Call :=
  [.issue operatorPair (.account (lit "acme") accountKey {epoch := 7,now := issuedAt}),
   .request accountPair listContext requestedAt]

theorem rpc_ideal : IdealSignatures rpcHistory := by
  apply ideal_signatures
  intro e he
  simp only [rpcDomain, List.mem_cons, List.not_mem_nil, or_false] at he
  rcases he with rfl | rfl
  · exact ⟨rpcHistory[1],List.getElem_mem _,by decide +kernel,by decide +kernel⟩
  · exact ⟨rpcHistory[0],List.getElem_mem _,by decide +kernel,by decide +kernel⟩

theorem rpc_injective : Function.Injective (Platform.sha256 : Bytes → Bytes) :=
  sha256_injective rpcDomain _ (by decide +kernel) (by decide +kernel)

def listCall : Rpc Unit where
  method := lit "/acme.v1.Widgets/List"
  metadata := [(lit "valiss-account-token",accountSample.token),(lit "valiss-nonce",lit "n-1"),
    (lit "valiss-timestamp",requestStamp),(lit "valiss-signature",b64encode listSignature)]
  message := ()
  responseStreaming := true

def rpcVerifier : Verifier Unit where
  allowlist _ := true
  skew := 120000000
  resolver := none
  replayCache := none
  validators := []
  extensionTypes := []
  anchor := .pinned operatorKey none

theorem account_decoded : decodeToken accountSample.token = .ok Widgets.accountRead :=
  Widgets.level_decoded accountSample .operator "account" "acme" .account accountRaw rfl
    (by decide) (by decide) (decide_eq_true (by simp [rpcDomain, Sample.signed]))

theorem account_verified : verifyAccount accountSample.token operatorKey =
    .ok (accountClaims Widgets.accountRead) :=
  (verifyAccount_ok _ _ _).2 ⟨Widgets.accountRead,account_decoded,rfl,rfl,
    Widgets.valid_public .account accountRaw,rfl⟩

theorem list_signed : verifySignature accountKey requestStamp (b64encode listSignature) listContext
    requestedAt 120000000 = .ok () := by
  have hdigest : Platform.sha256 listContext = listDigest := by
    show overlay ((listContext,listDigest)::_) unlisted listContext = listDigest
    simp [overlay]
  have hver : Platform.edVerify accountRaw
      (encodePass (RequestSignature.signedText requestStamp listContext)) listSignature = true := by
    rw [RequestSignature.signedText, hdigest]
    exact decide_eq_true (by simp [rpcDomain])
  have hkey := fromPublicKey_publicKey ⟨.account,accountRaw,none,by simp⟩
  exact (verifySignature_ok _ _ _ _ _ _ _).2 ⟨by decide,⟨requestedAt.micros,by decide +kernel,
    by decide,by decide⟩,listSignature,_,decode_encode true _,hkey,hver⟩

def listIdentity : Identity := ⟨accountClaims Widgets.accountRead,none,none⟩

theorem list_verified : (verify rpcVerifier requestedAt listCall.request).run () =
    (.ok listIdentity,()) := by
  have htoken : accountTokenOf rpcVerifier.toOptions listCall.request = .ok accountSample.token :=
    if_pos accountSample.token_ne_nil
  have hanchor : anchored rpcVerifier.anchor accountSample.token =
      .ok (accountClaims Widgets.accountRead,none) := by
    show anchored (.pinned operatorKey none) accountSample.token = _
    rw [anchored, account_verified]
    rfl
  have hwindow := Widgets.account_unbounded requestedAt rpcVerifier.skew
  have hchain : checkChain rpcVerifier.toOptions requestedAt listCall.request
      (accountClaims Widgets.accountRead) none = .ok listIdentity :=
    (checkChain_ok _ _ _ _ _ _).2 ⟨rfl,rfl,by simp [PolicyOk],
      (checkAccount_ok _ _ _ _).2 ⟨hwindow.1,hwindow.2,rfl⟩,
      (checkUser_ok _ _ _ _ _ _).2 (Or.inl ⟨rfl,rfl⟩)⟩
  have hsigned : ¬ (listCall.request.timestamp = [] ∧ listCall.request.signature = []) := by
    rintro ⟨h,_⟩
    cases h
  have hpossession : possession rpcVerifier.toOptions requestedAt listCall.request listIdentity =
      .ok none := by
    rw [possession, if_neg hsigned, show verifySignature listIdentity.subject
      listCall.request.timestamp listCall.request.signature listCall.request.context requestedAt
      rpcVerifier.skew = .ok () from list_signed]
    rfl
  exact (verify_ok _ _ _ _ _ _).2 ⟨none,(checked_ok _ _ _ _).2
    ⟨_,htoken,_,_,hanchor,hchain,hpossession⟩,(),rfl,rfl⟩

theorem list_authenticated : authenticateRpc rpcVerifier true listCall requestedAt () =
    (.ok (.identity listIdentity),()) := by
  have hcontext : methodContext listCall.method listCall.request.nonce = .ok listContext :=
    (encode_ok _ _).2 ⟨by decide,rfl⟩
  exact authenticateRpc_grants rpcVerifier true listCall requestedAt () () listIdentity
    (fun h => accountSample.token_ne_nil h.1) hcontext list_verified rfl

def listEvents : List (Event Unit (Rpc Unit) DateTime) :=
  streaming 0 listCall 1 requestedAt requestedAt

theorem handlers_own_identity_widgets : ∃ w, run (step Rpc.responseStreaming
      (authenticateRpc rpcVerifier true) identityOf) (World.initial ()) listEvents = some w ∧
    w.contexts.var 1 = some listIdentity ∧
    ∃ now, Entitled rpcHistory rpcVerifier now listCall.request listIdentity := by
  have hmeets : Meets (step Rpc.responseStreaming (authenticateRpc rpcVerifier true) identityOf)
      InTurn (World.initial ()) listEvents :=
    meets_of_forall _ _ _ (by simp [listEvents, streaming, InTurn]) _
  obtain ⟨hone,w,hw,hk⟩ := streamed_runs Rpc.responseStreaming (authenticateRpc rpcVerifier true)
    identityOf () 0 listCall 1 requestedAt requestedAt listIdentity rfl
    (by rw [list_authenticated]; rfl)
  obtain ⟨howned,_,hread⟩ := handlers_own_identity rpc_injective rpcHistory rpc_ideal
    rpcVerifier true () listEvents w hmeets hw
  exact ⟨w,hw,hread hone 0 _ _ _ _ 1 hk,(howned 0 listCall 1 listIdentity none _ hk).2.2⟩

end Widgets

section Messages
local instance : Platform := domain.ideal

def messageCall : Rpc Unit where
  method := destination
  metadata := [(lit "valiss-message-token",messageSample.token),
    (lit "valiss-chain-account-token",accountSample.token),
    (lit "valiss-chain-user-token",userSample.token)]
  message := ()
  responseStreaming := false

def bodyOf : Unit → Py Bytes := fun _ => .ok bodyBytes

def messageEvents : List (Event Unit (Rpc Unit) (DateTime × DateTime)) :=
  [.start 0 messageCall 1 (requestedAt,requestedAt)]

theorem message_handled : ∃ c, authenticateMessageRpc Destination.widgetReceiver
    (none : Option (ChainCache Unit)) bodyOf messageCall (requestedAt,requestedAt) () =
      (.handled c,()) := by
  have hrun := Widgets.widget_run Destination.widgetReceiver.options Widgets.bundled requestedAt _ _
    rfl rfl rfl rfl Widgets.widget_operatorPolicy (Or.inr rfl) (by decide) (by decide) (by decide)
  have hmessage := authenticateMessage_detached Destination.widgetReceiver
    (none : Option (ChainCache Unit)) _ requestedAt requestedAt () _ Widgets.bundled_detached hrun
  have hread : incoming messageCall.metadata "valiss-message-token" = messageSample.token :=
    incoming_same _ _ _
  have htoken : incoming messageCall.metadata "valiss-message-token" ≠ [] := by
    rw [hread]
    exact messageSample.token_ne_nil
  have hdelivery : GrpcSig.delivery messageCall.toGrpcCall bodyBytes = Widgets.bundled := by
    unfold GrpcSig.delivery
    rw [hread]
    simp only [messageCall, incoming_same,
      incoming_other "valiss-message-token" "valiss-chain-account-token" _ _ (by decide),
      incoming_other "valiss-message-token" "valiss-chain-user-token" _ _ (by decide),
      incoming_other "valiss-chain-account-token" "valiss-chain-user-token" _ _ (by decide)]
    rfl
  rw [← hdelivery] at hmessage
  exact ⟨_,authenticateMessageRpc_handles _ _ bodyOf messageCall _ _ bodyBytes _ _ htoken rfl
    hmessage⟩

theorem handlers_own_claims_widgets : ∃ w c, run (step Rpc.responseStreaming
      (authenticateMessageRpc Destination.widgetReceiver none bodyOf) claimsOfEnd)
      (World.initial ()) messageEvents = some w ∧ w.contexts.var 1 = some c ∧
    ∃ body now, bodyOf () = .ok body ∧ Authentic domainHistory Destination.widgetReceiver
      (GrpcSig.delivery messageCall.toGrpcCall body) now c := by
  obtain ⟨c,hc⟩ := message_handled
  have hmeets : Meets (step Rpc.responseStreaming
      (authenticateMessageRpc Destination.widgetReceiver none bodyOf) claimsOfEnd) InTurn
      (World.initial ()) messageEvents :=
    meets_of_forall _ _ _ (by simp [messageEvents, InTurn]) _
  obtain ⟨w,hw,hk,hi⟩ := unary_runs Rpc.responseStreaming
    (authenticateMessageRpc Destination.widgetReceiver none bodyOf) claimsOfEnd () 0 messageCall 1
    (requestedAt,requestedAt) c rfl (by rw [hc]; rfl)
  obtain ⟨hread,hbody⟩ := (handlers_own_claims domainHistory domain_ideal
    Destination.widgetReceiver none bodyOf () messageEvents w hmeets hw).1 0 messageCall 1 c none _
    hk
  exact ⟨w,c,hw,hread hi,hbody (by rw [show messageCall.method = destination from rfl]; decide)⟩

end Messages

end Valiss.Handlers
