import Valiss.ExactlyOnce

/-!
# What the replay cache holds

Only an admission puts an entry into the cache, and an entry goes with the first
cache reading past its expiry. At any point of any run the cache is the list of the
admissions no cache reading has overtaken, so whoever is not let through leaves
nothing behind, and a check finds no more entries than there were admissions within
twice the skew before it.
-/

set_option autoImplicit false

namespace Valiss.CacheExtent
open Lib.Unicode Lib.Calendar Lib.Fallible Lib.Runs
open Valiss.Errors Valiss.Replay Valiss.Verify Valiss.ReplayRuns Valiss.Agreement
open Valiss.ExactlyOnce Valiss.Recorded

section Model
variable [Platform] {σ : Type} {v : Verifier σ}

def entry (a : Admission v) : Str × DateTime := (a.pending.nonce,a.pending.expiry)

/-- No cache reading since the admission has come to its expiry. -/
def live (a : Admission v) : Bool := decide (a.reached < a.pending.expiry.micros)

def held (log : List (Admission v)) : Seen := ((log.filter live).map entry).reverse

/-- The admissions verified less than twice the skew before a reading of the cache. -/
def recent (c : DateTime) (log : List (Admission v)) : List (Admission v) :=
  log.filter fun a => decide (c.micros < a.pending.reading.micros+2*v.skew)

theorem live_reach (c : DateTime) (a : Admission v) :
    live (a.reach c) = (decide (c.micros < (entry a).2.micros) && live a) := by
  rw [Bool.eq_iff_iff, Bool.and_eq_true, live, live, decide_eq_true_iff, decide_eq_true_iff,
    decide_eq_true_iff]
  exact max_lt_iff.trans and_comm

theorem held_reach (c : DateTime) (log : List (Admission v)) :
    held (log.map (Admission.reach c)) = prune c (held log) := by
  have hentry : entry ∘ Admission.reach c = (entry : Admission v → _) := rfl
  rw [held, held, prune, List.filter_map, List.map_map, hentry, List.filter_reverse,
    List.filter_map, List.filter_filter]
  congr 3
  funext a
  exact live_reach c a

theorem held_new (hskew : 0 < v.skew) (log : List (Admission v)) (k : ℕ) (p : Pending v) :
    held (⟨k,p,p.reading.micros⟩ :: log) = held log ++ [(p.nonce,p.expiry)] := by
  obtain ⟨_,hx⟩ := entry_of _ _ _ _ _ p.passed
  have hlive : live ⟨k,p,p.reading.micros⟩ = true := by
    rw [live, decide_eq_true_eq, hx]
    linarith
  rw [held, List.filter_cons_of_pos hlive, List.map_cons, List.reverse_cons]
  rfl

theorem held_locked (hskew : 0 < v.skew) (w : World v) (h : w.seen = held w.log) (k : ℕ)
    (p : Pending v) (c : DateTime) : (w.locked k p c).seen = held (w.locked k p c).log := by
  unfold World.locked
  dsimp only
  rw [seenAt_eq, h, ← held_reach]
  cases hfound : (held (w.log.map (Admission.reach c))).lookup p.nonce with
  | some x => rfl
  | none => exact (held_new hskew _ k p).symm

theorem held_step (hskew : 0 < v.skew) (w : World v) (e : Event σ) (u : World v)
    (h : step w e = some u) (hw : w.seen = held w.log) : u.seen = held u.log := by
  rcases step_unlocked w u e h with ⟨hseen,hlog⟩ | ⟨k,p,c,rfl,_,rfl⟩
  · rw [hseen, hlog, hw]
  · exact held_locked hskew w hw k p c

theorem held_recent (c : DateTime) (log : List (Admission v)) :
    (prune c (held log)).length ≤ (recent c log).length := by
  rw [← held_reach, held, List.length_reverse, List.length_map, List.filter_map, List.length_map]
  apply List.Sublist.length_le
  apply List.monotone_filter_right
  intro a ha
  obtain ⟨_,hx⟩ := entry_of _ _ _ _ _ a.pending.passed
  rw [Function.comp_apply, live_reach, Bool.and_eq_true] at ha
  simpa [entry, hx] using ha.1

/-- For a positive skew the cache is what the admissions have left in it, and its size
at a check is bounded by the admissions of the last two skews. -/
theorem cache_extent (hskew : 0 < v.skew) (clock : DateTime) (store : σ) (es : List (Event σ))
    (w : World v) (h : run step (World.start v clock store) es = some w) :
    w.seen = held w.log ∧ ∀ k p c u, w.calls k = some (.ready p c) →
      step w (.lock k) = some u → u.seen.length ≤ (recent c w.log).length+1 := by
  have hw : w.seen = held w.log := run_invariant step (fun _ _ => True)
    (fun w : World v => w.seen = held w.log) (fun s e t _ => held_step hskew s e t) _ w es
    (meets_of_forall step _ es (fun _ _ _ => trivial) _) h rfl
  refine ⟨hw,?_⟩
  intro k p c u hk hu
  obtain rfl : w.locked k p c = u := by simpa [step, hk] using hu
  have hbound := held_recent c w.log
  rw [← hw] at hbound
  have hseen : (w.locked k p c).seen = (seenAt c p.nonce p.expiry w.seen).2 := by
    unfold World.locked
    dsimp only
    split_ifs <;> rfl
  rw [hseen, seenAt_eq]
  split
  · exact hbound.trans (Nat.le_succ _)
  · rw [List.length_append, List.length_singleton]
    exact Nat.add_le_add_right hbound 1

end Model

section Widgets
local instance : Platform := domain.ideal

/-- The first call leaves its entry, and the second, which is refused, none. -/
theorem cache_extent_widgets : ∃ w p u,
    run step (World.start cachedVerifier windowStart ())
      (secondEvents widgetRequest windowStart requestedAt) = some w ∧
    w.calls 1 = some (.ready p requestedAt) ∧ step w (.lock 1) = some u ∧
    w.seen = [(lit "n-1",windowEnd)] ∧ u.calls 1 = some (.rejected widgetRequest replayed) ∧
    u.seen = w.seen ∧ u.seen.length ≤ (recent requestedAt w.log).length+1 := by
  obtain ⟨_,w,hw,_,hk,hlog,_⟩ := second_waits widgetRequest windowStart requestedAt _
    _ _ _ () requestedAt.micros widget_received (by decide) widget_stamp (by decide) (by decide)
    widget_start widget_later widget_first widget_hooks
  obtain ⟨hheld,hbound⟩ := cache_extent (by decide) windowStart () _ w hw
  have hseen : w.seen = [(lit "n-1",windowEnd)] := by
    rw [hheld, hlog]
    rfl
  obtain ⟨p,hp,hr,hn⟩ : ∃ p, w.calls 1 = some (.ready p requestedAt) ∧
      p.request = widgetRequest ∧
      seenAt requestedAt p.nonce p.expiry w.seen = (true,w.seen) :=
    ⟨_,hk,rfl,by rw [hseen]; exact widget_second⟩
  have hu : step w (.lock 1) = some (w.locked 1 p requestedAt) := by rw [step, hp]
  refine ⟨w,p,_,hw,hp,hu,hseen,?_,?_,hbound 1 p requestedAt _ hp hu⟩
  · simp [World.locked, hn, hr, World.move]
  · simp [World.locked, hn, World.move]

end Widgets

end Valiss.CacheExtent
