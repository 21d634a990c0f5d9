import Valiss.Allowlist
import Valiss.Lib.Runs
import Valiss.RequestSoundness
import Valiss.TokenIds

/-!
# Revocation

Account tokens are revoked by taking their ids off the allowlist while requests
are being verified. A verification asks the list once, after its clock reading,
so what the list holds at that step decides, and nothing done to it later
reaches a request that has been asked about.
-/

set_option autoImplicit false

namespace Valiss.Revocation
open Lib.Unicode Lib.Json Lib.Calendar Lib.Fallible Lib.Runs Valiss.Errors Valiss.Verify
open Valiss.Allowlist Valiss.TokenIds Valiss.RequestSoundness Valiss.Recorded

section Model
variable [Platform] {σ : Type}

inductive Phase where
  | waiting (r : Request)
  | timed (r : Request) (now : DateTime)
  | passed (r : Request) (i : Identity) (entry : Option (Str × DateTime))
  | accepted (r : Request) (i : Identity)
  | rejected

structure World (σ : Type) where
  clock : DateTime
  list : StaticAllowlist
  store : σ
  calls : ℕ → Option Phase

inductive Event where
  | tick (t : DateTime)
  | add (jti : Str)
  | discard (jti : Str)
  | replace (jtis : List Str)
  | arrive (k : ℕ) (r : Request)
  | readClock (k : ℕ)
  | check (k : ℕ)
  | finish (k : ℕ)

def World.start (clock : DateTime) (list : StaticAllowlist) (store : σ) : World σ :=
  ⟨clock,list,store,fun _ => none⟩

def World.move (w : World σ) (k : ℕ) (p : Phase) : World σ :=
  {w with calls := fun j => if j = k then some p else w.calls j}

variable (v : Verifier σ)

def World.vetted (w : World σ) (r : Request) (now : DateTime) : Phase :=
  match checked (withAllowlist v w.list.contains) now r with
  | .ok (i,entry) => .passed r i entry
  | .error _ => .rejected

def World.finished (w : World σ) (k : ℕ) (r : Request) (i : Identity)
    (entry : Option (Str × DateTime)) : World σ :=
  match (suppress v.toOptions entry).run w.store with
  | (.error _,s) => {w with store := s}.move k .rejected
  | (.ok _,s) => match (hooks v.toOptions r i).run s with
    | (.error _,t) => {w with store := t}.move k .rejected
    | (.ok _,t) => {w with store := t}.move k (.accepted r i)

def step (w : World σ) : Event → Option (World σ)
  | .tick t => if w.clock.micros ≤ t.micros then some {w with clock := t} else none
  | .add jti => some {w with list := w.list.add jti}
  | .discard jti => some {w with list := w.list.discard jti}
  | .replace jtis => some {w with list := w.list.replace jtis}
  | .arrive k r => match w.calls k with
    | none => some (w.move k (.waiting r))
    | some _ => none
  | .readClock k => match w.calls k with
    | some (.waiting r) => some (w.move k (.timed r w.clock))
    | _ => none
  | .check k => match w.calls k with
    | some (.timed r now) => some (w.move k (w.vetted v r now))
    | _ => none
  | .finish k => match w.calls k with
    | some (.passed r i entry) => some (w.finished v k r i entry)
    | _ => none

variable {v}

def alone (k : ℕ) (r : Request) : List Event := [.arrive k r,.readClock k,.check k,.finish k]

theorem verify_alone (w : World σ) (k : ℕ) (r : Request) (i : Identity) (s : σ)
    (hk : w.calls k = none)
    (h : (verify (withAllowlist v w.list.contains) w.clock r).run w.store = (.ok i,s)) :
    ∃ u, run (step v) w (alone k r) = some u ∧ u.calls k = some (.accepted r i) ∧
      u.store = s ∧ u.list = w.list := by
  obtain ⟨entry,hc,t,hs,hh⟩ := (verify_ok _ _ _ _ _ _).1 h
  have hs' : (suppress v.toOptions entry).run w.store = (.ok (),t) := hs
  have hh' : (hooks v.toOptions r i).run t = (.ok (),s) := hh
  simp [alone, run, step, hk, World.move, World.vetted, hc, World.finished, hs', hh']

def Past (k : ℕ) (r : Request) (i : Identity) (w : World σ) : Prop :=
  (∃ entry, w.calls k = some (.passed r i entry)) ∨ w.calls k = some (.accepted r i)

theorem past_move (k j : ℕ) (r : Request) (i : Identity) (w : World σ) (p : Phase)
    (hn : ¬ Past k r i w) (h : Past k r i (w.move j p)) :
    k = j ∧ ((∃ entry, p = .passed r i entry) ∨ p = .accepted r i) := by
  by_cases hj : k = j
  · subst hj
    exact ⟨rfl,by simpa [Past, World.move] using h⟩
  · exact absurd (by simpa [Past, World.move, hj] using h) hn

theorem finished_moves (w : World σ) (k : ℕ) (r : Request) (i : Identity)
    (entry : Option (Str × DateTime)) : ∃ s p, w.finished v k r i entry =
      {w with store := s}.move k p ∧ (p = .rejected ∨ p = .accepted r i) := by
  unfold World.finished
  split
  next s _ => exact ⟨s,_,rfl,Or.inl rfl⟩
  next s _ =>
    split
    next t _ => exact ⟨t,_,rfl,Or.inl rfl⟩
    next t _ => exact ⟨t,_,rfl,Or.inr rfl⟩

theorem past_step (k : ℕ) (r : Request) (i : Identity) (w : World σ) (e : Event) (u : World σ)
    (h : step v w e = some u) (hn : ¬ Past k r i w) (hp : Past k r i u) :
    e = .check k ∧ ∃ now entry, w.calls k = some (.timed r now) ∧
      checked (withAllowlist v w.list.contains) now r = .ok (i,entry) := by
  cases e with
  | tick t =>
    simp only [step, Option.ite_none_right_eq_some, Option.some.injEq] at h
    obtain ⟨_,rfl⟩ := h
    exact absurd hp hn
  | add jti | discard jti | replace jtis =>
    obtain rfl := Option.some.inj h
    exact absurd hp hn
  | arrive j q =>
    simp only [step] at h
    split at h
    · obtain rfl := Option.some.inj h
      simpa using (past_move k j r i w _ hn hp).2
    · cases h
  | readClock j =>
    simp only [step] at h
    split at h
    · obtain rfl := Option.some.inj h
      simpa using (past_move k j r i w _ hn hp).2
    · cases h
  | check j =>
    simp only [step] at h
    split at h
    next q now hj =>
      obtain rfl := Option.some.inj h
      obtain ⟨rfl,hq⟩ := past_move k j r i w _ hn hp
      unfold World.vetted at hq
      split at hq
      next x entry hc =>
        simp only [Phase.passed.injEq, reduceCtorEq, or_false] at hq
        obtain ⟨_,rfl,rfl,_⟩ := hq
        exact ⟨rfl,now,entry,hj,hc⟩
      next => simp at hq
    next => cases h
  | finish j =>
    simp only [step] at h
    split at h
    next q x entry hj =>
      obtain rfl := Option.some.inj h
      obtain ⟨s,p,hf,hphase⟩ := finished_moves w j q x entry
      rw [hf] at hp
      obtain ⟨rfl,hmoved⟩ := past_move k j r i {w with store := s} p hn hp
      rcases hphase with rfl | rfl
      · simp at hmoved
      · simp only [reduceCtorEq, exists_const, Phase.accepted.injEq, false_or] at hmoved
        obtain ⟨rfl,rfl⟩ := hmoved
        exact absurd (Or.inl ⟨entry,hj⟩) hn
    next => cases h

def listedAfter (jti : Str) (listed : Bool) : List Event → Bool
  | [] => listed
  | .add j::es => listedAfter jti (listed || decide (j = jti)) es
  | .discard j::es => listedAfter jti (listed && decide (j ≠ jti)) es
  | .replace js::es => listedAfter jti (decide (jti ∈ js)) es
  | _::es => listedAfter jti listed es

theorem moved_list (w : World σ) (k : ℕ) (p : Phase) : (w.move k p).list = w.list := rfl

theorem finished_list (w : World σ) (k : ℕ) (r : Request) (i : Identity)
    (entry : Option (Str × DateTime)) : (w.finished v k r i entry).list = w.list := by
  obtain ⟨s,p,hf,_⟩ := finished_moves (v := v) w k r i entry
  rw [hf, moved_list]

theorem listed_step (jti : Str) (w : World σ) (e : Event) (u : World σ) (h : step v w e = some u) :
    u.list.contains jti = listedAfter jti (w.list.contains jti) [e] := by
  cases e with
  | tick t =>
    simp only [step, Option.ite_none_right_eq_some, Option.some.injEq] at h
    obtain ⟨_,rfl⟩ := h
    rfl
  | add j =>
    obtain rfl := Option.some.inj h
    simp [listedAfter, StaticAllowlist.contains, StaticAllowlist.add, Bool.or_comm, eq_comm]
  | discard j =>
    obtain rfl := Option.some.inj h
    simp [listedAfter, StaticAllowlist.contains, StaticAllowlist.discard, Bool.and_comm, eq_comm]
  | replace js =>
    obtain rfl := Option.some.inj h
    simp [listedAfter, StaticAllowlist.contains, StaticAllowlist.replace]
  | arrive k r | readClock k | check k =>
    simp only [step] at h
    split at h
    · obtain rfl := Option.some.inj h
      rfl
    · cases h
  | finish k =>
    simp only [step] at h
    split at h
    · obtain rfl := Option.some.inj h
      rw [finished_list]
      rfl
    · cases h

omit [Platform] in
theorem listedAfter_cons (jti : Str) (listed : Bool) (e : Event) (es : List Event) :
    listedAfter jti listed (e::es) = listedAfter jti (listedAfter jti listed [e]) es := by
  cases e <;> rfl

omit [Platform] in
theorem listedAfter_append (jti : Str) (listed : Bool) (es ds : List Event) :
    listedAfter jti listed (es++ds) = listedAfter jti (listedAfter jti listed es) ds := by
  induction es generalizing listed with
  | nil => rfl
  | cons e es ih =>
    rw [List.cons_append, listedAfter_cons, listedAfter_cons jti listed e es]
    exact ih _

theorem listed_run (jti : Str) (w u : World σ) (es : List Event)
    (h : run (step v) w es = some u) :
    u.list.contains jti = listedAfter jti (w.list.contains jti) es := by
  induction es generalizing w with
  | nil =>
    obtain rfl := Option.some.inj h
    rfl
  | cons e es ih =>
    obtain ⟨x,hx,h⟩ := (run_cons _ _ _ _ _).1 h
    rw [listedAfter_cons, ← listed_step jti w e x hx]
    exact ih x h

def Relists (jti : Str) : Event → Prop
  | .add j => j = jti
  | .replace js => jti ∈ js
  | _ => False

/-- The event leaves the id off the list. -/
def Revokes (jti : Str) : Event → Prop
  | .discard j => j = jti
  | .replace js => jti ∉ js
  | _ => False

omit [Platform] in
theorem listedAfter_revoked (jti : Str) (listed : Bool) (e : Event) (h : Revokes jti e) :
    listedAfter jti listed [e] = false := by
  cases e with
  | discard j => simp [listedAfter, show j = jti from h]
  | replace js => exact decide_eq_false h
  | _ => exact h.elim

omit [Platform] in
theorem listedAfter_unlisted (jti : Str) (es : List Event) (h : ∀ e ∈ es, ¬ Relists jti e) :
    listedAfter jti false es = false := by
  induction es with
  | nil => rfl
  | cons e es ih =>
    obtain ⟨he,hes⟩ := List.forall_mem_cons.1 h
    have hstep : listedAfter jti false [e] = false := by
      cases e <;> simp_all [listedAfter, Relists]
    rw [listedAfter_cons, hstep]
    exact ih hes

theorem accepted_checked (w u : World σ) (es : List Event) (h : run (step v) w es = some u)
    (k : ℕ) (r : Request) (i : Identity) (hw : ¬ Past k r i w)
    (hk : u.calls k = some (.accepted r i)) :
    ∃ before after x now entry, es = before ++ .check k::after ∧
      run (step v) w before = some x ∧ x.calls k = some (.timed r now) ∧
      checked (withAllowlist v x.list.contains) now r = .ok (i,entry) := by
  obtain ⟨before,e,after,x,y,rfl,hx,hy,hn,hp⟩ :=
    run_establishes (step v) (Past k r i) w u es h hw (Or.inr hk)
  obtain ⟨rfl,now,entry,hcall,hc⟩ := past_step k r i x e y hy hn hp
  exact ⟨before,after,x,now,entry,rfl,hx,hcall,hc⟩

theorem checked_listed (f : Str → Bool) (now : DateTime) (r : Request) (i : Identity)
    (entry : Option (Str × DateTime)) (h : checked (withAllowlist v f) now r = .ok (i,entry)) :
    f i.account.id = true := by
  obtain ⟨_,_,_,_,_,hchain,_⟩ := (checked_ok _ _ _ _).1 h
  obtain ⟨rfl,_,_,hacc,_⟩ := (checkChain_ok _ _ _ _ _ _).1 hchain
  exact ((checkAccount_ok _ _ _ _).1 hacc).2.2

/-- An accepted call's account token was listed, by the changes made up to its
check; if its id is taken off and not put back, the check came before. -/
theorem revocation_effective (clock : DateTime) (list : StaticAllowlist) (store : σ)
    (es : List Event) (u : World σ) (h : run (step v) (World.start clock list store) es = some u)
    (k : ℕ) (r : Request) (i : Identity) (hk : u.calls k = some (.accepted r i)) :
    (∃ before after, es = before ++ .check k::after ∧
      listedAfter i.account.id (list.contains i.account.id) before = true) ∧
    ∀ before e after, es = before ++ e::after → Revokes i.account.id e →
      (∀ d ∈ after, ¬ Relists i.account.id d) → .check k ∈ before := by
  have hstart : ¬ Past k r i (World.start clock list store) := by simp [Past, World.start]
  obtain ⟨early,late,x,now,entry,rfl,hx,_,hc⟩ := accepted_checked _ u es h k r i hstart hk
  have hlisted := checked_listed _ now r i entry hc
  rw [listed_run i.account.id _ x early hx] at hlisted
  refine ⟨⟨early,late,rfl,hlisted⟩,?_⟩
  intro before e after he hrevokes hafter
  rcases List.append_eq_append_iff.1 he with ⟨c,rfl,hc'⟩ | ⟨c,rfl,hc'⟩
  · cases c with
    | nil =>
      obtain ⟨rfl,_⟩ := List.cons.inj hc'
      exact hrevokes.elim
    | cons d c =>
      obtain ⟨rfl,_⟩ := List.cons.inj hc'
      exact List.mem_append_right _ List.mem_cons_self
  · cases c with
    | nil =>
      obtain ⟨rfl,_⟩ := List.cons.inj hc'
      exact hrevokes.elim
    | cons d c =>
      obtain ⟨rfl,rfl⟩ := List.cons.inj hc'
      rw [listedAfter_append, listedAfter_cons, listedAfter_revoked _ _ _ hrevokes,
        listedAfter_unlisted] at hlisted
      · cases hlisted
      · exact fun d hd => hafter d (List.mem_append_left _ hd)

end Model

section Widgets
local instance : Platform := domain.ideal

def widgetList : StaticAllowlist := ⟨{Widgets.accountRead.id}⟩

def revoked : List Event := alone 0 widgetRequest ++ [.replace []]

def widgetVerifier : Verifier Unit := ⟨widgetOptions,.pinned operatorKey none⟩

theorem widget_verified : (verify (withAllowlist widgetVerifier widgetList.contains) requestedAt
    widgetRequest).run () = (.ok (Widgets.widgetIdentity none),()) := by
  have hlisted : widgetList.contains Widgets.accountRead.id = true :=
    decide_eq_true (Finset.mem_singleton_self _)
  have hk := Widgets.widget_checked (withAllowlist widgetVerifier widgetList.contains) requestedAt
    none (Widgets.widget_pinned none) (Or.inl rfl) hlisted (by decide) (by decide) requestedAt
    (by decide)
  exact (verify_ok _ _ _ _ _ _).2 ⟨none,hk,(),rfl,rfl⟩

/-- The request was checked before its account token was revoked. -/
theorem revocation_effective_widgets : ∃ u, run (step widgetVerifier)
      (World.start requestedAt widgetList ()) revoked = some u ∧
    u.calls 0 = some (.accepted widgetRequest (Widgets.widgetIdentity none)) ∧
    .check 0 ∈ alone 0 widgetRequest := by
  obtain ⟨x,hx,ha,_⟩ := verify_alone (World.start requestedAt widgetList ()) 0 widgetRequest _ _ rfl
    widget_verified
  have hrun := (run_append (step widgetVerifier) _ _ (alone 0 widgetRequest)
    [.replace []]).2 ⟨x,hx,rfl⟩
  exact ⟨_,hrun,ha,(revocation_effective requestedAt widgetList () revoked _ hrun 0 widgetRequest _
    ha).2 (alone 0 widgetRequest) (.replace []) [] rfl List.not_mem_nil (by simp)⟩

end Widgets

end Valiss.Revocation
