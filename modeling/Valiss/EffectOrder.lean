import Valiss.Lib.Traced
import Valiss.Verify

/-!
# The order of effects

What a verification does to the world is one consultation of the replay cache
and the consumer's hooks. Both are logged: the same verification over the state
and a log gives the same outcome, and the log tells which of them happened, in
which order. A sender who has not proven possession leaves the log empty.
-/

set_option autoImplicit false

namespace Valiss.EffectOrder
open Lib.Unicode Lib.Calendar Lib.Fallible Valiss.Errors Valiss.TokenClaims Valiss.Replay
open Valiss.RequestSignature Valiss.Verify

/-- A consultation with its verdict, if the cache gave one, or the hook at an
index, and whether it returned. -/
inductive Effect where
  | consulted (nonce : Str) (expiry : DateTime) (seen : Option Bool)
  | ran (index : ℕ) (returned : Bool)

section Model
variable [Platform] {σ : Type}

inductive Hook (σ : Type) : Type 1 where
  | validator (fn : ClaimsValidator σ)
  | extension {α : Type} (t : ExtType α) (zero : α)
      (fn : Request → Identity → α → α → Act Exc σ Unit)

def register (v : Verifier σ) : Hook σ → Verifier σ
  | .validator fn => v.validator fn
  | .extension t zero fn => v.extension t zero fn

def registered (v : Verifier σ) (hs : List (Hook σ)) : Verifier σ :=
  hs.foldl register {v with validators := []}

def Hook.validate : Hook σ → ClaimsValidator σ
  | .validator fn => fn
  | .extension t zero fn => extensionValidator t zero fn

def Hook.traced (k : ℕ) : Hook σ → ClaimsValidator (σ × List Effect)
  | .validator fn => fun r i => (fn r i).noted fun out => .ran k out.isOk
  | .extension t zero fn => extensionValidator t zero fun r i a u =>
    (fn r i a u).noted fun out => .ran k out.isOk

def tracedFrom (k : ℕ) : List (Hook σ) → List (ClaimsValidator (σ × List Effect))
  | [] => []
  | h::hs => h.traced k :: tracedFrom (k+1) hs

def tracedCache (c : ReplayCache σ) : ReplayCache (σ × List Effect) := fun nonce expiry =>
  (c nonce expiry).noted fun out => .consulted nonce expiry out.toOption

def traced (v : Verifier σ) (hs : List (Hook σ)) : Verifier (σ × List Effect) where
  allowlist := v.allowlist
  skew := v.skew
  resolver := v.resolver
  replayCache := v.replayCache.map tracedCache
  validators := tracedFrom 0 hs
  extensionTypes := v.extensionTypes
  anchor := v.anchor

theorem registered_eq (v : Verifier σ) (hs : List (Hook σ)) :
    registered v hs = {v with validators := hs.map Hook.validate} := by
  have h : ∀ (hs : List (Hook σ)) (fs : List (ClaimsValidator σ)),
      hs.foldl register {v with validators := fs} =
        {v with validators := fs ++ hs.map Hook.validate} := by
    intro hs
    induction hs with
    | nil => simp
    | cons h hs ih =>
      intro fs
      have hr : register {v with validators := fs} h =
          {v with validators := fs ++ [h.validate]} := by
        cases h <;> rfl
      rw [List.foldl_cons, hr, ih, List.map_cons, List.append_assoc, List.singleton_append]
  exact h hs []

theorem checked_traced (v : Verifier σ) (hs : List (Hook σ)) (now : DateTime) (r : Request) :
    checked (traced v hs) now r = checked v now r := by
  have hp : ∀ i, possession (traced v hs).toOptions now r i =
      possession v.toOptions now r i := by
    intro i
    simp only [possession, traced, Option.isSome_map]
  unfold checked
  simp only [hp]
  rfl

theorem checked_registered (v : Verifier σ) (hs : List (Hook σ)) (now : DateTime) (r : Request) :
    checked (registered v hs) now r = checked v now r := by
  rw [registered_eq]
  rfl

def returned (k m : ℕ) : List Effect := (List.range' k m).map fun j => .ran j true

omit [Platform] in
theorem length_returned (k m : ℕ) : (returned k m).length = m := by
  rw [returned, List.length_map, List.length_range']

omit [Platform] in
theorem returned_succ (k m : ℕ) : returned k (m+1) = .ran k true :: returned (k+1) m := by
  rw [returned, List.range'_succ, List.map_cons, returned]

omit [Platform] in
theorem failed_not_returned (k m j : ℕ) : Effect.ran j false ∉ returned k m := by
  simp [returned]

def HookLog (x : Act Exc σ Unit) (s : σ) (k : ℕ) (es : List Effect) : Prop :=
  ((∃ t, x.run s = (.ok (),t)) ∧ es = [.ran k true]) ∨
  (∃ e t, x.run s = (.error e,t) ∧ ((es = [] ∧ t = s) ∨ es = [.ran k false]))

/-- The log of `n` hooks from index `k` on, if `x` ran them from the state `s`. -/
def HooksLog (x : Act Exc σ Unit) (s : σ) (k n : ℕ) (es : List Effect) : Prop :=
  (es = [] → (x.run s).2 = s) ∧
  (((∃ t, x.run s = (.ok (),t)) ∧ es = returned k n) ∨
    ((∃ e t, x.run s = (.error e,t)) ∧
      ∃ m < n, es = returned k m ∨ es = returned k m ++ [.ran (k+m) false]))

omit [Platform] in
theorem noted_hook (x : Act Exc σ Unit) (k : ℕ) (s : σ) :
    ∃ es, Act.Logs x (x.noted fun out => Effect.ran k out.isOk) s es ∧ HookLog x s k es := by
  refine ⟨_,Act.logs_noted _ x s,?_⟩
  unfold HookLog
  rcases x.run s with ⟨e | u,t⟩
  · exact Or.inr ⟨e,t,rfl,Or.inr rfl⟩
  · exact Or.inl ⟨⟨t,rfl⟩,rfl⟩

theorem hook_logs (h : Hook σ) (k : ℕ) (r : Request) (i : Identity) (s : σ) :
    ∃ es, Act.Logs (h.validate r i) (h.traced k r i) s es ∧ HookLog (h.validate r i) s k es := by
  cases h with
  | validator fn => exact noted_hook (fn r i) k s
  | extension t zero fn =>
    simp only [Hook.validate, Hook.traced, extensionValidator]
    cases ha : extOf t i.account.ext with
    | error e =>
      exact ⟨[],Act.logs_lift_error e _ _ s,
        Or.inr ⟨e,s,rfl,Or.inl ⟨rfl,rfl⟩⟩⟩
    | ok a =>
      cases hu : userExtOf t i with
      | error e =>
        exact ⟨[],Act.logs_lift_ok (Act.logs_lift_error e _ _ s),
          Or.inr ⟨e,s,rfl,Or.inl ⟨rfl,rfl⟩⟩⟩
      | ok u =>
        obtain ⟨es,hl,hes⟩ := noted_hook (fn r i (a.getD zero) (u.getD zero)) k s
        exact ⟨es,Act.logs_lift_ok (Act.logs_lift_ok hl),hes⟩

theorem validators_log (hs : List (Hook σ)) (k : ℕ) (r : Request) (i : Identity) (s : σ) :
    ∃ es, Act.Logs (runValidators r i (hs.map Hook.validate))
        (runValidators r i (tracedFrom k hs)) s es ∧
      HooksLog (runValidators r i (hs.map Hook.validate)) s k hs.length es := by
  induction hs generalizing k s with
  | nil => exact ⟨[],Act.logs_pure () s,fun _ => rfl,Or.inl ⟨⟨s,rfl⟩,rfl⟩⟩
  | cons h hs ih =>
    simp only [List.map_cons, tracedFrom, runValidators, List.length_cons]
    obtain ⟨es,hl,⟨⟨t,ht⟩,rfl⟩ | ⟨e,t,ht,hes⟩⟩ := hook_logs h k r i s
    · obtain ⟨fs,hf,_,hr⟩ := ih (k+1) t
      have hok : ((h.validate r i).mapError rejected).run s = (.ok (),t) := by
        rw [Act.run_mapError, ht]
      refine ⟨_,Act.logs_bind hok (Act.logs_mapError rejected hl) hf,?_⟩
      unfold HooksLog
      rw [Act.run_bind, hok, List.singleton_append]
      refine ⟨(fun h => nomatch h),?_⟩
      rcases hr with ⟨hr,rfl⟩ | ⟨hr,m,hm,hfs⟩
      · exact Or.inl ⟨hr,(returned_succ k _).symm⟩
      · refine Or.inr ⟨hr,m+1,Nat.succ_lt_succ hm,?_⟩
        rw [returned_succ, List.cons_append, show k+(m+1) = k+1+m by omega]
        rcases hfs with rfl | rfl
        · exact Or.inl rfl
        · exact Or.inr rfl
    · have herr : ((h.validate r i).mapError rejected).run s = (.error (rejected e),t) := by
        rw [Act.run_mapError, ht]
      have hrun : ((h.validate r i).mapError rejected >>= fun _ =>
          runValidators r i (hs.map Hook.validate)).run s = (.error (rejected e),t) := by
        rw [Act.run_bind, herr]
      refine ⟨es,Act.logs_bind_error _ _ herr (Act.logs_mapError rejected hl),?_,
        Or.inr ⟨⟨rejected e,t,hrun⟩,0,Nat.succ_pos _,?_⟩⟩
      · intro he
        rw [hrun]
        rcases hes with ⟨_,rfl⟩ | rfl
        · rfl
        · cases he
      · rcases hes with ⟨rfl,_⟩ | rfl
        · exact Or.inl rfl
        · exact Or.inr rfl

/-- The anchor, the windows, the epochs, the allowlist and the user token passed. -/
def ChainPassed (v : Verifier σ) (now : DateTime) (r : Request) (i : Identity) : Prop :=
  ∃ token, accountTokenOf v.toOptions r = .ok token ∧
    anchored v.anchor token = .ok (i.account,i.operator) ∧
    PolicyOk now v.skew i.account i.operator ∧
    i.account.expired now v.skew = .ok false ∧ i.account.notYetValid now v.skew = .ok false ∧
    v.allowlist i.account.id = true ∧
    ((r.userToken = [] ∧ i.user = none) ∨ (r.userToken ≠ [] ∧
      ∃ c, i.user = some c ∧ UserOk v.toOptions now r i.account i.operator c))

theorem chain_passed (v : Verifier σ) (now : DateTime) (r : Request)
    (p : Identity × Option (Str × DateTime)) (h : checked v now r = .ok p) :
    ChainPassed v now r p.1 := by
  obtain ⟨token,ht,account,operator,ha,hc,_⟩ := (checked_ok v now r p).1 h
  obtain ⟨rfl,rfl,hp,hacc,hu⟩ := (checkChain_ok _ _ _ _ _ _).1 hc
  obtain ⟨hx,hn,hl⟩ := (checkAccount_ok _ _ _ _).1 hacc
  exact ⟨token,ht,ha,hp,hx,hn,hl,(checkUser_ok _ _ _ _ _ _).1 hu⟩

def Extended (i : Identity) (types : List (ExtType Unit)) : Prop :=
  ∀ x ∈ types, (∃ a, extOf x i.account.ext = .ok a) ∧ ∃ u, userExtOf x i = .ok u

theorem checkExtensions_ok (i : Identity) (types : List (ExtType Unit)) :
    checkExtensions i types = .ok () ↔ Extended i types := by
  induction types with
  | nil => simp [checkExtensions, Extended]
  | cons x types ih =>
    rw [checkExtensions, Extended, List.forall_mem_cons, bind_ok]
    simp only [bind_ok, ih]
    constructor
    · rintro ⟨a,ha,u,hu,h⟩
      exact ⟨⟨⟨a,ha⟩,u,hu⟩,h⟩
    · rintro ⟨⟨⟨a,ha⟩,u,hu⟩,h⟩
      exact ⟨a,ha,u,hu,h⟩

/-- Everything before the hooks let the request through. -/
def Reached (v : Verifier σ) (now : DateTime) (r : Request) (s : σ) (i : Identity) : Prop :=
  ∃ e t, checked v now r = .ok (i,e) ∧ (suppress v.toOptions e).run s = (.ok (),t) ∧
    Extended i v.extensionTypes

/-- What the log of a verification is, with its outcome `out`: the consultations
of the cache, then the runs of the `n` hooks. -/
structure PossessionFirst (v : Verifier σ) (n : ℕ) (now : DateTime) (r : Request) (s : σ)
    (out : Py Identity × σ) (consulted runs : List Effect) : Prop where
  once : consulted = [] ∨ ∃ expiry seen, now.plus (2*v.skew) = some expiry ∧
    consulted = [.consulted r.nonce expiry seen]
  proven : consulted ≠ [] → ∃ i, ChainPassed v now r i ∧
    verifySignature i.subject r.timestamp r.signature r.context now v.skew = .ok ()
  bearer : r.timestamp = [] → r.signature = [] → consulted = []
  refused : ∀ e, checked v now r = .error e → out = (.error e,s) ∧ consulted = [] ∧ runs = []
  untouched : consulted = [] → runs = [] → out.2 = s
  admitted : runs ≠ [] → ∃ i, Reached v now r s i
  ordered : ∃ m ≤ n, runs = returned 0 m ∨ (m < n ∧ runs = returned 0 m ++ [.ran m false])
  identified : ∀ i, out.1 = .ok i ↔ Reached v now r s i ∧ runs = returned 0 n

/-- The log of the replay check: only an entry to record consults the cache. -/
def Consulted (v : Verifier σ) (entry : Option (Str × DateTime)) (s : σ) (cs : List Effect) : Prop :=
  (cs = [] ∧ (suppress v.toOptions entry).run s = (.ok (),s)) ∨
  ∃ nonce expiry seen, entry = some (nonce,expiry) ∧ cs = [.consulted nonce expiry seen]

theorem consulted_nothing (v : Verifier σ) (entry : Option (Str × DateTime)) (s : σ)
    (cs : List Effect) (h : Consulted v entry s cs) (he : cs = []) :
    (suppress v.toOptions entry).run s = (.ok (),s) := by
  rcases h with ⟨_,h⟩ | ⟨_,_,_,_,rfl⟩
  · exact h
  · cases he

theorem suppress_log (v : Verifier σ) (hs : List (Hook σ)) (entry : Option (Str × DateTime))
    (s : σ) : ∃ cs, Act.Logs (suppress v.toOptions entry) (suppress (traced v hs).toOptions entry)
        s cs ∧ Consulted v entry s cs := by
  rcases entry with - | ⟨nonce,expiry⟩
  · exact ⟨[],Act.logs_pure () s,Or.inl ⟨rfl,rfl⟩⟩
  · simp only [Consulted, suppress, traced]
    cases v.replayCache with
    | none => exact ⟨[],Act.logs_pure () s,Or.inl ⟨rfl,rfl⟩⟩
    | some c =>
      simp only [Option.map_some, tracedCache]
      have hl := Act.logs_noted (fun out => Effect.consulted nonce expiry out.toOption)
        (c nonce expiry) s
      rcases hc : (c nonce expiry).run s with ⟨e | seen,t⟩
      · exact ⟨_,Act.logs_bind_error _ _ hc hl,Or.inr ⟨nonce,expiry,_,rfl,rfl⟩⟩
      · exact ⟨_,Act.logs_bind hc hl (Act.logs_lift _ t),
          Or.inr ⟨nonce,expiry,_,rfl,List.append_nil _⟩⟩

/-- The log of `n` hooks that `x` runs from the state `t` if it is `ready`. -/
structure HooksRan (x : Act Exc σ Unit) (t : σ) (n : ℕ) (ready : Prop) (es : List Effect) :
    Prop where
  untouched : es = [] → (x.run t).2 = t
  admitted : es ≠ [] → ready
  ordered : ∃ m ≤ n, es = returned 0 m ∨ (m < n ∧ es = returned 0 m ++ [.ran m false])
  done : (x.run t).1 = .ok () ↔ ready ∧ es = returned 0 n

omit [Platform] in
theorem failed_midway (n m : ℕ) (es : List Effect) (hm : m < n)
    (h : es = returned 0 m ∨ es = returned 0 m ++ [.ran m false]) : es ≠ returned 0 n := by
  rcases h with rfl | rfl
  · intro h
    have hl := congrArg List.length h
    rw [length_returned, length_returned] at hl
    omega
  · intro h
    exact failed_not_returned 0 n m (h ▸ List.mem_append_right _ (List.mem_singleton.2 rfl))

theorem hooks_ran (v : Verifier σ) (hs : List (Hook σ)) (r : Request) (i : Identity) (t : σ) :
    ∃ es, Act.Logs (hooks (registered v hs).toOptions r i) (hooks (traced v hs).toOptions r i) t es ∧
      HooksRan (hooks (registered v hs).toOptions r i) t hs.length
        (Extended i v.extensionTypes) es := by
  rw [← checkExtensions_ok, registered_eq]
  simp only [hooks, traced]
  cases hx : checkExtensions i v.extensionTypes with
  | error e =>
    exact ⟨[],Act.logs_lift_error e _ _ t,
      {untouched := fun _ => rfl
       admitted := fun h => absurd rfl h
       ordered := ⟨0,Nat.zero_le _,Or.inl rfl⟩
       done := ⟨(fun h => nomatch h),(fun h => nomatch h.1)⟩}⟩
  | ok u =>
    obtain ⟨es,hl,hu,hes⟩ := validators_log hs 0 r i t
    refine ⟨es,Act.logs_lift_ok hl,hu,fun _ => rfl,?_,?_⟩
    · rcases hes with ⟨_,he⟩ | ⟨_,m,hm,he⟩
      · exact ⟨hs.length,le_refl _,Or.inl he⟩
      · rw [Nat.zero_add] at he
        exact ⟨m,hm.le,he.imp_right fun h => ⟨hm,h⟩⟩
    · rw [Act.run_lift_bind]
      rcases hes with ⟨⟨w,hw⟩,he⟩ | ⟨⟨e,w,hw⟩,m,hm,he⟩
      · rw [hw]
        exact ⟨fun _ => ⟨rfl,he⟩,fun _ => rfl⟩
      · rw [hw]
        rw [Nat.zero_add] at he
        exact ⟨(fun h => nomatch h),fun h => absurd h.2 (failed_midway _ m es hm he)⟩

theorem consulted_after (v : Verifier σ) (now : DateTime) (r : Request) (i : Identity)
    (entry : Option (Str × DateTime)) {s : σ} (cs : List Effect)
    (hk : checked v now r = .ok (i,entry)) (hc : Consulted v entry s cs) :
    (cs = [] ∨ ∃ expiry seen, now.plus (2*v.skew) = some expiry ∧
        cs = [.consulted r.nonce expiry seen]) ∧
      (cs ≠ [] → verifySignature i.subject r.timestamp r.signature r.context now v.skew = .ok ()) ∧
      (r.timestamp = [] → r.signature = [] → cs = []) := by
  obtain ⟨_,_,_,_,_,_,hp⟩ := (checked_ok v now r (i,entry)).1 hk
  rcases hc with ⟨rfl,_⟩ | ⟨nonce,expiry,seen,rfl,rfl⟩
  · exact ⟨Or.inl rfl,fun h => absurd rfl h,fun _ _ => rfl⟩
  · rcases possession_ok _ _ _ _ _ hp with ⟨_,_,_,he⟩ | ⟨hv,⟨_,he⟩ | ⟨_,_,x,hx,he⟩⟩
    · cases he
    · cases he
    · cases he
      refine ⟨Or.inr ⟨_,seen,hx,rfl⟩,fun _ => hv,fun ht hs => ?_⟩
      rw [possession, if_pos ⟨ht,hs⟩] at hp
      simp at hp

theorem reached_iff (v : Verifier σ) (now : DateTime) (r : Request) (s : σ) (i : Identity)
    (entry : Option (Str × DateTime)) (hk : checked v now r = .ok (i,entry)) (j : Identity) :
    Reached v now r s j ↔ i = j ∧ (∃ t, (suppress v.toOptions entry).run s = (.ok (),t)) ∧
      Extended i v.extensionTypes := by
  constructor
  · rintro ⟨e,t,hc,hs,hx⟩
    rw [hk] at hc
    cases hc
    exact ⟨rfl,⟨t,hs⟩,hx⟩
  · rintro ⟨rfl,⟨t,hs⟩,hx⟩
    exact ⟨entry,t,hk,hs,hx⟩

theorem refused_first (v : Verifier σ) (n : ℕ) (now : DateTime) (r : Request) (s : σ) (e : Exc)
    (hk : checked v now r = .error e) : PossessionFirst v n now r s (.error e,s) [] [] where
  once := Or.inl rfl
  proven h := absurd rfl h
  bearer _ _ := rfl
  refused e' h := by
    rw [hk] at h
    cases h
    exact ⟨rfl,rfl,rfl⟩
  untouched _ _ := rfl
  admitted h := absurd rfl h
  ordered := ⟨0,Nat.zero_le _,Or.inl rfl⟩
  identified i := by
    constructor
    · intro h
      cases h
    · rintro ⟨⟨_,_,hc,_⟩,_⟩
      rw [hk] at hc
      cases hc

theorem consulted_first (v : Verifier σ) (n : ℕ) (now : DateTime) (r : Request) (s t : σ)
    (i : Identity) (entry : Option (Str × DateTime)) (cs : List Effect) (e : Exc)
    (hk : checked v now r = .ok (i,entry))
    (hsr : (suppress v.toOptions entry).run s = (.error e,t))
    (hcs : Consulted v entry s cs) : PossessionFirst v n now r s (.error e,t) cs [] where
  once := (consulted_after v now r i entry cs hk hcs).1
  proven h := ⟨i,chain_passed v now r _ hk,(consulted_after v now r i entry cs hk hcs).2.1 h⟩
  bearer := (consulted_after v now r i entry cs hk hcs).2.2
  refused e' h := by
    rw [hk] at h
    cases h
  untouched h _ := by
    have hs := consulted_nothing v entry s cs hcs h
    rw [hsr] at hs
    exact congrArg Prod.snd hs
  admitted h := absurd rfl h
  ordered := ⟨0,Nat.zero_le _,Or.inl rfl⟩
  identified j := by
    constructor
    · intro h
      cases h
    · rintro ⟨hr,_⟩
      obtain ⟨_,⟨_,ht⟩,_⟩ := (reached_iff v now r s i entry hk j).1 hr
      rw [hsr] at ht
      cases ht

theorem hooks_first (v : Verifier σ) (n : ℕ) (now : DateTime) (r : Request) (s t : σ)
    (i : Identity) (entry : Option (Str × DateTime)) (cs es : List Effect) (x : Act Exc σ Unit)
    (hk : checked v now r = .ok (i,entry)) (hsr : (suppress v.toOptions entry).run s = (.ok (),t))
    (hcs : Consulted v entry s cs)
    (hran : HooksRan x t n (Extended i v.extensionTypes) es) :
    PossessionFirst v n now r s ((x.run t).1.map fun _ => i,(x.run t).2) cs es where
  once := (consulted_after v now r i entry cs hk hcs).1
  proven h := ⟨i,chain_passed v now r _ hk,(consulted_after v now r i entry cs hk hcs).2.1 h⟩
  bearer := (consulted_after v now r i entry cs hk hcs).2.2
  refused e' h := by
    rw [hk] at h
    cases h
  untouched h he := by
    have hs := consulted_nothing v entry s cs hcs h
    rw [hsr] at hs
    rw [hran.untouched he]
    exact congrArg Prod.snd hs
  admitted h := ⟨i,(reached_iff v now r s i entry hk i).2 ⟨rfl,⟨t,hsr⟩,hran.admitted h⟩⟩
  ordered := hran.ordered
  identified j := by
    have hd : ((x.run t).1.map fun _ => i) = .ok j ↔ (x.run t).1 = .ok () ∧ i = j := by
      rcases (x.run t).1 with e | u <;> simp [Except.map]
    rw [reached_iff v now r s i entry hk j, hd, hran.done]
    constructor
    · rintro ⟨⟨hx,he⟩,rfl⟩
      exact ⟨⟨rfl,⟨t,hsr⟩,hx⟩,he⟩
    · rintro ⟨⟨rfl,_,hx⟩,he⟩
      exact ⟨⟨hx,he⟩,rfl⟩

/-- For every request, configuration and state: a verification does the same
with its effects logged, and the cache and the hooks come after possession. -/
theorem effects_after_possession (v : Verifier σ) (hs : List (Hook σ)) (now : DateTime)
    (r : Request) (s : σ) : ∃ consulted runs,
      Act.Logs (verify (registered v hs) now r) (verify (traced v hs) now r) s
        (consulted ++ runs) ∧
      PossessionFirst v hs.length now r s ((verify (registered v hs) now r).run s)
        consulted runs := by
  have hsup : suppress (registered v hs).toOptions = suppress v.toOptions := by
    rw [registered_eq]
    rfl
  simp only [verify, checked_traced, checked_registered, hsup]
  cases hk : checked v now r with
  | error e =>
    refine ⟨[],[],Act.logs_lift_error e _ _ s,?_⟩
    rw [Act.run_lift_bind]
    exact refused_first v hs.length now r s e hk
  | ok p =>
    obtain ⟨i,entry⟩ := p
    obtain ⟨cs,hl,hcs⟩ := suppress_log v hs entry s
    rcases hsr : (suppress v.toOptions entry).run s with ⟨e | u,t⟩
    · refine ⟨cs,[],?_,?_⟩
      · rw [List.append_nil]
        exact Act.logs_lift_ok (Act.logs_bind_error _ _ hsr hl)
      · rw [Act.run_lift_bind]
        dsimp only
        rw [Act.run_bind, hsr]
        exact consulted_first v hs.length now r s t i entry cs e hk hsr hcs
    · obtain ⟨es,hf,hran⟩ := hooks_ran v hs r i t
      refine ⟨cs,es,Act.logs_lift_ok (Act.logs_bind hsr hl (Act.logs_bind_pure (fun _ => i) hf)),?_⟩
      rw [Act.run_lift_bind]
      dsimp only
      rw [Act.run_bind, hsr]
      dsimp only
      rw [Act.run_bind_pure]
      exact hooks_first v hs.length now r s t i entry cs es _ hk hsr hcs hran

end Model

end Valiss.EffectOrder
