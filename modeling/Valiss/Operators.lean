import Valiss.Lib.Assoc
import Valiss.Decode

/-!
# Keyring

A set of trusted operators, each a verified self-signed operator token filed
under its key and epoch. The invariants are fields of the state the constructor
loops over: an entry is filed under its own pair, and no pair occurs twice.
-/

set_option autoImplicit false

namespace Valiss.Operators
open Lib.Unicode Lib.Json Lib.Fallible Lib.Assoc Valiss.Errors Valiss.TokenClaims Valiss.Decode

variable [Platform]

abbrev Entry := (Str × ℤ) × OperatorClaims

structure Entries where
  items : List Entry
  filed : ∀ p ∈ items, p.1 = (p.2.subject,p.2.epoch)
  single : (items.map Prod.fst).Nodup

def Entries.empty : Entries := ⟨[],by simp,by simp⟩

/-- `entries[key] = claims` for a key that is not there yet. -/
def Entries.insert (e : Entries) (c : OperatorClaims)
    (h : e.items.lookup (c.subject,c.epoch) = none) : Entries where
  items := e.items ++ [((c.subject,c.epoch),c)]
  filed := by
    intro p hp
    rcases List.mem_append.mp hp with hp | hp
    · exact e.filed p hp
    · rw [List.mem_singleton.mp hp]
  single := by
    rw [List.map_append, List.nodup_append]
    refine ⟨e.single,by simp,?_⟩
    rintro a ha b hb rfl
    obtain ⟨p,hp,rfl⟩ := List.mem_map.mp ha
    rw [List.lookup_eq_none_iff] at h
    have := h p hp
    simp only [List.map_cons, List.map_nil, List.mem_singleton] at hb
    simp [hb] at this

structure State where
  entries : Entries
  names : Dict Str
  jtis : List Str

def State.empty : State := ⟨Entries.empty,[],[]⟩

def refuse (message : Str) : Exc := err (lit "valiss: keyring: " ++ message)

def State.add (s : State) (c : OperatorClaims) : Py State :=
  if c.id ∈ s.jtis then .ok s
  else match h : s.entries.items.lookup (c.subject,c.epoch) with
    | some _ => .error (refuse (lit "duplicate entry for operator " ++ c.subject ++
        lit " epoch " ++ intText c.epoch))
    | none => do
      raiseIf (∃ owner ∈ s.names.lookup c.name, owner ≠ c.subject)
        (refuse (lit "operator name " ++ Platform.repr c.name ++
          lit " already names a different operator"))
      match s.entries.items.find? fun p => decide (p.1.1 = c.subject ∧ p.2.name ≠ c.name) with
      | some p => .error (refuse (lit "operator " ++ c.subject ++ lit " entries disagree on name (" ++
          Platform.repr p.2.name ++ lit " vs " ++ Platform.repr c.name ++ lit ")"))
      | none => .ok ⟨s.entries.insert c h,put s.names c.name c.subject,c.id::s.jtis⟩

def operatorAt (index : ℕ) (token : Str) : Py OperatorClaims :=
  recast (fun e => .valiss (lit "valiss: keyring: operator token " ++ natText index ++ lit ": " ++
      e.text) e.reason) (do
    let issuer ← issuerOf token
    verifyOperator token issuer)

def addAll : ℕ → List Str → State → Py State
  | _, [], s => .ok s
  | index, token::tokens, s => do
    let c ← operatorAt index token
    let s' ← s.add c
    addAll (index+1) tokens s'

/-- The trusted operators, at least one. -/
structure Keyring where
  entries : Entries
  nonempty : entries.items ≠ []

def Keyring.build (tokens : List Str) : Py Keyring := do
  let s ← addAll 0 tokens State.empty
  if h : s.entries.items ≠ [] then return ⟨s.entries,h⟩
  else .error (refuse (lit "no operator tokens"))

def Keyring.get (k : Keyring) (operatorPubKey : Str) (epoch : ℤ) : Option OperatorClaims :=
  k.entries.items.lookup (operatorPubKey,epoch)

/-- `get` finds an entry exactly under the entry's own key and epoch. -/
theorem get_some (k : Keyring) (key : Str) (epoch : ℤ) (c : OperatorClaims) :
    k.get key epoch = some c ↔ ((key,epoch),c) ∈ k.entries.items :=
  lookup_iff_mem k.entries.single (key,epoch) c

theorem get_filed (k : Keyring) (key : Str) (epoch : ℤ) (c : OperatorClaims)
    (h : k.get key epoch = some c) : c.subject = key ∧ c.epoch = epoch := by
  have := k.entries.filed _ ((get_some k key epoch c).1 h)
  simp only [Prod.mk.injEq] at this
  exact ⟨this.1.symm,this.2.symm⟩

def Verified (tokens : List Str) (c : OperatorClaims) : Prop :=
  ∃ token ∈ tokens, verifyOperator token c.subject = .ok c

theorem operatorAt_ok (index : ℕ) (token : Str) (c : OperatorClaims) :
    operatorAt index token = .ok c ↔ verifyOperator token c.subject = .ok c := by
  simp only [operatorAt, recast_ok, bind_ok]
  constructor
  · rintro ⟨issuer,_,hv⟩
    have hs : c.subject = issuer := by
      obtain ⟨d,_,_,_,hsub,_,rfl⟩ := (verifyOperator_ok _ _ _).1 hv
      exact hsub
    rw [hs]
    exact hv
  · intro hv
    obtain ⟨d,hd,_,hi,_,_,_⟩ := (verifyOperator_ok _ _ _).1 hv
    exact ⟨_,(issuerOf_ok _ _).2 ⟨d,hd,hi⟩,hv⟩

theorem add_ok (s s' : State) (c : OperatorClaims) :
    s.add c = .ok s' ↔ (c.id ∈ s.jtis ∧ s' = s) ∨ (c.id ∉ s.jtis ∧
      (∃ hn, s' = ⟨s.entries.insert c hn,put s.names c.name c.subject,c.id::s.jtis⟩) ∧
      (∀ owner ∈ s.names.lookup c.name, owner = c.subject) ∧
      ∀ p ∈ s.entries.items, p.2.subject = c.subject → p.2.name = c.name) := by
  unfold State.add
  by_cases hid : c.id ∈ s.jtis
  · rw [if_pos hid]
    simp only [hid, true_and, not_true_eq_false, false_and, or_false, Except.ok.injEq]
    exact eq_comm
  rw [if_neg hid]
  simp only [hid, false_and, not_false_eq_true, true_and, false_or]
  split
  next p hp => simp [hp]
  next hn =>
    have hfind : (s.entries.items.find? fun p =>
        decide (p.1.1 = c.subject ∧ p.2.name ≠ c.name)) = none ↔
        ∀ p ∈ s.entries.items, p.2.subject = c.subject → p.2.name = c.name := by
      rw [List.find?_eq_none]
      apply forall₂_congr
      intro p hp
      rw [s.entries.filed p hp]
      simp
    rw [bind_ok]
    simp only [raiseIf_ok, not_exists, not_and, not_not]
    constructor
    · rintro ⟨_,hown,h⟩
      split at h
      · cases h
      next hf => exact ⟨⟨hn,(Except.ok.inj h).symm⟩,hown,hfind.1 hf⟩
    · rintro ⟨⟨_,rfl⟩,hown,hagree⟩
      refine ⟨(),hown,?_⟩
      rw [hfind.2 hagree]

theorem add_verified (tokens : List Str) (s s' : State) (c : OperatorClaims)
    (h : s.add c = .ok s') (hc : Verified tokens c)
    (hs : ∀ p ∈ s.entries.items, Verified tokens p.2) :
    ∀ p ∈ s'.entries.items, Verified tokens p.2 := by
  unfold State.add at h
  split_ifs at h with hid
  · obtain rfl := Except.ok.inj h
    exact hs
  · split at h
    · cases h
    · simp only [bind_ok, raiseIf_ok] at h
      obtain ⟨_,_,h⟩ := h
      split at h
      · cases h
      · obtain rfl := Except.ok.inj h
        intro p hp
        rcases List.mem_append.mp hp with hp | hp
        · exact hs p hp
        · rw [List.mem_singleton.mp hp]
          exact hc

theorem addAll_verified (all tokens : List Str) (index : ℕ) (s s' : State)
    (hall : ∀ t ∈ tokens, t ∈ all) (h : addAll index tokens s = .ok s')
    (hs : ∀ p ∈ s.entries.items, Verified all p.2) :
    ∀ p ∈ s'.entries.items, Verified all p.2 := by
  induction tokens generalizing index s with
  | nil =>
    obtain rfl := Except.ok.inj h
    exact hs
  | cons token tokens ih =>
    simp only [addAll, bind_ok] at h
    obtain ⟨c,hc,t,ht,h⟩ := h
    have hv : Verified all c := ⟨token,hall token List.mem_cons_self,(operatorAt_ok _ _ _).1 hc⟩
    exact ih _ t (fun x hx => hall x (List.mem_cons_of_mem _ hx)) h (add_verified all s t c ht hv hs)

theorem build_verified (tokens : List Str) (k : Keyring) (h : Keyring.build tokens = .ok k)
    (key : Str) (epoch : ℤ) (c : OperatorClaims) (hc : k.get key epoch = some c) :
    ∃ token ∈ tokens, verifyOperator token key = .ok c := by
  simp only [Keyring.build, bind_ok] at h
  obtain ⟨s,hs,h⟩ := h
  split_ifs at h with hne
  obtain rfl := (pure_ok _ _).1 h
  have hv := addAll_verified tokens tokens 0 State.empty s (fun _ ht => ht) hs
    (by simp [State.empty, Entries.empty]) _ ((get_some _ key epoch c).1 hc)
  rw [(get_filed _ key epoch c hc).1.symm]
  exact hv

end Valiss.Operators
