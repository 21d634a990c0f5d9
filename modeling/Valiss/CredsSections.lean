import Valiss.Credentials

/-!
# Sections of a creds file

What the scan for a section returns is told from the lines between the first
begin marker and the end marker after it.
-/

set_option autoImplicit false

namespace Valiss.CredsSections
open Lib.Unicode Lib.Fallible Valiss.Errors Valiss.Credentials

/-- The lines from the first begin marker to the next end marker, both left out. -/
def Body (x : Section) (ls inner : List Str) : Prop :=
  ∃ before after, ls = before ++ x.beginMarker :: (inner ++ x.endMarker :: after) ∧
    x.beginMarker ∉ before ∧ x.endMarker ∉ inner

def content (x : Section) (inner : List Str) : List Str :=
  inner.filter fun line => decide (line ≠ [] ∧ line ≠ x.beginMarker)

def held (payload : Str) : List Str := if payload = [] then [] else [payload]

theorem body_unique (x : Section) (ls inner inner' : List Str) (h : Body x ls inner)
    (h' : Body x ls inner') : inner = inner' := by
  obtain ⟨a,b,rfl,ha,hi⟩ := h
  obtain ⟨a',b',he,ha',hi'⟩ := h'
  obtain ⟨_,hb⟩ := split_first _ _ _ _ _ ha ha' he
  exact (split_first _ _ _ _ _ hi hi' hb).1

theorem scan_before (x : Section) (before rest : List Str) (h : x.beginMarker ∉ before) :
    x.scan (before ++ x.beginMarker::rest) false [] = x.scan rest true [] := by
  induction before with
  | nil => rw [List.nil_append, Section.scan, if_pos rfl]
  | cons l before ih =>
    obtain ⟨hl,hb⟩ := not_or.1 (fun hm => h (List.mem_cons.2 hm))
    rw [List.cons_append, Section.scan, if_neg (Ne.symm hl), if_pos rfl, ih hb]

theorem scan_absent (x : Section) (ls : List Str) (h : x.beginMarker ∉ ls) :
    x.scan ls false [] = .ok ([],false) := by
  induction ls with
  | nil => rfl
  | cons l ls ih =>
    obtain ⟨hl,hb⟩ := not_or.1 (fun hm => h (List.mem_cons.2 hm))
    rw [Section.scan, if_neg (Ne.symm hl), if_pos rfl, ih hb]

theorem scan_unclosed (x : Section) (ls : List Str) (payload : Str) (h : x.endMarker ∉ ls)
    (p : Str × Bool) : x.scan ls true payload ≠ .ok p := by
  induction ls generalizing payload with
  | nil => simp [Section.scan]
  | cons l ls ih =>
    obtain ⟨hl,hb⟩ := not_or.1 (fun hm => h (List.mem_cons.2 hm))
    rw [Section.scan, if_neg (by decide : ¬ true = false), if_neg (Ne.symm hl)]
    split_ifs
    · exact ih payload hb
    · exact ih payload hb
    · exact ih l hb
    · simp

theorem scan_closed (x : Section) (inner after : List Str) (payload v : Str) (b : Bool)
    (h : x.endMarker ∉ inner) :
    x.scan (inner ++ x.endMarker::after) true payload = .ok (v,b) ↔
      b = true ∧ held payload ++ content x inner = [v] := by
  induction inner generalizing payload with
  | nil =>
    rw [List.nil_append, Section.scan, if_neg (Ne.symm x.apart), if_neg (by decide : ¬ true = false),
      if_pos rfl]
    by_cases hp : payload = [] <;> simp [hp, held, content, and_comm, eq_comm]
  | cons l inner ih =>
    obtain ⟨hl,hb⟩ := not_or.1 (fun hm => h (List.mem_cons.2 hm))
    rw [List.cons_append, Section.scan, if_neg (by decide : ¬ true = false), if_neg (Ne.symm hl)]
    by_cases h1 : l = x.beginMarker
    · rw [if_pos h1, ih payload hb]
      simp [content, h1]
    rw [if_neg h1]
    by_cases h2 : l = []
    · rw [if_pos h2, ih payload hb]
      simp [content, h2]
    rw [if_neg h2]
    have hc : content x (l::inner) = l::content x inner := by simp [content, h1, h2]
    rw [hc]
    by_cases h3 : payload = []
    · rw [if_pos h3, ih l hb]
      simp [held, h2, h3]
    · rw [if_neg h3]
      simp [held, h3]

theorem between_ok (contents : Str) (x : Section) (v : Str) (b : Bool) :
    between contents x = .ok (v,b) ↔
      (x.beginMarker ∉ lines contents ∧ v = [] ∧ b = false) ∨
      (b = true ∧ ∃ inner, Body x (lines contents) inner ∧ content x inner = [v]) := by
  rw [between]
  generalize lines contents = ls
  by_cases hb : x.beginMarker ∈ ls
  · obtain ⟨before,rest,rfl,hbefore⟩ := List.eq_append_cons_of_mem hb
    rw [scan_before x before rest hbefore]
    by_cases he : x.endMarker ∈ rest
    · obtain ⟨inner,after,rfl,hinner⟩ := List.eq_append_cons_of_mem he
      have hbody : Body x (before ++ x.beginMarker::(inner ++ x.endMarker::after)) inner :=
        ⟨before,after,rfl,hbefore,hinner⟩
      rw [scan_closed x inner after [] v b hinner]
      constructor
      · rintro ⟨hbt,hc⟩
        exact Or.inr ⟨hbt,inner,hbody,hc⟩
      · rintro (⟨hno,_⟩ | ⟨hbt,inner',hbody',hc⟩)
        · exact absurd hb hno
        · rw [body_unique x _ inner inner' hbody hbody']
          exact ⟨hbt,hc⟩
    · constructor
      · intro h
        exact absurd h (scan_unclosed x rest [] he _)
      · rintro (⟨hno,_⟩ | ⟨_,inner,⟨before',after',heq,hbefore',_⟩,_⟩)
        · exact absurd hb hno
        · obtain ⟨_,rfl⟩ := split_first _ _ _ _ _ hbefore hbefore' heq
          exact absurd (by simp) he
  · rw [scan_absent x ls hb]
    constructor
    · intro h
      obtain ⟨rfl,rfl⟩ := Prod.mk.inj (Except.ok.inj h)
      exact Or.inl ⟨hb,rfl,rfl⟩
    · rintro (⟨_,rfl,rfl⟩ | ⟨_,inner,⟨before,after,rfl,_⟩,_⟩)
      · rfl
      · exact absurd (by simp) hb

theorem between_onlyValiss (contents : Str) (x : Section) : OnlyValiss (between contents x) := by
  rw [between]
  generalize lines contents = ls
  have h : ∀ inside payload, OnlyValiss (x.scan ls inside payload) := by
    induction ls with
    | nil =>
      intro inside payload
      rw [Section.scan]
      split_ifs
      · exact (raises_error _ _).2 rfl
      · exact raises_ok _ _
    | cons l ls ih =>
      intro inside payload
      rw [Section.scan]
      split_ifs
      · exact ih true payload
      · exact ih false payload
      · exact (raises_error _ _).2 rfl
      · exact raises_ok _ _
      · exact ih true payload
      · exact ih true l
      · exact (raises_error _ _).2 rfl
  exact h false []

end Valiss.CredsSections
