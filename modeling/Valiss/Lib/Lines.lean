import Mathlib.Data.List.Induction
import Mathlib.Data.List.TakeWhile
import Valiss.Lib.Unicode

/-!
# Lines of a text

`str.splitlines` ends a line at more characters than the newline. Each of them
is white space, so once the lines are trimmed and the blank ones dropped, what
is left of a text is what is left of its trimmed form, and what is left of its
newline-delimited lines one by one.
-/

set_option autoImplicit false

namespace Lib.Lines
open Lib.Unicode

/-- The characters at which `str.splitlines` ends a line. -/
def LineEnd (c : CodePoint) : Prop :=
  (10 ≤ c.val ∧ c.val ≤ 13) ∨ (28 ≤ c.val ∧ c.val ≤ 30) ∨ c.val = 0x85 ∨ c.val = 0x2028 ∨
    c.val = 0x2029

instance (c : CodePoint) : Decidable (LineEnd c) := inferInstanceAs (Decidable (_ ∨ _))

/-- `s.splitlines()`; a carriage return and the newline after it end one line. -/
def splitlines : Str → List Str
  | [] => []
  | [c] => if LineEnd c then [[]] else [[c]]
  | c::d::s =>
    if c = 13 ∧ d = 10 then [] :: splitlines s
    else if LineEnd c then [] :: splitlines (d::s)
    else match splitlines (d::s) with
      | [] => [[c]]
      | line::lines => (c::line)::lines

section Lists
variable {α : Type} (P Q : α → Bool)

theorem splitOnP_free (s : List α) : ∀ p ∈ s.splitOnP P, ∀ c ∈ p, P c = false := by
  induction s with
  | nil => simp
  | cons c s ih =>
    rw [List.splitOnP_cons_eq_if_modifyHead]
    obtain ⟨p,ps,hp⟩ := List.exists_cons_of_ne_nil (List.splitOnP_ne_nil P s)
    rw [hp] at ih ⊢
    rw [List.forall_mem_cons] at ih
    split_ifs with hc
    · simpa using ih
    · rw [List.modifyHead_cons, List.forall_mem_cons, List.forall_mem_cons]
      exact ⟨⟨by simpa using hc,ih.1⟩,ih.2⟩

theorem splitOnP_flatMap (h : ∀ c, Q c = true → P c = true) (s : List α) :
    s.splitOnP P = (s.splitOnP Q).flatMap (List.splitOnP P) := by
  induction s with
  | nil => simp
  | cons c s ih =>
    rw [List.splitOnP_cons_eq_if_modifyHead, List.splitOnP_cons_eq_if_modifyHead (p := Q), ih]
    obtain ⟨q,qs,hq⟩ := List.exists_cons_of_ne_nil (List.splitOnP_ne_nil Q s)
    by_cases hQ : Q c = true
    · simp [hQ, h c hQ]
    · rw [if_neg hQ, hq, List.modifyHead_cons, List.flatMap_cons, List.flatMap_cons,
        List.splitOnP_cons_eq_if_modifyHead]
      obtain ⟨p,ps,hp⟩ := List.exists_cons_of_ne_nil (List.splitOnP_ne_nil P q)
      split_ifs
      · rfl
      · rw [hp]
        rfl

theorem splitOnP_concat (s : List α) (c : α) (h : P c = false) :
    ∃ ps p, s.splitOnP P = ps ++ [p] ∧ (s ++ [c]).splitOnP P = ps ++ [p ++ [c]] := by
  induction s with
  | nil => exact ⟨[],[],by simp,by simp [List.splitOnP_cons_eq_if_modifyHead, h]⟩
  | cons d s ih =>
    obtain ⟨ps,p,hs,hc⟩ := ih
    rw [List.cons_append, List.splitOnP_cons_eq_if_modifyHead,
      List.splitOnP_cons_eq_if_modifyHead, hs, hc]
    split_ifs
    · exact ⟨[]::ps,p,rfl,rfl⟩
    · cases ps with
      | nil => exact ⟨[],d::p,rfl,rfl⟩
      | cons q qs => exact ⟨(d::q)::qs,p,rfl,rfl⟩

end Lists

theorem strip_white_last (c : CodePoint) (s : Str) (h : IsWhite c) : strip (s ++ [c]) = strip s := by
  unfold strip
  rw [List.dropWhile_append]
  split_ifs with hs
  · rw [List.isEmpty_iff] at hs
    rw [hs, List.dropWhile_cons_of_pos (by simpa using h)]
    rfl
  · rw [List.reverse_append, List.reverse_singleton, List.singleton_append,
      List.dropWhile_cons_of_pos (by simpa using h)]

theorem strip_between (s : Str) :
    ∃ a b, s = a ++ (strip s ++ b) ∧ (∀ c ∈ a, IsWhite c) ∧ ∀ c ∈ b, IsWhite c := by
  let white : CodePoint → Bool := fun c => decide (IsWhite c)
  refine ⟨s.takeWhile white,((s.dropWhile white).reverse.takeWhile white).reverse,?_,?_,?_⟩
  · have hsplit := List.takeWhile_append_dropWhile (p := white) (l := (s.dropWhile white).reverse)
    have hback := congrArg List.reverse hsplit
    rw [List.reverse_append, List.reverse_reverse] at hback
    rw [strip, hback, List.takeWhile_append_dropWhile]
  · intro c hc
    have hw : white c = true := List.mem_takeWhile_imp hc
    exact of_decide_eq_true hw
  · intro c hc
    have hw : white c = true := List.mem_takeWhile_imp (List.mem_reverse.1 hc)
    exact of_decide_eq_true hw

theorem strip_invariant {γ : Type} (f : Str → γ)
    (hfirst : ∀ c s, IsWhite c → f (c::s) = f s) (hlast : ∀ c s, IsWhite c → f (s ++ [c]) = f s)
    (s : Str) : f s = f (strip s) := by
  obtain ⟨a,b,hs,ha,hb⟩ := strip_between s
  have hleft : ∀ (a t : Str), (∀ c ∈ a, IsWhite c) → f (a ++ t) = f t := by
    intro a t ha
    induction a with
    | nil => rfl
    | cons c a ih =>
      rw [List.cons_append, hfirst c _ (ha c List.mem_cons_self)]
      exact ih fun d hd => ha d (List.mem_cons_of_mem _ hd)
  have hright : ∀ (t b : Str), (∀ c ∈ b, IsWhite c) → f (t ++ b) = f t := by
    intro t b hb
    induction b using List.reverseRecOn with
    | nil => rw [List.append_nil]
    | append_singleton b c ih =>
      rw [← List.append_assoc, hlast c _ (hb c (by simp))]
      exact ih fun d hd => hb d (by simp [hd])
  calc f s = f (a ++ (strip s ++ b)) := congrArg f hs
    _ = f (strip s ++ b) := hleft a _ ha
    _ = f (strip s) := hright _ b hb

theorem strip_strip (s : Str) : strip (strip s) = strip s :=
  (strip_invariant strip strip_white strip_white_last s).symm

def pieces (s : Str) : List Str := s.splitOnP fun c => decide (LineEnd c)

def trimmed (lines : List Str) : List Str := (lines.map strip).filter fun t => decide (t ≠ [])

def entries (s : Str) : List Str := trimmed (pieces s)

theorem trimmed_cons (line : Str) (lines : List Str) :
    trimmed (line::lines) = trimmed [line] ++ trimmed lines := by
  simp only [trimmed, List.map_cons, List.map_nil, List.filter_cons, List.filter_nil]
  split_ifs <;> rfl

theorem trimmed_append (lines more : List Str) :
    trimmed (lines ++ more) = trimmed lines ++ trimmed more := by
  rw [trimmed, List.map_append, List.filter_append]
  rfl

theorem trimmed_same (line line' : Str) (h : strip line = strip line') :
    trimmed [line] = trimmed [line'] := by
  simp only [trimmed, List.map_cons, h]

theorem trimmed_nil_cons (lines : List Str) : trimmed ([]::lines) = trimmed lines := rfl

theorem mem_trimmed (lines : List Str) (t : Str) :
    t ∈ trimmed lines ↔ t ≠ [] ∧ ∃ line ∈ lines, strip line = t := by
  rw [trimmed, List.mem_filter, List.mem_map, decide_eq_true_eq, and_comm]

theorem entries_white (c : CodePoint) (s : Str) (h : IsWhite c) : entries (c::s) = entries s := by
  rw [entries, entries, pieces, pieces, List.splitOnP_cons_eq_if_modifyHead]
  split_ifs
  · exact trimmed_nil_cons _
  · obtain ⟨p,ps,hp⟩ := List.exists_cons_of_ne_nil
      (List.splitOnP_ne_nil (fun c => decide (LineEnd c)) s)
    rw [hp, List.modifyHead_cons, trimmed_cons, trimmed_cons p,
      trimmed_same _ _ (strip_white c p h)]

theorem entries_white_last (c : CodePoint) (s : Str) (h : IsWhite c) :
    entries (s ++ [c]) = entries s := by
  rw [entries, entries, pieces, pieces]
  by_cases hc : LineEnd c
  · rw [List.splitOnP_append_cons s [] (by simpa using hc), trimmed_append]
    simp [trimmed, strip]
  · obtain ⟨ps,p,hs,hl⟩ := splitOnP_concat (fun c => decide (LineEnd c)) s c (by simpa using hc)
    rw [hs, hl, trimmed_append, trimmed_append, trimmed_same _ _ (strip_white_last c p h)]

theorem entries_strip (s : Str) : entries s = entries (strip s) :=
  strip_invariant entries entries_white entries_white_last s

theorem entries_whole (s : Str) (h : ∀ c ∈ strip s, ¬ LineEnd c) : entries s = trimmed [s] := by
  rw [entries_strip, entries, pieces, List.splitOnP_eq_singleton]
  · exact trimmed_same _ _ (strip_strip s)
  · intro c hc
    simpa using h c hc

theorem entries_free (s t : Str) (h : t ∈ entries s) : ∀ c ∈ t, ¬ LineEnd c := by
  obtain ⟨_,p,hp,rfl⟩ := (mem_trimmed _ _).1 h
  intro c hc
  obtain ⟨a,b,hs,_⟩ := strip_between p
  have hfree := splitOnP_free _ s p hp c (by rw [hs]; simp [hc])
  simpa using hfree

theorem splitOn_splitOnP (c : CodePoint) (s : Str) :
    splitOn c s = s.splitOnP fun d => decide (d = c) := by
  induction s with
  | nil => simp [splitOn]
  | cons d s ih =>
    obtain ⟨p,ps,hp⟩ := List.exists_cons_of_ne_nil
      (List.splitOnP_ne_nil (fun d => decide (d = c)) s)
    rw [splitOn, List.splitOnP_cons_eq_if_modifyHead, ih, hp]
    by_cases hd : d = c <;> simp [hd]

theorem entries_lines (s : Str) : entries s = (splitOn 10 s).flatMap entries := by
  rw [entries, pieces, splitOn_splitOnP, splitOnP_flatMap _ (fun d => decide (d = (10 : CodePoint)))]
  · generalize s.splitOnP (fun d => decide (d = (10 : CodePoint))) = lines
    induction lines with
    | nil => rfl
    | cons line lines ih => rw [List.flatMap_cons, List.flatMap_cons, trimmed_append, ih]; rfl
  · intro c hc
    obtain rfl := of_decide_eq_true hc
    decide

theorem splitlines_pieces (s : Str) : (splitlines s = [] ∧ pieces s = [[]]) ∨
    ∃ line lines more, splitlines s = line::lines ∧ pieces s = line::more ∧
      trimmed lines = trimmed more := by
  induction s using splitlines.induct with
  | case1 => exact Or.inl ⟨rfl,by simp [pieces]⟩
  | case2 c hc =>
    refine Or.inr ⟨[],[],[[]],by rw [splitlines, if_pos hc],?_,rfl⟩
    simp [pieces, List.splitOnP_cons_eq_if_modifyHead, hc]
  | case3 c hc =>
    refine Or.inr ⟨[c],[],[],by rw [splitlines, if_neg hc],?_,rfl⟩
    simp [pieces, List.splitOnP_cons_eq_if_modifyHead, hc]
  | case4 c d s h ih =>
    obtain ⟨rfl,rfl⟩ := h
    refine Or.inr ⟨[],splitlines s,[]::pieces s,by rw [splitlines, if_pos ⟨rfl,rfl⟩],?_,?_⟩
    · have hcr : LineEnd 13 ∧ LineEnd 10 := by decide
      simp [pieces, List.splitOnP_cons_eq_if_modifyHead, hcr.1, hcr.2]
    · rw [trimmed_nil_cons]
      rcases ih with ⟨hl,hp⟩ | ⟨line,lines,more,hl,hp,ht⟩
      · rw [hl, hp]
        rfl
      · rw [hl, hp, trimmed_cons, trimmed_cons line more, ht]
  | case5 c d s h hc ih =>
    refine Or.inr ⟨[],splitlines (d::s),pieces (d::s),by rw [splitlines, if_neg h, if_pos hc],?_,?_⟩
    · rw [pieces, List.splitOnP_cons_eq_if_modifyHead, if_pos (by simpa using hc)]
      rfl
    · rcases ih with ⟨hl,hp⟩ | ⟨line,lines,more,hl,hp,ht⟩
      · rw [hl, hp]
        rfl
      · rw [hl, hp, trimmed_cons, trimmed_cons line more, ht]
  | case6 c d s h hc hl ih =>
    rcases ih with ⟨_,hp⟩ | ⟨line,lines,more,hl',_⟩
    · refine Or.inr ⟨[c],[],[],by rw [splitlines, if_neg h, if_neg hc, hl],?_,rfl⟩
      rw [pieces, List.splitOnP_cons_eq_if_modifyHead, if_neg (by simpa using hc)]
      rw [pieces] at hp
      rw [hp]
      rfl
    · rw [hl'] at hl
      cases hl
  | case7 c d s h hc line lines hl ih =>
    rcases ih with ⟨hl',_⟩ | ⟨line',lines',more,hl',hp,ht⟩
    · rw [hl'] at hl
      cases hl
    · rw [hl', List.cons.injEq] at hl
      obtain ⟨rfl,rfl⟩ := hl
      refine Or.inr ⟨c::line',lines',more,by rw [splitlines, if_neg h, if_neg hc, hl'],?_,ht⟩
      rw [pieces, List.splitOnP_cons_eq_if_modifyHead, if_neg (by simpa using hc)]
      rw [pieces] at hp
      rw [hp]
      rfl

theorem trimmed_splitlines (s : Str) : trimmed (splitlines s) = entries s := by
  rcases splitlines_pieces s with ⟨hl,hp⟩ | ⟨line,lines,more,hl,hp,ht⟩
  · rw [entries, hl, hp]
    rfl
  · rw [entries, hl, hp, trimmed_cons, trimmed_cons line more, ht]

end Lib.Lines
