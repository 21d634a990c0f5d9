import Valiss.CredsGrammar

/-!
# Creds files are read back

A formatted file is a list of lines. Its sections stand apart: no line of one is
a marker of another, whatever the fields hold.
-/

set_option autoImplicit false

namespace Valiss.CredsRoundTrip
open Lib.Unicode Lib.Json Valiss.Errors Valiss.Credentials Valiss.CredsSections
open Valiss.CredsGrammar

/-- One line that `strip` leaves alone and that is no marker. -/
structure Plain (v : Str) : Prop where
  stripped : strip v = v
  oneLine : newline ∉ v
  unmarked : ∀ x ∈ sections, v ≠ x.beginMarker ∧ v ≠ x.endMarker

def unlines (ls : List Str) : Str := ls.flatMap fun line => line++[newline]

def block (x : Section) (v : Str) : List Str :=
  if v = [] then [] else [x.beginMarker,v,x.endMarker]

def versionHeader : List Str := [credsVersionMarker++32::intText credsVersion,[]]

def warning : List Str :=
  [[],lit "************************* IMPORTANT *************************",
    lit "Seed lets anyone sign as this identity. Keep it secret."]

def formatLines (c : Creds) : List Str :=
  versionHeader ++ block accountSection c.accountToken ++
  (if c.userToken = [] ∨ c.accountToken = [] then [] else [[]]) ++
  block userSection c.userToken ++
  (if c.seed = [] then [] else [[]]) ++ block seedSection c.seed ++
  (if c.seed = [] then [] else warning)

theorem plain_nil : Plain [] := by
  refine ⟨rfl,by simp,?_⟩
  simp only [sections, List.mem_cons, List.not_mem_nil, or_false, forall_eq_or_imp, forall_eq]
  decide

theorem unlines_append (a b : List Str) : unlines (a++b) = unlines a ++ unlines b :=
  List.flatMap_append

theorem unlines_block (x : Section) (v : Str) (h : strip v = v) :
    unlines (block x v) = if v = [] then [] else x.format v := by
  rw [block]
  split_ifs
  · rfl
  · simp [unlines, Section.format, h]

theorem format_unlines (c : Creds) (ha : Plain c.accountToken) (hu : Plain c.userToken)
    (hs : Plain c.seed) : c.format = unlines (formatLines c) := by
  simp only [formatLines, unlines_append, unlines_block _ _ ha.stripped,
    unlines_block _ _ hu.stripped, unlines_block _ _ hs.stripped]
  rw [Creds.format]
  by_cases h1 : c.accountToken = [] <;> by_cases h2 : c.userToken = [] <;>
    by_cases h3 : c.seed = [] <;>
      simp [h1, h2, h3, unlines, versionHeader, warning, seedWarning]

theorem splitOn_unlines (ls : List Str) (h : ∀ line ∈ ls, newline ∉ line) :
    splitOn newline (unlines ls) = ls ++ [[]] := by
  induction ls with
  | nil => rfl
  | cons line ls ih =>
    rw [unlines, List.flatMap_cons, List.append_assoc, List.singleton_append,
      splitOn_cons newline line _ (h line List.mem_cons_self), List.cons_append]
    exact congrArg _ (ih fun l hl => h l (List.mem_cons_of_mem _ hl))

/-- A line that keeps the file in lines: one line, stripped. -/
def Tidy (line : Str) : Prop := strip line = line ∧ newline ∉ line

instance (line : Str) : Decidable (Tidy line) := inferInstanceAs (Decidable (_ ∧ _))

theorem tidy_markers : ∀ x ∈ sections, Tidy x.beginMarker ∧ Tidy x.endMarker := by
  decide +kernel

theorem tidy_header : ∀ line ∈ versionHeader, Tidy line := by
  decide +kernel

theorem tidy_warning : ∀ line ∈ warning, Tidy line := by
  decide +kernel

theorem tidy_block (x : Section) (hx : x ∈ sections) (v : Str) (h : Plain v) :
    ∀ line ∈ block x v, Tidy line := by
  rw [block]
  split_ifs
  · simp
  · obtain ⟨hb,he⟩ := tidy_markers x hx
    simp only [List.mem_cons, List.not_mem_nil, or_false, forall_eq_or_imp, forall_eq]
    exact ⟨hb,⟨h.stripped,h.oneLine⟩,he⟩

theorem tidy_blank (p : Prop) [Decidable p] : ∀ line ∈ (if p then [] else [[]]), Tidy line := by
  split_ifs
  · simp
  · simp only [List.mem_singleton, forall_eq]
    exact ⟨rfl,by simp⟩

theorem tidy_lines (c : Creds) (ha : Plain c.accountToken) (hu : Plain c.userToken)
    (hs : Plain c.seed) : ∀ line ∈ formatLines c, Tidy line := by
  have hw : ∀ line ∈ (if c.seed = [] then [] else warning), Tidy line := by
    split_ifs
    · simp
    · exact tidy_warning
  intro line hl
  simp only [formatLines, List.mem_append] at hl
  rcases hl with (((((hl | hl) | hl) | hl) | hl) | hl) | hl
  · exact tidy_header line hl
  · exact tidy_block _ (by simp [sections]) _ ha line hl
  · exact tidy_blank _ line hl
  · exact tidy_block _ (by simp [sections]) _ hu line hl
  · exact tidy_blank _ line hl
  · exact tidy_block _ (by simp [sections]) _ hs line hl
  · exact hw line hl

theorem lines_format (c : Creds) (ha : Plain c.accountToken) (hu : Plain c.userToken)
    (hs : Plain c.seed) : lines c.format = formatLines c ++ [[]] := by
  have ht := tidy_lines c ha hu hs
  have hm : (formatLines c).map strip = formatLines c := by
    conv_rhs => rw [← List.map_id (formatLines c)]
    exact List.map_congr_left fun line hl => (ht line hl).1
  rw [lines, format_unlines c ha hu hs, splitOn_unlines _ fun line hl => (ht line hl).2,
    List.map_append, hm]
  rfl

theorem taken_block (x : Section) (v : Str) (before after : List Str)
    (hv : v ≠ x.beginMarker ∧ v ≠ x.endMarker) (hb : x.beginMarker ∉ before)
    (ha : x.beginMarker ∉ after) : Taken x (before ++ block x v ++ after) v := by
  rw [block]
  split_ifs with h
  · refine Or.inl ⟨?_,h⟩
    simp [hb, ha]
  · refine Or.inr ⟨[v],⟨before,after,by simp,hb,?_⟩,?_⟩
    · simpa using hv.2.symm
    · simp [content, h, hv.1]

def Apart (x y : Section) : Prop :=
  x.beginMarker ≠ y.beginMarker ∧ x.beginMarker ≠ y.endMarker

theorem sections_apart : Apart accountSection userSection ∧ Apart accountSection seedSection ∧
    Apart userSection accountSection ∧ Apart userSection seedSection ∧
    Apart seedSection accountSection ∧ Apart seedSection userSection := by
  unfold Apart
  decide +kernel

theorem begin_no_text : ∀ x ∈ sections, x.beginMarker ∉ versionHeader ∧
    x.beginMarker ∉ warning ∧ x.beginMarker ≠ [] := by
  decide +kernel

theorem begin_not_blank (x : Section) (hx : x ∈ sections) (p : Prop) [Decidable p] :
    x.beginMarker ∉ (if p then [] else [[]]) := by
  split_ifs
  · simp
  · simpa using (begin_no_text x hx).2.2

theorem begin_not_warning (x : Section) (hx : x ∈ sections) (p : Prop) [Decidable p] :
    x.beginMarker ∉ (if p then [] else warning) := by
  split_ifs
  · simp
  · exact (begin_no_text x hx).2.1

theorem begin_not_block (x y : Section) (hx : x ∈ sections) (h : Apart x y) (v : Str)
    (hv : Plain v) : x.beginMarker ∉ block y v := by
  rw [block]
  split_ifs
  · simp
  · simp only [List.mem_cons, List.not_mem_nil, or_false, not_or]
    exact ⟨h.1,Ne.symm (hv.unmarked x hx).1,h.2⟩

theorem account_taken (c : Creds) (ha : Plain c.accountToken) (hu : Plain c.userToken)
    (hs : Plain c.seed) : Taken accountSection (formatLines c ++ [[]]) c.accountToken := by
  have hx : accountSection ∈ sections := by simp [sections]
  obtain ⟨hau,has,_⟩ := sections_apart
  have ht := taken_block accountSection c.accountToken versionHeader
    ((if c.userToken = [] ∨ c.accountToken = [] then [] else [[]]) ++
      (block userSection c.userToken ++ ((if c.seed = [] then [] else [[]]) ++
        (block seedSection c.seed ++ ((if c.seed = [] then [] else warning) ++ [[]])))))
    (ha.unmarked _ hx) (begin_no_text _ hx).1 (by
      simp only [List.mem_append, not_or]
      exact ⟨begin_not_blank _ hx _,begin_not_block _ _ hx hau _ hu,begin_not_blank _ hx _,
        begin_not_block _ _ hx has _ hs,begin_not_warning _ hx _,
        by simpa using (begin_no_text _ hx).2.2⟩)
  simpa only [formatLines, List.append_assoc] using ht

theorem user_taken (c : Creds) (ha : Plain c.accountToken) (hu : Plain c.userToken)
    (hs : Plain c.seed) : Taken userSection (formatLines c ++ [[]]) c.userToken := by
  have hx : userSection ∈ sections := by simp [sections]
  obtain ⟨_,_,hua,hus,_⟩ := sections_apart
  have ht := taken_block userSection c.userToken
    (versionHeader ++ (block accountSection c.accountToken ++
      (if c.userToken = [] ∨ c.accountToken = [] then [] else [[]])))
    ((if c.seed = [] then [] else [[]]) ++ (block seedSection c.seed ++
      ((if c.seed = [] then [] else warning) ++ [[]])))
    (hu.unmarked _ hx) (by
      simp only [List.mem_append, not_or]
      exact ⟨(begin_no_text _ hx).1,begin_not_block _ _ hx hua _ ha,begin_not_blank _ hx _⟩) (by
      simp only [List.mem_append, not_or]
      exact ⟨begin_not_blank _ hx _,begin_not_block _ _ hx hus _ hs,begin_not_warning _ hx _,
        by simpa using (begin_no_text _ hx).2.2⟩)
  simpa only [formatLines, List.append_assoc] using ht

theorem seed_taken (c : Creds) (ha : Plain c.accountToken) (hu : Plain c.userToken)
    (hs : Plain c.seed) : Taken seedSection (formatLines c ++ [[]]) c.seed := by
  have hx : seedSection ∈ sections := by simp [sections]
  obtain ⟨_,_,_,_,hsa,hsu⟩ := sections_apart
  have ht := taken_block seedSection c.seed
    (versionHeader ++ (block accountSection c.accountToken ++
      ((if c.userToken = [] ∨ c.accountToken = [] then [] else [[]]) ++
        (block userSection c.userToken ++ (if c.seed = [] then [] else [[]])))))
    ((if c.seed = [] then [] else warning) ++ [[]])
    (hs.unmarked _ hx) (by
      simp only [List.mem_append, not_or]
      exact ⟨(begin_no_text _ hx).1,begin_not_block _ _ hx hsa _ ha,begin_not_blank _ hx _,
        begin_not_block _ _ hx hsu _ hu,begin_not_blank _ hx _⟩) (by
      simp only [List.mem_append, not_or]
      exact ⟨begin_not_warning _ hx _,by simpa using (begin_no_text _ hx).2.2⟩)
  simpa only [formatLines, List.append_assoc] using ht

theorem version_format (c : Creds) (h : lines c.format = formatLines c ++ [[]]) :
    versionLine c.format = some (credsVersionMarker++32::intText credsVersion) := by
  rw [versionLine, h, formatLines, versionHeader]
  simp only [List.cons_append, List.append_assoc]
  rw [List.find?_cons_of_pos]
  decide +kernel

section Parsed
variable [Platform]

theorem creds_round_trip (c : Creds) (htoken : c.accountToken ≠ [] ∨ c.userToken ≠ [])
    (ha : c.accountToken = [] ∨ Plain c.accountToken) (hu : c.userToken = [] ∨ Plain c.userToken)
    (hs : c.seed = [] ∨ Plain c.seed) : parse c.format = .ok c := by
  have hnil : ∀ v : Str, v = [] ∨ Plain v → Plain v := by
    rintro v (rfl | h)
    · exact plain_nil
    · exact h
  have hl := lines_format c (hnil _ ha) (hnil _ hu) (hnil _ hs)
  have hta := account_taken c (hnil _ ha) (hnil _ hu) (hnil _ hs)
  have htu := user_taken c (hnil _ ha) (hnil _ hu) (hnil _ hs)
  have hts := seed_taken c (hnil _ ha) (hnil _ hu) (hnil _ hs)
  have hv := version_format c hl
  have hfirst : versionValue (versionText (credsVersionMarker++32::intText credsVersion)) = true ∧
      versionNumber (versionText (credsVersionMarker++32::intText credsVersion)) = 1 ∧
      ¬ intDigits < (unsigned (versionText
        (credsVersionMarker++32::intText credsVersion))).length := by
    decide +kernel
  obtain ⟨h1,h2,h3⟩ := hfirst
  rw [parse_ok, HasToken, hl]
  refine ⟨⟨?_,?_⟩,?_,hta,htu,hts⟩
  · intro line hline
    obtain rfl := Option.some.inj (hv.symm.trans hline)
    exact ⟨h1,h2⟩
  · rintro ⟨line,hline,_,hlong⟩
    obtain rfl := Option.some.inj (hv.symm.trans hline)
    exact h3 hlong
  · rcases htoken with h | h
    · exact Or.inl ((taken_ne_nil _ _ _ hta).1 h)
    · exact Or.inr ((taken_ne_nil _ _ _ htu).1 h)

end Parsed

section Widgets
local instance : Platform := Recorded.domain.ideal

def bundle : Creds := ⟨lit "acct.token.sig",lit "user.token.sig",lit "SUABC"⟩

theorem creds_round_trip_widgets : parse bundle.format = .ok bundle := by
  have hp : ∀ v ∈ [bundle.accountToken,bundle.userToken,bundle.seed], Plain v := by
    intro v hv
    have hall : strip v = v ∧ newline ∉ v ∧
        ∀ x ∈ sections, v ≠ x.beginMarker ∧ v ≠ x.endMarker := by
      revert v
      decide +kernel
    exact ⟨hall.1,hall.2.1,hall.2.2⟩
  apply creds_round_trip bundle (Or.inl (by decide))
  · exact Or.inr (hp _ (by simp))
  · exact Or.inr (hp _ (by simp))
  · exact Or.inr (hp _ (by simp))

end Widgets

end Valiss.CredsRoundTrip
