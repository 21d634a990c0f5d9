import Mathlib.Data.Finset.Dedup
import Mathlib.Data.Finset.Erase
import Mathlib.Data.Finset.Insert
import Valiss.Lib.Lines

/-!
# The allowlist file

Ids stand on lines of their own; blank lines and lines that begin with `#` are
passed over. The reader ends a line wherever `splitlines` does, so a control
character inside an id breaks it, and one inside a comment ends the comment.
-/

set_option autoImplicit false

namespace Valiss.Allowlist
open Lib.Unicode Lib.Lines

structure StaticAllowlist where
  ids : Finset Str

/-- `jti in allowlist` -/
def StaticAllowlist.contains (a : StaticAllowlist) (jti : Str) : Bool := decide (jti ∈ a.ids)

def StaticAllowlist.add (a : StaticAllowlist) (jti : Str) : StaticAllowlist := ⟨insert jti a.ids⟩

def StaticAllowlist.discard (a : StaticAllowlist) (jti : Str) : StaticAllowlist :=
  ⟨a.ids.erase jti⟩

/-- `replace`: the ids of another set take over at once. -/
def StaticAllowlist.replace (_ : StaticAllowlist) (jtis : List Str) : StaticAllowlist :=
  ⟨jtis.toFinset⟩

def Comment (line : Str) : Prop := line.head? = some 35

instance (line : Str) : Decidable (Comment line) := inferInstanceAs (Decidable (_ = _))

/-- `from_file`, on the text that `read_text` returned. -/
def fromFile (raw : Str) : StaticAllowlist where
  ids := (((splitlines raw).map strip).filter fun line =>
    decide (line ≠ [] ∧ ¬ Comment line)).toFinset

/-- What a newline-delimited file lists: the trimmed lines that are no comments. -/
def Listed (text id : Str) : Prop := ∃ line ∈ splitOn 10 text, strip line = id ∧ ¬ Comment id

instance (text id : Str) : Decidable (Listed text id) :=
  inferInstanceAs (Decidable (∃ line ∈ splitOn 10 text, _))

/-- Other line ends make no difference: none is inside an entry, and what they
part from a comment is a comment, blank, or listed anyway. -/
structure NewlinesOnly (text : Str) : Prop where
  whole : ∀ line ∈ splitOn 10 text, ¬ Comment (strip line) → ∀ c ∈ strip line, ¬ LineEnd c
  commented : ∀ line ∈ splitOn 10 text, Comment (strip line) →
    ∀ part ∈ entries line, ¬ Comment part → ∃ line' ∈ splitOn 10 text, strip line' = part

theorem contains_fromFile (text id : Str) :
    (fromFile text).contains id = true ↔ id ∈ entries text ∧ ¬ Comment id := by
  rw [StaticAllowlist.contains, decide_eq_true_eq, fromFile, List.mem_toFinset, List.mem_filter,
    ← trimmed_splitlines, trimmed, List.mem_filter]
  simp only [decide_eq_true_eq]
  tauto

theorem mem_entries (text id : Str) :
    id ∈ entries text ↔ ∃ line ∈ splitOn 10 text, id ∈ entries line := by
  rw [entries_lines, List.mem_flatMap]

theorem entries_line (line id : Str) (h : ∀ c ∈ strip line, ¬ LineEnd c) :
    id ∈ entries line ↔ id ≠ [] ∧ strip line = id := by
  rw [entries_whole line h, mem_trimmed]
  simp only [List.mem_singleton, exists_eq_left]

theorem fromFile_listed (text : Str) (h : NewlinesOnly text) (id : Str) (hid : id ≠ []) :
    (fromFile text).contains id = true ↔ Listed text id := by
  rw [contains_fromFile, mem_entries]
  constructor
  · rintro ⟨⟨line,hl,he⟩,hc⟩
    by_cases hcomment : Comment (strip line)
    · obtain ⟨line',hl',hs⟩ := h.commented line hl hcomment id he hc
      exact ⟨line',hl',hs,hc⟩
    · exact ⟨line,hl,((entries_line line id (h.whole line hl hcomment)).1 he).2,hc⟩
  · rintro ⟨line,hl,rfl,hc⟩
    exact ⟨⟨line,hl,(entries_line line _ (h.whole line hl hc)).2 ⟨hid,rfl⟩⟩,hc⟩

/-- The file is read as a list of newline-delimited ids exactly when its other
line ends make no difference. -/
theorem fromFile_exact (text : Str) :
    (∀ id, id ≠ [] → ((fromFile text).contains id = true ↔ Listed text id)) ↔
      NewlinesOnly text := by
  constructor
  · intro hall
    constructor
    · intro line hl hc
      by_cases hblank : strip line = []
      · simp [hblank]
      · have hread := (hall (strip line) hblank).2 ⟨line,hl,rfl,hc⟩
        exact entries_free text _ ((contains_fromFile _ _).1 hread).1
    · intro line hl _ part hp hc
      have hne := ((mem_trimmed _ _).1 hp).1
      have hread := (contains_fromFile text part).2 ⟨(mem_entries _ _).2 ⟨line,hl,hp⟩,hc⟩
      obtain ⟨line',hl',hs,_⟩ := (hall part hne).1 hread
      exact ⟨line',hl',hs⟩
  · exact fromFile_listed text

/-- A form feed in a comment lets the rest of it in. -/
theorem commented_id_accepted : ¬ ∀ text id : Str, id ≠ [] →
    ((fromFile text).contains id = true ↔ Listed text id) := by
  intro hall
  have hread : (fromFile (lit "ID1\n#revoked \x0cID2\n")).contains (lit "ID2") = true := by decide
  have hlisted : ¬ Listed (lit "ID1\n#revoked \x0cID2\n") (lit "ID2") := by decide
  exact hlisted ((hall _ _ (by decide)).1 hread)

end Valiss.Allowlist
