import Valiss.CredsSections
import Valiss.Recorded

/-!
# The grammar of creds files

The grammar counts a begin marker that is repeated inside its section as a line
like any other; the parser passes over it. The two part on such texts, and on a
version number too long for the interpreter, and nowhere else.
-/

set_option autoImplicit false

namespace Valiss.CredsGrammar
open Lib.Unicode Lib.Json Lib.Fallible Valiss.Errors Valiss.Credentials Valiss.CredsSections
open Valiss.Recorded

def Holds (x : Section) (ls : List Str) (v : Str) : Prop :=
  (x.beginMarker ∉ ls ∧ v = []) ∨
    ∃ inner, Body x ls inner ∧ inner.filter (fun line => decide (line ≠ [])) = [v]

def VersionOne (contents : Str) : Prop :=
  ∀ line, versionLine contents = some line →
    versionValue (versionText line) = true ∧ versionNumber (versionText line) = 1

def HasToken (contents : Str) : Prop :=
  accountSection.beginMarker ∈ lines contents ∨ userSection.beginMarker ∈ lines contents

structure Grammar (contents : Str) (c : Creds) : Prop where
  version : VersionOne contents
  token : HasToken contents
  account : Holds accountSection (lines contents) c.accountToken
  user : Holds userSection (lines contents) c.userToken
  seed : Holds seedSection (lines contents) c.seed

/-- What the parser takes for the value: the one line left without repeated begin markers. -/
def Taken (x : Section) (ls : List Str) (v : Str) : Prop :=
  (x.beginMarker ∉ ls ∧ v = []) ∨ ∃ inner, Body x ls inner ∧ content x inner = [v]

def Repeats (x : Section) (ls : List Str) : Prop := ∃ inner, Body x ls inner ∧ x.beginMarker ∈ inner

def sections : List Section := [accountSection,userSection,seedSection]

/-- The version number has more digits than the interpreter reads. -/
def Overlong (contents : Str) : Prop :=
  ∃ line, versionLine contents = some line ∧ versionValue (versionText line) = true ∧
    intDigits < (unsigned (versionText line)).length

/-- A repeated begin marker in a text whose sections are well formed with it or without it. -/
def Ambiguous (contents : Str) : Prop :=
  VersionOne contents ∧ HasToken contents ∧ (∃ x ∈ sections, Repeats x (lines contents)) ∧
    ((∀ x ∈ sections, ∃ v, Holds x (lines contents) v) ∨
      ∀ x ∈ sections, ∃ v, Taken x (lines contents) v)

theorem begin_ne_nil : ∀ x ∈ sections, x.beginMarker ≠ [] := by
  simp only [sections, List.mem_cons, List.not_mem_nil, or_false, forall_eq_or_imp, forall_eq]
  decide

theorem grammar_holds (contents : Str) (c : Creds) (h : Grammar contents c) :
    ∀ x ∈ sections, ∃ v, Holds x (lines contents) v := by
  simp only [sections, List.mem_cons, List.not_mem_nil, or_false, forall_eq_or_imp, forall_eq]
  exact ⟨⟨_,h.account⟩,⟨_,h.user⟩,⟨_,h.seed⟩⟩

theorem taken_iff (x : Section) (ls : List Str) (v : Str) (h : ¬ Repeats x ls) :
    Taken x ls v ↔ Holds x ls v := by
  apply or_congr_right
  apply exists_congr
  intro inner
  apply and_congr_right
  intro hb
  have hf : content x inner = inner.filter fun line => decide (line ≠ []) := by
    apply List.filter_congr
    intro line hl
    have hne : line ≠ x.beginMarker := fun he => h ⟨inner,hb,he ▸ hl⟩
    simp [hne]
  rw [hf]

theorem repeats_apart (x : Section) (hx : x.beginMarker ≠ []) (ls : List Str) (v w : Str)
    (h : Repeats x ls) (hv : Holds x ls v) (hw : Taken x ls w) : False := by
  obtain ⟨inner,hb,hm⟩ := h
  have hin : x.beginMarker ∈ ls := by
    obtain ⟨before,after,rfl,_⟩ := hb
    simp
  obtain ⟨i,hi,hv⟩ := hv.resolve_left fun hn => hn.1 hin
  obtain ⟨j,hj,hw⟩ := hw.resolve_left fun hn => hn.1 hin
  obtain rfl := body_unique x ls inner i hb hi
  obtain rfl := body_unique x ls inner j hb hj
  have hwm : w ∈ content x inner := hw ▸ List.mem_singleton.2 rfl
  obtain ⟨hwi,hwd⟩ := List.mem_filter.1 hwm
  obtain ⟨hwn,hwb⟩ := of_decide_eq_true hwd
  have h1 : x.beginMarker ∈ [v] := hv ▸ List.mem_filter.2 ⟨hm,decide_eq_true hx⟩
  have h2 : w ∈ [v] := hv ▸ List.mem_filter.2 ⟨hwi,decide_eq_true hwn⟩
  exact hwb ((List.mem_singleton.1 h2).trans (List.mem_singleton.1 h1).symm)

theorem taken_ne_nil (x : Section) (ls : List Str) (v : Str) (h : Taken x ls v) :
    v ≠ [] ↔ x.beginMarker ∈ ls := by
  rcases h with ⟨hn,rfl⟩ | ⟨inner,hb,hc⟩
  · simp [hn]
  · have hv : v ∈ content x inner := hc ▸ List.mem_singleton.2 rfl
    have hne := (of_decide_eq_true (List.mem_filter.1 hv).2).1
    obtain ⟨before,after,rfl,_⟩ := hb
    simp [hne]

theorem between_taken (contents : Str) (x : Section) (v : Str) :
    (∃ b, between contents x = .ok (v,b)) ↔ Taken x (lines contents) v := by
  simp only [between_ok]
  constructor
  · rintro ⟨b,⟨hn,hv,_⟩ | ⟨_,h⟩⟩
    · exact Or.inl ⟨hn,hv⟩
    · exact Or.inr h
  · rintro (⟨hn,hv⟩ | h)
    · exact ⟨false,Or.inl ⟨hn,hv,rfl⟩⟩
    · exact ⟨true,Or.inr ⟨rfl,h⟩⟩

theorem digit_not_white (c : CodePoint) (h : IsDigit c) : ¬ IsWhite c := by
  unfold IsDigit at h
  unfold IsWhite
  omega

theorem marker_head : credsVersionMarker = 86::credsVersionMarker.tail := by decide

theorem version_digits (digits : Str) (hne : digits ≠ []) (hd : ∀ c ∈ digits, IsDigit c) :
    versionLine (credsVersionMarker ++ 32::digits) = some (credsVersionMarker ++ 32::digits) ∧
      versionText (credsVersionMarker ++ 32::digits) = digits ∧ unsigned digits = digits := by
  obtain ⟨d,ds,rfl⟩ := List.exists_cons_of_ne_nil hne
  have hlast : ∀ c ∈ (d::ds).getLast?, ¬ IsWhite c := fun c hc =>
    digit_not_white c (hd c (List.mem_of_getLast? hc))
  have hself : strip (d::ds) = d::ds := by
    apply strip_self _ _ hlast
    rintro c hc
    obtain rfl := Option.some.inj hc
    exact digit_not_white d (hd d List.mem_cons_self)
  have hline : strip (credsVersionMarker ++ 32::d::ds) = credsVersionMarker ++ 32::d::ds := by
    apply strip_self
    · intro c hc
      rw [marker_head] at hc
      obtain rfl := Option.some.inj hc
      decide
    · rwa [List.getLast?_append_of_ne_nil _ (by simp), List.getLast?_cons_cons]
  have hnl : newline ∉ credsVersionMarker ++ 32::d::ds := by
    intro hm
    rcases List.mem_append.1 hm with hm | hm
    · revert hm
      decide
    · rcases List.mem_cons.1 hm with hm | hm
      · cases hm
      · exact absurd (hd _ hm) (by decide)
  refine ⟨?_,?_,?_⟩
  · rw [versionLine, lines, splitOn_none newline _ hnl, List.map_singleton, hline,
      List.find?_cons_of_pos]
    exact List.isPrefixOf_iff_prefix.2 (List.prefix_append _ _)
  · rw [versionText, List.drop_left, strip_white 32 _ (by decide), hself]
  · have h1 := hd d List.mem_cons_self
    rw [unsigned, if_neg]
    rintro (rfl | rfl)
    · revert h1
      decide
    · revert h1
      decide

theorem digits_overlong (digits : Str) (hd : ∀ c ∈ digits, IsDigit c)
    (h : intDigits < digits.length) : Overlong (credsVersionMarker ++ 32::digits) := by
  have hne : digits ≠ [] := by
    rintro rfl
    exact absurd h (by decide)
  obtain ⟨hline,htext,hun⟩ := version_digits digits hne hd
  refine ⟨_,hline,?_,?_⟩
  · rw [htext, versionValue, hun, decide_eq_true hne, Bool.true_and, List.all_eq_true]
    exact fun c hc => decide_eq_true (hd c hc)
  · rwa [htext, hun]

section Parser
variable [Platform]

theorem checkVersion_ok (contents : Str) (u : Unit) :
    checkVersion contents = .ok u ↔ VersionOne contents ∧ ¬ Overlong contents := by
  rw [checkVersion, VersionOne, Overlong]
  cases versionLine contents with
  | none => simp
  | some line =>
    simp only [bind_ok, raiseIf_ok, pyInt, credsVersion, builtin, Option.some.injEq,
      forall_eq', exists_eq_left', not_and, not_lt, Bool.not_eq_false]
    constructor
    · rintro ⟨_,hv,n,hn,h1⟩
      split_ifs at hn with hlen
      obtain rfl := Except.ok.inj hn
      exact ⟨⟨hv,not_not.1 ((raiseIf_ok _ _ _).1 h1)⟩,fun _ => Nat.not_lt.1 hlen⟩
    · rintro ⟨⟨hv,h1⟩,hlen⟩
      exact ⟨(),hv,_,if_neg (Nat.not_lt.2 (hlen hv)),(raiseIf_ok _ _ _).2 (not_not.2 h1)⟩

theorem checkVersion_onlyValiss (contents : Str) (h : ¬ Overlong contents) :
    OnlyValiss (checkVersion contents) := by
  rw [checkVersion]
  split
  next => exact raises_ok _ _
  next line hline =>
    apply (onlyValiss_raiseIf _ _ _).bind
    intro _ hv
    have hv := Bool.not_eq_false _ ▸ (raiseIf_ok _ _ _).1 hv
    have hlen : ¬ intDigits < (unsigned (versionText line)).length := fun hl =>
      h ⟨line,hline,hv,hl⟩
    rw [pyInt, if_neg hlen, ok_bind]
    exact onlyValiss_raiseIf _ _ _

/-- The number is not read, and what is raised is no `ValissError`. -/
theorem checkVersion_overlong (contents : Str) (h : Overlong contents) :
    checkVersion contents = builtin .valueError := by
  obtain ⟨line,hline,hv,hl⟩ := h
  rw [checkVersion, hline]
  dsimp only
  rw [raiseIf_neg _ _ (by simp [hv]), ok_bind, pyInt, if_pos hl]
  rfl

theorem parse_ok (contents : Str) (c : Creds) :
    parse contents = .ok c ↔ (VersionOne contents ∧ ¬ Overlong contents) ∧ HasToken contents ∧
      Taken accountSection (lines contents) c.accountToken ∧
      Taken userSection (lines contents) c.userToken ∧
      Taken seedSection (lines contents) c.seed := by
  simp only [parse, bind_ok, checkVersion_ok, raiseIf_ok, pure_ok]
  constructor
  · rintro ⟨_,hv,⟨a,ab⟩,ha,⟨u,ub⟩,hu,_,hne,⟨s,sb⟩,hs,rfl⟩
    have hta := (between_taken contents accountSection a).1 ⟨ab,ha⟩
    have htu := (between_taken contents userSection u).1 ⟨ub,hu⟩
    have hts := (between_taken contents seedSection s).1 ⟨sb,hs⟩
    refine ⟨hv,?_,hta,htu,hts⟩
    by_contra hno
    obtain ⟨h1,h2⟩ := not_or.1 hno
    rw [← taken_ne_nil _ _ _ hta, not_not] at h1
    rw [← taken_ne_nil _ _ _ htu, not_not] at h2
    exact hne ⟨h1,h2⟩
  · rintro ⟨hv,ht,hta,htu,hts⟩
    obtain ⟨ab,ha⟩ := (between_taken _ _ _).2 hta
    obtain ⟨ub,hu⟩ := (between_taken _ _ _).2 htu
    obtain ⟨sb,hs⟩ := (between_taken _ _ _).2 hts
    refine ⟨(),hv,_,ha,_,hu,(),?_,_,hs,rfl⟩
    rintro ⟨h1,h2⟩
    rcases ht with ht | ht
    · exact (taken_ne_nil _ _ _ hta).2 ht h1
    · exact (taken_ne_nil _ _ _ htu).2 ht h2

theorem parse_onlyValiss (contents : Str) (h : ¬ Overlong contents) :
    OnlyValiss (parse contents) := by
  apply (checkVersion_onlyValiss contents h).bind
  intro _ _
  apply (between_onlyValiss contents accountSection).bind
  intro a _
  apply (between_onlyValiss contents userSection).bind
  intro u _
  apply (onlyValiss_raiseIf _ _ _).bind
  intro _ _
  apply (between_onlyValiss contents seedSection).bind
  intro s _
  exact raises_pure _ _

/-- The parser returns what the grammar reads, and refuses the rest as it should. -/
def Exact (contents : Str) : Prop :=
  (∀ c, parse contents = .ok c ↔ Grammar contents c) ∧ OnlyValiss (parse contents)

theorem parse_taken (contents : Str) (c : Creds) (h : parse contents = .ok c) :
    ∀ x ∈ sections, ∃ v, Taken x (lines contents) v := by
  obtain ⟨_,_,ha,hu,hs⟩ := (parse_ok contents c).1 h
  simp only [sections, List.mem_cons, List.not_mem_nil, or_false, forall_eq_or_imp, forall_eq]
  exact ⟨⟨_,ha⟩,⟨_,hu⟩,⟨_,hs⟩⟩

theorem exact_unambiguous (contents : Str) (hl : ¬ Overlong contents) (h : Exact contents) :
    ¬ Ambiguous contents := by
  rintro ⟨hv,ht,⟨x,hx,hr⟩,hall⟩
  obtain ⟨c,hp⟩ : ∃ c, parse contents = .ok c := by
    rcases hall with hall | hall
    · obtain ⟨a,ha⟩ := hall accountSection (by simp [sections])
      obtain ⟨u,hu⟩ := hall userSection (by simp [sections])
      obtain ⟨s,hs⟩ := hall seedSection (by simp [sections])
      exact ⟨⟨a,u,s⟩,(h.1 _).2 ⟨hv,ht,ha,hu,hs⟩⟩
    · obtain ⟨a,ha⟩ := hall accountSection (by simp [sections])
      obtain ⟨u,hu⟩ := hall userSection (by simp [sections])
      obtain ⟨s,hs⟩ := hall seedSection (by simp [sections])
      exact ⟨⟨a,u,s⟩,(parse_ok _ _).2 ⟨⟨hv,hl⟩,ht,ha,hu,hs⟩⟩
  obtain ⟨v,hholds⟩ := grammar_holds contents c ((h.1 c).1 hp) x hx
  obtain ⟨w,htaken⟩ := parse_taken contents c hp x hx
  exact repeats_apart x (begin_ne_nil x hx) _ v w hr hholds htaken

theorem unambiguous_exact (contents : Str) (hl : ¬ Overlong contents)
    (h : ¬ Ambiguous contents) : Exact contents := by
  have hsec : ∀ {x}, x ∈ sections → VersionOne contents → HasToken contents →
      ((∀ x ∈ sections, ∃ v, Holds x (lines contents) v) ∨
        ∀ x ∈ sections, ∃ v, Taken x (lines contents) v) → ¬ Repeats x (lines contents) :=
    fun hx hv ht hall hr => h ⟨hv,ht,⟨_,hx,hr⟩,hall⟩
  have hall : ∀ c, VersionOne contents → HasToken contents →
      ((∀ x ∈ sections, ∃ v, Holds x (lines contents) v) ∨
        ∀ x ∈ sections, ∃ v, Taken x (lines contents) v) →
      (parse contents = .ok c ↔ Grammar contents c) := by
    intro c hv ht hor
    rw [parse_ok, taken_iff accountSection _ _ (hsec (by simp [sections]) hv ht hor),
      taken_iff userSection _ _ (hsec (by simp [sections]) hv ht hor),
      taken_iff seedSection _ _ (hsec (by simp [sections]) hv ht hor)]
    constructor
    · rintro ⟨_,_,ha,hu,hs⟩
      exact ⟨hv,ht,ha,hu,hs⟩
    · rintro ⟨_,_,ha,hu,hs⟩
      exact ⟨⟨hv,hl⟩,ht,ha,hu,hs⟩
  refine ⟨fun c => ⟨fun hp => ?_,fun hg => ?_⟩,parse_onlyValiss contents hl⟩
  · obtain ⟨⟨hv,_⟩,ht,_⟩ := (parse_ok contents c).1 hp
    exact (hall c hv ht (Or.inr (parse_taken contents c hp))).1 hp
  · exact (hall c hg.version hg.token (Or.inl (grammar_holds contents c hg))).2 hg

theorem exact_iff (contents : Str) :
    Exact contents ↔ ¬ Overlong contents ∧ ¬ Ambiguous contents := by
  constructor
  · intro h
    have hl : ¬ Overlong contents := by
      intro ho
      have he : parse contents = builtin .valueError := by
        rw [parse, checkVersion_overlong contents ho]
        rfl
      have := h.2 _ he
      cases this
    exact ⟨hl,exact_unambiguous contents hl h⟩
  · rintro ⟨hl,ha⟩
    exact unambiguous_exact contents hl ha

end Parser

section Widgets
local instance : Platform := domain.ideal

def repeatedLines : List Str :=
  [accountSection.beginMarker,accountSection.beginMarker,lit "t",accountSection.endMarker]

def repeatedText : Str := repeatedLines.flatMap fun line => line++[newline]

def zerosText : Str := credsVersionMarker ++ 32::(List.replicate intDigits 48 ++ [49])

theorem repeated_marker_accepted : parse repeatedText = .ok ⟨lit "t",[],[]⟩ ∧
    ¬ Exact repeatedText ∧ parse zerosText = builtin .valueError ∧ ¬ Exact zerosText := by
  have hlines : lines repeatedText = repeatedLines ++ [[]] := by decide +kernel
  have hbody : Body accountSection (lines repeatedText) [accountSection.beginMarker,lit "t"] :=
    ⟨[],[[]],hlines,by simp,by decide +kernel⟩
  have hrepeats : Repeats accountSection (lines repeatedText) := ⟨_,hbody,by simp⟩
  have hline : versionLine repeatedText = none := by decide +kernel
  have hparse : parse repeatedText = .ok ⟨lit "t",[],[]⟩ := by
    rw [parse_ok, VersionOne, Overlong, hline]
    refine ⟨⟨by simp,by simp⟩,?_,Or.inr ⟨_,hbody,by decide +kernel⟩,Or.inl ⟨?_,rfl⟩,
      Or.inl ⟨?_,rfl⟩⟩
    · rw [HasToken, hlines]
      simp [repeatedLines]
    · rw [hlines]
      decide +kernel
    · rw [hlines]
      decide +kernel
  have hlong : parse zerosText = builtin .valueError := by
    have ho : Overlong zerosText := by
      apply digits_overlong
      · intro c hc
        rcases List.mem_append.1 hc with hc | hc
        · rw [List.eq_of_mem_replicate hc]
          decide
        · rw [List.mem_singleton.1 hc]
          decide
      · rw [List.length_append, List.length_replicate, List.length_singleton]
        exact Nat.lt_succ_self _
    rw [parse, checkVersion_overlong zerosText ho]
    rfl
  refine ⟨hparse,?_,hlong,?_⟩
  · intro h
    have hg := (h.1 _).1 hparse
    have ht := ((parse_ok _ _).1 hparse).2.2.1
    exact repeats_apart accountSection (by decide) _ _ _ hrepeats hg.account ht
  · intro h
    cases h.2 _ hlong

end Widgets

end Valiss.CredsGrammar
