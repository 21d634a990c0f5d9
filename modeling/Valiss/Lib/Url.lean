import Valiss.Lib.Json

/-!
# Splitting URLs

`urlsplit` of ASCII text, and the host and port of a network location. An
`Absolute` URL is one by its parts; splitting its text finds the parts again.
-/

set_option autoImplicit false

namespace Lib.Url
open Lib.Unicode Lib.Json

/-- `s.partition(c)`, the separator by whether it is there. -/
def partition (c : CodePoint) : Str → Str × Bool × Str
  | [] => ([],false,[])
  | x::xs => if x = c then ([],true,xs) else
    let r := partition c xs
    (x::r.1,r.2)

theorem partition_found (c : CodePoint) (s t : Str) (h : c ∉ s) :
    partition c (s ++ c::t) = (s,true,t) := by
  induction s with
  | nil => simp [partition]
  | cons x s ih =>
    simp only [List.mem_cons, not_or] at h
    simp [partition, Ne.symm h.1, ih h.2]

theorem partition_none (c : CodePoint) (s : Str) (h : c ∉ s) :
    partition c s = (s,false,[]) := by
  induction s with
  | nil => rfl
  | cons x s ih =>
    simp only [List.mem_cons, not_or] at h
    simp [partition, Ne.symm h.1, ih h.2]

/-- `s.rpartition(c)[2]` -/
def afterLast (c : CodePoint) (s : Str) : Str := (partition c s.reverse).1.reverse

theorem afterLast_found (c : CodePoint) (s t : Str) (h : c ∉ t) : afterLast c (s ++ c::t) = t := by
  have hr : (s ++ c::t).reverse = t.reverse ++ c::s.reverse := by simp
  rw [afterLast, hr, partition_found _ _ _ (by simpa using h), List.reverse_reverse]

theorem afterLast_none (c : CodePoint) (s : Str) (h : c ∉ s) : afterLast c s = s := by
  rw [afterLast, partition_none _ _ (by simpa using h), List.reverse_reverse]

def cleaned (url : Str) : Str :=
  (url.dropWhile fun c => decide (c.val ≤ 32)).filter fun c =>
    decide (c.val ≠ 9 ∧ c.val ≠ 10 ∧ c.val ≠ 13)

def Visible (c : CodePoint) : Prop := 33 ≤ c.val ∧ c.val < 127

instance (c : CodePoint) : Decidable (Visible c) := inferInstanceAs (Decidable (_ ∧ _))

theorem cleaned_visible (s : Str) (h : ∀ c ∈ s, Visible c) : cleaned s = s := by
  have hd : (s.dropWhile fun c => decide (c.val ≤ 32)) = s := by
    cases s with
    | nil => rfl
    | cons c s =>
      have := h c List.mem_cons_self
      rw [Visible] at this
      rw [List.dropWhile_cons_of_neg (by simp; omega)]
  rw [cleaned, hd, List.filter_eq_self]
  intro c hc
  have := h c hc
  rw [Visible] at this
  exact decide_eq_true (by omega)

def IsUpper (c : CodePoint) : Prop := 65 ≤ c.val ∧ c.val ≤ 90

def IsLower (c : CodePoint) : Prop := 97 ≤ c.val ∧ c.val ≤ 122

instance (c : CodePoint) : Decidable (IsUpper c) := inferInstanceAs (Decidable (_ ∧ _))

instance (c : CodePoint) : Decidable (IsLower c) := inferInstanceAs (Decidable (_ ∧ _))

/-- `scheme_chars` -/
def SchemeChar (c : CodePoint) : Prop :=
  IsUpper c ∨ IsLower c ∨ IsDigit c ∨ c = 43 ∨ c = 45 ∨ c = 46

instance (c : CodePoint) : Decidable (SchemeChar c) := inferInstanceAs (Decidable (_ ∨ _))

def lower (s : Str) : Str := s.map fun c => if IsUpper c then codePoint (c.val+32) else c

def splitScheme (url : Str) : Str × Str :=
  match partition 58 url with
  | (c::s,true,rest) =>
    if (IsUpper c ∨ IsLower c) ∧ ∀ x ∈ c::s, SchemeChar x then (lower (c::s),rest) else ([],url)
  | _ => ([],url)

def endsNetloc (c : CodePoint) : Bool := decide (c = 47 ∨ c = 63 ∨ c = 35)

/-- `_splitnetloc`, when there are two slashes to start it. -/
def splitNetloc (url : Str) : Str × Str :=
  if url.take 2 = [47,47] then
    ((url.drop 2).takeWhile fun c => !endsNetloc c,(url.drop 2).dropWhile fun c => !endsNetloc c)
  else ([],url)

structure SplitResult where
  scheme : Str
  netloc : Str
  path : Str
  query : Str
  fragment : Str
  deriving DecidableEq

section Split
-- whether a text in brackets is an address
variable (bracketed : Str → Bool)

def bracketsOk (netloc : Str) : Bool :=
  if (91 : CodePoint) ∈ netloc then
    decide ((93 : CodePoint) ∈ netloc) &&
      bracketed (partition 93 (partition 91 netloc).2.2).1
  else decide ((93 : CodePoint) ∉ netloc)

/-- `urlsplit`, none where it raises. -/
def urlsplit (url : Str) : Option SplitResult :=
  let s := splitScheme (cleaned url)
  let n := splitNetloc s.2
  let f := partition 35 n.2
  let q := partition 63 f.1
  if bracketsOk bracketed n.1 then some ⟨s.1,n.1,q.1,q.2.2,f.2.2⟩ else none

end Split

/-- `_hostinfo` -/
def hostInfo (netloc : Str) : Str × Str :=
  let info := afterLast 64 netloc
  match partition 91 info with
  | (_,true,rest) =>
    let h := partition 93 rest
    (h.1,(partition 58 h.2.2).2.2)
  | (_,false,_) =>
    let h := partition 58 info
    (h.1,h.2.2)

def lowerHost (host : Str) : Str :=
  let h := partition 37 host
  lower h.1 ++ (if h.2.1 then 37::h.2.2 else [])

def hostname (netloc : Str) : Option Str :=
  if (hostInfo netloc).1 = [] then none else some (lowerHost (hostInfo netloc).1)

/-- `port`, none where it raises. -/
def port (netloc : Str) : Option (Option ℕ) :=
  let p := (hostInfo netloc).2
  if p = [] then some none
  else if (∀ c ∈ p, IsDigit c) ∧ digitsValue p ≤ 65535 then some (some (digitsValue p))
  else none

def Plain (separators s : Str) : Prop := ∀ c ∈ s, Visible c ∧ c ∉ separators

instance (separators s : Str) : Decidable (Plain separators s) :=
  inferInstanceAs (Decidable (∀ c ∈ s, _))

theorem Plain.free {separators s : Str} (h : Plain separators s) {c : CodePoint}
    (hc : c ∈ separators) : c ∉ s := fun hs => (h c hs).2 hc

inductive Host where
  | name (s : Str)
  | address (s : Str)

namespace Host

def inner : Host → Str
  | name s => s
  | address s => s

def text : Host → Str
  | name s => s
  | address s => 91::(s ++ [93])

/-- Separators stand between the parts only, and letters are in lower case. -/
def Formed : Host → Prop
  | name s => s ≠ [] ∧ Plain [47,63,35,64,91,93,58] s ∧ lowerHost s = s
  | address s => 58 ∈ s ∧ Plain [47,63,35,64,91,93] s ∧ lowerHost s = s

instance (h : Host) : Decidable h.Formed := by
  cases h <;> exact inferInstanceAs (Decidable (_ ∧ _))

def readable (bracketed : Str → Bool) : Host → Bool
  | name _ => true
  | address s => bracketed s

end Host

def SchemeText (s : Str) : Prop :=
  IsLower (s.headD 0) ∧ ∀ c ∈ s, SchemeChar c ∧ ¬ IsUpper c

instance (s : Str) : Decidable (SchemeText s) := inferInstanceAs (Decidable (_ ∧ _))

theorem lower_none (s : Str) (h : ∀ c ∈ s, ¬ IsUpper c) : lower s = s := by
  rw [lower]
  conv_rhs => rw [← List.map_id s]
  exact List.map_congr_left fun c hc => if_neg (h c hc)

theorem splitScheme_text (scheme rest : Str) (h : SchemeText scheme) :
    splitScheme (scheme ++ 58::rest) = (scheme,rest) := by
  have hc : (58 : CodePoint) ∉ scheme := fun hm => by
    have := (h.2 _ hm).1
    revert this
    decide
  obtain ⟨hl,hs⟩ := h
  rw [splitScheme, partition_found _ _ _ hc]
  cases scheme with
  | nil => exact absurd hl (by decide)
  | cons c s =>
    simp only
    rw [if_pos ⟨Or.inr hl,fun x hx => (hs x hx).1⟩, lower_none _ fun x hx => (hs x hx).2]

theorem splitNetloc_text (netloc rest : Str) (hn : ∀ c ∈ netloc, endsNetloc c = false)
    (hr : rest.head? = some 47) :
    splitNetloc (47::47::(netloc ++ rest)) = (netloc,rest) := by
  obtain ⟨r,rfl⟩ : ∃ r, rest = 47::r := List.head?_eq_some_iff.1 hr
  rw [splitNetloc, if_pos (by rfl)]
  have hp : ∀ c ∈ netloc, (!endsNetloc c) = true := fun c hc => by rw [hn c hc]; rfl
  simp only [List.drop_succ_cons, List.drop_zero]
  rw [List.takeWhile_append_of_pos hp, List.dropWhile_append_of_pos hp,
    List.takeWhile_cons_of_neg (by decide), List.dropWhile_cons_of_neg (by decide),
    List.append_nil]

structure Absolute where
  scheme : Str
  userinfo : Option Str
  host : Host
  port : Option ℕ
  path : Str
  query : Option Str
  fragment : Option Str
  schemeText : SchemeText scheme
  userinfoPlain : ∀ s ∈ userinfo, Plain [47,63,35,91,93] s
  hostFormed : host.Formed
  portBound : ∀ n ∈ port, n ≤ 65535
  rooted : path.head? = some 47
  pathPlain : Plain [63,35] path
  queryPlain : ∀ s ∈ query, Plain [35] s
  fragmentPlain : ∀ s ∈ fragment, Plain [] s

namespace Absolute
variable (u : Absolute)

def userinfoText : Str := match u.userinfo with
  | none => []
  | some s => s ++ [64]

def portText : Str := match u.port with
  | none => []
  | some n => 58::natText n

def authority : Str := u.userinfoText ++ (u.host.text ++ u.portText)

def queryText : Str := match u.query with
  | none => []
  | some s => 63::s

def fragmentText : Str := match u.fragment with
  | none => []
  | some s => 35::s

def text : Str :=
  u.scheme ++ 58::47::47::(u.authority ++ (u.path ++ (u.queryText ++ u.fragmentText)))

theorem userinfoText_free (c : CodePoint) (hc : c ∈ [47,63,35,91,93]) : c ∉ u.userinfoText := by
  have h64 : c ≠ 64 := by
    rintro rfl
    revert hc
    decide
  rw [userinfoText]
  cases hu : u.userinfo with
  | none => simp
  | some s =>
    rw [List.mem_append, List.mem_singleton]
    rintro (hm | rfl)
    · exact (u.userinfoPlain s hu).free hc hm
    · exact h64 rfl

theorem portText_free (c : CodePoint) (hc : c ∈ [47,63,35,64,91,93]) : c ∉ u.portText := by
  have hd : ¬ IsDigit c ∧ c ≠ 58 := by
    revert c
    decide
  rw [portText]
  cases u.port with
  | none => simp
  | some n =>
    rw [List.mem_cons]
    rintro (rfl | hm)
    · exact hd.2 rfl
    · exact hd.1 (natText_digit n c hm)

theorem hostText_free (c : CodePoint) (hc : c ∈ [47,63,35,64]) : c ∉ u.host.text := by
  have hb : c ≠ 91 ∧ c ≠ 93 ∧ c ∈ [47,63,35,64,91,93,58] ∧ c ∈ [47,63,35,64,91,93] := by
    revert c
    decide
  have hf := u.hostFormed
  cases hh : u.host with
  | name s =>
    rw [hh] at hf
    exact hf.2.1.free hb.2.2.1
  | address s =>
    rw [hh] at hf
    simp only [Host.text, List.mem_cons, List.mem_append, List.not_mem_nil, or_false, not_or]
    exact ⟨hb.1,hf.2.1.free hb.2.2.2,hb.2.1⟩

theorem authority_open (c : CodePoint) (hc : c ∈ u.authority) : endsNetloc c = false := by
  rw [endsNetloc, decide_eq_false_iff_not]
  intro he
  have hm : c ∈ [47,63,35] := by simpa using he
  have hs : c ∈ [47,63,35,91,93] ∧ c ∈ [47,63,35,64] ∧ c ∈ [47,63,35,64,91,93] := by
    clear hc he
    revert c
    decide
  rw [authority, List.mem_append, List.mem_append] at hc
  rcases hc with hc | hc | hc
  · exact u.userinfoText_free c hs.1 hc
  · exact u.hostText_free c hs.2.1 hc
  · exact u.portText_free c hs.2.2 hc

def portDigits : Str := match u.port with
  | none => []
  | some n => natText n

theorem hostInfo_authority : hostInfo u.authority = (u.host.inner,u.portDigits) := by
  have hat : (64 : CodePoint) ∉ u.host.text ++ u.portText := by
    rw [List.mem_append, not_or]
    exact ⟨u.hostText_free 64 (by decide),u.portText_free 64 (by decide)⟩
  have hinfo : afterLast 64 u.authority = u.host.text ++ u.portText := by
    rw [authority, userinfoText]
    cases u.userinfo with
    | none => exact afterLast_none 64 _ hat
    | some s =>
      rw [List.append_assoc]
      exact afterLast_found 64 s _ hat
  have hport : ∀ s : Str, (58 : CodePoint) ∉ s →
      partition 58 (s ++ u.portText) = (s,u.port.isSome,u.portDigits) := by
    intro s hs
    rw [portText, portDigits]
    cases u.port with
    | none =>
      rw [List.append_nil]
      exact partition_none 58 s hs
    | some n => exact partition_found 58 s _ hs
  have hf := u.hostFormed
  rw [hostInfo, hinfo]
  cases hh : u.host with
  | name s =>
    rw [hh] at hf
    have hopen : (91 : CodePoint) ∉ s ++ u.portText := by
      rw [List.mem_append, not_or]
      exact ⟨hf.2.1.free (by decide),u.portText_free 91 (by decide)⟩
    simp only [Host.text, Host.inner, partition_none 91 _ hopen,
      hport s (hf.2.1.free (by decide))]
  | address s =>
    rw [hh] at hf
    have htext : (Host.address s).text ++ u.portText = [] ++ 91::(s ++ 93::u.portText) := by
      simp [Host.text]
    have hp := hport [] (by simp)
    rw [List.nil_append] at hp
    simp only [Host.inner, htext, partition_found 91 [] _ (by simp),
      partition_found 93 s _ (hf.2.1.free (by decide)), hp]

theorem bracketsOk_authority (bracketed : Str → Bool) :
    bracketsOk bracketed u.authority = u.host.readable bracketed := by
  have hf := u.hostFormed
  have h91 := u.userinfoText_free 91 (by decide)
  have h93 := u.userinfoText_free 93 (by decide)
  have p91 := u.portText_free 91 (by decide)
  have p93 := u.portText_free 93 (by decide)
  rw [bracketsOk, authority]
  cases hh : u.host with
  | name s =>
    rw [hh] at hf
    have s91 : (91 : CodePoint) ∉ s := hf.2.1.free (by decide)
    have s93 : (93 : CodePoint) ∉ s := hf.2.1.free (by decide)
    simp [Host.text, Host.readable, h91, h93, p91, p93, s91, s93]
  | address s =>
    rw [hh] at hf
    have htext : u.userinfoText ++ ((Host.address s).text ++ u.portText) =
        u.userinfoText ++ 91::(s ++ 93::u.portText) := by simp [Host.text]
    rw [htext, if_pos (by simp), partition_found 91 _ _ h91,
      partition_found 93 s _ (hf.2.1.free (by decide))]
    simp [Host.readable]

theorem queryText_free : (35 : CodePoint) ∉ u.queryText := by
  rw [queryText]
  cases hq : u.query with
  | none => simp
  | some s =>
    rw [List.mem_cons, not_or]
    exact ⟨by decide,(u.queryPlain s hq).free (by decide)⟩

theorem natText_visible (n : ℕ) : ∀ c ∈ natText n, Visible c := by
  intro c hc
  have hd := natText_digit n c hc
  rw [IsDigit] at hd
  rw [Visible]
  omega

theorem text_visible : ∀ c ∈ u.text, Visible c := by
  have hscheme : ∀ c ∈ u.scheme, Visible c := by
    intro c hc
    have hs := (u.schemeText.2 c hc).1
    rw [SchemeChar, IsUpper, IsLower, IsDigit] at hs
    rw [Visible]
    rcases hs with hs | hs | hs | rfl | rfl | rfl <;> omega
  have huser : ∀ c ∈ u.userinfoText, Visible c := by
    rw [userinfoText]
    cases hu : u.userinfo with
    | none => simp
    | some s =>
      rw [List.forall_mem_append, List.forall_mem_singleton]
      exact ⟨fun c hc => (u.userinfoPlain s hu c hc).1,by decide⟩
  have hhost : ∀ c ∈ u.host.text, Visible c := by
    have hf := u.hostFormed
    cases hh : u.host with
    | name s =>
      rw [hh] at hf
      exact fun c hc => (hf.2.1 c hc).1
    | address s =>
      rw [hh] at hf
      rw [Host.text, List.forall_mem_cons, List.forall_mem_append, List.forall_mem_singleton]
      exact ⟨by decide,fun c hc => (hf.2.1 c hc).1,by decide⟩
  have hport : ∀ c ∈ u.portText, Visible c := by
    rw [portText]
    cases u.port with
    | none => simp
    | some n =>
      rw [List.forall_mem_cons]
      exact ⟨by decide,natText_visible n⟩
  have hquery : ∀ c ∈ u.queryText, Visible c := by
    rw [queryText]
    cases hq : u.query with
    | none => simp
    | some s =>
      rw [List.forall_mem_cons]
      exact ⟨by decide,fun c hc => (u.queryPlain s hq c hc).1⟩
  have hfragment : ∀ c ∈ u.fragmentText, Visible c := by
    rw [fragmentText]
    cases hq : u.fragment with
    | none => simp
    | some s =>
      rw [List.forall_mem_cons]
      exact ⟨by decide,fun c hc => (u.fragmentPlain s hq c hc).1⟩
  rw [text, authority]
  simp only [List.forall_mem_append, List.forall_mem_cons]
  exact ⟨hscheme,by decide,by decide,by decide,⟨huser,hhost,hport⟩,
    fun c hc => (u.pathPlain c hc).1,hquery,hfragment⟩

theorem urlsplit_text (bracketed : Str → Bool) : urlsplit bracketed u.text =
    if u.host.readable bracketed then
      some ⟨u.scheme,u.authority,u.path,u.query.getD [],u.fragment.getD []⟩
    else none := by
  have htail : (u.path ++ (u.queryText ++ u.fragmentText)).head? = some 47 := by
    obtain ⟨r,hr⟩ : ∃ r, u.path = 47::r := List.head?_eq_some_iff.1 u.rooted
    rw [hr]
    rfl
  have hfree : (35 : CodePoint) ∉ u.path ++ u.queryText := by
    rw [List.mem_append, not_or]
    exact ⟨u.pathPlain.free (by decide),u.queryText_free⟩
  have hfragment : partition 35 (u.path ++ (u.queryText ++ u.fragmentText)) =
      (u.path ++ u.queryText,u.fragment.isSome,u.fragment.getD []) := by
    rw [← List.append_assoc, fragmentText]
    cases u.fragment with
    | none =>
      rw [List.append_nil]
      exact partition_none 35 _ hfree
    | some s => exact partition_found 35 _ s hfree
  have hquery : partition 63 (u.path ++ u.queryText) =
      (u.path,u.query.isSome,u.query.getD []) := by
    rw [queryText]
    cases u.query with
    | none =>
      rw [List.append_nil]
      exact partition_none 63 _ (u.pathPlain.free (by decide))
    | some s => exact partition_found 63 _ s (u.pathPlain.free (by decide))
  rw [urlsplit, cleaned_visible _ u.text_visible, text]
  simp only [splitScheme_text _ _ u.schemeText, splitNetloc_text _ _ u.authority_open htail,
    hfragment, hquery, bracketsOk_authority]

theorem hostname_authority : hostname u.authority = some u.host.inner := by
  have hinner : u.host.inner ≠ [] ∧ lowerHost u.host.inner = u.host.inner := by
    have hf := u.hostFormed
    cases hh : u.host with
    | name s =>
      rw [hh] at hf
      exact ⟨hf.1,hf.2.2⟩
    | address s =>
      rw [hh] at hf
      exact ⟨List.ne_nil_of_mem hf.1,hf.2.2⟩
  rw [hostname, hostInfo_authority]
  simp only [if_neg hinner.1, hinner.2]

theorem port_authority : Lib.Url.port u.authority = some u.port := by
  rw [Lib.Url.port, hostInfo_authority, portDigits]
  have hb := u.portBound
  cases hp : u.port with
  | none => rfl
  | some n =>
    have hn := hb n hp
    simp only [if_neg (natText_ne_nil n), digitsValue_natText]
    rw [if_pos ⟨natText_digit n,hn⟩]

end Absolute

end Lib.Url
