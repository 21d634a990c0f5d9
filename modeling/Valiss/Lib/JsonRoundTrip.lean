import Valiss.Lib.JsonParse

/-!
# What is printed is read back

The escape of a string character may be any text that the string scanner reads
as that character alone. Printing with such an escape is undone by reading, for
every value whose objects list no key twice and whose integers stay within the
reader's limit on digits.
-/

set_option autoImplicit false
set_option linter.unusedSectionVars false

namespace Lib.Json
open Lib.Unicode

/-- An escape the string scanner undoes. A surrogate is never spelled with a
`\u` escape, so that no two of them join. -/
def Faithful (e : CodePoint → Str) : Prop :=
  ∀ c, ∃ flag : Bool, (flag = true → ¬ Surrogate c) ∧
    ∀ rest, scanPieces (e c++rest) = consPiece (flag,c) (scanPieces rest)

theorem joinPieces_plain (ps : List Piece) (h : ∀ p ∈ ps, p.1 = true → ¬ Surrogate p.2) :
    joinPieces ps = ps.map Prod.snd := by
  induction ps using joinPieces.induct with
  | case1 => rfl
  | case2 p => rfl
  | case3 p q ps hp _ =>
    refine absurd ⟨hp.2.2.1,?_⟩ (h p (by simp) hp.1)
    omega
  | case4 p q ps hp ih =>
    rw [joinPieces, if_neg hp, ih (fun r hr => h r (List.mem_cons_of_mem _ hr))]
    rfl

theorem scanPieces_flatMap (e : CodePoint → Str) (he : Faithful e) (s rest : Str) :
    ∃ ps : List Piece, (∀ p ∈ ps, p.1 = true → ¬ Surrogate p.2) ∧ ps.map Prod.snd = s ∧
      scanPieces (s.flatMap e++quoteChar::rest) = some (ps,rest) := by
  induction s with
  | nil => exact ⟨[],by simp,rfl,by rw [scanPieces.eq_def]; simp⟩
  | cons c s ih =>
    obtain ⟨ps,hps,hs,hscan⟩ := ih
    obtain ⟨flag,hflag,hc⟩ := he c
    refine ⟨(flag,c)::ps,?_,by simp [hs],?_⟩
    · intro p hp
      rcases List.mem_cons.mp hp with rfl | hp
      · exact hflag
      · exact hps p hp
    · rw [List.flatMap_cons, List.append_assoc, hc, hscan]
      rfl

theorem scanString_flatMap (e : CodePoint → Str) (he : Faithful e) (s rest : Str) :
    scanString (s.flatMap e++quoteChar::rest) = some (s,rest) := by
  obtain ⟨ps,hps,hs,hscan⟩ := scanPieces_flatMap e he s rest
  rw [scanString, hscan, Option.map_some, joinPieces_plain ps hps, hs]

theorem scanPieces_plain (c : CodePoint) (cs : Str) (hq : c ≠ quoteChar) (hb : c ≠ backslash)
    (h : ¬ c.val < 0x20) : scanPieces (c::cs) = consPiece (false,c) (scanPieces cs) := by
  rw [scanPieces.eq_def]
  simp only [if_neg hq, if_pos hb, if_neg h]

theorem scanPieces_simple (x y : CodePoint) (cs : Str) (hx : x ≠ 117)
    (h : simpleEscape x = some y) :
    scanPieces (backslash::x::cs) = consPiece (false,y) (scanPieces cs) := by
  rw [scanPieces.eq_def]
  simp [hx, h, show backslash ≠ quoteChar by decide]

theorem scanPieces_hex (a b c d : CodePoint) (n : ℕ) (cs : Str) (h : hex4 a b c d = some n) :
    scanPieces (backslash::117::a::b::c::d::cs) =
      consPiece (true,codePoint n) (scanPieces cs) := by
  rw [scanPieces.eq_def]
  simp [h, show backslash ≠ quoteChar by decide]

theorem control_hex : ∀ n : Fin 32, hex4 48 48 (digitChar (n.val/16))
    (if n.val%16 < 10 then digitChar (n.val%16) else codePoint (87+n.val%16)) = some n.val := by
  decide

theorem escapeChar_faithful : Faithful escapeChar := by
  intro c
  unfold escapeChar
  by_cases hq : c = quoteChar
  · exact ⟨false,by simp,fun rest => by
      rw [if_pos hq, hq]; exact scanPieces_simple 34 34 rest (by decide) (by decide)⟩
  by_cases hb : c = backslash
  · exact ⟨false,by simp,fun rest => by
      rw [if_neg hq, if_pos hb, hb]; exact scanPieces_simple 92 92 rest (by decide) (by decide)⟩
  by_cases hn : c = 10
  · exact ⟨false,by simp,fun rest => by
      rw [if_neg hq, if_neg hb, if_pos hn, hn]
      exact scanPieces_simple 110 10 rest (by decide) (by decide)⟩
  by_cases hr : c = 13
  · exact ⟨false,by simp,fun rest => by
      rw [if_neg hq, if_neg hb, if_neg hn, if_pos hr, hr]
      exact scanPieces_simple 114 13 rest (by decide) (by decide)⟩
  by_cases ht : c = 9
  · exact ⟨false,by simp,fun rest => by
      rw [if_neg hq, if_neg hb, if_neg hn, if_neg hr, if_pos ht, ht]
      exact scanPieces_simple 116 9 rest (by decide) (by decide)⟩
  by_cases hf : c = 12
  · exact ⟨false,by simp,fun rest => by
      rw [if_neg hq, if_neg hb, if_neg hn, if_neg hr, if_neg ht, if_pos hf, hf]
      exact scanPieces_simple 102 12 rest (by decide) (by decide)⟩
  by_cases hv : c = 8
  · exact ⟨false,by simp,fun rest => by
      rw [if_neg hq, if_neg hb, if_neg hn, if_neg hr, if_neg ht, if_neg hf, if_pos hv, hv]
      exact scanPieces_simple 98 8 rest (by decide) (by decide)⟩
  simp only [if_neg hq, if_neg hb, if_neg hn, if_neg hr, if_neg ht, if_neg hf, if_neg hv]
  by_cases h : c.val < 0x20
  · refine ⟨true,fun _ hs => ?_,fun rest => ?_⟩
    · unfold Surrogate at hs
      omega
    · rw [if_pos h]
      have := scanPieces_hex 48 48 _ _ c.val rest (control_hex ⟨c.val,h⟩)
      rw [codePoint_of_val] at this
      exact this
  · exact ⟨false,by simp,fun rest => by
      rw [if_neg h]; exact scanPieces_plain c rest hq hb h⟩

/-- What follows a value inside a text: nothing, or one of `,` `]` `}`. -/
def Ends (rest : Str) : Prop := ∀ c cs, rest = c::cs → c = 44 ∨ c = 93 ∨ c = 125

theorem ends_nil : Ends [] := by
  intro c cs h
  cases h

theorem Ends.head {c : CodePoint} {cs : Str} (h : Ends (c::cs)) : ¬ IsDigit c ∧ c ≠ 46 ∧
    c ≠ 101 ∧ c ≠ 69 ∧ c ≠ 45 ∧ c ≠ 43 ∧ c ≠ 48 := by
  rcases h c cs rfl with rfl | rfl | rfl <;> decide

section Append
variable (s rest : Str) (hr : Ends rest)
include hr

theorem takeDigits_append :
    takeDigits (s++rest) = ((takeDigits s).1,(takeDigits s).2++rest) := by
  induction s with
  | nil =>
    cases rest with
    | nil => rfl
    | cons c cs => simp [takeDigits, hr.head.1]
  | cons c s ih =>
    by_cases h : IsDigit c
    · simp [takeDigits, h, ih]
    · simp [takeDigits, h]

theorem scanMinus_append : scanMinus (s++rest) = ((scanMinus s).1,(scanMinus s).2++rest) := by
  cases s with
  | nil =>
    cases rest with
    | nil => rfl
    | cons c cs => simp [scanMinus, hr.head.2.2.2.2.1]
  | cons c s =>
    by_cases h : c = 45 <;> simp [scanMinus, h]

theorem scanSign_append : scanSign (s++rest) = ((scanSign s).1,(scanSign s).2++rest) := by
  cases s with
  | nil =>
    cases rest with
    | nil => rfl
    | cons c cs => simp [scanSign, hr.head.2.2.2.2.1, hr.head.2.2.2.2.2.1]
  | cons c s =>
    by_cases h : c = 43 ∨ c = 45 <;> simp [scanSign, h]

theorem scanInt_append :
    scanInt (s++rest) = (scanInt s).map fun p => (p.1,p.2++rest) := by
  cases s with
  | nil =>
    cases rest with
    | nil => rfl
    | cons c cs => simp [scanInt, hr.head.1, hr.head.2.2.2.2.2.2]
  | cons c s =>
    by_cases h0 : c = 48
    · simp [scanInt, h0]
    · by_cases h : IsDigit c <;> simp [scanInt, h0, h, takeDigits_append s rest hr]

theorem scanFraction_append :
    scanFraction (s++rest) = ((scanFraction s).1,(scanFraction s).2++rest) := by
  cases s with
  | nil =>
    cases rest with
    | nil => rfl
    | cons c cs => simp [scanFraction, hr.head.2.1]
  | cons c s =>
    simp only [List.cons_append, scanFraction, takeDigits_append s rest hr]
    by_cases h : c = 46 ∧ (takeDigits s).1 ≠ []
    · simp only [if_pos h]
    · simp only [if_neg h, List.cons_append]

theorem scanExponent_append :
    scanExponent (s++rest) = ((scanExponent s).1,(scanExponent s).2++rest) := by
  cases s with
  | nil =>
    cases rest with
    | nil => rfl
    | cons c cs => simp [scanExponent, hr.head.2.2.1, hr.head.2.2.2.1]
  | cons c s =>
    simp only [List.cons_append, scanExponent, scanSign_append s rest hr,
      takeDigits_append _ rest hr]
    split <;> simp

theorem scanNumber_append :
    scanNumber (s++rest) = (scanNumber s).map fun p => (p.1,p.2.1,p.2.2++rest) := by
  simp only [scanNumber, scanMinus_append s rest hr, scanInt_append _ rest hr, Option.map_map]
  cases scanInt (scanMinus s).2 with
  | none => rfl
  | some p => simp [scanFraction_append _ rest hr, scanExponent_append _ rest hr]

end Append

theorem takeDigits_all (s : Str) (h : ∀ c ∈ s, IsDigit c) : takeDigits s = (s,[]) := by
  induction s with
  | nil => rfl
  | cons c s ih => simp [takeDigits, h c (by simp), ih (fun d hd => h d (by simp [hd]))]

theorem scanInt_natText (n : ℕ) : scanInt (natText n) = some (natText n,[]) := by
  by_cases h0 : n = 0
  · subst h0
    rfl
  · obtain ⟨c,cs,hc,h1,h2⟩ := natText_head n h0
    have hd := natText_digit n
    rw [hc] at hd ⊢
    have h48 : c ≠ 48 := by
      rintro rfl
      simp at h1
    rw [scanInt, if_neg h48, if_pos (hd c (by simp)),
      takeDigits_all cs (fun d h => hd d (by simp [h]))]

theorem scanMinus_natText (n : ℕ) : scanMinus (natText n) = ([],natText n) := by
  cases h : natText n with
  | nil => rfl
  | cons c cs =>
    have hd := natText_digit n c (by rw [h]; simp)
    have h45 : c ≠ 45 := by
      rintro rfl
      exact absurd hd (by decide)
    simp [scanMinus, h45]

theorem scanMinus_intText (n : ℤ) : (scanMinus (intText n)).2 = natText n.natAbs ∧
    (scanMinus (intText n)).1++natText n.natAbs = intText n := by
  unfold intText
  split
  · simp [scanMinus]
  · simp [scanMinus_natText]

theorem scanNumber_intText (n : ℤ) : scanNumber (intText n) = some (false,intText n,[]) := by
  obtain ⟨h2,h1⟩ := scanMinus_intText n
  simp only [scanNumber, h2, scanInt_natText, Option.map_some, scanFraction, scanExponent,
    List.append_nil, h1]
  simp

theorem readInt_intText (n : ℤ) : readInt (intText n) = n := by
  unfold intText
  split
  · simp only [readInt, if_true, digitsValue_natText]
    omega
  · cases h : natText n.natAbs with
    | nil => exact absurd h (natText_ne_nil _)
    | cons c cs =>
      have hd := natText_digit n.natAbs c (by rw [h]; simp)
      have h45 : c ≠ 45 := by
        rintro rfl
        exact absurd hd (by decide)
      rw [readInt, if_neg h45, ← h, digitsValue_natText]
      omega

theorem word_texts : lit "null" = [110,117,108,108] ∧ lit "true" = [116,114,117,101] ∧
    lit "false" = [102,97,108,115,101] ∧ nanText = [78,97,78] ∧
    infinityText = [73,110,102,105,110,105,116,121] := by decide

theorem parseAtom_number {F : Type} [FloatText F] (limit : ℕ) (s rest : Str)
    (p : Bool × Str × Str) (h : scanNumber s = some p) :
    (parseAtom limit (s++rest) : Except LoadError (Value F × Str)) = parseNumber limit (s++rest) := by
  cases s with
  | nil => simp [scanNumber, scanMinus, scanInt] at h
  | cons c s =>
    have hc : c = 45 ∨ IsDigit c := by
      by_cases h45 : c = 45
      · exact Or.inl h45
      · right
        by_contra hd
        have h48 : c ≠ 48 := by
          rintro rfl
          exact hd (by decide)
        simp [scanNumber, scanMinus, h45, scanInt, h48, hd] at h
    have hn : ∀ x : CodePoint, ¬ IsDigit x → x ≠ 45 → x ≠ c := by
      rintro x hx h45 rfl
      exact hc.elim h45 hx
    have hi : c = 45 → s.head? ≠ some 73 := by
      rintro rfl h73
      cases s with
      | nil => simp at h73
      | cons d s =>
        obtain rfl := Option.some.inj h73
        simp [scanNumber, scanMinus, scanInt, show ¬ IsDigit 73 by decide] at h
    have hinf : dropWord (45::infinityText) (c::s++rest) = none := by
      by_cases h45 : c = 45
      · cases s with
        | nil => simp [scanNumber, scanMinus, scanInt, h45] at h
        | cons d s =>
          have hd : d ≠ 73 := by simpa using hi h45
          simp [dropWord, word_texts, Ne.symm hd]
      · simp [dropWord, Ne.symm h45]
    simp only [parseAtom, hinf]
    simp [dropWord, word_texts, hn 110 (by decide) (by decide), hn 116 (by decide) (by decide),
      hn 102 (by decide) (by decide), hn 78 (by decide) (by decide), hn 73 (by decide) (by decide)]

variable {F : Type} [FloatText F]

theorem parseAtom_int (limit : ℕ) (n : ℤ) (rest : Str) (hn : digitCount n ≤ limit)
    (hr : Ends rest) :
    parseAtom limit (intText n++rest) = .ok ((.int n : Value F),rest) := by
  have hs := scanNumber_intText n
  rw [parseAtom_number limit _ rest _ hs, parseNumber, scanNumber_append _ rest hr, hs]
  have hl : ¬ limit < literalDigits (intText n) := by
    rw [literalDigits, (scanMinus_intText n).1]
    exact Nat.not_lt.mpr hn
  simp [hl, readInt_intText]

theorem parseAtom_float (limit : ℕ) (x : F) (rest : Str) (hr : Ends rest) :
    parseAtom limit (FloatText.write x++rest) = .ok (.float x,rest) := by
  have hx := FloatText.read_write x
  rcases FloatText.write_shape x with hs | hs | hs | hs
  · rw [parseAtom_number limit _ rest _ hs, parseNumber, scanNumber_append _ rest hr, hs]
    simp [hx]
  · rw [hs] at hx ⊢
    simp [parseAtom, dropWord, word_texts, ← hx]
  · rw [hs] at hx ⊢
    simp [parseAtom, dropWord, word_texts, ← hx]
  · rw [hs] at hx ⊢
    simp [parseAtom, dropWord, word_texts, ← hx]

theorem isSpace_digit (c : CodePoint) (h : IsDigit c) : ¬ IsSpace c ∧ c ≠ 93 := by
  constructor
  · rintro (rfl | rfl | rfl | rfl) <;> exact absurd h (by decide)
  · rintro rfl
    exact absurd h (by decide)

theorem number_head (s : Str) (p : Bool × Str × Str) (h : scanNumber s = some p) :
    ∃ c cs, s = c::cs ∧ ¬ IsSpace c ∧ c ≠ 93 := by
  cases s with
  | nil => simp [scanNumber, scanMinus, scanInt] at h
  | cons c cs =>
    by_cases h45 : c = 45
    · exact ⟨c,cs,rfl,by subst h45; decide,by subst h45; decide⟩
    · by_cases h48 : c = 48
      · exact ⟨c,cs,rfl,by subst h48; decide,by subst h48; decide⟩
      · by_cases hd : IsDigit c
        · exact ⟨c,cs,rfl,isSpace_digit c hd⟩
        · simp [scanNumber, scanMinus, h45, scanInt, h48, hd] at h

theorem dumps_head (e : CodePoint → Str) (v : Value F) :
    ∃ c cs, dumpsWith e v = c::cs ∧ ¬ IsSpace c ∧ c ≠ 93 := by
  cases v with
  | null => exact ⟨110,_,rfl,by decide⟩
  | bool b => cases b <;> exact ⟨_,_,rfl,by decide⟩
  | int n => exact number_head _ _ (scanNumber_intText n)
  | float x =>
    rcases FloatText.write_shape x with h | h | h | h
    · exact number_head _ _ h
    · exact ⟨78,_,by rw [dumpsWith, h]; rfl,by decide⟩
    · exact ⟨73,_,by rw [dumpsWith, h]; rfl,by decide⟩
    · exact ⟨45,_,by rw [dumpsWith, h],by decide⟩
  | str s => exact ⟨quoteChar,_,rfl,by decide⟩
  | arr xs => cases xs <;> exact ⟨91,_,rfl,by decide⟩
  | obj ms => cases ms <;> exact ⟨123,_,rfl,by decide⟩

theorem skipSpace_dumps (e : CodePoint → Str) (v : Value F) (rest : Str) :
    skipSpace (dumpsWith e v++rest) = dumpsWith e v++rest := by
  obtain ⟨c,cs,h,hs,_⟩ := dumps_head e v
  rw [h, List.cons_append, skipSpace, if_neg hs]

theorem items_cons (e : CodePoint → Str) (xs : List (Value F)) :
    ∃ c cs, dumpsItems e xs = c::cs ∧ (c = 93 ∨ c = 44) := by
  cases xs with
  | nil => exact ⟨93,[],rfl,Or.inl rfl⟩
  | cons x xs => exact ⟨44,_,rfl,Or.inr rfl⟩

theorem members_cons (e : CodePoint → Str) (ms : List (Str × Value F)) :
    ∃ c cs, dumpsMembers e ms = c::cs ∧ (c = 125 ∨ c = 44) := by
  cases ms with
  | nil => exact ⟨125,[],rfl,Or.inl rfl⟩
  | cons m ms => exact ⟨44,_,rfl,Or.inr rfl⟩

theorem ends_items (e : CodePoint → Str) (xs : List (Value F)) (rest : Str) :
    Ends (dumpsItems e xs++rest) := by
  obtain ⟨c,cs,h,hc⟩ := items_cons e xs
  rintro d ds hd
  rw [h, List.cons_append] at hd
  obtain rfl := (List.cons.inj hd).1
  exact hc.elim (fun h => Or.inr (Or.inl h)) Or.inl

theorem ends_members (e : CodePoint → Str) (ms : List (Str × Value F)) (rest : Str) :
    Ends (dumpsMembers e ms++rest) := by
  obtain ⟨c,cs,h,hc⟩ := members_cons e ms
  rintro d ds hd
  rw [h, List.cons_append] at hd
  obtain rfl := (List.cons.inj hd).1
  exact hc.elim (fun h => Or.inr (Or.inr h)) Or.inl

def itemsText (e : CodePoint → Str) : List (Value F) → Str
  | [] => [93]
  | x::xs => dumpsWith e x++dumpsItems e xs

def membersText (e : CodePoint → Str) : List (Str × Value F) → Str
  | [] => []
  | (k,v)::ms => k.flatMap e++[quoteChar]++58::dumpsWith e v++dumpsMembers e ms

theorem parseValue_atom (limit n : ℕ) (s rest : Str) (p : Bool × Str × Str)
    (h : scanNumber s = some p) :
    (parseValue limit (n+1) (s++rest) : Except LoadError (Value F × Str)) =
      parseAtom limit (s++rest) := by
  cases s with
  | nil => simp [scanNumber, scanMinus, scanInt] at h
  | cons c s =>
    have hn : ∀ x : CodePoint, ¬ IsDigit x → x ≠ 45 → c ≠ x := by
      rintro x hx h45 rfl
      have h48 : c ≠ 48 := by
        rintro rfl
        exact hx (by decide)
      simp [scanNumber, scanMinus, h45, scanInt, h48, hx] at h
    simp only [List.cons_append, parseValue, if_neg (hn quoteChar (by decide) (by decide)),
      if_neg (hn 123 (by decide) (by decide)), if_neg (hn 91 (by decide) (by decide))]

theorem parseValue_float (limit n : ℕ) (x : F) (rest : Str) (hr : Ends rest) :
    parseValue limit (n+1) (FloatText.write x++rest) = .ok (.float x,rest) := by
  have ha := parseAtom_float limit x rest hr
  rcases FloatText.write_shape x with h | h | h | h
  · exact (parseValue_atom limit n _ rest _ h).trans ha
  · rw [h, show nanText = 78::nanText.tail by decide] at ha ⊢
    simpa [parseValue, show (78 : CodePoint) ≠ quoteChar by decide] using ha
  · rw [h, show infinityText = 73::infinityText.tail by decide] at ha ⊢
    simpa [parseValue, show (73 : CodePoint) ≠ quoteChar by decide] using ha
  · rw [h] at ha ⊢
    simpa [parseValue, show (45 : CodePoint) ≠ quoteChar by decide] using ha

section Read
variable (e : CodePoint → Str) (he : Faithful e) (limit : ℕ)
include he

mutual
theorem parse_value : ∀ (v : Value F) (n : ℕ) (rest : Str), distinct v = true →
    intsWithin limit v = true → 2*(dumpsWith e v).length ≤ n → Ends rest →
    parseValue limit (n+1) (dumpsWith e v++rest) = .ok (v,rest)
  | .null, n, rest, _, _, _, _ => by
    simp [dumpsWith, parseValue, parseAtom, dropWord, word_texts, quoteChar]
  | .bool true, n, rest, _, _, _, _ => by
    simp [dumpsWith, parseValue, parseAtom, dropWord, word_texts, quoteChar]
  | .bool false, n, rest, _, _, _, _ => by
    simp [dumpsWith, parseValue, parseAtom, dropWord, word_texts, quoteChar]
  | .int k, n, rest, _, hi, _, hr => by
    simp only [intsWithin, decide_eq_true_eq] at hi
    exact (parseValue_atom limit n _ rest _ (scanNumber_intText k)).trans
      (parseAtom_int limit k rest hi hr)
  | .float x, n, rest, _, _, _, hr => parseValue_float limit n x rest hr
  | .str s, n, rest, _, _, _, _ => by
    simp only [dumpsWith, quoted, List.cons_append, List.append_assoc, List.nil_append,
      parseValue, if_true, parseString, scanString_flatMap e he]
    rfl
  | .arr [], n, rest, _, _, _, _ => by
    simp [dumpsWith, parseValue, skipSpace, show (91 : CodePoint) ≠ quoteChar by decide,
      show ¬ IsSpace 93 by decide]
  | .arr (x::xs), n, rest, hd, hi, hn, _ => by
    obtain ⟨c,cs,hc,hs,h93⟩ := dumps_head e x
    simp only [dumpsWith, List.cons_append, List.length_cons, List.append_assoc] at hn ⊢
    obtain ⟨m,rfl⟩ : ∃ m, n = m+1 := ⟨n-1,by omega⟩
    have ih := parse_items (x::xs) m rest (by simp) (by simpa [distinct] using hd)
      (by simpa [intsWithin] using hi) (by simp only [itemsText, List.length_append] at *; omega)
    simp only [itemsText, List.append_assoc] at ih
    simp only [parseValue, show (91 : CodePoint) ≠ quoteChar by decide, if_false,
      show (91 : CodePoint) ≠ 123 by decide, if_true, skipSpace_dumps]
    rw [hc, List.cons_append] at ih ⊢
    simp only [if_neg h93, ih]
    rfl
  | .obj [], n, rest, _, _, _, _ => by
    simp [dumpsWith, parseValue, skipSpace, show (123 : CodePoint) ≠ quoteChar by decide,
      show ¬ IsSpace 125 by decide]
  | .obj ((k,v)::ms), n, rest, hd, hi, hn, _ => by
    simp only [distinct, Bool.and_eq_true, decide_eq_true_eq] at hd
    simp only [dumpsWith, quoted, List.cons_append, List.length_cons, List.append_assoc] at hn ⊢
    obtain ⟨m,rfl⟩ : ∃ m, n = m+1 := ⟨n-1,by omega⟩
    have ih := parse_members ((k,v)::ms) m rest (by simp) hd.2
      (by simpa [intsWithin] using hi)
      (by simp only [membersText, List.length_append, List.length_cons, List.length_nil] at *; omega)
    simp only [membersText, List.append_assoc, List.cons_append, List.nil_append] at ih
    simp only [parseValue, show (123 : CodePoint) ≠ quoteChar by decide, if_false, if_true,
      skipSpace, show ¬ IsSpace quoteChar by decide, show quoteChar ≠ 125 by decide,
      List.nil_append, ih]
    simp [dictOf_distinct _ hd.1, bind, Except.bind]
theorem parse_items : ∀ (xs : List (Value F)) (n : ℕ) (rest : Str), xs ≠ [] →
    distinctItems xs = true → itemsWithin limit xs = true → 2*(itemsText e xs).length+1 ≤ n →
    parseItems limit (n+1) (itemsText e xs++rest) = .ok (xs,rest)
  | [], _, _, h, _, _, _ => absurd rfl h
  | x::xs, n, rest, _, hd, hi, hn => by
    simp only [distinctItems, itemsWithin, Bool.and_eq_true] at hd hi
    simp only [itemsText, List.length_append, List.append_assoc] at hn ⊢
    obtain ⟨m,rfl⟩ : ∃ m, n = m+1 := ⟨n-1,by omega⟩
    have hx := parse_value x m (dumpsItems e xs++rest) hd.1 hi.1 (by omega)
      (ends_items e xs rest)
    rw [parseItems]
    simp only [hx]
    cases xs with
    | nil => simp [dumpsItems, skipSpace, show ¬ IsSpace 93 by decide, bind, Except.bind]
    | cons y ys =>
      have ih := parse_items (y::ys) m rest (by simp) hd.2 hi.2
        (by simp only [itemsText, dumpsItems, List.length_append, List.length_cons] at *; omega)
      simp only [itemsText, List.append_assoc] at ih
      simp [dumpsItems, skipSpace, show ¬ IsSpace 44 by decide, bind, Except.bind,
        skipSpace_dumps, ih]
theorem parse_members : ∀ (ms : List (Str × Value F)) (n : ℕ) (rest : Str), ms ≠ [] →
    distinctMembers ms = true → membersWithin limit ms = true →
    2*(membersText e ms).length+1 ≤ n →
    parseMembers limit (n+1) (membersText e ms++rest) = .ok (ms,rest)
  | [], _, _, h, _, _, _ => absurd rfl h
  | (k,v)::ms, n, rest, _, hd, hi, hn => by
    simp only [distinctMembers, membersWithin, Bool.and_eq_true] at hd hi
    simp only [membersText, List.length_append, List.length_cons, List.append_assoc,
      List.cons_append, List.nil_append] at hn ⊢
    obtain ⟨m,rfl⟩ : ∃ m, n = m+1 := ⟨n-1,by omega⟩
    have hv := parse_value v m (dumpsMembers e ms++rest) hd.1 hi.1 (by omega)
      (ends_members e ms rest)
    have hk := scanString_flatMap e he k (58::(dumpsWith e v++(dumpsMembers e ms++rest)))
    rw [parseMembers]
    simp only [parseString, hk]
    simp only [bind, Except.bind, skipSpace, show ¬ IsSpace 58 by decide, if_false, if_true,
      skipSpace_dumps, hv]
    cases ms with
    | nil => simp [dumpsMembers, skipSpace, show ¬ IsSpace 125 by decide]
    | cons q qs =>
      obtain ⟨k',v'⟩ := q
      have ih := parse_members ((k',v')::qs) m rest (by simp) hd.2 hi.2
        (by simp only [membersText, dumpsMembers, quoted, List.length_append, List.length_cons,
              List.length_nil] at *; omega)
      simp only [membersText, List.append_assoc, List.cons_append, List.nil_append] at ih
      simp [dumpsMembers, quoted, skipSpace, show ¬ IsSpace 44 by decide,
        show ¬ IsSpace quoteChar by decide, ih]
end

end Read

/-- Reading undoes printing under any faithful escape. -/
theorem loadsText_dumps (e : CodePoint → Str) (he : Faithful e) (limit : ℕ) (v : Value F)
    (hd : distinct v = true) (hi : intsWithin limit v = true) :
    loadsText limit (dumpsWith e v) = .ok v := by
  have h := parse_value e he limit v (2*(dumpsWith e v).length) [] hd hi (le_refl _) ends_nil
  have hs := skipSpace_dumps e v []
  rw [List.append_nil] at h hs
  simp [loadsText, hs, h, bind, Except.bind, skipSpace]

theorem utf8Char_head (c : CodePoint) (hc : c ≠ 0) :
    ∃ b bs, utf8Char c = b::bs ∧ 0 < b.val := by
  have h0 : 0 < c.val := Nat.pos_of_ne_zero fun h => hc (Fin.ext h)
  have hl := c.isLt
  unfold utf8Char
  split_ifs with h1 h2 h3
  · exact ⟨_,_,rfl,by rw [byte_val _ (by omega)]; exact h0⟩
  · exact ⟨_,_,rfl,by rw [byte_val _ (by omega)]; omega⟩
  · exact ⟨_,_,rfl,by rw [byte_val _ (by omega)]; omega⟩
  · exact ⟨_,_,rfl,by rw [byte_val _ (by omega)]; omega⟩

theorem decodeDetected_text (a : CodePoint) (s : Str) (ha : 0 < a.val ∧ a.val < 0x80)
    (hs : ∀ c ∈ s.head?, c ≠ 0) : decodeDetected (encodePass (a::s)) = .ok (a::s) := by
  have hd := Lib.Unicode.decode_encode (a::s)
  have ea : utf8Char a = [byte a.val] := if_pos ha.2
  have hbytes : encodePass (a::s) = byte a.val::encodePass s := by
    rw [encodePass, List.flatMap_cons, ea]
    rfl
  have va := byte_val a.val (by omega)
  have na : ∀ x : Byte, x.val = 0 ∨ 0x80 ≤ x.val → byte a.val ≠ x := by
    rintro x hx rfl
    omega
  have hsecond : ((encodePass s).getD 0 1).val ≠ 0 := by
    cases s with
    | nil => decide
    | cons c s =>
      obtain ⟨b,bs,hb,h0⟩ := utf8Char_head c (hs c rfl)
      rw [encodePass, List.flatMap_cons, hb]
      exact Nat.ne_of_gt h0
  rw [hbytes] at hd ⊢
  simp only [decodeDetected, List.take_succ_cons, List.cons.injEq, na 0 (by decide),
    na 0xFF (by decide), na 0xFE (by decide), na 0xEF (by decide), false_and, if_false,
    List.getD_cons_zero, List.getD_cons_succ, va, hd]
  rw [if_neg (by omega), if_neg (by omega), if_neg (by omega), if_neg (by omega)]
  rfl

theorem decodeDetected_ascii (a b : CodePoint) (s : Str) (ha : 0 < a.val ∧ a.val < 0x80)
    (hb : 0 < b.val) : decodeDetected (encodePass (a::b::s)) = .ok (a::b::s) := by
  apply decodeDetected_text a (b::s) ha
  intro c hc
  obtain rfl := Option.some.inj hc
  rintro rfl
  exact absurd hb (by decide)

theorem loadsText_long (limit : ℕ) (s : Str) (hs : scanNumber s = some (false,s,[]))
    (hl : limit < literalDigits s) :
    (loadsText limit s : Except LoadError (Value F)) = .error .intLimit := by
  obtain ⟨c,cs,rfl,hc,_⟩ := number_head s _ hs
  have hv : (parseValue limit (2*(c::cs).length+1) (c::cs++[]) : Except LoadError (Value F × Str)) =
      parseNumber limit (c::cs++[]) :=
    (parseValue_atom limit _ _ [] _ hs).trans (parseAtom_number limit _ [] _ hs)
  rw [List.append_nil, parseNumber, hs] at hv
  simp only [if_pos hl] at hv
  simp only [loadsText, skipSpace, if_neg hc, hv]
  rfl

theorem loads_long (limit : ℕ) (a b : CodePoint) (s : Str)
    (h : ∀ c ∈ a::b::s, IsDigit c) (ha : a ≠ 48) (hl : limit < s.length+2) :
    (loads limit (encodePass (a::b::s)) : Except LoadError (Value F)) = .error .intLimit := by
  have hdigit : ∀ c, IsDigit c → 0 < c.val ∧ c.val < 0x80 ∧ c ≠ 45 := by
    intro c hc
    unfold IsDigit at hc
    refine ⟨by omega,by omega,?_⟩
    rintro rfl
    simp at hc
  obtain ⟨h1,h2,h45⟩ := hdigit a (h a List.mem_cons_self)
  obtain ⟨h3,_,_⟩ := hdigit b (h b (List.mem_cons_of_mem _ List.mem_cons_self))
  have hm : scanMinus (a::b::s) = ([],a::b::s) := if_neg h45
  have hs : scanNumber (a::b::s) = some (false,a::b::s,[]) := by
    simp only [scanNumber, hm, scanInt, if_neg ha, if_pos (h a List.mem_cons_self),
      takeDigits_all (b::s) fun c hc => h c (List.mem_cons_of_mem _ hc), Option.map_some,
      scanFraction, scanExponent, List.append_nil, List.nil_append]
    simp
  rw [loads, decodeDetected_ascii a b s ⟨h1,h2⟩ h3]
  apply loadsText_long limit _ hs
  rw [literalDigits, hm]
  exact hl

end Lib.Json
