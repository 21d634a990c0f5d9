import Valiss.Lib.JsonRoundTrip

/-!
# Escaping after printing

A rewriting of single characters that leaves alone everything JSON text is made
of outside its strings can be applied to the finished text. The result is the
text printed under a finer escape, which reads back to the same value.
-/

set_option autoImplicit false

namespace Lib.Json
open Lib.Unicode

/-- ASCII without `&`, `<` and `>`: structure, numbers, words and escapes. -/
def Printed (c : CodePoint) : Prop := c.val < 0x80 ∧ c.val ≠ 38 ∧ c.val ≠ 60 ∧ c.val ≠ 62

instance (c : CodePoint) : Decidable (Printed c) := inferInstanceAs (Decidable (_ ∧ _))

def Shown (c : CodePoint) : Prop := 32 ≤ c.val ∧ Printed c

instance (c : CodePoint) : Decidable (Shown c) := inferInstanceAs (Decidable (_ ∧ _))

theorem shown_digit (c : CodePoint) (h : IsDigit c) : Shown c := by
  unfold IsDigit at h
  unfold Shown Printed
  omega

theorem takeDigits_shown (s : Str) : ∀ c ∈ (takeDigits s).1, Shown c := by
  induction s with
  | nil => simp [takeDigits]
  | cons d s ih =>
    intro c hc
    by_cases hd : IsDigit d
    · rw [takeDigits, if_pos hd] at hc
      rcases List.mem_cons.mp hc with rfl | hc
      · exact shown_digit c hd
      · exact ih c hc
    · rw [takeDigits, if_neg hd] at hc
      cases hc

theorem scanInt_shown (s : Str) (p : Str × Str) (h : scanInt s = some p) :
    ∀ c ∈ p.1, Shown c := by
  cases s with
  | nil => cases h
  | cons d s =>
    rw [scanInt] at h
    split_ifs at h with h0 hd
    · obtain rfl := Option.some.inj h
      intro c hc
      rw [List.mem_singleton.mp hc, h0]
      decide
    · obtain rfl := Option.some.inj h
      intro c hc
      rcases List.mem_cons.mp hc with rfl | hc
      · exact shown_digit c hd
      · exact takeDigits_shown s c hc

theorem scanMinus_shown (s : Str) : ∀ c ∈ (scanMinus s).1, Shown c := by
  unfold scanMinus
  split
  · split_ifs with h
    · intro c hc
      rw [List.mem_singleton.mp hc, h]
      decide
    · simp
  · simp

theorem scanSign_shown (s : Str) : ∀ c ∈ (scanSign s).1, Shown c := by
  unfold scanSign
  split
  · split_ifs with h
    · intro c hc
      rw [List.mem_singleton.mp hc]
      rcases h with h | h <;> rw [h] <;> decide
    · simp
  · simp

theorem scanFraction_shown (s : Str) : ∀ c ∈ (scanFraction s).1, Shown c := by
  unfold scanFraction
  split
  · split_ifs with h
    · intro c hc
      rcases List.mem_cons.mp hc with rfl | hc
      · rw [h.1]
        decide
      · exact takeDigits_shown _ c hc
    · simp
  · simp

theorem scanExponent_shown (s : Str) : ∀ c ∈ (scanExponent s).1, Shown c := by
  unfold scanExponent
  split
  · dsimp only
    split_ifs with h
    · intro c hc
      rcases List.mem_cons.mp hc with rfl | hc
      · rcases h.1 with h | h <;> rw [h] <;> decide
      · rcases List.mem_append.mp hc with hc | hc
        · exact scanSign_shown _ c hc
        · exact takeDigits_shown _ c hc
    · simp
  · simp

theorem scanNumber_shown (s : Str) (p : Bool × Str × Str) (h : scanNumber s = some p) :
    ∀ c ∈ p.2.1, Shown c := by
  simp only [scanNumber, Option.map_eq_some_iff] at h
  obtain ⟨q,hq,rfl⟩ := h
  intro c hc
  simp only [List.mem_append] at hc
  rcases hc with ((hc | hc) | hc) | hc
  · exact scanMinus_shown _ c hc
  · exact scanInt_shown _ q hq c hc
  · exact scanFraction_shown _ c hc
  · exact scanExponent_shown _ c hc

theorem float_shown (s : Str) (h : FloatShape s) : ∀ c ∈ s, Shown c := by
  rcases h with h | rfl | rfl | rfl
  · exact scanNumber_shown s _ h
  all_goals decide

theorem int_shown (n : ℤ) : ∀ c ∈ intText n, Shown c := by
  intro c hc
  unfold intText at hc
  split_ifs at hc with h
  · rcases List.mem_cons.mp hc with rfl | hc
    · decide
    · exact shown_digit c (natText_digit _ c hc)
  · exact shown_digit c (natText_digit _ c hc)

theorem escaped_lt (c : CodePoint) (h : escapeChar c ≠ [c]) :
    c = quoteChar ∨ c = backslash ∨ c.val < 32 := by
  by_contra hn
  simp only [not_or, not_lt] at hn
  obtain ⟨hq,hb,hc⟩ := hn
  have hne : ∀ d : CodePoint, d.val < 32 → c ≠ d := by
    rintro d hd rfl
    omega
  apply h
  unfold escapeChar
  rw [if_neg hq, if_neg hb, if_neg (hne 10 (by decide)), if_neg (hne 13 (by decide)),
    if_neg (hne 9 (by decide)), if_neg (hne 12 (by decide)), if_neg (hne 8 (by decide)),
    if_neg (by omega)]

theorem escaped_printed (c : CodePoint) (h : escapeChar c ≠ [c]) : Printed c := by
  rcases escaped_lt c h with rfl | rfl | hc
  · decide
  · decide
  · unfold Printed
    omega

theorem control_printed : ∀ n : Fin 32, ∀ c ∈ escapeChar (codePoint n.val), Printed c := by
  decide

theorem escapeChar_printed (c : CodePoint) (h : escapeChar c ≠ [c]) :
    ∀ d ∈ escapeChar c, Printed d := by
  rcases escaped_lt c h with rfl | rfl | hc
  · decide
  · decide
  · have := control_printed ⟨c.val,hc⟩
    rwa [codePoint_of_val] at this

theorem words_shown : (∀ c ∈ lit "null", Shown c) ∧ (∀ c ∈ lit "true", Shown c) ∧
    ∀ c ∈ lit "false", Shown c := by
  decide

section Texts
variable {F : Type}

mutual
def Texts (P : Str → Prop) : Value F → Prop
  | .str s => P s
  | .arr xs => TextsItems P xs
  | .obj ms => TextsMembers P ms
  | _ => True
def TextsItems (P : Str → Prop) : List (Value F) → Prop
  | [] => True
  | x::xs => Texts P x ∧ TextsItems P xs
def TextsMembers (P : Str → Prop) : List (Str × Value F) → Prop
  | [] => True
  | (k,v)::ms => P k ∧ Texts P v ∧ TextsMembers P ms
end

mutual
theorem texts_true : ∀ v : Value F, Texts (fun _ => True) v
  | .null | .bool _ | .int _ | .float _ | .str _ => trivial
  | .arr xs => textsItems_true xs
  | .obj ms => textsMembers_true ms
theorem textsItems_true : ∀ xs : List (Value F), TextsItems (fun _ => True) xs
  | [] => trivial
  | x::xs => ⟨texts_true x,textsItems_true xs⟩
theorem textsMembers_true : ∀ ms : List (Str × Value F), TextsMembers (fun _ => True) ms
  | [] => trivial
  | (_,v)::ms => ⟨trivial,texts_true v,textsMembers_true ms⟩
end

theorem textsMembers_append (P : Str → Prop) (ms ns : List (Str × Value F)) :
    TextsMembers P (ms++ns) ↔ TextsMembers P ms ∧ TextsMembers P ns := by
  induction ms with
  | nil => simp [TextsMembers]
  | cons m ms ih =>
    obtain ⟨k,v⟩ := m
    simp [TextsMembers, ih, and_assoc]

variable (e : CodePoint → Str) (P : Str → Prop) (Q : CodePoint → Prop)

theorem mem_quoted (hQ : ∀ c, Shown c → Q c) (he : ∀ s, P s → ∀ c ∈ s.flatMap e, Q c) (s : Str)
    (h : P s) : ∀ c ∈ quoted e s, Q c := by
  intro c hc
  simp only [quoted, List.cons_append, List.mem_cons, List.mem_append, List.not_mem_nil,
    or_false] at hc
  rcases hc with rfl | hc | rfl
  · exact hQ _ (by decide)
  · exact he s h c hc
  · exact hQ _ (by decide)

variable [FloatText F]

mutual
theorem mem_dumps (hQ : ∀ c, Shown c → Q c) (he : ∀ s, P s → ∀ c ∈ s.flatMap e, Q c) :
    ∀ v : Value F, Texts P v → ∀ c ∈ dumpsWith e v, Q c
  | .null, _ => fun c hc => hQ c (words_shown.1 c hc)
  | .bool true, _ => fun c hc => hQ c (words_shown.2.1 c hc)
  | .bool false, _ => fun c hc => hQ c (words_shown.2.2 c hc)
  | .int n, _ => fun c hc => hQ c (int_shown n c hc)
  | .float x, _ => fun c hc => hQ c (float_shown _ (FloatText.write_shape x) c hc)
  | .str s, h => mem_quoted e P Q hQ he s h
  | .arr [], _ => fun c hc => hQ c ((by decide : ∀ c ∈ [91,93], Shown c) c hc)
  | .arr (x::xs), h => by
    intro c hc
    simp only [dumpsWith, List.cons_append, List.mem_cons, List.mem_append] at hc
    rcases hc with rfl | hc | hc
    · exact hQ _ (by decide)
    · exact mem_dumps hQ he x h.1 c hc
    · exact mem_items hQ he xs h.2 c hc
  | .obj [], _ => fun c hc => hQ c ((by decide : ∀ c ∈ [123,125], Shown c) c hc)
  | .obj ((k,v)::ms), h => by
    intro c hc
    simp only [dumpsWith, List.cons_append, List.mem_cons, List.mem_append] at hc
    rcases hc with rfl | (hc | rfl | hc) | hc
    · exact hQ _ (by decide)
    · exact mem_quoted e P Q hQ he k h.1 c hc
    · exact hQ _ (by decide)
    · exact mem_dumps hQ he v h.2.1 c hc
    · exact mem_members hQ he ms h.2.2 c hc
theorem mem_items (hQ : ∀ c, Shown c → Q c) (he : ∀ s, P s → ∀ c ∈ s.flatMap e, Q c) :
    ∀ xs : List (Value F), TextsItems P xs → ∀ c ∈ dumpsItems e xs, Q c
  | [], _ => fun c hc => hQ c ((by decide : ∀ c ∈ [93], Shown c) c hc)
  | x::xs, h => by
    intro c hc
    simp only [dumpsItems, List.cons_append, List.mem_cons, List.mem_append] at hc
    rcases hc with rfl | hc | hc
    · exact hQ _ (by decide)
    · exact mem_dumps hQ he x h.1 c hc
    · exact mem_items hQ he xs h.2 c hc
theorem mem_members (hQ : ∀ c, Shown c → Q c) (he : ∀ s, P s → ∀ c ∈ s.flatMap e, Q c) :
    ∀ ms : List (Str × Value F), TextsMembers P ms → ∀ c ∈ dumpsMembers e ms, Q c
  | [], _ => fun c hc => hQ c ((by decide : ∀ c ∈ [125], Shown c) c hc)
  | (k,v)::ms, h => by
    intro c hc
    simp only [dumpsMembers, List.cons_append, List.mem_cons, List.mem_append] at hc
    rcases hc with rfl | (hc | rfl | hc) | hc
    · exact hQ _ (by decide)
    · exact mem_quoted e P Q hQ he k h.1 c hc
    · exact hQ _ (by decide)
    · exact mem_dumps hQ he v h.2.1 c hc
    · exact mem_members hQ he ms h.2.2 c hc
end

theorem quoted_texts (he : ∀ s, (∀ c ∈ s.flatMap e, Q c) → P s) (s : Str)
    (h : ∀ c ∈ quoted e s, Q c) : P s := by
  apply he
  intro c hc
  apply h
  simp [quoted, hc]

mutual
theorem dumps_texts (he : ∀ s, (∀ c ∈ s.flatMap e, Q c) → P s) :
    ∀ v : Value F, (∀ c ∈ dumpsWith e v, Q c) → Texts P v
  | .null, _ => trivial
  | .bool _, _ => trivial
  | .int _, _ => trivial
  | .float _, _ => trivial
  | .str s, h => quoted_texts e P Q he s h
  | .arr [], _ => trivial
  | .arr (x::xs), h => by
    simp only [dumpsWith, List.cons_append, List.mem_cons, List.mem_append] at h
    exact ⟨dumps_texts he x fun c hc => h c (.inr (.inl hc)),
      items_texts he xs fun c hc => h c (.inr (.inr hc))⟩
  | .obj [], _ => trivial
  | .obj ((k,v)::ms), h => by
    simp only [dumpsWith, List.cons_append, List.mem_cons, List.mem_append] at h
    exact ⟨quoted_texts e P Q he k fun c hc => h c (.inr (.inl (.inl hc))),
      dumps_texts he v fun c hc => h c (.inr (.inl (.inr (.inr hc)))),
      members_texts he ms fun c hc => h c (.inr (.inr hc))⟩
theorem items_texts (he : ∀ s, (∀ c ∈ s.flatMap e, Q c) → P s) :
    ∀ xs : List (Value F), (∀ c ∈ dumpsItems e xs, Q c) → TextsItems P xs
  | [], _ => trivial
  | x::xs, h => by
    simp only [dumpsItems, List.cons_append, List.mem_cons, List.mem_append] at h
    exact ⟨dumps_texts he x fun c hc => h c (.inr (.inl hc)),
      items_texts he xs fun c hc => h c (.inr (.inr hc))⟩
theorem members_texts (he : ∀ s, (∀ c ∈ s.flatMap e, Q c) → P s) :
    ∀ ms : List (Str × Value F), (∀ c ∈ dumpsMembers e ms, Q c) → TextsMembers P ms
  | [], _ => trivial
  | (k,v)::ms, h => by
    simp only [dumpsMembers, List.cons_append, List.mem_cons, List.mem_append] at h
    exact ⟨quoted_texts e P Q he k fun c hc => h c (.inr (.inl (.inl hc))),
      dumps_texts he v fun c hc => h c (.inr (.inl (.inr (.inr hc)))),
      members_texts he ms fun c hc => h c (.inr (.inr hc))⟩
end

end Texts

section Fold
variable {F : Type} [FloatText F] (r : CodePoint → Str) (hr : ∀ c, Printed c → r c = [c])
include hr

theorem flatMap_printed (s : Str) (h : ∀ c ∈ s, Printed c) : s.flatMap r = s := by
  induction s with
  | nil => rfl
  | cons c s ih =>
    rw [List.flatMap_cons, hr c (h c (by simp)), ih fun d hd => h d (by simp [hd])]
    rfl

theorem flatMap_shown (s : Str) (h : ∀ c ∈ s, Shown c) : s.flatMap r = s :=
  flatMap_printed r hr s fun c hc => (h c hc).2

theorem flatMap_quoted (e : CodePoint → Str) (s : Str) :
    (quoted e s).flatMap r = quoted (fun c => (e c).flatMap r) s := by
  have hq : r quoteChar = [quoteChar] := hr _ (by decide)
  simp [quoted, hq, List.flatMap_assoc]

mutual
theorem flatMap_dumps (e : CodePoint → Str) : ∀ v : Value F,
    (dumpsWith e v).flatMap r = dumpsWith (fun c => (e c).flatMap r) v
  | .null => flatMap_shown r hr _ words_shown.1
  | .bool true => flatMap_shown r hr _ words_shown.2.1
  | .bool false => flatMap_shown r hr _ words_shown.2.2
  | .int n => flatMap_shown r hr _ (int_shown n)
  | .float x => flatMap_shown r hr _ (float_shown _ (FloatText.write_shape x))
  | .str s => flatMap_quoted r hr e s
  | .arr [] => flatMap_printed r hr [91,93] (by decide)
  | .arr (x::xs) => by
    simp [dumpsWith, flatMap_dumps e x, flatMap_items e xs, hr 91 (by decide)]
  | .obj [] => flatMap_printed r hr [123,125] (by decide)
  | .obj ((k,v)::ms) => by
    simp [dumpsWith, flatMap_dumps e v, flatMap_members e ms, flatMap_quoted r hr e k,
      hr 123 (by decide), hr 58 (by decide)]
theorem flatMap_items (e : CodePoint → Str) : ∀ xs : List (Value F),
    (dumpsItems e xs).flatMap r = dumpsItems (fun c => (e c).flatMap r) xs
  | [] => flatMap_printed r hr [93] (by decide)
  | x::xs => by
    simp [dumpsItems, flatMap_dumps e x, flatMap_items e xs, hr 44 (by decide)]
theorem flatMap_members (e : CodePoint → Str) : ∀ ms : List (Str × Value F),
    (dumpsMembers e ms).flatMap r = dumpsMembers (fun c => (e c).flatMap r) ms
  | [] => flatMap_printed r hr [125] (by decide)
  | (k,v)::ms => by
    simp [dumpsMembers, flatMap_dumps e v, flatMap_members e ms, flatMap_quoted r hr e k,
      hr 44 (by decide), hr 58 (by decide)]
end

theorem faithful_after (hu : ∀ c, r c ≠ [c] → ¬ Surrogate c ∧ ∃ a b d f : CodePoint,
      r c = [backslash,117,a,b,d,f] ∧ hex4 a b d f = some c.val) :
    Faithful fun c => (escapeChar c).flatMap r := by
  intro c
  by_cases hc : r c = [c]
  · have he : (escapeChar c).flatMap r = escapeChar c := by
      by_cases hp : escapeChar c = [c]
      · rw [hp, List.flatMap_singleton, hc]
      · apply flatMap_printed r hr
        exact escapeChar_printed c hp
    obtain ⟨flag,hf,hs⟩ := escapeChar_faithful c
    exact ⟨flag,hf,fun rest => by simpa only [he] using hs rest⟩
  · obtain ⟨hsur,a,b,d,f,hre,hhex⟩ := hu c hc
    have he : escapeChar c = [c] := by
      by_contra hp
      exact hc (hr c (escaped_printed c hp))
    refine ⟨true,fun _ => hsur,fun rest => ?_⟩
    simp only [he, List.flatMap_singleton, hre]
    have := scanPieces_hex a b d f c.val rest hhex
    rwa [codePoint_of_val] at this

end Fold

section Bytes
variable {F : Type} [FloatText F] (e : CodePoint → Str)

theorem dumps_first (v : Value F) : ∃ c cs, dumpsWith e v = c::cs ∧ Shown c := by
  obtain ⟨c,cs,h,_⟩ := dumps_head e v
  refine ⟨c,cs,h,?_⟩
  cases v with
  | null =>
    apply words_shown.1
    rw [show lit "null" = c::cs from h]
    exact List.mem_cons_self
  | bool b =>
    cases b with
    | true =>
      apply words_shown.2.1
      rw [show lit "true" = c::cs from h]
      exact List.mem_cons_self
    | false =>
      apply words_shown.2.2
      rw [show lit "false" = c::cs from h]
      exact List.mem_cons_self
  | int n =>
    apply int_shown n
    rw [show intText n = c::cs from h]
    exact List.mem_cons_self
  | float x =>
    apply float_shown _ (FloatText.write_shape x)
    rw [show FloatText.write x = c::cs from h]
    exact List.mem_cons_self
  | str s =>
    obtain rfl := (List.cons.inj h).1
    decide
  | arr xs =>
    cases xs <;> obtain rfl := (List.cons.inj h).1 <;> decide
  | obj ms =>
    cases ms <;> obtain rfl := (List.cons.inj h).1 <;> decide

/-- Under an escape that prints no NUL the bytes of the text read back to the value. -/
theorem loads_dumps (he : Faithful e) (hz : ∀ c, ∀ d ∈ e c, d ≠ 0) (limit : ℕ) (v : Value F)
    (hd : distinct v = true) (hi : intsWithin limit v = true) :
    loads limit (encodePass (dumpsWith e v)) = .ok v := by
  have hnul : ∀ c ∈ dumpsWith e v, c ≠ 0 := by
    apply mem_dumps e (fun _ => True) (· ≠ 0)
    · rintro c ⟨h,_⟩ rfl
      exact absurd h (by decide)
    · intro s _ c hc
      obtain ⟨d,_,hc⟩ := List.mem_flatMap.1 hc
      exact hz d c hc
    · exact texts_true v
  obtain ⟨c,cs,h,hlow,hc,_⟩ := dumps_first e v
  rw [loads, h, decodeDetected_text c cs ⟨by omega,hc⟩, ← h]
  · exact loadsText_dumps e he limit v hd hi
  · intro d hd
    exact hnul d (h ▸ List.mem_cons_of_mem c (List.mem_of_head? hd))

end Bytes

end Lib.Json
