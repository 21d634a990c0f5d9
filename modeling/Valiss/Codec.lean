import Valiss.Lib.JsonEscape
import Valiss.Nkeys

/-!
# Wire text

The three encodings tokens and signatures are made of: unpadded base64url, JSON
as Go prints it, and RFC 3339 timestamps with a trimmed fraction. Each reader
undoes its writer.
-/

set_option autoImplicit false

namespace Valiss.Codec
open Lib.Unicode Lib.Base64 Lib.Json Lib.Fallible Valiss.Errors

def malformed (message : Str) : Exc := errFor (lit "valiss: " ++ message) .malformed

def b64url (raw : Bytes) : Str := rstrip padChar (urlEncode raw)

def b64urlDecode (encoded : Str) : Py Bytes := do
  raiseIf (¬ ∀ c ∈ encoded, UrlChar c) (malformed (lit "malformed token"))
  let pad := List.replicate ((4-encoded.length%4)%4) padChar
  ofOption (malformed (lit "malformed token")) (urlDecode (encoded ++ pad))

theorem b64url_eq (raw : Bytes) : b64url raw = (rawEncode raw).map toUrl := by
  have hp : padChar ∉ (rawEncode raw).map toUrl := by
    intro h
    obtain ⟨c,hc,he⟩ := List.mem_map.mp h
    obtain ⟨n,hn,rfl⟩ := rawEncode_symbol raw c hc
    have := (url_symbol ⟨n,hn⟩).2
    rw [he] at this
    exact absurd this (by decide)
  rw [b64url, urlEncode, b64encode, List.map_append, pads, List.map_replicate, url_pad.1]
  exact rstrip_replicate padChar _ _ hp

theorem b64url_char (raw : Bytes) : ∀ c ∈ b64url raw, UrlChar c := by
  intro c hc
  rw [b64url_eq] at hc
  obtain ⟨d,hd,rfl⟩ := List.mem_map.mp hc
  obtain ⟨n,hn,rfl⟩ := rawEncode_symbol raw d hd
  exact (url_symbol ⟨n,hn⟩).2

theorem urlChar_ascii (c : CodePoint) (h : UrlChar c) : c.val < 0x80 ∧ c ≠ 46 ∧ c ≠ 10 := by
  unfold UrlChar at h
  refine ⟨by omega,?_,?_⟩
  · rintro rfl
    simp at h
  · rintro rfl
    simp at h

theorem b64url_ascii (raw : Bytes) : Ascii (b64url raw) := fun c hc =>
  (urlChar_ascii c (b64url_char raw c hc)).1

theorem b64url_dotless (raw : Bytes) : (46 : CodePoint) ∉ b64url raw := fun h =>
  (urlChar_ascii _ (b64url_char raw _ h)).2.1 rfl

theorem b64urlDecode_b64url (raw : Bytes) : b64urlDecode (b64url raw) = .ok raw := by
  have hl : (b64url raw).length = raw.length+(raw.length+2)/3 := by
    rw [b64url_eq, List.length_map, rawEncode_length]
  have hp : (4-(b64url raw).length%4)%4 = (3-raw.length%3)%3 := by
    rw [hl]
    generalize raw.length = n
    have hr : n%3 = 0 ∨ n%3 = 1 ∨ n%3 = 2 := by omega
    rcases hr with hr | hr | hr <;> omega
  unfold b64urlDecode
  rw [raiseIf_neg _ _ (not_not.2 (b64url_char raw)), ok_bind, ofOption_ok, hp, urlDecode,
    List.map_append, List.map_replicate, url_pad.2, b64url_eq,
    ofUrl_toUrl _ (rawEncode_symbol raw)]
  exact decode_encode false raw

theorem b64urlDecode_char (s : Str) (raw : Bytes) (h : b64urlDecode s = .ok raw) :
    ∀ c ∈ s, UrlChar c := by
  simp only [b64urlDecode, bind_ok, raiseIf_ok, not_not] at h
  obtain ⟨_,hc,_⟩ := h
  exact hc

def replaceChar (c : CodePoint) (w s : Str) : Str := s.flatMap fun d => if d = c then w else [d]

/-- The replacements made on the serialized text, one after the other. -/
def htmlEscape (s : Str) : Str :=
  replaceChar 0x2029 (lit "\\u2029") (replaceChar 0x2028 (lit "\\u2028")
    (replaceChar 38 (lit "\\u0026") (replaceChar 62 (lit "\\u003e")
      (replaceChar 60 (lit "\\u003c") s))))

section Json
variable [Platform]

def goText (v : Json) : Str := htmlEscape (dumps v)

/-- Integers beyond the interpreter's digit limit have no text. -/
def goJson (v : Json) : Py Bytes := do
  raiseIf (intsWithin intDigits v = false) (.builtin .valueError (Platform.builtinText .valueError))
  encode (goText v)

end Json

def htmlChar (c : CodePoint) : Str := htmlEscape [c]

theorem htmlEscape_flatMap (s : Str) : htmlEscape s = s.flatMap htmlChar := by
  induction s with
  | nil => rfl
  | cons c s ih =>
    rw [List.flatMap_cons, ← ih]
    simp only [htmlChar, htmlEscape, replaceChar, List.flatMap_cons, List.flatMap_append,
      List.flatMap_nil, List.append_nil]

theorem htmlChar_other (c : CodePoint) (h : c ≠ 60 ∧ c ≠ 62 ∧ c ≠ 38 ∧ c ≠ 0x2028 ∧ c ≠ 0x2029) :
    htmlChar c = [c] := by
  obtain ⟨h1,h2,h3,h4,h5⟩ := h
  simp [htmlChar, htmlEscape, replaceChar, h1, h2, h3, h4, h5]

theorem htmlChar_printed (c : CodePoint) (h : Printed c) : htmlChar c = [c] := by
  apply htmlChar_other
  obtain ⟨h1,h2,h3,h4⟩ := h
  refine ⟨?_,?_,?_,?_,?_⟩ <;> rintro rfl <;> simp at h1 h2 h3 h4

theorem htmlChar_escape (c : CodePoint) (h : htmlChar c ≠ [c]) :
    ¬ Surrogate c ∧ ∃ a b d f : CodePoint,
      htmlChar c = [backslash,117,a,b,d,f] ∧ hex4 a b d f = some c.val := by
  have hc : c = 60 ∨ c = 62 ∨ c = 38 ∨ c = 0x2028 ∨ c = 0x2029 := by
    by_contra hn
    simp only [not_or] at hn
    exact h (htmlChar_other c hn)
  rcases hc with rfl | rfl | rfl | rfl | rfl
  · exact ⟨by decide,48,48,51,99,by decide,by decide⟩
  · exact ⟨by decide,48,48,51,101,by decide,by decide⟩
  · exact ⟨by decide,48,48,50,54,by decide,by decide⟩
  · exact ⟨by decide,50,48,50,56,by decide,by decide⟩
  · exact ⟨by decide,50,48,50,57,by decide,by decide⟩

def goEscape (c : CodePoint) : Str := (escapeChar c).flatMap htmlChar

theorem goEscape_faithful : Faithful goEscape :=
  faithful_after htmlChar htmlChar_printed htmlChar_escape

def Raw (c : CodePoint) : Prop := c = 60 ∨ c = 62 ∨ c = 38 ∨ c = 0x2028 ∨ c = 0x2029

instance (c : CodePoint) : Decidable (Raw c) := inferInstanceAs (Decidable (_ ∨ _))

theorem htmlChar_safe (c : CodePoint) (hc : c ≠ 0) : ∀ d ∈ htmlChar c, d ≠ 0 ∧ ¬ Raw d := by
  by_cases h : Raw c
  · rcases h with rfl | rfl | rfl | rfl | rfl <;> decide
  · have hother := h
    simp only [Raw, not_or] at hother
    rw [htmlChar_other c hother]
    intro d hd
    obtain rfl := List.mem_singleton.1 hd
    exact ⟨hc,h⟩

theorem control_safe : ∀ n : Fin 32, ∀ d ∈ escapeChar (codePoint n.val), d ≠ 0 := by decide

theorem goEscape_safe (c : CodePoint) : ∀ d ∈ goEscape c, d ≠ 0 ∧ ¬ Raw d := by
  intro d hd
  obtain ⟨f,hf,hd⟩ := List.mem_flatMap.1 hd
  apply htmlChar_safe f _ d hd
  by_cases he : escapeChar c = [c]
  · rw [he, List.mem_singleton] at hf
    rw [hf]
    rintro rfl
    exact absurd he (by decide)
  · rcases escaped_lt c he with rfl | rfl | hc
    · exact (by decide : ∀ f ∈ escapeChar quoteChar, f ≠ 0) f hf
    · exact (by decide : ∀ f ∈ escapeChar backslash, f ≠ 0) f hf
    · have hs := control_safe ⟨c.val,hc⟩ f
      rw [codePoint_of_val] at hs
      exact hs hf

variable [Platform]

theorem goText_eq (v : Json) : goText v = dumpsWith goEscape v := by
  rw [goText, htmlEscape_flatMap]
  exact flatMap_dumps htmlChar htmlChar_printed escapeChar v

theorem goText_safe (v : Json) : ∀ c ∈ goText v, ¬ Raw c := by
  rw [goText_eq]
  apply mem_dumps goEscape (fun _ => True) (fun c => ¬ Raw c)
  · rintro c ⟨hlow,hascii,h38,h60,h62⟩ hraw
    rcases hraw with rfl | rfl | rfl | rfl | rfl <;> simp at h38 h60 h62 hascii
  · intro s _ c hc
    obtain ⟨d,_,hc⟩ := List.mem_flatMap.1 hc
    exact (goEscape_safe d c hc).2
  · exact texts_true v

/-- What was printed reads back to the value. -/
theorem loads_goJson (v : Json) (bs : Bytes) (hd : distinct v = true) (h : goJson v = .ok bs) :
    loads intDigits bs = .ok v := by
  simp only [goJson, bind_ok, raiseIf_ok, Bool.not_eq_false, encode_ok] at h
  obtain ⟨_,hi,_,rfl⟩ := h
  rw [goText_eq]
  exact loads_dumps goEscape goEscape_faithful (fun c d hd => (goEscape_safe c d hd).1) intDigits v
    hd hi

end Valiss.Codec
