import Valiss.Lib.JsonParse

/-!
# Percent-decoded text

Escapes are turned into bytes and the bytes read as UTF-8, an ill-formed
sequence as one replacement character. No character takes less than a byte, so
decoding shortens every text that holds an escape.
-/

set_option autoImplicit false

namespace Lib.Percent
open Lib.Unicode Lib.Json

def replacement : CodePoint := 0xFFFD

/-- How many bytes follow a lead byte, and the range of the first of them. -/
def lead (a : Byte) : Option (ℕ × ℕ × ℕ) :=
  if a.val < 0xC2 then none
  else if a.val < 0xE0 then some (1,0x80,0xC0)
  else if a.val = 0xE0 then some (2,0xA0,0xC0)
  else if a.val = 0xED then some (2,0x80,0xA0)
  else if a.val < 0xF0 then some (2,0x80,0xC0)
  else if a.val = 0xF0 then some (3,0x90,0xC0)
  else if a.val < 0xF4 then some (3,0x80,0xC0)
  else if a.val = 0xF4 then some (3,0x80,0x90)
  else none

/-- `bytes.decode("utf-8", "replace")`: what is replaced is the longest prefix of
a character, or one byte. -/
def decodeReplace : Bytes → Str
  | [] => []
  | a::as =>
    match lead a with
    | none => (if a.val < 0x80 then codePoint a.val else replacement) :: decodeReplace as
    | some (k,lo,hi) => match as with
      | [] => [replacement]
      | b::bs =>
        if ¬ (lo ≤ b.val ∧ b.val < hi) then replacement :: decodeReplace (b::bs)
        else if k = 1 then codePoint ((a.val-0xC0)*64+(b.val-0x80)) :: decodeReplace bs
        else match bs with
          | [] => [replacement]
          | c::cs =>
            if ¬ Tail c then replacement :: decodeReplace (c::cs)
            else if k = 2 then
              codePoint ((a.val-0xE0)*4096+(b.val-0x80)*64+(c.val-0x80)) :: decodeReplace cs
            else match cs with
              | [] => [replacement]
              | d::ds =>
                if ¬ Tail d then replacement :: decodeReplace (d::ds)
                else codePoint ((a.val-0xF0)*262144+(b.val-0x80)*4096+(c.val-0x80)*64+
                  (d.val-0x80)) :: decodeReplace ds

theorem decodeReplace_length (bs : Bytes) : (decodeReplace bs).length ≤ bs.length := by
  fun_induction decodeReplace bs <;> simp only [List.length_cons, List.length_nil] at * <;> omega

example : decodeReplace [0x2F,0xC3,0xA9,0xFF,0xE2,0x82] = [0x2F,0xE9,0xFFFD,0xFFFD] := by decide

def hexPair (a b : CodePoint) : Option ℕ := do
  let x ← hexValue a
  let y ← hexValue b
  return x*16+y

/-- `unquote_to_bytes` of ASCII text: a percent sign without two hex digits stays. -/
def unquoteBytes : Str → Bytes
  | [] => []
  | [c] => [byte c.val]
  | [c,d] => [byte c.val,byte d.val]
  | c::d::e::s =>
    if c = 37 then match hexPair d e with
      | some n => byte n :: unquoteBytes s
      | none => byte c.val :: unquoteBytes (d::e::s)
    else byte c.val :: unquoteBytes (d::e::s)

/-- `unquote` of ASCII text. -/
def unquote (s : Str) : Str := decodeReplace (unquoteBytes s)

def Escaped (s : Str) : Prop := ∃ l a b r n, s = l ++ 37::a::b::r ∧ hexPair a b = some n

theorem escaped_cons (c d e : CodePoint) (s : Str) :
    Escaped (c::d::e::s) ↔ (c = 37 ∧ ∃ n, hexPair d e = some n) ∨ Escaped (d::e::s) := by
  constructor
  · rintro ⟨l,a,b,r,n,hs,hn⟩
    cases l with
    | nil =>
      simp only [List.nil_append, List.cons.injEq] at hs
      obtain ⟨rfl,rfl,rfl,rfl⟩ := hs
      exact Or.inl ⟨rfl,n,hn⟩
    | cons x l =>
      rw [List.cons_append, List.cons.injEq] at hs
      exact Or.inr ⟨l,a,b,r,n,hs.2,hn⟩
  · rintro (⟨rfl,n,hn⟩ | ⟨l,a,b,r,n,hs,hn⟩)
    · exact ⟨[],d,e,s,n,rfl,hn⟩
    · exact ⟨c::l,a,b,r,n,by rw [hs, List.cons_append],hn⟩

theorem escaped_length (s : Str) (h : Escaped s) : 3 ≤ s.length := by
  obtain ⟨l,a,b,r,n,rfl,_⟩ := h
  simp only [List.length_append, List.length_cons]
  omega

theorem unquoteBytes_length (s : Str) : (unquoteBytes s).length ≤ s.length := by
  fun_induction unquoteBytes s <;> simp only [List.length_cons, List.length_nil] at * <;> omega

theorem unquoteBytes_shorter (s : Str) (h : Escaped s) :
    (unquoteBytes s).length < s.length := by
  fun_induction unquoteBytes s with
  | case1 => simpa using escaped_length _ h
  | case2 c => simpa using escaped_length _ h
  | case3 c d => simpa using escaped_length _ h
  | case4 d e s n hn ih =>
    have := unquoteBytes_length s
    simp only [List.length_cons]
    omega
  | case5 d e s hn ih =>
    rcases (escaped_cons _ _ _ _).1 h with ⟨_,n,hs⟩ | h
    · rw [hn] at hs
      cases hs
    · simpa using ih h
  | case6 c d e s hc ih =>
    rcases (escaped_cons _ _ _ _).1 h with ⟨hs,_⟩ | h
    · exact absurd hs hc
    · simpa using ih h

theorem unquoteBytes_plain (s : Str) (h : ¬ Escaped s) :
    unquoteBytes s = s.map fun c => byte c.val := by
  fun_induction unquoteBytes s with
  | case1 => rfl
  | case2 c => rfl
  | case3 c d => rfl
  | case4 d e s n hn ih => exact absurd ((escaped_cons _ _ _ _).2 (Or.inl ⟨rfl,n,hn⟩)) h
  | case5 d e s hn ih =>
    rw [ih fun hs => h ((escaped_cons _ _ _ _).2 (Or.inr hs))]
    rfl
  | case6 c d e s hc ih =>
    rw [ih fun hs => h ((escaped_cons _ _ _ _).2 (Or.inr hs))]
    rfl

theorem decodeReplace_ascii (s : Str) (h : Ascii s) :
    decodeReplace (s.map fun c => byte c.val) = s := by
  induction s with
  | nil => rfl
  | cons c s ih =>
    rw [ascii_cons] at h
    have hc := byte_val c.val (by omega)
    have hl : lead (byte c.val) = none := by
      rw [lead, hc, if_pos (by omega)]
    rw [List.map_cons, decodeReplace, hl]
    simp only [hc, if_pos h.1, codePoint_of_val, ih h.2]

theorem unquote_eq (s : Str) (h : Ascii s) : unquote s = s ↔ ¬ Escaped s := by
  constructor
  · intro he hs
    have h1 := unquoteBytes_shorter s hs
    have h2 := decodeReplace_length (unquoteBytes s)
    rw [show decodeReplace (unquoteBytes s) = s from he] at h2
    omega
  · intro hs
    rw [unquote, unquoteBytes_plain s hs, decodeReplace_ascii s h]

example : unquote [47,37,67,51,37,65,57,37,50] = [47,0xE9,37,50] := by decide

end Lib.Percent
