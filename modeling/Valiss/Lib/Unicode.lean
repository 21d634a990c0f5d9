import Mathlib.Data.List.Basic
import Mathlib.Tactic.Linarith

/-!
# Code points, byte strings and UTF-8

A string is a list of code points, surrogates included, because a decoder
may hand out lone surrogates which no strict encoder accepts. The decoder
below is the lenient one (it passes encoded surrogates); on the output of
the strict encoder both agree, and the strict encoder is injective.
-/

set_option autoImplicit false

namespace Lib.Unicode

abbrev Byte := Fin 256
abbrev Bytes := List Byte
abbrev CodePoint := Fin 0x110000
abbrev Str := List CodePoint

instance (priority := 2000) byteLiterals : NeZero 256 := ⟨by decide⟩

instance (priority := 2000) codePointLiterals : NeZero 0x110000 := ⟨by decide⟩

instance (priority := 2000) decidableAll {n : ℕ} (P : Fin n → Prop) [DecidablePred P]
    (s : List (Fin n)) : Decidable (∀ c ∈ s, P c) := List.decidableBAll P s

instance (priority := 2000) decidableSome {n : ℕ} (P : Fin n → Prop) [DecidablePred P]
    (s : List (Fin n)) : Decidable (∃ c ∈ s, P c) := List.decidableBEx P s

instance (priority := 2000) decidableMember (s : Str) (l : List Str) : Decidable (s ∈ l) :=
  inferInstance

def byte (n : ℕ) : Byte := Fin.ofNat 256 n

def codePoint (n : ℕ) : CodePoint := Fin.ofNat 0x110000 n

def lit (s : String) : Str := s.toList.map fun c => codePoint c.toNat

theorem byte_val (n : ℕ) (h : n < 256) : (byte n).val = n := Nat.mod_eq_of_lt h

theorem codePoint_val (n : ℕ) (h : n < 0x110000) : (codePoint n).val = n := Nat.mod_eq_of_lt h

theorem codePoint_of_val (c : CodePoint) : codePoint c.val = c :=
  Fin.ext (codePoint_val c.val c.isLt)

theorem byte_of_val (b : Byte) : byte b.val = b := Fin.ext (byte_val b.val b.isLt)

def Surrogate (c : CodePoint) : Prop := 0xD800 ≤ c.val ∧ c.val ≤ 0xDFFF

instance (c : CodePoint) : Decidable (Surrogate c) := inferInstanceAs (Decidable (_ ∧ _))

def Encodable (s : Str) : Prop := ∀ c ∈ s, ¬ Surrogate c

instance (s : Str) : Decidable (Encodable s) := inferInstanceAs (Decidable (∀ c ∈ s, _))

@[simp] theorem encodable_nil : Encodable [] := by simp [Encodable]

@[simp] theorem encodable_cons (c : CodePoint) (s : Str) :
    Encodable (c::s) ↔ ¬ Surrogate c ∧ Encodable s := by simp [Encodable]

@[simp] theorem encodable_append (s t : Str) :
    Encodable (s++t) ↔ Encodable s ∧ Encodable t := by
  simp only [Encodable, List.mem_append]
  exact ⟨fun h => ⟨fun c hc => h c (Or.inl hc), fun c hc => h c (Or.inr hc)⟩,
    fun h c hc => hc.elim (h.1 c) (h.2 c)⟩

def utf8Char (c : CodePoint) : Bytes :=
  if c.val < 0x80 then [byte c.val]
  else if c.val < 0x800 then [byte (0xC0+c.val/64), byte (0x80+c.val%64)]
  else if c.val < 0x10000 then
    [byte (0xE0+c.val/4096), byte (0x80+c.val/64%64), byte (0x80+c.val%64)]
  else [byte (0xF0+c.val/262144), byte (0x80+c.val/4096%64),
    byte (0x80+c.val/64%64), byte (0x80+c.val%64)]

/-- `str.encode("utf-8", "surrogatepass")`. -/
def encodePass (s : Str) : Bytes := s.flatMap utf8Char

/-- `str.encode("utf-8")`; `none` is UnicodeEncodeError. -/
def encodeUtf8 (s : Str) : Option Bytes := if Encodable s then some (encodePass s) else none

def Tail (b : Byte) : Prop := 0x80 ≤ b.val ∧ b.val < 0xC0

instance (b : Byte) : Decidable (Tail b) := inferInstanceAs (Decidable (_ ∧ _))

/-- The scalar of a sequence, refused when a shorter sequence encodes it or
when it lies beyond the last code point. -/
def scalar (least n : ℕ) : Option CodePoint :=
  if least ≤ n ∧ n < 0x110000 then some (codePoint n) else none

/-- `bytes.decode("utf-8", "surrogatepass")`; `none` is UnicodeDecodeError. -/
def decodePass : Bytes → Option Str
  | [] => some []
  | a::as =>
    if a.val < 0x80 then (decodePass as).map (codePoint a.val :: ·)
    else match as with
      | [] => none
      | b::bs =>
        if ¬ Tail b then none
        else if 0xC0 ≤ a.val ∧ a.val < 0xE0 then do
          let c ← scalar 0x80 ((a.val-0xC0)*64+(b.val-0x80))
          (decodePass bs).map (c :: ·)
        else match bs with
          | [] => none
          | b'::bs' =>
            if ¬ Tail b' then none
            else if 0xE0 ≤ a.val ∧ a.val < 0xF0 then do
              let c ← scalar 0x800 ((a.val-0xE0)*4096+(b.val-0x80)*64+(b'.val-0x80))
              (decodePass bs').map (c :: ·)
            else match bs' with
              | [] => none
              | b''::bs'' =>
                if ¬ Tail b'' ∨ a.val < 0xF0 then none
                else do
                  let c ← scalar 0x10000 ((a.val-0xF0)*262144+(b.val-0x80)*4096+
                    (b'.val-0x80)*64+(b''.val-0x80))
                  (decodePass bs'').map (c :: ·)

theorem scalar_val (least : ℕ) (c : CodePoint) (n : ℕ) (hn : n = c.val)
    (h : least ≤ c.val) : scalar least n = some c := by
  subst hn
  simp [scalar, h, codePoint_of_val]

theorem decode_char (c : CodePoint) (rest : Bytes) :
    decodePass (utf8Char c ++ rest) = (decodePass rest).map (c :: ·) := by
  have hc := c.isLt
  unfold utf8Char
  split
  · next h =>
    have ha := byte_val c.val (by omega)
    rw [List.cons_append, List.nil_append, decodePass.eq_def]
    simp only [ha, if_pos h, codePoint_of_val]
  · next h1 =>
    split
    · next h2 =>
      have ha := byte_val (0xC0+c.val/64) (by omega)
      have hb := byte_val (0x80+c.val%64) (by omega)
      rw [List.cons_append, List.cons_append, List.nil_append, decodePass.eq_def]
      simp only [ha, hb, Tail]
      rw [if_neg (by omega), if_neg (by omega), if_pos (by omega),
        scalar_val _ c _ (by omega) (by omega)]
      rfl
    · next h2 =>
      split
      · next h3 =>
        have ha := byte_val (0xE0+c.val/4096) (by omega)
        have hb := byte_val (0x80+c.val/64%64) (by omega)
        have hb' := byte_val (0x80+c.val%64) (by omega)
        simp only [List.cons_append, List.nil_append]
        rw [decodePass.eq_def]
        simp only [ha, hb, hb', Tail]
        rw [if_neg (by omega), if_neg (by omega), if_neg (by omega), if_neg (by omega),
          if_pos (by omega), scalar_val _ c _ (by omega) (by omega)]
        rfl
      · next h3 =>
        have ha := byte_val (0xF0+c.val/262144) (by omega)
        have hb := byte_val (0x80+c.val/4096%64) (by omega)
        have hb' := byte_val (0x80+c.val/64%64) (by omega)
        have hb'' := byte_val (0x80+c.val%64) (by omega)
        simp only [List.cons_append, List.nil_append]
        rw [decodePass.eq_def]
        simp only [ha, hb, hb', hb'', Tail]
        rw [if_neg (by omega), if_neg (by omega), if_neg (by omega), if_neg (by omega),
          if_neg (by omega), if_neg (by omega), scalar_val _ c _ (by omega) (by omega)]
        rfl

theorem decode_encode (s : Str) : decodePass (encodePass s) = some s := by
  induction s with
  | nil => rfl
  | cons c s ih =>
    rw [encodePass, List.flatMap_cons, decode_char]
    rw [show List.flatMap utf8Char s = encodePass s from rfl, ih]
    rfl

theorem encodePass_injective : Function.Injective encodePass := by
  intro s t h
  have := decode_encode s
  rw [h, decode_encode] at this
  exact (Option.some.inj this).symm

theorem encodeUtf8_some (s : Str) (b : Bytes) :
    encodeUtf8 s = some b ↔ Encodable s ∧ encodePass s = b := by
  unfold encodeUtf8
  split <;> simp_all

/-- `bytes.decode("utf-16-be" | "utf-16-le", "surrogatepass")`, over 16-bit units. -/
def joinUnits : List ℕ → Str
  | [] => []
  | [u] => [codePoint u]
  | u::v::us =>
    if 0xD800 ≤ u ∧ u < 0xDC00 ∧ 0xDC00 ≤ v ∧ v < 0xE000 then
      codePoint (0x10000+(u-0xD800)*0x400+(v-0xDC00)) :: joinUnits us
    else codePoint u :: joinUnits (v::us)

def units16 (big : Bool) : Bytes → Option (List ℕ)
  | [] => some []
  | [_] => none
  | a::b::rest =>
    (units16 big rest).map ((if big then a.val*256+b.val else b.val*256+a.val) :: ·)

def decodeUtf16 (big : Bool) (bs : Bytes) : Option Str := (units16 big bs).map joinUnits

def decodeUtf32 (big : Bool) : Bytes → Option Str
  | [] => some []
  | a::b::c::d::rest => do
    let n := if big then a.val*16777216+b.val*65536+c.val*256+d.val
      else d.val*16777216+c.val*65536+b.val*256+a.val
    let x ← scalar 0 n
    (decodeUtf32 big rest).map (x :: ·)
  | _ => none

/-- `str.isspace` on one character. -/
def IsWhite (c : CodePoint) : Prop :=
  (9 ≤ c.val ∧ c.val ≤ 13) ∨ (28 ≤ c.val ∧ c.val ≤ 32) ∨ c.val = 0x85 ∨ c.val = 0xA0 ∨
    c.val = 0x1680 ∨ (0x2000 ≤ c.val ∧ c.val ≤ 0x200A) ∨ c.val = 0x2028 ∨ c.val = 0x2029 ∨
    c.val = 0x202F ∨ c.val = 0x205F ∨ c.val = 0x3000

instance (c : CodePoint) : Decidable (IsWhite c) := inferInstanceAs (Decidable (_ ∨ _))

/-- `s.strip()`. -/
def strip (s : Str) : Str :=
  ((s.dropWhile fun c => decide (IsWhite c)).reverse.dropWhile fun c => decide (IsWhite c)).reverse

theorem strip_self (s : Str) (hh : ∀ c ∈ s.head?, ¬ IsWhite c)
    (hl : ∀ c ∈ s.getLast?, ¬ IsWhite c) : strip s = s := by
  have hd : ∀ t : Str, (∀ c ∈ t.head?, ¬ IsWhite c) →
      t.dropWhile (fun c => decide (IsWhite c)) = t := by
    intro t ht
    cases t with
    | nil => rfl
    | cons c t => rw [List.dropWhile_cons_of_neg (by simpa using ht)]
  rw [strip, hd s hh, hd s.reverse (by simpa using hl), List.reverse_reverse]

theorem strip_white (c : CodePoint) (s : Str) (h : IsWhite c) : strip (c::s) = strip s := by
  rw [strip, strip, List.dropWhile_cons_of_pos (by simpa using h)]

theorem split_first {α : Type} (c : α) (s s' t t' : List α) (hs : c ∉ s) (hs' : c ∉ s')
    (h : s ++ c::t = s' ++ c::t') : s = s' ∧ t = t' := by
  induction s generalizing s' with
  | nil =>
    cases s' with
    | nil => exact ⟨rfl,List.tail_eq_of_cons_eq h⟩
    | cons y s' =>
      rw [List.nil_append, List.cons_append, List.cons.injEq] at h
      exact absurd (h.1 ▸ List.mem_cons_self) hs'
  | cons x s ih =>
    cases s' with
    | nil =>
      rw [List.nil_append, List.cons_append, List.cons.injEq] at h
      exact absurd (h.1 ▸ List.mem_cons_self) hs
    | cons y s' =>
      rw [List.cons_append, List.cons_append, List.cons.injEq] at h
      obtain ⟨rfl,h⟩ := h
      obtain ⟨rfl,rfl⟩ := ih s' (fun hm => hs (List.mem_cons_of_mem _ hm))
        (fun hm => hs' (List.mem_cons_of_mem _ hm)) h
      exact ⟨rfl,rfl⟩

theorem split_last {α : Type} (c : α) (s s' t t' : List α) (ht : c ∉ t) (ht' : c ∉ t')
    (h : s ++ c::t = s' ++ c::t') : s = s' ∧ t = t' := by
  have hr := congrArg List.reverse h
  simp only [List.reverse_append, List.reverse_cons, List.append_assoc, List.singleton_append]
    at hr
  obtain ⟨h1,h2⟩ := split_first c _ _ _ _ (by simpa using ht) (by simpa using ht') hr
  exact ⟨List.reverse_injective h2,List.reverse_injective h1⟩

/-- `s.split(c)` for a separator of one character. -/
def splitOn (c : CodePoint) : Str → List Str
  | [] => [[]]
  | x::xs => if x = c then [] :: splitOn c xs
    else match splitOn c xs with
      | [] => [[x]]
      | p::ps => (x::p)::ps

theorem splitOn_none (c : CodePoint) (s : Str) (h : c ∉ s) : splitOn c s = [s] := by
  induction s with
  | nil => rfl
  | cons x s ih =>
    simp only [List.mem_cons, not_or] at h
    rw [splitOn, if_neg (Ne.symm h.1), ih h.2]

theorem splitOn_cons (c : CodePoint) (s t : Str) (h : c ∉ s) :
    splitOn c (s++c::t) = s :: splitOn c t := by
  induction s with
  | nil => simp [splitOn]
  | cons x s ih =>
    simp only [List.mem_cons, not_or] at h
    rw [List.cons_append, splitOn, if_neg (Ne.symm h.1), ih h.2]

theorem splitOn_ne_nil (c : CodePoint) (s : Str) : splitOn c s ≠ [] := by
  induction s with
  | nil => simp [splitOn]
  | cons x s ih =>
    rw [splitOn]
    split_ifs
    · simp
    · cases h : splitOn c s with
      | nil => exact absurd h ih
      | cons p ps => simp

theorem splitOn_eq_cons (c : CodePoint) (s p : Str) (ps : List Str) (h : splitOn c s = p::ps) :
    c ∉ p ∧ (ps = [] ∧ s = p ∨ ∃ t, s = p++c::t ∧ splitOn c t = ps) := by
  induction s generalizing p ps with
  | nil =>
    obtain ⟨rfl,rfl⟩ := List.cons.inj h
    exact ⟨by simp,Or.inl ⟨rfl,rfl⟩⟩
  | cons x s ih =>
    rw [splitOn] at h
    split_ifs at h with hx
    · obtain ⟨rfl,rfl⟩ := List.cons.inj h
      exact ⟨by simp,Or.inr ⟨s,by rw [hx]; rfl,rfl⟩⟩
    · cases hs : splitOn c s with
      | nil => exact absurd hs (splitOn_ne_nil c s)
      | cons q qs =>
        rw [hs] at h
        obtain ⟨rfl,rfl⟩ := List.cons.inj h
        obtain ⟨hq,h'⟩ := ih q qs hs
        refine ⟨by simp [hq, Ne.symm hx],?_⟩
        rcases h' with ⟨rfl,rfl⟩ | ⟨t,rfl,ht⟩
        · exact Or.inl ⟨rfl,rfl⟩
        · exact Or.inr ⟨t,rfl,ht⟩

theorem splitOn_three (c : CodePoint) (s p q r : Str) (h : splitOn c s = [p,q,r]) :
    s = p++c::q++c::r ∧ c ∉ p ∧ c ∉ q ∧ c ∉ r := by
  obtain ⟨hp,⟨h1,_⟩ | ⟨t,rfl,ht⟩⟩ := splitOn_eq_cons c s p _ h
  · cases h1
  obtain ⟨hq,⟨h1,_⟩ | ⟨u,rfl,hu⟩⟩ := splitOn_eq_cons c t q _ ht
  · cases h1
  obtain ⟨hr,⟨_,rfl⟩ | ⟨v,_,hv⟩⟩ := splitOn_eq_cons c u r _ hu
  · exact ⟨by simp,hp,hq,hr⟩
  · exact absurd hv (splitOn_ne_nil c v)

def Ascii (s : Str) : Prop := ∀ c ∈ s, c.val < 0x80

instance (s : Str) : Decidable (Ascii s) := inferInstanceAs (Decidable (∀ c ∈ s, _))

theorem Ascii.encodable {s : Str} (h : Ascii s) : Encodable s := by
  intro c hc hs
  have := h c hc
  unfold Surrogate at hs
  omega

@[simp] theorem ascii_nil : Ascii [] := by simp [Ascii]

@[simp] theorem ascii_cons (c : CodePoint) (s : Str) : Ascii (c::s) ↔ c.val < 0x80 ∧ Ascii s := by
  simp [Ascii]

@[simp] theorem ascii_append (s t : Str) : Ascii (s++t) ↔ Ascii s ∧ Ascii t := by
  simp only [Ascii, List.mem_append]
  exact ⟨fun h => ⟨fun c hc => h c (Or.inl hc), fun c hc => h c (Or.inr hc)⟩,
    fun h c hc => hc.elim (h.1 c) (h.2 c)⟩

end Lib.Unicode
