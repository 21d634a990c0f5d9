import Mathlib.Data.List.DropRight
import Valiss.Lib.Unicode

/-!
# Base64 text and lower-case hex

The decoder is the state machine of `binascii.a2b_base64`: position in the
quad, bits left over, pads seen, and whether padding has started. The lenient
mode skips foreign characters, the strict mode refuses them. Encoders emit the
standard alphabet; the URL-safe text is its image under a translation.
-/

set_option autoImplicit false

namespace Lib.Base64
open Lib.Unicode

def padChar : CodePoint := 61

def symbol (n : ℕ) : CodePoint :=
  if n < 26 then codePoint (65+n) else if n < 52 then codePoint (71+n)
  else if n < 62 then codePoint (n-4) else if n = 62 then 43 else 47

def sextet (c : CodePoint) : Option ℕ :=
  if 65 ≤ c.val ∧ c.val < 91 then some (c.val-65)
  else if 97 ≤ c.val ∧ c.val < 123 then some (c.val-71)
  else if 48 ≤ c.val ∧ c.val < 58 then some (c.val+4)
  else if c.val = 43 then some 62 else if c.val = 47 then some 63 else none

theorem symbol_facts : ∀ n : Fin 64, sextet (symbol n) = some n.val ∧ symbol n ≠ padChar ∧
    (symbol n).val < 0x80 := by decide

theorem sextet_symbol (n : ℕ) (h : n < 64) : sextet (symbol n) = some n := (symbol_facts ⟨n,h⟩).1

theorem symbol_ne_pad (n : ℕ) (h : n < 64) : symbol n ≠ padChar := (symbol_facts ⟨n,h⟩).2.1

def rawEncode : Bytes → Str
  | [] => []
  | [a] => [symbol (a.val/4), symbol (a.val%4*16)]
  | [a,b] => [symbol (a.val/4), symbol (a.val%4*16+b.val/16), symbol (b.val%16*4)]
  | a::b::c::rest => symbol (a.val/4) :: symbol (a.val%4*16+b.val/16) ::
      symbol (b.val%16*4+c.val/64) :: symbol (c.val%64) :: rawEncode rest

def pads (n : ℕ) : Str := List.replicate ((3-n%3)%3) padChar

/-- `base64.b64encode`. -/
def b64encode (bs : Bytes) : Str := rawEncode bs ++ pads bs.length

def a2bLoop (strict : Bool) : Str → ℕ → ℕ → ℕ → Bool → Option Bytes
  | [], quad, _, _, _ => if quad = 0 then some [] else none
  | c::cs, quad, left, padded, started =>
    if c = padChar then
      if 2 ≤ quad then
        if 4 ≤ quad+(padded+1) then (if strict ∧ cs ≠ [] then none else some [])
        else a2bLoop strict cs quad left (padded+1) true
      else a2bLoop strict cs quad left padded true
    else match sextet c with
      | none => if strict then none else a2bLoop strict cs quad left padded started
      | some v =>
        if strict ∧ started then none
        else match quad with
          | 0 => a2bLoop strict cs 1 v 0 started
          | 1 => (a2bLoop strict cs 2 (v%16) 0 started).map (byte (left*4+v/16) :: ·)
          | 2 => (a2bLoop strict cs 3 (v%4) 0 started).map (byte (left*16+v/4) :: ·)
          | _ => (a2bLoop strict cs 0 0 0 started).map (byte (left*64+v) :: ·)

/-- `binascii.a2b_base64`; `none` is binascii.Error. -/
def a2bBase64 (strict : Bool) (s : Str) : Option Bytes :=
  if strict ∧ s.head? = some padChar then none else a2bLoop strict s 0 0 0 false

section Loop
variable (strict : Bool) (cs : Str) (left padded v : ℕ)

theorem loop_first (hv : v < 64) :
    a2bLoop strict (symbol v::cs) 0 left padded false = a2bLoop strict cs 1 v 0 false := by
  simp [a2bLoop, symbol_ne_pad v hv, sextet_symbol v hv]

theorem loop_second (hv : v < 64) : a2bLoop strict (symbol v::cs) 1 left padded false =
    (a2bLoop strict cs 2 (v%16) 0 false).map (byte (left*4+v/16) :: ·) := by
  simp [a2bLoop, symbol_ne_pad v hv, sextet_symbol v hv]

theorem loop_third (hv : v < 64) : a2bLoop strict (symbol v::cs) 2 left padded false =
    (a2bLoop strict cs 3 (v%4) 0 false).map (byte (left*16+v/4) :: ·) := by
  simp [a2bLoop, symbol_ne_pad v hv, sextet_symbol v hv]

theorem loop_fourth (hv : v < 64) : a2bLoop strict (symbol v::cs) 3 left padded false =
    (a2bLoop strict cs 0 0 0 false).map (byte (left*64+v) :: ·) := by
  simp [a2bLoop, symbol_ne_pad v hv, sextet_symbol v hv]

theorem loop_two_pads : a2bLoop strict [padChar,padChar] 2 left 0 false = some [] := by
  simp [a2bLoop]

theorem loop_one_pad : a2bLoop strict [padChar] 3 left 0 false = some [] := by
  simp [a2bLoop]

end Loop

theorem regroup (n : ℕ) (b : Byte) (h : n = b.val) : byte n = b := by
  subst h
  exact byte_of_val b

theorem loop_encode (strict : Bool) (bs : Bytes) :
    a2bLoop strict (b64encode bs) 0 0 0 false = some bs := by
  unfold b64encode
  induction bs using rawEncode.induct with
  | case1 => rfl
  | case2 a =>
    have ha := a.isLt
    simp only [rawEncode, List.cons_append, List.nil_append]
    rw [loop_first _ _ _ _ _ (by omega), loop_second _ _ _ _ _ (by omega),
      show pads [a].length = [padChar,padChar] from rfl, loop_two_pads,
      regroup _ a (by omega)]
    rfl
  | case3 a b =>
    have ha := a.isLt
    have hb := b.isLt
    simp only [rawEncode, List.cons_append, List.nil_append]
    rw [loop_first _ _ _ _ _ (by omega), loop_second _ _ _ _ _ (by omega),
      loop_third _ _ _ _ _ (by omega), show pads [a,b].length = [padChar] from rfl, loop_one_pad,
      regroup _ a (by omega), regroup _ b (by omega)]
    rfl
  | case4 a b c rest ih =>
    have ha := a.isLt
    have hb := b.isLt
    have hc := c.isLt
    have hp : pads (a::b::c::rest).length = pads rest.length := by
      simp only [pads, List.length_cons]
      congr 1
      omega
    simp only [rawEncode, List.cons_append, hp]
    rw [loop_first _ _ _ _ _ (by omega), loop_second _ _ _ _ _ (by omega),
      loop_third _ _ _ _ _ (by omega), loop_fourth _ _ _ _ _ (by omega), ih,
      regroup _ a (by omega), regroup _ b (by omega), regroup _ c (by omega)]
    rfl

theorem encode_head (bs : Bytes) : (b64encode bs).head? ≠ some padChar := by
  unfold b64encode
  cases bs using rawEncode.fun_cases with
  | case1 => simp [rawEncode, pads]
  | case2 a =>
    have ha := a.isLt
    simpa [rawEncode] using symbol_ne_pad (a.val/4) (by omega)
  | case3 a b =>
    have ha := a.isLt
    simpa [rawEncode] using symbol_ne_pad (a.val/4) (by omega)
  | case4 a b c rest =>
    have ha := a.isLt
    simpa [rawEncode] using symbol_ne_pad (a.val/4) (by omega)

theorem decode_encode (strict : Bool) (bs : Bytes) :
    a2bBase64 strict (b64encode bs) = some bs := by
  rw [a2bBase64, if_neg (fun h => encode_head bs h.2), loop_encode]

theorem rawEncode_symbol (bs : Bytes) : ∀ c ∈ rawEncode bs, ∃ n < 64, c = symbol n := by
  induction bs using rawEncode.induct with
  | case1 => simp [rawEncode]
  | case2 a =>
    have ha := a.isLt
    simp only [rawEncode, List.mem_cons, List.not_mem_nil, or_false]
    rintro c (rfl | rfl)
    · exact ⟨_,by omega,rfl⟩
    · exact ⟨_,by omega,rfl⟩
  | case3 a b =>
    have ha := a.isLt
    have hb := b.isLt
    simp only [rawEncode, List.mem_cons, List.not_mem_nil, or_false]
    rintro c (rfl | rfl | rfl)
    · exact ⟨_,by omega,rfl⟩
    · exact ⟨_,by omega,rfl⟩
    · exact ⟨_,by omega,rfl⟩
  | case4 a b c rest ih =>
    have ha := a.isLt
    have hb := b.isLt
    have hc := c.isLt
    simp only [rawEncode, List.mem_cons]
    rintro d (rfl | rfl | rfl | rfl | hd)
    · exact ⟨_,by omega,rfl⟩
    · exact ⟨_,by omega,rfl⟩
    · exact ⟨_,by omega,rfl⟩
    · exact ⟨_,by omega,rfl⟩
    · exact ih d hd

theorem rawEncode_length (bs : Bytes) : (rawEncode bs).length = bs.length+(bs.length+2)/3 := by
  induction bs using rawEncode.induct with
  | case1 => rfl
  | case2 a => simp [rawEncode]
  | case3 a b => simp [rawEncode]
  | case4 a b c rest ih =>
    simp only [rawEncode, List.length_cons, ih]
    omega

/-- `s.rstrip(c)`. -/
def rstrip (c : CodePoint) (s : Str) : Str := s.rdropWhile (· = c)

theorem rstrip_replicate (c : CodePoint) (s : Str) (n : ℕ) (h : c ∉ s) :
    rstrip c (s ++ List.replicate n c) = s := by
  induction n with
  | zero =>
    rw [List.replicate_zero, List.append_nil, rstrip, List.rdropWhile_eq_self_iff]
    intro hs
    simpa using fun e : s.getLast hs = c => h (e ▸ List.getLast_mem hs)
  | succ n ih =>
    rw [List.replicate_succ', ← List.append_assoc, rstrip, List.rdropWhile_concat_pos _ _ _ (by simp)]
    exact ih

theorem rstrip_split (c : CodePoint) (s : Str) : ∃ k, s = rstrip c s++List.replicate k c := by
  induction s using List.reverseRecOn with
  | nil => exact ⟨0,by simp [rstrip]⟩
  | append_singleton s d ih =>
    by_cases h : d = c
    · obtain ⟨k,hk⟩ := ih
      refine ⟨k+1,?_⟩
      rw [rstrip, List.rdropWhile_concat_pos _ _ _ (by simpa using h), List.replicate_succ',
        ← List.append_assoc, h]
      exact congrArg (·++[c]) hk
    · exact ⟨0,by rw [rstrip, List.rdropWhile_concat_neg _ _ _ (by simpa using h)]; simp⟩

def toUrl (c : CodePoint) : CodePoint := if c = 43 then 45 else if c = 47 then 95 else c

def ofUrl (c : CodePoint) : CodePoint := if c = 45 then 43 else if c = 95 then 47 else c

/-- `base64.urlsafe_b64encode`. -/
def urlEncode (bs : Bytes) : Str := (b64encode bs).map toUrl

/-- `base64.urlsafe_b64decode`. -/
def urlDecode (s : Str) : Option Bytes := a2bBase64 false (s.map ofUrl)

def UrlChar (c : CodePoint) : Prop :=
  (65 ≤ c.val ∧ c.val < 91) ∨ (97 ≤ c.val ∧ c.val < 123) ∨ (48 ≤ c.val ∧ c.val < 58) ∨
    c.val = 95 ∨ c.val = 45

instance (c : CodePoint) : Decidable (UrlChar c) := inferInstanceAs (Decidable (_ ∨ _))

theorem url_symbol : ∀ n : Fin 64, ofUrl (toUrl (symbol n)) = symbol n ∧
    UrlChar (toUrl (symbol n)) := by decide

theorem url_pad : toUrl padChar = padChar ∧ ofUrl padChar = padChar := by decide

theorem ofUrl_toUrl (s : Str) (h : ∀ c ∈ s, ∃ n < 64, c = symbol n) :
    (s.map toUrl).map ofUrl = s := by
  rw [List.map_map]
  conv_rhs => rw [← List.map_id s]
  apply List.map_congr_left
  intro c hc
  obtain ⟨n,hn,rfl⟩ := h c hc
  exact (url_symbol ⟨n,hn⟩).1

def hexDigit (n : ℕ) : CodePoint := if n < 10 then codePoint (48+n) else codePoint (87+n)

/-- `bytes.hex()`. -/
def hex (bs : Bytes) : Str := bs.flatMap fun b => [hexDigit (b.val/16), hexDigit (b.val%16)]

theorem hexDigit_inj : ∀ m n : Fin 16, hexDigit m = hexDigit n → m = n := by decide

theorem hexDigit_ascii : ∀ n : Fin 16, (hexDigit n).val < 0x80 ∧ hexDigit n ≠ 10 := by decide

theorem hex_injective : Function.Injective hex := by
  intro bs
  induction bs with
  | nil =>
    intro cs h
    cases cs with
    | nil => rfl
    | cons c cs => simp [hex] at h
  | cons b bs ih =>
    intro cs h
    cases cs with
    | nil => simp [hex] at h
    | cons c cs =>
      simp only [hex, List.flatMap_cons, List.cons_append, List.nil_append, List.cons.injEq] at h
      obtain ⟨h1,h2,h3⟩ := h
      have hb := b.isLt
      have hc := c.isLt
      have e1 := hexDigit_inj ⟨b.val/16,by omega⟩ ⟨c.val/16,by omega⟩ h1
      have e2 := hexDigit_inj ⟨b.val%16,by omega⟩ ⟨c.val%16,by omega⟩ h2
      simp only [Fin.mk.injEq] at e1 e2
      rw [ih h3, Fin.ext (by omega : b.val = c.val)]

theorem hex_chars (bs : Bytes) : ∀ c ∈ hex bs, c.val < 0x80 ∧ c ≠ 10 := by
  intro c hc
  obtain ⟨b,_,hb⟩ := List.mem_flatMap.mp hc
  have hlt := b.isLt
  simp only [List.mem_cons, List.not_mem_nil, or_false] at hb
  rcases hb with rfl | rfl
  · exact hexDigit_ascii ⟨b.val/16,by omega⟩
  · exact hexDigit_ascii ⟨b.val%16,by omega⟩

theorem hex_length (bs : Bytes) : (hex bs).length = 2*bs.length := by
  induction bs with
  | nil => rfl
  | cons b bs ih =>
    rw [hex, List.flatMap_cons, List.length_append]
    rw [show (List.flatMap _ bs) = hex bs from rfl, ih]
    simp only [List.length_cons, List.length_nil]
    omega

end Lib.Base64
