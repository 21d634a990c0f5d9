import Valiss.HostileTokens
import Valiss.Lib.Crc

/-!
# Typing slips in key text

The characters of a key, five bits each, lie across the bytes they encode, and
the checksum follows with its bytes in reverse. With these put back a key and
its checksum leave the register empty, so what tells an accepted key from
another one does as well. A change of one character or of two adjacent ones
does not.
-/

set_option autoImplicit false

namespace Valiss.TypingSlips
open Lib.Unicode Lib.Base32 Lib.Crc Valiss.Errors Valiss.Nkeys Valiss.Recorded

/-- One character replaced by another, or two adjacent ones exchanged. -/
inductive Slip : Str → Str → Prop
  | replaced (before after : Str) (c d : CodePoint) (h : c ≠ d) :
      Slip (before ++ c :: after) (before ++ d :: after)
  | exchanged (before after : Str) (c d : CodePoint) (h : c ≠ d) :
      Slip (before ++ c :: d :: after) (before ++ d :: c :: after)

def charBits (c : CodePoint) : List Bool := bits 5 ((quintet c).getD 0)

def textBits (s : Str) : List Bool := s.flatMap charBits

def byteBits (b : Byte) : List Bool := bits 8 b.val

theorem charBits_symbol (n : ℕ) (h : n < 32) : charBits (symbol32 n) = bits 5 n := by
  rw [charBits, quintet_symbol n h, Option.getD_some]

theorem textBits_symbol (n : ℕ) (h : n < 32) (s : Str) :
    textBits (symbol32 n :: s) = bits 5 n ++ textBits s := by
  rw [textBits, List.flatMap_cons, charBits_symbol n h]
  rfl

theorem bits_byte (m u v : ℕ) (h : v < 256) : bits (m+8) (u*256+v) = bits m u ++ bits 8 v :=
  bits_append m 8 u v h

theorem bits_char (m u v : ℕ) (h : v < 32) : bits (m+5) (u*32+v) = bits m u ++ bits 5 v :=
  bits_append m 5 u v h

theorem quantum_bits (a b c d e v0 v1 v2 v3 v4 v5 v6 v7 : ℕ) (hb : b < 256) (hc : c < 256)
    (hd : d < 256) (he : e < 256) (h1 : v1 < 32) (h2 : v2 < 32) (h3 : v3 < 32) (h4 : v4 < 32)
    (h5 : v5 < 32) (h6 : v6 < 32) (h7 : v7 < 32)
    (h : ((((a*256+b)*256+c)*256+d)*256+e) =
      (((((((v0*32+v1)*32+v2)*32+v3)*32+v4)*32+v5)*32+v6)*32+v7)) :
    bits 8 a ++ (bits 8 b ++ (bits 8 c ++ (bits 8 d ++ bits 8 e))) =
      bits 5 v0 ++ (bits 5 v1 ++ (bits 5 v2 ++ (bits 5 v3 ++ (bits 5 v4 ++ (bits 5 v5 ++
        (bits 5 v6 ++ bits 5 v7)))))) := by
  have hbytes := bits_byte 32 (((a*256+b)*256+c)*256+d) e he
  rw [bits_byte 24 _ d hd, bits_byte 16 _ c hc, bits_byte 8 _ b hb] at hbytes
  have hchars := bits_char 35 ((((((v0*32+v1)*32+v2)*32+v3)*32+v4)*32+v5)*32+v6) v7 h7
  rw [bits_char 30 _ v6 h6, bits_char 25 _ v5 h5, bits_char 20 _ v4 h4, bits_char 15 _ v3 h3,
    bits_char 10 _ v2 h2, bits_char 5 _ v1 h1] at hchars
  simp only [List.append_assoc] at hbytes hchars
  rw [← hbytes, ← hchars]
  exact congrArg (bits 40) h

theorem b32encode_bits (bs : Bytes) (h : bs.length%5 = 0) :
    textBits (b32encode bs) = bs.flatMap byteBits := by
  induction bs using b32encode.induct with
  | case1 => rfl
  | case2 a => simp at h
  | case3 a b => simp at h
  | case4 a b c => simp at h
  | case5 a b c d => simp at h
  | case6 a b c d e rest ih =>
    have ha := a.isLt
    have hb := b.isLt
    have hc := c.isLt
    have hd := d.isLt
    have he := e.isLt
    rw [b32encode, textBits_symbol _ (by omega), textBits_symbol _ (by omega),
      textBits_symbol _ (by omega), textBits_symbol _ (by omega), textBits_symbol _ (by omega),
      textBits_symbol _ (by omega), textBits_symbol _ (by omega), textBits_symbol _ (by omega),
      ih (by simp only [List.length_cons] at h; omega)]
    have hq := quantum_bits a.val b.val c.val d.val e.val (a.val/8) (a.val%8*4+b.val/64)
      (b.val/2%32) (b.val%2*16+c.val/16) (c.val%16*2+d.val/128) (d.val/4%32) (d.val%4*8+e.val/32)
      (e.val%32) (by omega) (by omega) (by omega) (by omega) (by omega) (by omega) (by omega)
      (by omega) (by omega) (by omega) (by omega) (by omega)
    have hq' := congrArg (· ++ rest.flatMap byteBits) hq
    simp only [List.append_assoc] at hq'
    simp only [List.flatMap_cons, byteBits]
    exact hq'.symm

def poly : BitVec 16 := 0x1021#16

theorem load_byte : ∀ b : Byte, (load (byteBits b) : BitVec 16) = BitVec.ofNat 16 b.val <<< 8 := by
  decide +kernel

theorem crcByte_bits (c : BitVec 16) (b : Byte) : crcByte c b = crc poly c (byteBits b) := by
  rw [crc_load poly c _ (by simp [byteBits]), load_byte, byteBits, bits_length]
  rfl

theorem byteBits_length (data : Bytes) : (data.flatMap byteBits).length = 8*data.length := by
  induction data with
  | nil => rfl
  | cons b data ih =>
    rw [List.flatMap_cons, List.length_append, ih, byteBits, bits_length, List.length_cons]
    omega

theorem crc16_bits (data : Bytes) : crc16 data = crc poly 0#16 (data.flatMap byteBits) := by
  have hfold : ∀ c, data.foldl crcByte c = crc poly c (data.flatMap byteBits) := by
    induction data with
    | nil => exact fun c => rfl
    | cons b data ih =>
      intro c
      rw [List.foldl_cons, List.flatMap_cons, crc_append, ih, crcByte_bits]
  exact hfold 0#16

/-- The bits of a key with the two bytes of its checksum, the last ones, exchanged. -/
def turned (bs : List Bool) : List Bool :=
  bs.take 264 ++ (bs.drop 272 ++ (bs.drop 264).take 8)

theorem turned_parts (data low high : List Bool) (hd : data.length = 264) (hl : low.length = 8) :
    turned (data ++ (low ++ high)) = data ++ (high ++ low) := by
  have hdrop : (data ++ (low ++ high)).drop 272 = high := by
    rw [show 272 = 264+8 by rfl, ← List.drop_drop, List.drop_left' hd, List.drop_left' hl]
  rw [turned, List.take_left' hd, hdrop, List.drop_left' hd, List.take_left' hl]

theorem turned_xor (xs ys : List Bool) (h : xs.length = ys.length) :
    turned (List.zipWith xor xs ys) = List.zipWith xor (turned xs) (turned ys) := by
  simp only [turned, List.take_zipWith, List.drop_zipWith]
  rw [List.zipWith_append (by simp [h]), List.zipWith_append (by simp [h])]

theorem sealed_check (raw : Bytes) (h : raw.length = 33) :
    crc poly 0#16 (turned ((raw ++ crcBytes (crc16 raw)).flatMap byteBits)) = 0#16 := by
  have hlen : (raw.flatMap byteBits).length = 264 := by rw [byteBits_length, h]
  have hcrc := (crc16 raw).isLt
  have hbits : bits 8 (byte ((crc16 raw).toNat/256)).val ++ bits 8 (byte (crc16 raw).toNat).val =
      bits 16 (crc16 raw).toNat := by
    rw [← bits_append 8 8 _ _ (byte (crc16 raw).toNat).isLt]
    congr 1
    show (crc16 raw).toNat/256%256*256+(crc16 raw).toNat%256 = _
    omega
  rw [List.flatMap_append, crcBytes, List.flatMap_cons, List.flatMap_cons, List.flatMap_nil,
    List.append_nil, turned_parts _ (byteBits _) _ hlen (bits_length 8 _), crc_append,
    ← crc16_bits, byteBits, byteBits, hbits, crc_self]

theorem turned_early (bs : List Bool) (n : ℕ) (hb : bs.length ≤ 264) (hn : bs.length+n = 280) :
    turned (bs ++ List.replicate n false) = bs ++ List.replicate n false := by
  obtain ⟨k,rfl⟩ : ∃ k, n = k+16 := ⟨264-bs.length,by omega⟩
  have hsplit : bs ++ List.replicate (k+16) false =
      (bs ++ List.replicate k false) ++ (List.replicate 8 false ++ List.replicate 8 false) := by
    rw [List.replicate_append_replicate, List.append_assoc, List.replicate_append_replicate]
  rw [hsplit]
  exact turned_parts _ _ _ (by simp; omega) (by simp)

theorem turned_late (bs : List Bool) :
    crc poly 0#16 (turned (List.replicate 255 false ++ bs)) =
      crc poly 0#16 (bs.take 9 ++ (bs.drop 17 ++ (bs.drop 9).take 8)) := by
  have hl : (List.replicate 255 false).length = 255 := List.length_replicate ..
  have htake : (List.replicate 255 false ++ bs).take 264 =
      List.replicate 255 false ++ bs.take 9 := by
    rw [List.take_append, List.take_of_length_le (by omega), hl]
  have hdrop : ∀ k, (List.replicate 255 false ++ bs).drop (255+k) = bs.drop k := by
    intro k
    rw [← List.drop_drop, List.drop_left' hl]
  rw [turned, htake, hdrop 17, hdrop 9, List.append_assoc, crc_append, crc_zeros, shifts_zero]

theorem late_replaced : ∀ d : Fin 32, d ≠ 0 → ∀ m : Fin 4,
    let bs := List.replicate (5*(m.val+1)) false ++
      (bits 5 d.val ++ List.replicate (5*(3-m.val)) false)
    crc poly 0#16 (bs.take 9 ++ (bs.drop 17 ++ (bs.drop 9).take 8)) ≠ 0#16 := by decide +kernel

theorem late_exchanged : ∀ d : Fin 32, d ≠ 0 → ∀ m : Fin 4,
    let bs := List.replicate (5*m.val) false ++
      (bits 5 d.val ++ (bits 5 d.val ++ List.replicate (5*(3-m.val)) false))
    crc poly 0#16 (bs.take 9 ++ (bs.drop 17 ++ (bs.drop 9).take 8)) ≠ 0#16 := by decide +kernel

theorem replaced_detected (d m n : ℕ) (hd : d < 32) (h0 : d ≠ 0) (h : m+n = 55) :
    crc poly 0#16 (turned (List.replicate (5*m) false ++
      (bits 5 d ++ List.replicate (5*n) false))) ≠ 0#16 := by
  by_cases hm : m ≤ 51
  · rw [← List.append_assoc, turned_early _ _ (by simp; omega) (by simp; omega), List.append_assoc]
    exact burst poly (by decide) _ _ _ (by simp) (bits_true 5 d hd h0)
  · have hlate := late_replaced ⟨d,hd⟩ (by simpa using h0) ⟨m-52,by omega⟩
    rw [show 5*m = 255+5*(m-52+1) by omega, List.replicate_add, List.append_assoc, turned_late]
    rwa [show n = 3-(m-52) by omega]

theorem exchanged_detected (d m n : ℕ) (hd : d < 32) (h0 : d ≠ 0) (h : m+n = 54) :
    crc poly 0#16 (turned (List.replicate (5*m) false ++
      (bits 5 d ++ (bits 5 d ++ List.replicate (5*n) false)))) ≠ 0#16 := by
  by_cases hm : m ≤ 50
  · rw [← List.append_assoc, ← List.append_assoc, turned_early _ _ (by simp; omega) (by simp; omega),
      List.append_assoc, List.append_assoc, ← List.append_assoc (bits 5 d)]
    exact burst poly (by decide) _ _ _ (by simp) (List.mem_append_left _ (bits_true 5 d hd h0))
  · have hlate := late_exchanged ⟨d,hd⟩ (by simpa using h0) ⟨m-51,by omega⟩
    rw [show 5*m = 255+5*(m-51) by omega, List.replicate_add, List.append_assoc, turned_late]
    rwa [show n = 3-(m-51) by omega]

theorem textBits_append (s t : Str) : textBits (s ++ t) = textBits s ++ textBits t :=
  List.flatMap_append

theorem textBits_length (s : Str) : (textBits s).length = 5*s.length := by
  induction s with
  | nil => rfl
  | cons c s ih =>
    rw [textBits, List.flatMap_cons, List.length_append, ← textBits, ih, charBits, bits_length,
      List.length_cons]
    omega

theorem charBits_xor (c d : CodePoint) (hc : ∃ n < 32, c = symbol32 n)
    (hd : ∃ n < 32, d = symbol32 n) (h : c ≠ d) : ∃ x < 32, x ≠ 0 ∧
      List.zipWith xor (charBits c) (charBits d) = bits 5 x ∧
      List.zipWith xor (charBits d) (charBits c) = bits 5 x := by
  obtain ⟨u,hu,rfl⟩ := hc
  obtain ⟨v,hv,rfl⟩ := hd
  refine ⟨u ^^^ v,Nat.xor_lt_two_pow (n := 5) hu hv,?_,?_,?_⟩
  · rw [Nat.xor_ne_zero_iff]
    rintro rfl
    exact h rfl
  · rw [charBits_symbol u hu, charBits_symbol v hv, bits_xor]
  · rw [charBits_symbol u hu, charBits_symbol v hv, Nat.xor_comm, bits_xor]

theorem xor_same (bs : List Bool) : List.zipWith xor bs bs = List.replicate bs.length false := by
  simp

theorem textBits_change (before after s t : Str) (h : s.length = t.length) :
    List.zipWith xor (textBits (before ++ (s ++ after))) (textBits (before ++ (t ++ after))) =
      List.replicate (5*before.length) false ++ (List.zipWith xor (textBits s) (textBits t) ++
        List.replicate (5*after.length) false) := by
  simp only [textBits_append]
  rw [List.zipWith_append rfl, List.zipWith_append (by rw [textBits_length, textBits_length, h]),
    xor_same, xor_same, textBits_length, textBits_length]

structure Checked (s : Str) : Prop where
  length : s.length = 56
  symbols : ∀ c ∈ s, ∃ n < 32, c = symbol32 n
  empty : crc poly 0#16 (turned (textBits s)) = 0#16

theorem checked_xor {s t : Str} (hs : Checked s) (ht : Checked t) :
    crc poly 0#16 (turned (List.zipWith xor (textBits s) (textBits t))) = 0#16 := by
  have hl : (textBits s).length = (textBits t).length := by
    rw [textBits_length, textBits_length, hs.length, ht.length]
  have hx := crc_xor poly 0#16 0#16 (turned (textBits s)) (turned (textBits t))
    (by simp [turned, hl])
  rw [turned_xor _ _ hl]
  rw [hs.empty, ht.empty, BitVec.xor_self] at hx
  exact hx

theorem slip_unchecked (s t : Str) (h : Slip s t) (hs : Checked s) : ¬ Checked t := by
  intro ht
  have hempty := checked_xor hs ht
  cases h with
  | replaced before after c d hne =>
    obtain ⟨x,hx,h0,hcd,_⟩ := charBits_xor c d (hs.symbols c (by simp)) (ht.symbols d (by simp)) hne
    have hlen := hs.length
    rw [List.length_append, List.length_cons] at hlen
    have hchange := textBits_change before after [c] [d] rfl
    simp only [textBits, List.flatMap_singleton, hcd] at hchange
    rw [← List.singleton_append, ← List.singleton_append (l := after) (x := d)] at hempty
    simp only [textBits, hchange] at hempty
    exact replaced_detected x _ _ hx h0 (by omega) hempty
  | exchanged before after c d hne =>
    obtain ⟨x,hx,h0,hcd,hdc⟩ := charBits_xor c d (hs.symbols c (by simp)) (hs.symbols d (by simp)) hne
    have hlen := hs.length
    rw [List.length_append, List.length_cons, List.length_cons] at hlen
    have hchange := textBits_change before after [c,d] [d,c] rfl
    have hpair : List.zipWith xor (textBits [c,d]) (textBits [d,c]) = bits 5 x ++ bits 5 x := by
      simp only [textBits, List.flatMap_cons, List.flatMap_nil, List.append_nil]
      rw [List.zipWith_append (by simp [charBits]), hcd, hdc]
    rw [hpair, List.append_assoc] at hchange
    have hempty' : crc poly 0#16 (turned (List.zipWith xor (textBits (before ++ ([c,d] ++ after)))
      (textBits (before ++ ([d,c] ++ after))))) = 0#16 := hempty
    rw [hchange] at hempty'
    exact exchanged_detected x _ _ hx h0 (by omega) hempty'

section Accepted
variable [Platform]

theorem accepted_checked (s : Str) (kp : KeyPair) (h : fromPublicKey s = .ok kp) : Checked s := by
  obtain ⟨rfl,_⟩ := fromPublicKey_ok s kp h
  rw [KeyPair.publicKey, encodePublic, sealed]
  have hraw : (kp.role.byte :: kp.publicRaw.val).length = 33 := by
    rw [List.length_cons, kp.publicRaw.property]
  have hfull : ((kp.role.byte :: kp.publicRaw.val) ++
      crcBytes (crc16 (kp.role.byte :: kp.publicRaw.val))).length = 35 := by
    rw [List.length_append, hraw, crcBytes_length]
  have hbits := b32encode_bits _ (by rw [hfull])
  refine ⟨?_,b32encode_symbol _,?_⟩
  · have hlen := congrArg List.length hbits
    rw [textBits_length, byteBits_length, hfull] at hlen
    omega
  · rw [hbits]
    exact sealed_check _ hraw

/-- No slip of the fingers turns an accepted key into another one. -/
theorem slip_rejected (s t : Str) (kp : KeyPair) (h : fromPublicKey s = .ok kp) (hs : Slip s t) :
    ∃ e, fromPublicKey t = .error e ∧ e.isValiss = true := by
  cases ht : fromPublicKey t with
  | ok kp' =>
    exact absurd (accepted_checked t kp' ht) (slip_unchecked s t hs (accepted_checked s kp h))
  | error e => exact ⟨e,rfl,HostileTokens.fromPublicKey_onlyValiss t e ht⟩

end Accepted

section Domain
local instance : Platform := domain.honest

/-- The operator's key with its first two characters exchanged. -/
theorem slip_rejected_operator : ∃ rest, operatorKey = 79 :: 67 :: rest ∧
    ∃ e, fromPublicKey (67 :: 79 :: rest) = .error e ∧ e.isValiss = true := by
  have hkey : operatorKey = 79 :: 67 :: operatorKey.drop 2 := by decide +kernel
  refine ⟨operatorKey.drop 2,hkey,?_⟩
  have haccepted := fromPublicKey_publicKey ⟨.operator,operatorRaw,none,fun _ h => by cases h⟩
  refine slip_rejected operatorKey _ _ haccepted ?_
  have hs := Slip.exchanged [] (operatorKey.drop 2) 79 67 (by decide)
  rw [List.nil_append, List.nil_append, ← hkey] at hs
  exact hs

end Domain

end Valiss.TypingSlips
