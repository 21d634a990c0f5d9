import Valiss.Lib.Base64

/-!
# Base32 text

Decoding follows `base64.b32decode`: pads are stripped and counted, full quanta
give five bytes, the last partial quantum is shifted up and cut. Text without
a partial quantum is canonical: it is the encoding of what it decodes to.
-/

set_option autoImplicit false

namespace Lib.Base32
open Lib.Unicode Lib.Base64

def symbol32 (n : ℕ) : CodePoint := if n < 26 then codePoint (65+n) else codePoint (24+n)

def quintet (c : CodePoint) : Option ℕ :=
  if 65 ≤ c.val ∧ c.val < 91 then some (c.val-65)
  else if 50 ≤ c.val ∧ c.val < 56 then some (c.val-24) else none

theorem symbol32_facts : ∀ n : Fin 32, quintet (symbol32 n) = some n.val ∧
    symbol32 n ≠ padChar ∧ (symbol32 n).val < 0x80 := by decide

theorem quintet_symbol (n : ℕ) (h : n < 32) : quintet (symbol32 n) = some n :=
  (symbol32_facts ⟨n,h⟩).1

theorem symbol32_ne_pad (n : ℕ) (h : n < 32) : symbol32 n ≠ padChar := (symbol32_facts ⟨n,h⟩).2.1

theorem quintet_some (c : CodePoint) (n : ℕ) (h : quintet c = some n) :
    n < 32 ∧ symbol32 n = c := by
  unfold quintet at h
  split at h
  · next hc =>
    obtain rfl := Option.some.inj h
    refine ⟨by omega,?_⟩
    rw [symbol32, if_pos (by omega), show 65+(c.val-65) = c.val by omega, codePoint_of_val]
  · split at h
    · next hc =>
      obtain rfl := Option.some.inj h
      refine ⟨by omega,?_⟩
      rw [symbol32, if_neg (by omega), show 24+(c.val-24) = c.val by omega, codePoint_of_val]
    · simp at h

/-- `base64.b32encode(raw).rstrip("=")`. -/
def b32encode : Bytes → Str
  | [] => []
  | [a] => [symbol32 (a.val/8), symbol32 (a.val%8*4)]
  | [a,b] => [symbol32 (a.val/8), symbol32 (a.val%8*4+b.val/64), symbol32 (b.val/2%32),
      symbol32 (b.val%2*16)]
  | [a,b,c] => [symbol32 (a.val/8), symbol32 (a.val%8*4+b.val/64), symbol32 (b.val/2%32),
      symbol32 (b.val%2*16+c.val/16), symbol32 (c.val%16*2)]
  | [a,b,c,d] => [symbol32 (a.val/8), symbol32 (a.val%8*4+b.val/64), symbol32 (b.val/2%32),
      symbol32 (b.val%2*16+c.val/16), symbol32 (c.val%16*2+d.val/128), symbol32 (d.val/4%32),
      symbol32 (d.val%4*8)]
  | a::b::c::d::e::rest => symbol32 (a.val/8) :: symbol32 (a.val%8*4+b.val/64) ::
      symbol32 (b.val/2%32) :: symbol32 (b.val%2*16+c.val/16) ::
      symbol32 (c.val%16*2+d.val/128) :: symbol32 (d.val/4%32) ::
      symbol32 (d.val%4*8+e.val/32) :: symbol32 (e.val%32) :: b32encode rest

/-- Value of a quantum: `acc = (acc << 5) + b32rev[c]` over its characters. -/
def quantum : Str → ℕ → Option ℕ
  | [], acc => some acc
  | c::cs, acc => match quintet c with
    | none => none
    | some v => quantum cs (acc*32+v)

/-- `acc.to_bytes(5, "big")`. -/
def toBytes5 (acc : ℕ) : Bytes :=
  [byte (acc/4294967296), byte (acc/16777216), byte (acc/65536), byte (acc/256), byte acc]

def decodeQuanta : Str → Option Bytes
  | c0::c1::c2::c3::c4::c5::c6::c7::rest => do
    let acc ← quantum [c0,c1,c2,c3,c4,c5,c6,c7] 0
    (decodeQuanta rest).map (toBytes5 acc ++ ·)
  | cs => do
    let acc ← quantum cs 0
    let padchars := 8-cs.length
    if cs = [] then some [] else some ((toBytes5 (acc*32^padchars)).take ((43-5*padchars)/8))

/-- `base64.b32decode`; `none` is binascii.Error, or ValueError on non-ASCII text. -/
def b32decode (s : Str) : Option Bytes :=
  let data := rstrip padChar s
  if s.length%8 ≠ 0 ∨ s.length-data.length ∉ [0,1,3,4,6] then none else decodeQuanta data

theorem quantum_symbol (v acc : ℕ) (cs : Str) (h : v < 32) :
    quantum (symbol32 v::cs) acc = quantum cs (acc*32+v) := by
  simp [quantum, quintet_symbol v h]

theorem byte_mod (n : ℕ) (b : Byte) (h : n%256 = b.val) : byte n = b := Fin.ext h

theorem decode_encode_quanta (bs : Bytes) : decodeQuanta (b32encode bs) = some bs := by
  induction bs using b32encode.induct with
  | case1 => rfl
  | case2 a =>
    have ha := a.isLt
    simp only [b32encode, decodeQuanta]
    rw [quantum_symbol _ _ _ (by omega), quantum_symbol _ _ _ (by omega)]
    simp only [quantum, zero_mul, zero_add, reduceCtorEq, if_false, List.length_cons,
      List.length_nil, Nat.reduceAdd, Nat.reduceSub, Nat.reduceMul, Nat.reduceDiv, toBytes5,
      Nat.reducePow, List.take_succ_cons, List.take_zero, Option.bind_eq_bind, Option.bind_some,
      Option.some.injEq, List.cons.injEq, and_true]
    exact byte_mod _ a (by omega)
  | case3 a b =>
    have ha := a.isLt
    have hb := b.isLt
    simp only [b32encode, decodeQuanta]
    rw [quantum_symbol _ _ _ (by omega), quantum_symbol _ _ _ (by omega),
      quantum_symbol _ _ _ (by omega), quantum_symbol _ _ _ (by omega)]
    simp only [quantum, zero_mul, zero_add, reduceCtorEq, if_false, List.length_cons,
      List.length_nil, Nat.reduceAdd, Nat.reduceSub, Nat.reduceMul, Nat.reduceDiv, toBytes5,
      Nat.reducePow, List.take_succ_cons, List.take_zero, Option.bind_eq_bind, Option.bind_some,
      Option.some.injEq, List.cons.injEq, and_true]
    exact ⟨byte_mod _ a (by omega),byte_mod _ b (by omega)⟩
  | case4 a b c =>
    have ha := a.isLt
    have hb := b.isLt
    have hc := c.isLt
    simp only [b32encode, decodeQuanta]
    rw [quantum_symbol _ _ _ (by omega), quantum_symbol _ _ _ (by omega),
      quantum_symbol _ _ _ (by omega), quantum_symbol _ _ _ (by omega),
      quantum_symbol _ _ _ (by omega)]
    simp only [quantum, zero_mul, zero_add, reduceCtorEq, if_false, List.length_cons,
      List.length_nil, Nat.reduceAdd, Nat.reduceSub, Nat.reduceMul, Nat.reduceDiv, toBytes5,
      Nat.reducePow, List.take_succ_cons, List.take_zero, Option.bind_eq_bind, Option.bind_some,
      Option.some.injEq, List.cons.injEq, and_true]
    exact ⟨byte_mod _ a (by omega),byte_mod _ b (by omega),byte_mod _ c (by omega)⟩
  | case5 a b c d =>
    have ha := a.isLt
    have hb := b.isLt
    have hc := c.isLt
    have hd := d.isLt
    simp only [b32encode, decodeQuanta]
    rw [quantum_symbol _ _ _ (by omega), quantum_symbol _ _ _ (by omega),
      quantum_symbol _ _ _ (by omega), quantum_symbol _ _ _ (by omega),
      quantum_symbol _ _ _ (by omega), quantum_symbol _ _ _ (by omega),
      quantum_symbol _ _ _ (by omega)]
    simp only [quantum, zero_mul, zero_add, reduceCtorEq, if_false, List.length_cons,
      List.length_nil, Nat.reduceAdd, Nat.reduceSub, Nat.reduceMul, Nat.reduceDiv, toBytes5,
      Nat.reducePow, List.take_succ_cons, List.take_zero, Option.bind_eq_bind, Option.bind_some,
      Option.some.injEq, List.cons.injEq, and_true]
    exact ⟨byte_mod _ a (by omega),byte_mod _ b (by omega),byte_mod _ c (by omega),
      byte_mod _ d (by omega)⟩
  | case6 a b c d e rest ih =>
    have ha := a.isLt
    have hb := b.isLt
    have hc := c.isLt
    have hd := d.isLt
    have he := e.isLt
    simp only [b32encode, decodeQuanta, ih]
    rw [quantum_symbol _ _ _ (by omega), quantum_symbol _ _ _ (by omega),
      quantum_symbol _ _ _ (by omega), quantum_symbol _ _ _ (by omega),
      quantum_symbol _ _ _ (by omega), quantum_symbol _ _ _ (by omega),
      quantum_symbol _ _ _ (by omega), quantum_symbol _ _ _ (by omega)]
    simp only [quantum, Option.bind_eq_bind, Option.bind_some, toBytes5]
    rw [byte_mod _ a (by omega), byte_mod _ b (by omega), byte_mod _ c (by omega),
      byte_mod _ d (by omega), byte_mod _ e (by omega)]
    rfl

theorem quantum_some (c : CodePoint) (cs : Str) (acc n : ℕ) (h : quantum (c::cs) acc = some n) :
    ∃ v, v < 32 ∧ symbol32 v = c ∧ quantum cs (acc*32+v) = some n := by
  rw [quantum] at h
  cases hq : quintet c with
  | none => simp [hq] at h
  | some v =>
    obtain ⟨hv,hs⟩ := quintet_some c v hq
    exact ⟨v,hv,hs,by simpa [hq] using h⟩

theorem encode_toBytes5 (v0 v1 v2 v3 v4 v5 v6 v7 : ℕ) (h0 : v0 < 32) (h1 : v1 < 32)
    (h2 : v2 < 32) (h3 : v3 < 32) (h4 : v4 < 32) (h5 : v5 < 32) (h6 : v6 < 32) (h7 : v7 < 32)
    (n : ℕ) (hn : n = v0*34359738368+v1*1073741824+v2*33554432+v3*1048576+v4*32768+v5*1024+
      v6*32+v7) (rest : Bytes) :
    b32encode (toBytes5 n ++ rest) = symbol32 v0 :: symbol32 v1 :: symbol32 v2 :: symbol32 v3 ::
      symbol32 v4 :: symbol32 v5 :: symbol32 v6 :: symbol32 v7 :: b32encode rest := by
  simp only [toBytes5, List.cons_append, List.nil_append, b32encode]
  have e : ∀ k, (byte k).val = k%256 := fun k => rfl
  simp only [e]
  have a0 : n/4294967296%256/8 = v0 := by omega
  have a1 : n/4294967296%256%8*4+n/16777216%256/64 = v1 := by omega
  have a2 : n/16777216%256/2%32 = v2 := by omega
  have a3 : n/16777216%256%2*16+n/65536%256/16 = v3 := by omega
  have a4 : n/65536%256%16*2+n/256%256/128 = v4 := by omega
  have a5 : n/256%256/4%32 = v5 := by omega
  have a6 : n/256%256%4*8+n%256/32 = v6 := by omega
  have a7 : n%256%32 = v7 := by omega
  rw [a0, a1, a2, a3, a4, a5, a6, a7]

theorem encode_decode_quanta (s : Str) (bs : Bytes) (h : decodeQuanta s = some bs)
    (hl : s.length%8 = 0) : b32encode bs = s := by
  induction s using decodeQuanta.induct generalizing bs with
  | case1 c0 c1 c2 c3 c4 c5 c6 c7 rest ih =>
    simp only [decodeQuanta, Option.bind_eq_bind, Option.bind_eq_some_iff,
      Option.map_eq_some_iff] at h
    obtain ⟨acc,hacc,more,hm,rfl⟩ := h
    obtain ⟨v0,h0,rfl,e0⟩ := quantum_some _ _ _ _ hacc
    obtain ⟨v1,h1,rfl,e1⟩ := quantum_some _ _ _ _ e0
    obtain ⟨v2,h2,rfl,e2⟩ := quantum_some _ _ _ _ e1
    obtain ⟨v3,h3,rfl,e3⟩ := quantum_some _ _ _ _ e2
    obtain ⟨v4,h4,rfl,e4⟩ := quantum_some _ _ _ _ e3
    obtain ⟨v5,h5,rfl,e5⟩ := quantum_some _ _ _ _ e4
    obtain ⟨v6,h6,rfl,e6⟩ := quantum_some _ _ _ _ e5
    obtain ⟨v7,h7,rfl,e7⟩ := quantum_some _ _ _ _ e6
    simp only [quantum, Option.some.injEq] at e7
    rw [encode_toBytes5 v0 v1 v2 v3 v4 v5 v6 v7 h0 h1 h2 h3 h4 h5 h6 h7 acc (by omega),
      ih more hm (by simp only [List.length_cons] at hl; omega)]
  | case2 cs hcs =>
    have : cs = [] := by
      match cs, hcs, hl with
      | [], _, _ => rfl
      | c0::c1::c2::c3::c4::c5::c6::c7::rest, hcs, _ => exact absurd rfl (hcs _ _ _ _ _ _ _ _ _)
    subst this
    simp only [decodeQuanta, quantum, Option.bind_eq_bind, Option.bind_some, if_true,
      Option.some.injEq] at h
    rw [← h]
    rfl

theorem decodeQuanta_length (s : Str) (bs : Bytes) (h : decodeQuanta s = some bs)
    (hl : bs.length%5 = 0) (hp : (8-s.length%8)%8 ∈ [0,1,3,4,6]) : s.length%8 = 0 := by
  induction s using decodeQuanta.induct generalizing bs with
  | case1 c0 c1 c2 c3 c4 c5 c6 c7 rest ih =>
    simp only [decodeQuanta, Option.bind_eq_bind, Option.bind_eq_some_iff,
      Option.map_eq_some_iff] at h
    obtain ⟨acc,hacc,more,hm,rfl⟩ := h
    simp only [toBytes5, List.length_append, List.length_cons, List.length_nil] at hl hp ⊢
    have hrest : rest.length%8 = (rest.length+1+1+1+1+1+1+1+1)%8 := by omega
    have := ih more hm (by omega) (by rwa [hrest])
    omega
  | case2 cs hcs =>
    match cs, hcs, h, hp with
    | [], _, _, _ => rfl
    | [_], _, _, hp => simp at hp
    | [_,_], _, h, _ =>
      simp only [decodeQuanta, Option.bind_eq_bind, Option.bind_eq_some_iff] at h
      obtain ⟨acc,_,he⟩ := h
      obtain rfl := Option.some.inj he
      simp [toBytes5] at hl
    | [_,_,_], _, _, hp => simp at hp
    | [_,_,_,_], _, h, _ =>
      simp only [decodeQuanta, Option.bind_eq_bind, Option.bind_eq_some_iff] at h
      obtain ⟨acc,_,he⟩ := h
      obtain rfl := Option.some.inj he
      simp [toBytes5] at hl
    | [_,_,_,_,_], _, h, _ =>
      simp only [decodeQuanta, Option.bind_eq_bind, Option.bind_eq_some_iff] at h
      obtain ⟨acc,_,he⟩ := h
      obtain rfl := Option.some.inj he
      simp [toBytes5] at hl
    | [_,_,_,_,_,_], _, _, hp => simp at hp
    | [_,_,_,_,_,_,_], _, h, _ =>
      simp only [decodeQuanta, Option.bind_eq_bind, Option.bind_eq_some_iff] at h
      obtain ⟨acc,_,he⟩ := h
      obtain rfl := Option.some.inj he
      simp [toBytes5] at hl
    | c0::c1::c2::c3::c4::c5::c6::c7::rest, hcs, _, _ => exact absurd rfl (hcs _ _ _ _ _ _ _ _ _)

theorem b32encode_injective : Function.Injective b32encode := by
  intro a b h
  have hd := congrArg decodeQuanta h
  rwa [decode_encode_quanta, decode_encode_quanta, Option.some.injEq] at hd

theorem b32encode_ne_nil (bs : Bytes) (h : bs ≠ []) : b32encode bs ≠ [] := by
  fun_cases b32encode bs <;> simp_all

theorem b32encode_symbol (bs : Bytes) : ∀ c ∈ b32encode bs, ∃ n < 32, c = symbol32 n := by
  induction bs using b32encode.induct with
  | case1 => simp [b32encode]
  | case2 a =>
    have ha := a.isLt
    simp only [b32encode, List.mem_cons, List.not_mem_nil, or_false]
    rintro x (rfl | rfl)
    all_goals exact ⟨_,by omega,rfl⟩
  | case3 a b =>
    have ha := a.isLt
    have hb := b.isLt
    simp only [b32encode, List.mem_cons, List.not_mem_nil, or_false]
    rintro x (rfl | rfl | rfl | rfl)
    all_goals exact ⟨_,by omega,rfl⟩
  | case4 a b c =>
    have ha := a.isLt
    have hb := b.isLt
    have hc := c.isLt
    simp only [b32encode, List.mem_cons, List.not_mem_nil, or_false]
    rintro x (rfl | rfl | rfl | rfl | rfl)
    all_goals exact ⟨_,by omega,rfl⟩
  | case5 a b c d =>
    have ha := a.isLt
    have hb := b.isLt
    have hc := c.isLt
    have hd := d.isLt
    simp only [b32encode, List.mem_cons, List.not_mem_nil, or_false]
    rintro x (rfl | rfl | rfl | rfl | rfl | rfl | rfl)
    all_goals exact ⟨_,by omega,rfl⟩
  | case6 a b c d e rest ih =>
    simp only [b32encode, List.mem_cons]
    have ha := a.isLt
    have hb := b.isLt
    have hc := c.isLt
    have hd := d.isLt
    have he := e.isLt
    rintro x (rfl | rfl | rfl | rfl | rfl | rfl | rfl | rfl | hx)
    on_goal 9 => exact ih x hx
    all_goals exact ⟨_,by omega,rfl⟩

theorem b32encode_pads (bs : Bytes) : (8-(b32encode bs).length%8)%8 ∈ [0,1,3,4,6] := by
  induction bs using b32encode.induct with
  | case1 => decide
  | case2 a => simp [b32encode]
  | case3 a b => simp [b32encode]
  | case4 a b c => simp [b32encode]
  | case5 a b c d => simp [b32encode]
  | case6 a b c d e rest ih =>
    have h8 : (b32encode (a::b::c::d::e::rest)).length%8 = (b32encode rest).length%8 := by
      simp only [b32encode, List.length_cons]
      omega
    rwa [h8]

theorem decode_encode (bs : Bytes) :
    b32decode (b32encode bs ++ List.replicate ((8-(b32encode bs).length%8)%8) padChar) =
      some bs := by
  have hp := b32encode_pads bs
  have hs : rstrip padChar (b32encode bs ++
      List.replicate ((8-(b32encode bs).length%8)%8) padChar) = b32encode bs := by
    apply rstrip_replicate
    intro hm
    obtain ⟨n,hn,he⟩ := b32encode_symbol bs _ hm
    exact symbol32_ne_pad n hn he.symm
  unfold b32decode
  simp only [hs, List.length_append, List.length_replicate, Nat.add_sub_cancel_left]
  rw [if_neg, decode_encode_quanta bs]
  rintro (h | h)
  · omega
  · exact h hp

/-- Conversely, text that decodes to whole quanta is their encoding. -/
theorem encode_decode (s : Str) (bs : Bytes) (h : b32decode s = some bs) (hl : bs.length%5 = 0) :
    b32encode bs = s ∧ rstrip padChar s = s := by
  unfold b32decode at h
  simp only [Option.ite_none_left_eq_some] at h
  obtain ⟨hc,hd⟩ := h
  obtain ⟨hs,hp⟩ := not_or.1 hc
  rw [not_not] at hs hp
  obtain ⟨k,hk⟩ := rstrip_split padChar s
  have hk' : s.length = (rstrip padChar s).length+k := by
    conv_lhs => rw [hk]
    simp
  have hm : k ∈ [0,1,3,4,6] := by rwa [hk', Nat.add_sub_cancel_left] at hp
  have h8 : (rstrip padChar s).length%8 = 0 := by
    apply decodeQuanta_length _ bs hd hl
    simp only [List.mem_cons, List.not_mem_nil, or_false] at hm ⊢
    omega
  have hz : k = 0 := by
    simp only [List.mem_cons, List.not_mem_nil, or_false] at hm
    omega
  have he : rstrip padChar s = s := by
    conv_rhs => rw [hk]
    simp [hz]
  rw [he] at hd h8
  exact ⟨encode_decode_quanta s bs hd h8,he⟩

end Lib.Base32
