import Valiss.Errors

/-!
# Ed25519 nkeys

Key text is unpadded base32 of a role byte, the key and a CRC16 of both. An
accepted public key is the encoding of what was read from it, so comparing key
texts compares keys.
-/

set_option autoImplicit false

namespace Valiss.Nkeys
open Lib.Unicode Lib.Base64 Lib.Base32 Lib.Fallible Valiss.Errors

inductive Role where
  | operator
  | account
  | user
  deriving DecidableEq

/-- The nkey type byte, `prefix` in the source. -/
def Role.byte : Role → Byte
  | .operator => 112
  | .account => 0
  | .user => 160

def seedByte : ℕ := 144

/-- `prefix in _PUBLIC_PREFIXES` -/
def roleOf (n : ℕ) : Option Role :=
  if n = 112 then some .operator else if n = 0 then some .account
  else if n = 160 then some .user else none

theorem roleOf_byte (r : Role) : roleOf r.byte.val = some r := by
  cases r <;> rfl

theorem roleOf_some (b : Byte) (r : Role) (h : roleOf b.val = some r) : r.byte = b := by
  unfold roleOf at h
  split_ifs at h with h1 h2 h3
  all_goals
    obtain rfl := Option.some.inj h
    exact Fin.ext (by simp [Role.byte, *])

def crcBit (crc : BitVec 16) : BitVec 16 :=
  if crc.msb then (crc <<< 1) ^^^ 0x1021#16 else crc <<< 1

def crcByte (crc : BitVec 16) (b : Byte) : BitVec 16 :=
  crcBit^[8] (crc ^^^ (BitVec.ofNat 16 b.val <<< 8))

def crc16 (data : Bytes) : BitVec 16 := data.foldl crcByte 0#16

/-- `crc.to_bytes(2, "little")` -/
def crcBytes (crc : BitVec 16) : Bytes := [byte crc.toNat, byte (crc.toNat/256)]

def sealed (raw : Bytes) : Str := b32encode (raw ++ crcBytes (crc16 raw))

variable [Platform]

def b32decodeNkey (encoded : Str) : Py Bytes :=
  let pad := List.replicate ((8-encoded.length%8)%8) padChar
  ofOption (err (lit "valiss: invalid nkey encoding: " ++ Platform.base32Text encoded))
    (b32decode (encoded ++ pad))

def decode (encoded : Str) : Py Bytes := do
  let raw ← b32decodeNkey encoded
  raiseIf (raw.length < 4) (err (lit "valiss: invalid nkey: too short"))
  let data := raw.take (raw.length-2)
  raiseIf (crcBytes (crc16 data) ≠ raw.drop (raw.length-2))
    (err (lit "valiss: invalid nkey: checksum mismatch"))
  return data

def encodePublic (r : Role) (raw : Bytes) : Str := sealed (r.byte :: raw)

def encodeSeed (r : Role) (raw : Bytes) : Str :=
  sealed (byte (seedByte+r.byte.val/32) :: byte (r.byte.val%32*8) :: raw)

def decodePublic (encoded : Str) : Py (Role × Bytes) := do
  let data ← decode encoded
  let r ← ofOption (err (lit "valiss: not a public nkey")) (roleOf (data.headD 0).val)
  return (r,data.drop 1)

def decodeSeed (encoded : Str) : Py (Role × Bytes) := do
  let data ← decode encoded
  raiseIf (data.length < 4) (err (lit "valiss: invalid nkey seed: too short"))
  let b1 := (data.getD 0 0).val
  let b2 := (data.getD 1 0).val
  raiseIf (b1/8*8 ≠ seedByte) (err (lit "valiss: not an nkey seed"))
  let r ← ofOption (err (lit "valiss: invalid nkey seed prefix")) (roleOf (b1%8*32+b2/8))
  raiseIf (data.length-2 ≠ 32) (err (lit "valiss: invalid nkey seed length"))
  return (r,data.drop 2)

def isValidPublic (encoded : Str) (r : Role) : Bool :=
  match decodePublic encoded with
  | .ok (got,raw) => decide (got = r ∧ raw.length = 32)
  | .error _ => false

def isValidPublicOperatorKey (encoded : Str) : Bool := isValidPublic encoded .operator

def isValidPublicAccountKey (encoded : Str) : Bool := isValidPublic encoded .account

def isValidPublicUserKey (encoded : Str) : Bool := isValidPublic encoded .user

/-- An nkey pair; a seed it holds is the seed of its public key. -/
structure KeyPair where
  role : Role
  publicRaw : Key
  seed : Option Key
  paired : ∀ s ∈ seed, Platform.publicOf s = publicRaw

namespace KeyPair

def publicKey (kp : KeyPair) : Str := encodePublic kp.role kp.publicRaw.val

def sign (kp : KeyPair) (data : Bytes) : Py Bytes :=
  match kp.seed with
  | some s => .ok (Platform.edSign s data)
  | none => .error (err (lit "valiss: key pair cannot sign: no seed"))

def verify (kp : KeyPair) (data signature : Bytes) : Py Unit :=
  raiseIf (¬ Platform.edVerify kp.publicRaw data signature)
    (err (lit "valiss: signature verification failed"))

def ofSeed (r : Role) (s : Key) : KeyPair :=
  ⟨r,Platform.publicOf s,some s,fun _ h => by rw [Option.mem_some.1 h]⟩

end KeyPair

def key? (raw : Bytes) : Option Key := if h : raw.length = 32 then some ⟨raw,h⟩ else none

def fromSeed (seed : Str) : Py KeyPair := do
  let (r,raw) ← decodeSeed (strip seed)
  let s ← ofOption (err (lit "valiss: invalid nkey seed length")) (key? raw)
  return KeyPair.ofSeed r s

def fromPublicKey (encoded : Str) : Py KeyPair := do
  let (r,raw) ← decodePublic encoded
  let k ← ofOption (err (lit "valiss: invalid nkey public key length")) (key? raw)
  return ⟨r,k,none,fun _ h => by cases h⟩

omit [Platform] in
theorem key?_some (raw : Bytes) (k : Key) : key? raw = some k ↔ k.val = raw := by
  unfold key?
  split_ifs with h
  · rw [Option.some.injEq]
    exact ⟨fun e => by rw [← e],fun e => Subtype.ext e.symm⟩
  · simp only [false_iff]
    rintro rfl
    exact h k.property

omit [Platform] in
theorem crcBytes_length (crc : BitVec 16) : (crcBytes crc).length = 2 := rfl

theorem decode_sealed (raw : Bytes) (h : 2 ≤ raw.length) : decode (sealed raw) = .ok raw := by
  have hd : b32decodeNkey (sealed raw) = .ok (raw ++ crcBytes (crc16 raw)) := by
    simp only [b32decodeNkey, ofOption_ok]
    exact decode_encode _
  unfold decode
  rw [hd, ok_bind]
  have hlen : (raw ++ crcBytes (crc16 raw)).length = raw.length+2 := by
    rw [List.length_append, crcBytes_length]
  rw [raiseIf_neg _ _ (by omega), ok_bind]
  simp only [hlen, Nat.add_sub_cancel, List.take_left', List.drop_left', ne_eq,
    not_true_eq_false, raiseIf_neg, not_false_eq_true, ok_bind]
  rfl

theorem decode_ok (encoded : Str) (data : Bytes) (h : decode encoded = .ok data) :
    ∃ raw, b32decodeNkey encoded = .ok raw ∧ raw = data ++ crcBytes (crc16 data) ∧
      2 ≤ data.length := by
  simp only [decode, bind_ok, raiseIf_ok, pure_ok, not_not] at h
  obtain ⟨raw,hraw,_,hlen,_,hcrc,rfl⟩ := h
  refine ⟨raw,hraw,?_,?_⟩
  · rw [hcrc, List.take_append_drop]
  · rw [List.length_take]
    omega

theorem b32decodeNkey_ok (encoded : Str) (raw : Bytes) (h : b32decodeNkey encoded = .ok raw)
    (hl : raw.length%5 = 0) : b32encode raw = encoded := by
  simp only [b32decodeNkey, ofOption_ok] at h
  obtain ⟨he,hs⟩ := encode_decode _ _ h hl
  rw [he]
  by_cases hz : (8-encoded.length%8)%8 = 0
  · simp [hz]
  · obtain ⟨k,hk⟩ := Nat.exists_eq_succ_of_ne_zero hz
    rw [hk, Nat.succ_eq_add_one, List.replicate_succ', ← List.append_assoc, rstrip,
      List.rdropWhile_concat_pos _ _ _ (by simp)] at hs
    have := congrArg List.length hs
    have hle := (List.rdropWhile_prefix (fun c => decide (c = padChar))
      (encoded++List.replicate k padChar)).length_le
    rw [List.length_append, List.length_singleton] at this
    omega

/-- An accepted public key is the encoding of the role and key read from it. -/
theorem decodePublic_canonical (s : Str) (r : Role) (raw : Bytes)
    (h : decodePublic s = .ok (r,raw)) (hl : raw.length = 32) : encodePublic r raw = s := by
  simp only [decodePublic, bind_ok, ofOption_ok, pure_ok, Prod.mk.injEq] at h
  obtain ⟨data,hd,r',hr,rfl,rfl⟩ := h
  obtain ⟨full,hfull,rfl,hlen⟩ := decode_ok s data hd
  have hb := roleOf_some _ _ hr
  cases data with
  | nil => simp at hlen
  | cons b rest =>
    simp only [List.headD_cons] at hb
    simp only [List.drop_succ_cons, List.drop_zero] at hl ⊢
    rw [encodePublic, sealed, hb]
    apply b32decodeNkey_ok s _ hfull
    simp [crcBytes_length, hl]

theorem decodePublic_encode (r : Role) (k : Key) :
    decodePublic (encodePublic r k.val) = .ok (r,k.val) := by
  have h := decode_sealed (r.byte::k.val) (by simp [k.property])
  rw [decodePublic, encodePublic, h, ok_bind]
  simp only [List.headD_cons, roleOf_byte, ofOption, ok_bind]
  rfl

theorem encodePublic_inj (r r' : Role) (k k' : Key)
    (h : encodePublic r k.val = encodePublic r' k'.val) : r = r' ∧ k = k' := by
  have h1 := decodePublic_encode r k
  rw [h, decodePublic_encode, Except.ok.injEq, Prod.mk.injEq] at h1
  exact ⟨h1.1.symm,Subtype.ext h1.2.symm⟩

theorem isValidPublic_iff (s : Str) (r : Role) :
    isValidPublic s r = true ↔ ∃ k : Key, encodePublic r k.val = s := by
  constructor
  · intro h
    unfold isValidPublic at h
    split at h
    next got raw hd =>
      obtain ⟨rfl,hl⟩ := of_decide_eq_true h
      exact ⟨⟨raw,hl⟩,decodePublic_canonical s got raw hd hl⟩
    next => exact absurd h (by decide)
  · rintro ⟨k,rfl⟩
    simp [isValidPublic, decodePublic_encode, k.property]

theorem isValidPublic_publicKey (kp : KeyPair) (r : Role) :
    isValidPublic kp.publicKey r = true ↔ kp.role = r := by
  rw [isValidPublic_iff]
  constructor
  · rintro ⟨k,hk⟩
    exact (encodePublic_inj _ _ _ _ hk).1.symm
  · rintro rfl
    exact ⟨kp.publicRaw,rfl⟩

theorem fromPublicKey_ok (s : Str) (kp : KeyPair) (h : fromPublicKey s = .ok kp) :
    kp.publicKey = s ∧ kp.seed = none := by
  simp only [fromPublicKey, bind_ok, ofOption_ok, pure_ok] at h
  obtain ⟨⟨r,raw⟩,hd,k,hk,rfl⟩ := h
  rw [key?_some] at hk
  exact ⟨decodePublic_canonical s r k.val (by rw [hd, hk]) k.property,rfl⟩

theorem fromPublicKey_publicKey (kp : KeyPair) :
    fromPublicKey kp.publicKey = .ok ⟨kp.role,kp.publicRaw,none,fun _ h => by cases h⟩ := by
  have hk : key? kp.publicRaw.val = some kp.publicRaw := (key?_some _ _).2 rfl
  rw [fromPublicKey, KeyPair.publicKey, decodePublic_encode, ok_bind]
  simp only [hk, ofOption, ok_bind]
  rfl

theorem verify_ok (kp : KeyPair) (m sig : Bytes) (u : Unit) :
    kp.verify m sig = .ok u ↔ Platform.edVerify kp.publicRaw m sig = true := by
  simp [KeyPair.verify]

theorem sign_ok (kp : KeyPair) (m sig : Bytes) (h : kp.sign m = .ok sig) :
    ∃ s, kp.seed = some s ∧ Platform.publicOf s = kp.publicRaw ∧ sig = Platform.edSign s m := by
  unfold KeyPair.sign at h
  split at h
  next s hs => exact ⟨s,hs,kp.paired s hs,by simpa using h.symm⟩
  next => cases h

theorem verify_sign (hon : HonestSignatures) (kp : KeyPair) (m sig : Bytes)
    (h : kp.sign m = .ok sig) : Platform.edVerify kp.publicRaw m sig = true := by
  obtain ⟨s,_,hp,rfl⟩ := sign_ok kp m sig h
  rw [← hp]
  exact hon s m

end Valiss.Nkeys
