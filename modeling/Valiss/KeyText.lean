import Valiss.Nkeys

/-!
# Key text stands for keys

A public key has one text and a text one public key, of one role. A seed packs
its role across its first two bytes, the first of which is the first byte of no
public key.
-/

set_option autoImplicit false

namespace Valiss.KeyText
open Lib.Unicode Lib.Base32 Lib.Fallible Valiss.Errors Valiss.Nkeys

theorem seed_head (r : Role) :
    (byte (seedByte+r.byte.val/32)).val/8*8 = seedByte ∧
    (byte (seedByte+r.byte.val/32)).val%8*32+(byte (r.byte.val%32*8)).val/8 = r.byte.val := by
  cases r <;> decide

theorem seed_not_public (n : ℕ) (h : n/8*8 = seedByte) : roleOf n = none := by
  rw [seedByte] at h
  rw [roleOf, if_neg (by omega), if_neg (by omega), if_neg (by omega)]

section Text
variable [Platform]

theorem decodeSeed_encode (r : Role) (seed : Key) :
    decodeSeed (encodeSeed r seed.val) = .ok (r,seed.val) := by
  have hl := seed.property
  have hd := decode_sealed (byte (seedByte+r.byte.val/32)::byte (r.byte.val%32*8)::seed.val)
    (by simp)
  obtain ⟨hs,hr⟩ := seed_head r
  rw [decodeSeed, encodeSeed, hd, ok_bind]
  simp only [List.length_cons, List.getD_cons_zero, List.getD_cons_succ, hs, hr, roleOf_byte, hl,
    List.drop_succ_cons, List.drop_zero]
  rw [raiseIf_neg _ _ (by decide), ok_bind, raiseIf_neg _ _ (by simp), ok_bind]
  simp only [ofOption, ok_bind]
  rw [raiseIf_neg _ _ (by decide), ok_bind]
  rfl

omit [Platform] in
theorem symbol32_not_white : ∀ n : Fin 32, ¬ IsWhite (symbol32 n) := by decide

omit [Platform] in
theorem b32encode_strip (bs : Bytes) : strip (b32encode bs) = b32encode bs := by
  have hsymbol : ∀ c ∈ b32encode bs, ¬ IsWhite c := by
    intro c hc
    obtain ⟨n,hn,rfl⟩ := b32encode_symbol bs c hc
    exact symbol32_not_white ⟨n,hn⟩
  apply strip_self
  · exact fun c hc => hsymbol c (List.mem_of_head? hc)
  · exact fun c hc => hsymbol c (List.mem_of_getLast? hc)

theorem fromSeed_encode (r : Role) (seed : Key) :
    fromSeed (encodeSeed r seed.val) = .ok (KeyPair.ofSeed r seed) := by
  have hkey : key? seed.val = some seed := (key?_some _ _).2 rfl
  have hd := decodeSeed_encode r seed
  rw [encodeSeed, sealed] at hd ⊢
  rw [fromSeed, b32encode_strip, hd, ok_bind]
  simp only [hkey, ofOption, ok_bind]
  rfl

theorem decodeSeed_not_public (s : Str) (r : Role) (seed : Bytes)
    (h : decodeSeed s = .ok (r,seed)) : (decodePublic s).isOk = false := by
  simp only [decodeSeed, bind_ok, raiseIf_ok, not_not] at h
  obtain ⟨data,hd,_,hlen,_,hb,_⟩ := h
  rw [decodePublic, hd, ok_bind]
  cases data with
  | nil => simp at hlen
  | cons b rest =>
    rw [List.getD_cons_zero] at hb
    rw [List.headD_cons, seed_not_public b.val hb]
    rfl

/-- A text is the key of one role at most. -/
theorem isValidPublic_role (s : Str) (r r' : Role) (h : isValidPublic s r = true)
    (h' : isValidPublic s r' = true) : r = r' := by
  obtain ⟨k,hk⟩ := (isValidPublic_iff s r).1 h
  obtain ⟨k',hk'⟩ := (isValidPublic_iff s r').1 h'
  exact (encodePublic_inj r r' k k' (hk.trans hk'.symm)).1

theorem one_predicate (s : Str) :
    [isValidPublicOperatorKey s,isValidPublicAccountKey s,isValidPublicUserKey s].count true ≤
      1 := by
  have hoa := isValidPublic_role s .operator .account
  have hou := isValidPublic_role s .operator .user
  have hau := isValidPublic_role s .account .user
  rw [isValidPublicOperatorKey, isValidPublicAccountKey, isValidPublicUserKey]
  cases ho : isValidPublic s .operator <;> cases ha : isValidPublic s .account <;>
    cases hu : isValidPublic s .user <;> simp_all

theorem key_text_canonical :
    (∀ (r : Role) (k : Key), ∃ kp, fromPublicKey (encodePublic r k.val) = .ok kp ∧
      kp.role = r ∧ kp.publicRaw = k) ∧
    (∀ s kp, fromPublicKey s = .ok kp → encodePublic kp.role kp.publicRaw.val = s) ∧
    (∀ (r : Role) (seed : Key), decodeSeed (encodeSeed r seed.val) = .ok (r,seed.val)) ∧
    (∀ s, [isValidPublicOperatorKey s,isValidPublicAccountKey s,
      isValidPublicUserKey s].count true ≤ 1) ∧
    ∀ s, ¬ ((decodeSeed s).isOk = true ∧ (decodePublic s).isOk = true) := by
  refine ⟨?_,?_,decodeSeed_encode,one_predicate,?_⟩
  · intro r k
    exact ⟨_,fromPublicKey_publicKey ⟨r,k,none,fun _ h => by cases h⟩,rfl,rfl⟩
  · exact fun s kp h => (fromPublicKey_ok s kp h).1
  · rintro s ⟨hseed,hpub⟩
    cases hd : decodeSeed s with
    | error e =>
      rw [hd] at hseed
      cases hseed
    | ok p =>
      rw [decodeSeed_not_public s p.1 p.2 hd] at hpub
      cases hpub

end Text

end Valiss.KeyText
