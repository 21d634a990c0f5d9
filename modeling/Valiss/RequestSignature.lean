import Valiss.TokenRoundTrip

/-!
# Request signatures

A subject signs a version tag, the timestamp and the hash of the request
context. No two timestamps or context hashes share their signed bytes, and none
of these bytes could be a token's signing input.
-/

set_option autoImplicit false

namespace Valiss.RequestSignature
open Lib.Unicode Lib.Base64 Lib.Json Lib.Calendar Lib.IsoTime Lib.Fallible Valiss.Errors
open Valiss.Nkeys

def requestTag : Str := lit "valiss-req-v1\n"

def rfc3339nano (t : DateTime) : Str :=
  let frac := rstrip 48 (six t.fields.microsecond)
  isoSeconds t.fields ++ ((if frac = [] then [] else 46::frac) ++ [90])

variable [Platform]

def signedText (timestamp : Str) (context : Bytes) : Str :=
  requestTag ++ (timestamp ++ 10 :: hex (Platform.sha256 context))

def signedPayload (timestamp : Str) (context : Bytes) : Py Bytes :=
  encode (signedText timestamp context)

def signRequest (subject : KeyPair) (context : Bytes) (now : DateTime) : Py (Str × Str) := do
  let timestamp := rfc3339nano now
  let payload ← signedPayload timestamp context
  let signature ← subject.sign payload
  return (timestamp,b64encode signature)

def verifySignature (subjectPubKey timestamp signature : Str) (context : Bytes) (now : DateTime)
    (skew : TimeDelta) : Py Unit := do
  raiseIf (¬ Rfc3339Shape IsDecimal timestamp)
    (errFor (lit "valiss: bad request timestamp") .skew)
  let ts ← ofOption (errFor (lit "valiss: bad request timestamp: " ++
    Platform.isoText timestamp) .skew) (fromIso timestamp)
  let drift := now.micros-ts
  raiseIf (skew < drift ∨ drift < -skew) (errFor (lit "valiss: request timestamp outside the " ++
    Platform.skewText skew ++ lit " skew window") .skew)
  let rawSig ← ofOption (errFor (lit "valiss: bad request signature encoding: " ++
    Platform.base64Text signature) .badSignatureEncoding) (a2bBase64 true signature)
  let pub ← recast (fun e => errFor (lit "valiss: bad subject public key: " ++ e.text)
    .badRequestSignature) (fromPublicKey subjectPubKey)
  let payload ← signedPayload timestamp context
  recast (fun _ => errFor (lit "valiss: request signature verification failed")
    .badRequestSignature) (pub.verify payload rawSig)

/-- A character a timestamp may hold: no surrogate, no newline. -/
def Stamp (c : CodePoint) : Prop := ¬ Surrogate c ∧ c ≠ 10

instance (c : CodePoint) : Decidable (Stamp c) := inferInstanceAs (Decidable (_ ∧ _))

omit [Platform] in
theorem digitRuns_range : ∀ n ∈ digitRuns, 10 < n ∧ (n+10 ≤ 0xD800 ∨ 0xE000 ≤ n) := by decide

omit [Platform] in
theorem stamp_decimal (c : CodePoint) (h : IsDecimal c) : Stamp c := by
  obtain ⟨n,hn,hl,hh⟩ := h
  have hr := digitRuns_range n hn
  refine ⟨fun hs => ?_,?_⟩
  · unfold Surrogate at hs
    omega
  · rintro rfl
    have : n ≤ 10 := hl
    omega

omit [Platform] in
theorem shape_stamp (s : Str) (h : Rfc3339Shape IsDecimal s) : ∀ c ∈ s, Stamp c :=
  shape_chars IsDecimal Stamp stamp_decimal (by decide) s h

omit [Platform] in
theorem hex_stamp (bs : Bytes) : ∀ c ∈ hex bs, Stamp c := by
  intro c hc
  obtain ⟨ha,hn⟩ := hex_chars bs c hc
  refine ⟨fun hs => ?_,hn⟩
  unfold Surrogate at hs
  omega

theorem signedPayload_ok (ts : Str) (context : Bytes) (h : ∀ c ∈ ts, Stamp c) :
    signedPayload ts context = .ok (encodePass (signedText ts context)) := by
  apply (encode_ok _ _).2
  refine ⟨?_,rfl⟩
  have ht : Encodable ts := fun c hc => (h c hc).1
  have hh : Encodable (hex (Platform.sha256 context)) := fun c hc => (hex_stamp _ c hc).1
  rw [signedText, encodable_append, encodable_append, encodable_cons]
  exact ⟨by decide,ht,by decide,hh⟩

theorem signedText_inj (ts ts' : Str) (context context' : Bytes) (h : ∀ c ∈ ts, Stamp c)
    (h' : ∀ c ∈ ts', Stamp c) (he : signedText ts context = signedText ts' context') :
    ts = ts' ∧ Platform.sha256 context = Platform.sha256 context' := by
  have hn : ∀ s : Str, (∀ c ∈ s, Stamp c) → (10 : CodePoint) ∉ s := fun s hs hm => (hs _ hm).2 rfl
  rw [signedText, signedText, List.append_cancel_left_eq] at he
  have hsplit := congrArg (splitOn 10) he
  rw [splitOn_cons _ _ _ (hn _ h), splitOn_cons _ _ _ (hn _ h'),
    splitOn_none _ _ (hn _ (hex_stamp _)), splitOn_none _ _ (hn _ (hex_stamp _))] at hsplit
  obtain ⟨rfl,hx⟩ : ts = ts' ∧ hex (Platform.sha256 context) = hex (Platform.sha256 context') := by
    simpa using hsplit
  exact ⟨rfl,hex_injective hx⟩

theorem signedText_ne (p0 p1 ts : Str) (context : Bytes)
    (h1 : ∀ c ∈ p0 ++ 46 :: p1, c ≠ 10) : p0 ++ 46 :: p1 ≠ signedText ts context := by
  intro he
  apply h1 10
  · rw [he, signedText]
    exact List.mem_append_left _ (by decide)
  · rfl

theorem verifySignature_ok (key ts sig : Str) (context : Bytes) (now : DateTime)
    (skew : TimeDelta) (u : Unit) :
    verifySignature key ts sig context now skew = .ok u ↔
      Rfc3339Shape IsDecimal ts ∧
      (∃ t, fromIso ts = some t ∧ now.micros-t ≤ skew ∧ -skew ≤ now.micros-t) ∧
      ∃ raw kp, a2bBase64 true sig = some raw ∧ fromPublicKey key = .ok kp ∧
        Platform.edVerify kp.publicRaw (encodePass (signedText ts context)) raw = true := by
  simp only [verifySignature, bind_ok, raiseIf_ok, ofOption_ok, recast_ok, not_or, not_lt, not_not]
  constructor
  · rintro ⟨_,hshape,t,ht,_,⟨h1,h2⟩,raw,hraw,kp,hkp,m,hm,hver⟩
    rw [signedPayload_ok ts context (shape_stamp ts hshape), Except.ok.injEq] at hm
    subst hm
    exact ⟨hshape,⟨t,ht,h1,h2⟩,raw,kp,hraw,hkp,(verify_ok _ _ _ _).1 hver⟩
  · rintro ⟨hshape,⟨t,ht,h1,h2⟩,raw,kp,hraw,hkp,hver⟩
    exact ⟨(),hshape,t,ht,(),⟨h1,h2⟩,raw,hraw,kp,hkp,_,
      signedPayload_ok ts context (shape_stamp ts hshape),(verify_ok _ _ _ _).2 hver⟩

omit [Platform] in
theorem rfc3339nano_reads (t : DateTime) (hy : 1000 ≤ t.fields.year) :
    fromIso (rfc3339nano t) = some t.micros := by
  have hus : t.fields.microsecond < 1000000 := (fields_valid t).2.2.2.2.2.2.2.2
  rw [← fields_micros t]
  apply fromIso_seconds _ (fields_valid t) hy (fields_year t).2
  have hr := readFraction_rstrip t.fields.microsecond hus
  by_cases hz : rstrip 48 (six t.fields.microsecond) = []
  · have h0 : readFraction (46::[] ++ [90]) = some (0,[90]) := by decide
    rw [hz, h0, Option.some.injEq, Prod.mk.injEq] at hr
    rw [if_pos hz, ← hr.1]
    rfl
  · rw [if_neg hz]
    exact hr

omit [Platform] in
theorem rfc3339nano_shape (t : DateTime) (hy : 1000 ≤ t.fields.year) :
    Rfc3339Shape IsDecimal (rfc3339nano t) := by
  have hus : t.fields.microsecond < 1000000 := (fields_valid t).2.2.2.2.2.2.2.2
  apply isoSeconds_shape IsDecimal isDecimal_digit _ (fields_valid t) hy (fields_year t).2
  by_cases hz : rstrip 48 (six t.fields.microsecond) = []
  · rw [if_pos hz]
    decide
  · rw [if_neg hz]
    exact rstrip_fraction IsDecimal isDecimal_digit (by decide) _ hus hz

omit [Platform] in
theorem isoSeconds_stamp (f : Fields) (hf : f.Valid) : ∀ c ∈ isoSeconds f, Stamp c := by
  have hdig : ∀ c, IsDigit c → Stamp c := fun c hc => stamp_decimal c (isDecimal_digit c hc)
  have htwo : ∀ n, n < 100 → ∀ c ∈ two n, Stamp c := by
    intro n hn c hc
    simp only [two, List.mem_cons, List.not_mem_nil, or_false] at hc
    rcases hc with rfl | rfl <;> exact hdig _ (digitChar_isDigit _ (by omega))
  obtain ⟨_,hm1,hm2,hd1,hd2,hh,hmi,hs,hus⟩ := hf
  have hday : f.day < 100 := by
    have : daysInMonth (isLeap f.year) f.month ≤ 31 := by
      unfold daysInMonth
      split_ifs <;> omega
    omega
  simp only [isoSeconds, List.forall_mem_append, List.forall_mem_cons]
  have hyear : ∀ c ∈ natText f.year, Stamp c := fun c hc => hdig c (natText_digit _ c hc)
  exact ⟨⟨⟨⟨⟨hyear,by decide,htwo _ (by omega)⟩,by decide,htwo _ hday⟩,by decide,
    htwo _ (by omega)⟩,by decide,htwo _ (by omega)⟩,by decide,htwo _ (by omega)⟩

omit [Platform] in
theorem rfc3339nano_stamp (t : DateTime) : ∀ c ∈ rfc3339nano t, Stamp c := by
  have hus : t.fields.microsecond < 1000000 := (fields_valid t).2.2.2.2.2.2.2.2
  simp only [rfc3339nano, List.forall_mem_append]
  refine ⟨isoSeconds_stamp _ (fields_valid t),?_,by decide⟩
  split_ifs
  · simp
  · simp only [List.forall_mem_cons]
    refine ⟨by decide,fun c hc => ?_⟩
    obtain ⟨k,hk⟩ := rstrip_split 48 (six t.fields.microsecond)
    apply stamp_decimal
    apply isDecimal_digit
    apply six_digit _ hus
    rw [hk]
    exact List.mem_append_left _ hc

theorem signRequest_ok (kp : KeyPair) (context : Bytes) (now : DateTime) (ts sig : Str) :
    signRequest kp context now = .ok (ts,sig) ↔ ts = rfc3339nano now ∧
      ∃ raw, kp.sign (encodePass (signedText ts context)) = .ok raw ∧ b64encode raw = sig := by
  rw [signRequest, signedPayload_ok _ _ (rfc3339nano_stamp now), ok_bind]
  simp only [bind_ok, pure_ok, Prod.mk.injEq]
  constructor
  · rintro ⟨raw,hs,rfl,rfl⟩
    exact ⟨rfl,raw,hs,rfl⟩
  · rintro ⟨rfl,raw,hs,rfl⟩
    exact ⟨raw,hs,rfl,rfl⟩

/-- A fresh signature over the same context is accepted within the skew window. -/
theorem verify_signRequest (hon : HonestSignatures) (kp : KeyPair) (context : Bytes)
    (now now' : DateTime) (skew : TimeDelta) (ts sig : Str)
    (h : signRequest kp context now = .ok (ts,sig)) (hy : 1000 ≤ now.fields.year)
    (h1 : now'.micros-now.micros ≤ skew) (h2 : -skew ≤ now'.micros-now.micros) :
    verifySignature kp.publicKey ts sig context now' skew = .ok () := by
  obtain ⟨rfl,raw,hs,rfl⟩ := (signRequest_ok _ _ _ _ _).1 h
  exact (verifySignature_ok _ _ _ _ _ _ _).2 ⟨rfc3339nano_shape now hy,
    ⟨now.micros,rfc3339nano_reads now hy,h1,h2⟩,raw,_,decode_encode true raw,
    fromPublicKey_publicKey kp,verify_sign hon kp _ raw hs⟩

end Valiss.RequestSignature
