import Valiss.TokenRoundTrip

/-!
# What can be printed is minted

Serializing fails only on an integer past the interpreter's digits or on a lone
surrogate. A draft whose numbers are in range and whose texts can be encoded is
signed by any pair that holds its seed.
-/

set_option autoImplicit false

namespace Valiss.Printing
open Lib.Unicode Lib.Base32 Lib.Json Lib.Calendar Lib.Fallible Valiss.Errors Valiss.Nkeys
open Valiss.Codec Valiss.Decode Valiss.Mint Valiss.TokenRoundTrip

theorem printed_scalar (c : CodePoint) (h : Printed c) : ¬ Surrogate c := by
  have := h.1
  unfold Printed at h
  unfold Surrogate
  omega

theorem htmlChar_scalar (c : CodePoint) (hc : ¬ Surrogate c) : ∀ d ∈ htmlChar c, ¬ Surrogate d := by
  by_cases h : c = 60 ∨ c = 62 ∨ c = 38 ∨ c = 0x2028 ∨ c = 0x2029
  · rcases h with rfl | rfl | rfl | rfl | rfl <;> decide
  · simp only [not_or] at h
    rw [htmlChar_other c h]
    simpa using hc

theorem goEscape_scalar (s : Str) (h : Encodable s) : ∀ c ∈ s.flatMap goEscape, ¬ Surrogate c := by
  intro c hc
  obtain ⟨d,hd,hc⟩ := List.mem_flatMap.1 hc
  obtain ⟨f,hf,hc⟩ := List.mem_flatMap.1 hc
  apply htmlChar_scalar f _ c hc
  by_cases he : escapeChar d = [d]
  · rw [he, List.mem_singleton] at hf
    rw [hf]
    exact h d hd
  · exact printed_scalar f (escapeChar_printed d he f hf)

theorem digitCount_le (n : ℤ) (k : ℕ) (hk : 0 < k) (h : n.natAbs < 10^k) : digitCount n ≤ k := by
  rw [digitCount, natText]
  split_ifs
  · exact hk
  · rw [List.length_reverse, List.length_map]
    exact (Nat.digits_length_le_iff (by decide) _).2 h

theorem b32encode_encodable (bs : Bytes) : Encodable (b32encode bs) := by
  intro c hc
  obtain ⟨n,hn,rfl⟩ := b32encode_symbol bs c hc
  have := (symbol32_facts ⟨n,hn⟩).2.2
  unfold Surrogate
  dsimp only at this
  omega

def Plain (s : Str) : Prop := s.flatMap goEscape = s

instance (s : Str) : Decidable (Plain s) := inferInstanceAs (Decidable (_ = _))

theorem plain_of_chars (s : Str) (h : ∀ c ∈ s, goEscape c = [c]) : Plain s := by
  induction s with
  | nil => rfl
  | cons c s ih =>
    rw [Plain, List.flatMap_cons, h c List.mem_cons_self]
    exact congrArg (c::·) (ih fun d hd => h d (List.mem_cons_of_mem c hd))

theorem symbol32_plain : ∀ n : Fin 32, goEscape (symbol32 n) = [symbol32 n] := by decide

theorem b32encode_plain (bs : Bytes) : Plain (b32encode bs) := by
  apply plain_of_chars
  intro c hc
  obtain ⟨n,hn,rfl⟩ := b32encode_symbol bs c hc
  exact symbol32_plain ⟨n,hn⟩

variable [Platform]

theorem goText_encodable (v : Json) (h : Texts Encodable v) : Encodable (goText v) := by
  rw [goText_eq]
  exact mem_dumps goEscape Encodable (fun c => ¬ Surrogate c) (fun c hc => printed_scalar c hc.2)
    goEscape_scalar v h

theorem goJson_printable (v : Json) (hi : intsWithin intDigits v = true)
    (h : Texts Encodable v) : goJson v = .ok (encodePass (goText v)) := by
  rw [goJson, raiseIf_neg _ _ (by simp [hi]), ok_bind, encode_ok]
  exact ⟨goText_encodable v h,rfl⟩

omit [Platform] in
theorem goEscape_encodable (s : Str) (h : ∀ c ∈ s.flatMap goEscape, ¬ Surrogate c) :
    Encodable s := by
  intro c hc hs
  have he : escapeChar c = [c] := by
    by_contra hn
    exact printed_scalar c (escaped_printed c hn) hs
  have hh : htmlChar c = [c] := by
    by_contra hn
    exact (htmlChar_escape c hn).1 hs
  refine h c (List.mem_flatMap.2 ⟨c,hc,?_⟩) hs
  rw [goEscape, he, List.flatMap_singleton, hh]
  exact List.mem_singleton.2 rfl

theorem goJson_prints (v : Json) :
    (∃ bs, goJson v = .ok bs) ↔ intsWithin intDigits v = true ∧ Texts Encodable v := by
  constructor
  · rintro ⟨bs,h⟩
    simp only [goJson, bind_ok, raiseIf_ok, Bool.not_eq_false, encode_ok] at h
    obtain ⟨_,hi,hc,_⟩ := h
    rw [goText_eq] at hc
    exact ⟨hi,dumps_texts goEscape Encodable (fun c => ¬ Surrogate c) goEscape_encodable v hc⟩
  · rintro ⟨hi,ht⟩
    exact ⟨_,goJson_printable v hi ht⟩

/-- A value as the interpreter holds it: no dict has a key twice, no text a surrogate. -/
abbrev HeldJson := {v : Json // distinct v = true ∧ Texts Encodable v}

/-- The escaping that follows the serialization leaves none of its five characters
in the text, and changes no value that is read back. An integer past the digits the
interpreter prints is the one thing that has no text. -/
theorem escaping_safe (v : HeldJson) :
    (intsWithin intDigits v.val = true → ∃ bs, goJson v.val = .ok bs) ∧
    (intsWithin intDigits v.val = false →
      ∃ text, goJson v.val = .error (.builtin .valueError text)) ∧
    ∀ bs, goJson v.val = .ok bs → ∃ text, encode text = .ok bs ∧ (∀ c ∈ text, ¬ Raw c) ∧
      loadsText intDigits text = .ok v.val ∧ loads intDigits bs = .ok v.val := by
  obtain ⟨v,hd,ht⟩ := v
  refine ⟨fun hi => ⟨_,goJson_printable v hi ht⟩,?_,?_⟩
  · intro hi
    refine ⟨Platform.builtinText .valueError,?_⟩
    rw [goJson, raiseIf_pos _ _ hi, error_bind]
  · intro bs h
    have hread := loads_goJson v bs hd h
    obtain ⟨hi,_⟩ := (goJson_prints v).1 ⟨bs,h⟩
    simp only [goJson, bind_ok, raiseIf_ok] at h
    obtain ⟨_,_,he⟩ := h
    refine ⟨goText v,he,?_,?_,hread⟩
    · exact goText_safe v
    · rw [goText_eq]
      exact loadsText_dumps goEscape goEscape_faithful intDigits v hd hi

structure Printable (d : Draft) : Prop where
  name : Encodable d.name
  subject : Encodable d.subject
  audience : Encodable d.audience
  type : Encodable d.body.type
  checksum : Encodable d.body.checksum
  chain : ∀ c ∈ d.body.chain, Encodable c.1 ∧ Encodable c.2
  ext : TextsMembers Encodable d.body.ext
  ints : membersWithin intDigits d.body.ext = true

theorem membersWithin_append (limit : ℕ) (ms ns : Dict Json) :
    membersWithin limit (ms++ns) = (membersWithin limit ms && membersWithin limit ns) := by
  induction ms with
  | nil => simp [membersWithin]
  | cons m ms ih => simp [membersWithin, ih, Bool.and_assoc]

theorem strMember_texts (k : String) (s : Str) (hk : Encodable (lit k)) (h : Encodable s) :
    TextsMembers Encodable (strMember k s : Dict Json) := by
  rw [strMember]
  split_ifs <;> simp [TextsMembers, Texts, hk, h]

theorem intMember_texts (k : String) (n : ℤ) (hk : Encodable (lit k)) :
    TextsMembers Encodable (intMember k n : Dict Json) := by
  rw [intMember]
  split_ifs <;> simp [TextsMembers, Texts, hk]

theorem strMember_within (k : String) (s : Str) :
    membersWithin intDigits (strMember k s : Dict Json) = true := by
  rw [strMember]
  split_ifs <;> simp [membersWithin, intsWithin]

theorem intMember_within (k : String) (n : ℤ) (h : digitCount n ≤ intDigits) :
    membersWithin intDigits (intMember k n : Dict Json) = true := by
  rw [intMember]
  split_ifs <;> simp [membersWithin, intsWithin, h]

theorem body_texts (d : Draft) (h : Printable d) : TextsMembers Encodable d.body.members := by
  have hb : TextsMembers Encodable
      (if d.body.bearer then [(lit "bearer",(.bool true : Json))] else []) := by
    split_ifs
    · exact ⟨by decide,trivial,trivial⟩
    · trivial
  have hc : TextsMembers Encodable (chainMember d.body.chain : Dict Json) := by
    unfold chainMember
    split
    next => trivial
    next a u hau =>
      obtain ⟨ha,hu⟩ := h.chain (a,u) hau
      refine ⟨by decide,?_,trivial⟩
      rw [Texts, textsMembers_append]
      exact ⟨strMember_texts _ _ (by decide) ha,strMember_texts _ _ (by decide) hu⟩
  have he : TextsMembers Encodable
      (if d.body.ext = [] then [] else [(lit "ext",(.obj d.body.ext : Json))]) := by
    split_ifs
    · trivial
    · exact ⟨by decide,h.ext,trivial⟩
  simp only [Body.members, TextsMembers, textsMembers_append]
  exact ⟨by decide,h.type,intMember_texts _ _ (by decide),hb,
    strMember_texts _ _ (by decide) h.checksum,hc,he⟩

theorem body_within (d : Draft) (h : Printable d) (he : digitCount d.body.epoch ≤ intDigits) :
    membersWithin intDigits d.body.members = true := by
  have hb : membersWithin intDigits
      (if d.body.bearer then [(lit "bearer",(.bool true : Json))] else []) = true := by
    split_ifs <;> rfl
  have hc : membersWithin intDigits (chainMember d.body.chain : Dict Json) = true := by
    unfold chainMember
    split
    · rfl
    · simp only [membersWithin, intsWithin, membersWithin_append, strMember_within,
        Bool.and_true]
  have hx : membersWithin intDigits
      (if d.body.ext = [] then [] else [(lit "ext",(.obj d.body.ext : Json))]) = true := by
    split_ifs
    · rfl
    · simp only [membersWithin, intsWithin, h.ints, Bool.and_true]
  simp only [Body.members, membersWithin, membersWithin_append, intsWithin,
    intMember_within _ _ he, hb, strMember_within, hc, hx, Bool.and_true]

theorem payload_texts (d : Draft) (issuer jti : Str) (h : Printable d) (hi : Encodable issuer)
    (hj : Encodable jti) : TextsMembers Encodable (payloadOf d issuer jti) := by
  simp only [payloadOf, Draft.claims, TextsMembers, textsMembers_append, Texts]
  exact ⟨by decide,hj,by decide,trivial,by decide,hi,strMember_texts _ _ (by decide) h.name,
    strMember_texts _ _ (by decide) h.subject,strMember_texts _ _ (by decide) h.audience,
    intMember_texts _ _ (by decide),intMember_texts _ _ (by decide),by decide,body_texts d h,
    trivial⟩

structure Brief (d : Draft) : Prop where
  issuedAt : digitCount (timestampInt d.now) ≤ intDigits
  expires : digitCount d.expires ≤ intDigits
  notBefore : digitCount d.notBefore ≤ intDigits
  epoch : digitCount d.body.epoch ≤ intDigits

omit [Platform] in
theorem brief_number (n : ℤ) (h : n.natAbs < 10^20) : digitCount n ≤ intDigits :=
  (digitCount_le n 20 (by decide) h).trans (by decide)

theorem inRange_brief (d : Draft) (h : InRange d) : Brief d := by
  obtain ⟨h1,h2,h3,h4⟩ := h
  simp only [tsMin, tsMax, uint64Max] at h1 h2 h3 h4
  constructor <;> apply brief_number <;> omega

theorem payload_within (d : Draft) (issuer jti : Str) (h : Printable d) (hb : Brief d) :
    membersWithin intDigits (payloadOf d issuer jti) = true := by
  obtain ⟨hnow,hexp,hnbf,hepoch⟩ := hb
  simp only [payloadOf, Draft.claims, membersWithin, membersWithin_append, intsWithin,
    decide_eq_true hnow, strMember_within, intMember_within _ _ hexp, intMember_within _ _ hnbf,
    body_within d h hepoch, Bool.and_true]

theorem payload_printed (kp : KeyPair) (d : Draft) (jti : Str) (h : Printable d) (hb : Brief d)
    (hj : Encodable jti) : goJson (.obj (payloadOf d kp.publicKey jti)) =
      .ok (encodePass (goText (.obj (payloadOf d kp.publicKey jti)))) := by
  apply goJson_printable
  · exact payload_within d kp.publicKey jti h hb
  · exact payload_texts d kp.publicKey jti h (b32encode_encodable _) hj

theorem encodeV1_signs (kp : KeyPair) (d : Draft) : (∃ tok, encodeV1 kp d = .ok tok) ↔
    kp.seed.isSome = true ∧ membersWithin intDigits (d.claims kp.publicKey) = true ∧
      TextsMembers Encodable (d.claims kp.publicKey) := by
  constructor
  · rintro ⟨tok,h⟩
    obtain ⟨jti,_,sig,hj,_,hs,_⟩ := encodeV1_ok kp d tok h
    simp only [jtiOf, bind_ok] at hj
    obtain ⟨bs,hb,_⟩ := hj
    refine ⟨?_,(goJson_prints _).1 ⟨bs,hb⟩⟩
    unfold KeyPair.sign at hs
    cases hseed : kp.seed with
    | none =>
      rw [hseed] at hs
      cases hs
    | some seed => rfl
  · rintro ⟨hseed,hi,ht⟩
    obtain ⟨seed,hs⟩ := Option.isSome_iff_exists.1 hseed
    obtain ⟨bs,hb⟩ := (goJson_prints (.obj (d.claims kp.publicKey))).2 ⟨hi,ht⟩
    have hj : jtiOf (d.claims kp.publicKey) = .ok (b32encode (Platform.sha256 bs)) := by
      rw [jtiOf, hb]
      rfl
    obtain ⟨text,hp⟩ := (goJson_prints
      (.obj ((lit "jti",.str (b32encode (Platform.sha256 bs))) :: d.claims kp.publicKey))).2
      ⟨by rw [intsWithin, membersWithin, hi]; rfl,by decide,b32encode_encodable _,ht⟩
    have hh : encode tokenHeader = .ok (encodePass tokenHeader) := encode_ascii _ (by decide)
    have hsigned : encode (b64url (encodePass tokenHeader) ++ 46::b64url text) =
        .ok (encodePass (b64url (encodePass tokenHeader) ++ 46::b64url text)) := by
      apply encode_ascii
      rw [ascii_append, ascii_cons]
      exact ⟨b64url_ascii _,by decide,b64url_ascii _⟩
    rw [encodeV1, signingInput, hj, ok_bind, hh, ok_bind, hp, ok_bind]
    simp only [pure_bind, hsigned, ok_bind, KeyPair.sign, hs]
    exact ⟨_,rfl⟩

theorem encodeV1_printable (kp : KeyPair) (seed : Key) (hs : kp.seed = some seed) (d : Draft)
    (h : Printable d) (hb : Brief d) : ∃ tok, encodeV1 kp d = .ok tok := by
  have hi := payload_within d kp.publicKey [] h hb
  rw [payloadOf, membersWithin, Bool.and_eq_true] at hi
  have ht := payload_texts d kp.publicKey [] h (b32encode_encodable _) encodable_nil
  exact (encodeV1_signs kp d).2 ⟨by rw [hs]; rfl,hi.2,ht.2.2⟩

def stampedToken (kp : KeyPair) (seed : Key) (d : Draft) (jti : Str) : Str :=
  let text := encodePass (goText (.obj (payloadOf d kp.publicKey jti)))
  headerSegment ++ 46 :: (b64url text ++ 46 ::
    b64url (Platform.edSign seed (encodePass (headerSegment ++ 46 :: b64url text))))

theorem stampedToken_decodes (hon : HonestSignatures) (kp : KeyPair) (seed : Key)
    (hs : kp.seed = some seed) (d : Draft) (jti : Str) (h : Printable d) (hr : InRange d)
    (hd : distinct (.obj d.body.ext) = true) (hj : Encodable jti) :
    decodeToken (stampedToken kp seed d jti) = .ok (decodedDraft d kp.publicKey jti hr) := by
  apply decodeToken_payload kp d jti _ _ hr hd (payload_printed kp d jti h (inRange_brief d hr) hj)
  rw [← kp.paired seed hs]
  exact hon seed _

end Valiss.Printing
