import Valiss.Exchange
import Valiss.Recorded

/-!
# Decoding hostile tokens

Every stage of the decoder turns its own failure into a reason, with one gap:
`json.loads` answers an integer literal beyond the interpreter's digit limit
with a plain `ValueError`, which the decoder does not catch. A token passes
through that gap if and only if its header does, or its payload under a
version-1 header.
-/

set_option autoImplicit false

namespace Valiss.HostileTokens
open Lib.Unicode Lib.Json Lib.Fallible Valiss.Errors Valiss.Nkeys Valiss.Codec Valiss.Decode
open Valiss.Raising Valiss.TokenRoundTrip Valiss.Recorded

def decodeReasons : List Reason :=
  [.malformed,.unsupportedType,.unsupportedVersion,.badIssuerKey,.badSignature]

def Expected (e : Exc) : Prop := ∃ r ∈ decodeReasons, e.reason = some r

theorem expected_valiss (e : Exc) (h : Expected e) : e.isValiss = true := by
  obtain ⟨r,_,hr⟩ := h
  cases e with
  | valiss text reason => rfl
  | builtin kind text => cases hr

theorem expected_malformed (m : Str) : Expected (malformed m) := ⟨.malformed,by decide,rfl⟩

theorem expected_badField (k what : String) : Expected (badField k what) := expected_malformed _

theorem expected_recast {α : Type} (f : Exc → Exc) (x : Py α) (hx : OnlyValiss x)
    (hf : ∀ e, Expected (f e)) : Raises Expected (recast f x) :=
  raises_recast _ _ _ (fun _ _ => hf _) fun k m h => by
    have := hx _ h
    simp [Exc.isValiss] at this

section Decoding
variable [Platform]

/-- `json.loads` of the segment stops at an integer literal beyond the limit. -/
def LongInteger (segment : Str) : Prop := ∃ bs, b64urlDecode segment = .ok bs ∧
  (loads intDigits bs : Except LoadError Json) = .error .intLimit

def VersionOne (segment : Str) : Prop := ∃ bs ms, b64urlDecode segment = .ok bs ∧
  loads intDigits bs = .ok (.obj ms : Json) ∧ ms.lookup (lit "typ") = some (.str (lit "JWT")) ∧
  ms.lookup (lit "alg") = some (.str (lit "ed25519-nkey")) ∧ ms.lookup (lit "ver") = some (.int 1)

omit [Platform] in
theorem b64urlDecode_expected (s : Str) : Raises Expected (b64urlDecode s) := by
  unfold b64urlDecode
  apply Raises.bind
  · exact (raises_raiseIf _ _ _).2 fun _ => expected_malformed _
  intro _ _
  exact (raises_ofOption _ _ _).2 fun _ => expected_malformed _

theorem jsonLoads_expected (what : Str) (bs : Bytes)
    (h : (loads intDigits bs : Except LoadError Json) ≠ .error .intLimit) :
    Raises Expected (jsonLoads what bs) := by
  unfold jsonLoads
  cases hl : (loads intDigits bs : Except LoadError Json) with
  | ok v => exact raises_ok _ _
  | error e =>
    cases e with
    | intLimit => exact absurd hl h
    | decode => exact (raises_error _ _).2 (expected_malformed _)
    | unicode => exact (raises_error _ _).2 (expected_malformed _)

theorem asObject_expected (what : Str) (v : Json) : Raises Expected (asObject what v) := by
  cases v with
  | obj ms => exact raises_ok _ _
  | _ => exact (raises_error _ _).2 (expected_malformed _)

theorem segmentObject_expected (what segment : Str) (h : ¬ LongInteger segment) :
    Raises Expected (segmentObject what segment) := by
  unfold segmentObject
  apply Raises.bind (b64urlDecode_expected segment)
  intro bs hbs
  apply Raises.bind
  · exact jsonLoads_expected what bs fun hl => h ⟨bs,hbs,hl⟩
  intro v _
  exact asObject_expected what v

theorem segmentObject_long (what segment : Str) (h : LongInteger segment) :
    segmentObject what segment = builtin .valueError := by
  obtain ⟨bs,hbs,hl⟩ := h
  rw [segmentObject, hbs, ok_bind, jsonLoads, hl]
  rfl

theorem versionOf_expected (v : Option Json) : Raises Expected (versionOf v) := by
  unfold versionOf
  split
  · exact raises_ok _ _
  · split_ifs
    · exact raises_ok _ _
    · exact (raises_error _ _).2 (expected_malformed _)
  · exact (raises_error _ _).2 (expected_malformed _)

theorem versionOf_one (v : Option Json) : versionOf v = .ok 1 ↔ v = some (.int 1) := by
  constructor
  · intro h
    unfold versionOf at h
    split at h
    next => simp at h
    next n =>
      split_ifs at h
      rw [Except.ok.injEq] at h
      rw [h]
    next => cases h
  · rintro rfl
    rfl

theorem isText_some (v : Option Json) (s : Str) : IsText v s ↔ v = some (.str s) := by
  cases v with
  | none => simp [IsText]
  | some v => simp [Message.isText_iff]

theorem peekVersion_expected (tok : Str)
    (h : ∀ p0 p1 p2, splitOn 46 tok = [p0,p1,p2] → ¬ LongInteger p0) :
    Raises Expected (peekVersion tok) := by
  unfold peekVersion
  split
  next p0 p1 p2 hs =>
    apply Raises.bind (segmentObject_expected _ p0 (h p0 p1 p2 hs))
    intro ms _
    apply Raises.bind
    · exact (raises_raiseIf _ _ _).2 fun _ => ⟨.unsupportedType,by decide,rfl⟩
    intro _ _
    apply Raises.bind (versionOf_expected _)
    intro _ _
    exact raises_ok _ _
  next => exact (raises_error _ _).2 (expected_malformed _)

theorem peekVersion_one (tok p0 p1 p2 : Str) (h : splitOn 46 tok = [p0,p1,p2])
    (q : Str × Str × Str) : peekVersion tok = .ok (1,q) ↔ VersionOne p0 ∧ q = (p0,p1,p2) := by
  simp only [peekVersion, h, bind_ok, segmentObject_ok, raiseIf_ok, not_or, not_not, isText_some,
    pure_ok, Prod.mk.injEq]
  constructor
  · rintro ⟨ms,⟨bs,hbs,hl⟩,_,⟨ht,ha⟩,ver,hv,rfl,hq⟩
    exact ⟨⟨bs,ms,hbs,hl,ht,ha,(versionOf_one _).1 hv⟩,hq.symm⟩
  · rintro ⟨⟨bs,ms,hbs,hl,ht,ha,hv⟩,rfl⟩
    exact ⟨ms,⟨bs,hbs,hl⟩,(),⟨ht,ha⟩,1,(versionOf_one _).2 hv,rfl,rfl⟩

section Fields
variable {P : Exc → Prop} (hP : ∀ k what, P (badField k what))
include hP

theorem wireStr_raises (obj : Dict Json) (k : String) : Raises P (wireStr obj k) := by
  unfold wireStr
  split
  · exact raises_ok _ _
  · exact raises_ok _ _
  · exact raises_ok _ _
  · exact (raises_error _ _).2 (hP _ _)

theorem wireInt_raises (obj : Dict Json) (k : String) (lo hi : ℤ) (h : lo ≤ 0 ∧ 0 ≤ hi) :
    Raises P (wireInt obj k lo hi h) := by
  unfold wireInt
  split
  · exact raises_ok _ _
  · exact raises_ok _ _
  · split_ifs
    · exact raises_ok _ _
    · exact (raises_error _ _).2 (hP _ _)
  · exact (raises_error _ _).2 (hP _ _)

theorem wireBool_raises (obj : Dict Json) (k : String) : Raises P (wireBool obj k) := by
  unfold wireBool
  split
  · exact raises_ok _ _
  · exact raises_ok _ _
  · exact raises_ok _ _
  · exact (raises_error _ _).2 (hP _ _)

theorem wireObj_raises (obj : Dict Json) (k : String) : Raises P (wireObj obj k) := by
  unfold wireObj
  split
  · exact raises_ok _ _
  · exact raises_ok _ _
  · exact raises_ok _ _
  · exact (raises_error _ _).2 (hP _ _)

theorem decodedOf_raises (payload : Dict Json) : Raises P (decodedOf payload) := by
  unfold decodedOf
  apply Raises.bind (wireObj_raises hP _ _)
  intro _ _
  iterate 5
    apply Raises.bind (wireStr_raises hP _ _)
    intro _ _
  iterate 3
    apply Raises.bind (wireInt_raises hP _ _ _ _ _)
    intro _ _
  apply Raises.bind (wireStr_raises hP _ _)
  intro _ _
  apply Raises.bind (wireInt_raises hP _ _ _ _ _)
  intro _ _
  apply Raises.bind (wireBool_raises hP _ _)
  intro _ _
  apply Raises.bind (wireStr_raises hP _ _)
  intro _ _
  iterate 2
    apply Raises.bind (wireObj_raises hP _ _)
    intro _ _
  exact raises_ok _ _

end Fields

theorem fromPublicKey_onlyValiss (s : Str) : OnlyValiss (fromPublicKey s) := by
  unfold fromPublicKey decodePublic Nkeys.decode b32decodeNkey
  apply Raises.bind
  · apply Raises.bind
    · apply Raises.bind (onlyValiss_ofOption _ _ _)
      intro _ _
      apply Raises.bind (onlyValiss_raiseIf _ _ _)
      intro _ _
      apply Raises.bind (onlyValiss_raiseIf _ _ _)
      intro _ _
      exact raises_ok _ _
    intro _ _
    apply Raises.bind (onlyValiss_ofOption _ _ _)
    intro _ _
    exact raises_ok _ _
  intro _ _
  apply Raises.bind (onlyValiss_ofOption _ _ _)
  intro _ _
  exact raises_ok _ _

theorem decodeV1_expected (p0 p1 p2 : Str) (h0 : VersionOne p0) (h : ¬ LongInteger p1) :
    Raises Expected (decodeV1 p0 p1 p2) := by
  unfold decodeV1
  apply Raises.bind (segmentObject_expected _ p1 h)
  intro ms hms
  obtain ⟨b1,hb1,_⟩ := (segmentObject_ok _ _ _).1 hms
  apply Raises.bind (decodedOf_raises expected_badField ms)
  intro d _
  apply Raises.bind
  · exact expected_recast _ _ (fromPublicKey_onlyValiss _) fun _ => ⟨.badIssuerKey,by decide,rfl⟩
  intro kp _
  apply Raises.bind (b64urlDecode_expected p2)
  intro sig _
  obtain ⟨b0,_,hb0,_⟩ := h0
  rw [signedText p0 p1 (b64urlDecode_char _ b0 hb0) (b64urlDecode_char _ b1 hb1), ok_bind]
  apply Raises.bind
  · exact expected_recast _ _ (onlyValiss_raiseIf _ _ _) fun _ => ⟨.badSignature,by decide,rfl⟩
  intro _ _
  exact raises_ok _ _

/-- The header, or the payload under a version-1 header, holds an integer literal
that `json.loads` refuses. -/
def TooLong (tok : Str) : Prop := ∃ p0 p1 p2, splitOn 46 tok = [p0,p1,p2] ∧
  (LongInteger p0 ∨ VersionOne p0 ∧ LongInteger p1)

theorem decodeToken_expected (tok : Str) (h : ¬ TooLong tok) :
    Raises Expected (decodeToken tok) := by
  unfold decodeToken
  apply Raises.bind
  · exact peekVersion_expected tok fun p0 p1 p2 hs hl => h ⟨p0,p1,p2,hs,Or.inl hl⟩
  rintro ⟨ver,p0,p1,p2⟩ hp
  dsimp only
  split_ifs with hver
  · subst hver
    obtain ⟨q0,q1,q2,hs⟩ : ∃ q0 q1 q2, splitOn 46 tok = [q0,q1,q2] := by
      unfold peekVersion at hp
      split at hp
      next q0 q1 q2 hs => exact ⟨q0,q1,q2,hs⟩
      next => cases hp
    obtain ⟨h0,hq⟩ := (peekVersion_one tok q0 q1 q2 hs _).1 hp
    obtain ⟨rfl,rfl,rfl⟩ : p0 = q0 ∧ p1 = q1 ∧ p2 = q2 := by simpa using hq
    exact decodeV1_expected p0 p1 p2 h0 fun hl => h ⟨p0,p1,p2,hs,Or.inr ⟨h0,hl⟩⟩
  · exact (raises_error _ _).2 ⟨.unsupportedVersion,by decide,rfl⟩

theorem decodeToken_long (tok : Str) (h : TooLong tok) :
    decodeToken tok = builtin .valueError := by
  obtain ⟨p0,p1,p2,hs,hl | ⟨h0,hl⟩⟩ := h
  · simp only [decodeToken, peekVersion, hs, segmentObject_long _ p0 hl, builtin, error_bind]
  · have hp := (peekVersion_one tok p0 p1 p2 hs (p0,p1,p2)).2 ⟨h0,rfl⟩
    simp only [decodeToken, hp, ok_bind, if_true, decodeV1, segmentObject_long _ p1 hl, builtin,
      error_bind]

/-- Whatever is read of a decoded token, decoding it lets through exactly what
the digit limit lets through. -/
theorem reading_onlyValiss {α : Type} (tok : Str) (f : Decoded → Py α)
    (hf : OnlyValiss (decodeToken tok) → OnlyValiss (decodeToken tok >>= f)) :
    OnlyValiss (decodeToken tok >>= f) ↔ ¬ TooLong tok := by
  constructor
  · intro h hl
    rw [decodeToken_long tok hl] at h
    exact absurd (h _ rfl) (by simp [Exc.isValiss])
  · intro h
    exact hf fun e he => expected_valiss e (decodeToken_expected tok h e he)

/-- Decoding fails with one of the five reasons unless an integer literal beyond
the digit limit is reached; so do the readers of one level, up to their checks. -/
theorem decoding_total (tok : Str) :
    (Raises Expected (decodeToken tok) ↔ ¬ TooLong tok) ∧
    (∀ key, OnlyValiss (verifyOperator tok key) ↔ ¬ TooLong tok) ∧
    (∀ key, OnlyValiss (verifyAccount tok key) ↔ ¬ TooLong tok) ∧
    (∀ key, OnlyValiss (verifyUser tok key) ↔ ¬ TooLong tok) ∧
    (OnlyValiss (decodeClaims tok) ↔ ¬ TooLong tok) ∧
    (OnlyValiss (issuerOf tok) ↔ ¬ TooLong tok) := by
  refine ⟨?_,?_,?_,?_,?_,?_⟩
  · constructor
    · intro h hl
      obtain ⟨r,_,hr⟩ := h _ (decodeToken_long tok hl)
      cases hr
    · exact decodeToken_expected tok
  · intro key
    exact reading_onlyValiss tok _ (verifyOperator_raises ordinary_valiss tok key)
  · intro key
    exact reading_onlyValiss tok _ (verifyAccount_raises ordinary_valiss tok key)
  · intro key
    exact reading_onlyValiss tok _ (verifyUser_raises ordinary_valiss tok key)
  · exact reading_onlyValiss tok _ (decodeClaims_raises tok)
  · exact reading_onlyValiss tok _ (issuerOf_raises tok)

def longToken : Str :=
  b64url (encodePass (49::49::List.replicate 4299 49)) ++ 46::lit "e30" ++ 46::lit "AA"

theorem longToken_tooLong : TooLong longToken := by
  refine ⟨b64url (encodePass (49::49::List.replicate 4299 49)),lit "e30",lit "AA",?_,Or.inl ?_⟩
  · rw [longToken, List.append_assoc, List.cons_append, splitOn_cons _ _ _ (b64url_dotless _)]
    rfl
  · refine ⟨_,b64urlDecode_b64url _,?_⟩
    apply loads_long intDigits 49 49
    · intro c hc
      have hc49 : c = 49 := by
        simp only [List.mem_cons, List.mem_replicate, or_self_left] at hc
        exact hc.elim id And.right
      rw [hc49]
      decide
    · decide
    · rw [List.length_replicate]
      decide

end Decoding

section Widgets
local instance : Platform := domain.ideal

theorem long_integer_escapes : ¬ ∀ tok, Raises Expected (decodeToken tok) := by
  intro h
  obtain ⟨r,_,hr⟩ := h longToken _ (decodeToken_long longToken longToken_tooLong)
  cases hr

end Widgets

end Valiss.HostileTokens
