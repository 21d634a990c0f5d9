import Valiss.Message

/-!
# Signing history

Key holders sign only through the issuing functions and `sign_request`. With
ideal signatures a signature that verifies under an nkey goes back to one call
of that key, and the signed bytes tell which function was called with what.
-/

set_option autoImplicit false

namespace Valiss.SigningHistory
open Lib.Unicode Lib.Json Lib.Calendar Lib.Fallible
open Valiss.Errors Valiss.Nkeys Valiss.Codec Valiss.TokenClaims Valiss.Mint Valiss.Decode
open Valiss.TokenRoundTrip Valiss.RequestSignature Valiss.Message

variable [Platform]

inductive Issue where
  | operator (name : Str) (o : MintOptions)
  | account (name accountPubKey : Str) (o : MintOptions)
  | user (name userPubKey : Str) (bearer : Bool) (o : MintOptions)
  | message (audience sum : Str) (chain : Option Chain) (o : MintOptions)

def Issue.draft (kp : KeyPair) : Issue → Py Draft
  | .operator name o => operatorDraft kp name o
  | .account name pub o => accountDraft kp name pub o
  | .user name pub bearer o => userDraft kp name pub bearer o
  | .message audience sum chain o => messageDraft kp audience sum chain o

def Issue.run (kp : KeyPair) : Issue → Py Str
  | .operator name o => issueOperator kp name o
  | .account name pub o => issueAccount kp name pub o
  | .user name pub bearer o => issueUser kp name pub bearer o
  | .message audience sum chain o => issueMessage kp audience sum chain o

def Issue.type : Issue → Str
  | .operator _ _ => operatorType
  | .account _ _ _ => accountType
  | .user _ _ _ _ => userType
  | .message _ _ _ _ => messageType

theorem type_account (c : Issue) (h : c.type = accountType) :
    ∃ name pub o, c = .account name pub o := by
  cases c <;> simp [Issue.type, operatorType, accountType, userType, messageType] at h ⊢

theorem type_user (c : Issue) (h : c.type = userType) :
    ∃ name pub bearer o, c = .user name pub bearer o := by
  cases c <;> simp [Issue.type, operatorType, accountType, userType, messageType] at h ⊢

theorem type_message (c : Issue) (h : c.type = messageType) :
    ∃ audience sum chain o, c = .message audience sum chain o := by
  cases c <;> simp [Issue.type, operatorType, accountType, userType, messageType] at h ⊢

inductive Call where
  | issue (kp : KeyPair) (c : Issue)
  | request (kp : KeyPair) (context : Bytes) (now : DateTime)

def Call.key : Call → KeyPair
  | .issue kp _ => kp
  | .request kp _ _ => kp

/-- The bytes a call has its key sign, if it gets that far. -/
def Call.signed : Call → Py Bytes
  | .issue kp c => do
    let d ← c.draft kp
    let input ← signingInput kp d
    let bytes ← encode input
    let _ ← kp.sign bytes
    return bytes
  | .request kp context now => do
    let payload ← signedPayload (rfc3339nano now) context
    let _ ← kp.sign payload
    return payload

def Holds (kp : KeyPair) (key : Str) : Prop :=
  ∃ named, fromPublicKey key = .ok named ∧ named.publicRaw = kp.publicRaw

/-- A signature verifies under an nkey only for bytes that the matching key signed. -/
def IdealSignatures (history : List Call) : Prop :=
  ∀ (key : Str) (named : KeyPair) (m sig : Bytes), fromPublicKey key = .ok named →
    Platform.edVerify named.publicRaw m sig = true →
    ∃ c ∈ history, Holds c.key key ∧ c.signed = .ok m

theorem run_draft (kp : KeyPair) (c : Issue) :
    c.run kp = (do let d ← c.draft kp; encodeV1 kp d) := by
  cases c <;> rfl

theorem draft_body (kp : KeyPair) (c : Issue) (d : Draft) (h : c.draft kp = .ok d) :
    d.body.type = c.type ∧ distinct (.obj d.body.ext) = true := by
  cases c with
  | operator name o =>
    simp only [Issue.draft, operatorDraft, bind_ok, pure_ok] at h
    obtain ⟨_,_,_,_,ext,he,rfl⟩ := h
    exact ⟨rfl,extensionsClaim_distinct _ _ he⟩
  | account name pub o =>
    simp only [Issue.draft, accountDraft, bind_ok, pure_ok] at h
    obtain ⟨_,_,_,_,_,_,ext,he,rfl⟩ := h
    exact ⟨rfl,extensionsClaim_distinct _ _ he⟩
  | user name pub bearer o =>
    simp only [Issue.draft, userDraft, bind_ok, pure_ok] at h
    obtain ⟨_,_,_,_,_,_,ext,he,rfl⟩ := h
    exact ⟨rfl,extensionsClaim_distinct _ _ he⟩
  | message audience sum chain o =>
    simp only [Issue.draft, messageDraft, bind_ok, pure_ok] at h
    obtain ⟨_,_,_,_,ext,he,_,_,_,_,_,_,rfl⟩ := h
    exact ⟨rfl,extensionsClaim_distinct _ _ he⟩

theorem signed_issue (kp : KeyPair) (c : Issue) (m : Bytes) (h : (Call.issue kp c).signed = .ok m) :
    ∃ d input tok, c.draft kp = .ok d ∧ signingInput kp d = .ok input ∧
      encodePass input = m ∧ c.run kp = .ok tok ∧ encodeV1 kp d = .ok tok := by
  simp only [Call.signed, bind_ok, pure_ok] at h
  obtain ⟨d,hd,input,hi,bytes,hb,sig,hs,rfl⟩ := h
  have he : encodeV1 kp d = .ok (input ++ 46 :: b64url sig) := by
    rw [encodeV1, hi, ok_bind, hb, ok_bind, hs, ok_bind]
    rfl
  refine ⟨d,input,_,hd,hi,((encode_ok _ _).1 hb).2,?_,he⟩
  rw [run_draft, hd, ok_bind, he]

def Carries (tok : Str) (d : Decoded) : Prop :=
  ∃ p0 p1 p2 payload, peekVersion tok = .ok (1,p0,p1,p2) ∧
    segmentObject (lit "token claims") p1 = .ok payload ∧ decodedOf payload = .ok d

theorem encodeV1_carries (kp : KeyPair) (d : Draft) (tok jti : Str)
    (h : encodeV1 kp d = .ok tok) (hd : distinct (.obj d.body.ext) = true)
    (hj : jtiOf (d.claims kp.publicKey) = .ok jti) (hr : InRange d) :
    Carries tok (decodedDraft d kp.publicKey jti hr) := by
  obtain ⟨jti',text,sig,hj',ht,_,rfl⟩ := encodeV1_ok kp d tok h
  rw [hj, Except.ok.injEq] at hj'
  subst hj'
  exact ⟨_,_,_,_,peekVersion_minted _ _ (b64url_dotless _) (b64url_dotless _),
    segmentObject_goJson _ _ _ _ (payload_distinct d _ _ hd) ht,
    (decodedOf_payload d _ jti _).2 ⟨hr,rfl⟩⟩

def Drafted (kp : KeyPair) (c : Issue) (x : Decoded) : Prop :=
  ∃ d jti hr, c.draft kp = .ok d ∧ x = decodedDraft d kp.publicKey jti hr

theorem Drafted.type {kp : KeyPair} {c : Issue} {x : Decoded} (h : Drafted kp c x) :
    x.type = c.type := by
  obtain ⟨d,jti,hr,hd,rfl⟩ := h
  exact (draft_body kp c d hd).1

theorem Drafted.message {kp : KeyPair} {audience sum : Str} {chain : Option Chain}
    {o : MintOptions} {x : Decoded} (h : Drafted kp (.message audience sum chain o) x) :
    x.audience = audience ∧ x.checksum = sum ∧ x.chain = chainOf chain := by
  obtain ⟨d,jti,hr,hd,rfl⟩ := h
  simp only [Issue.draft, messageDraft, bind_ok, pure_ok] at hd
  obtain ⟨_,_,_,_,ext,_,_,_,_,_,_,_,rfl⟩ := hd
  exact ⟨rfl,rfl,rfl⟩

theorem chainPart_embedded (c : Chain) :
    chainPart (strMember "account" c.1 ++ strMember "user" c.2) "account" = .str c.1 ∧
    chainPart (strMember "account" c.1 ++ strMember "user" c.2) "user" = .str c.2 := by
  constructor
  · by_cases hc : c.1 = [] <;> simp [chainPart, truthy, List.lookup_append, hc]
  · by_cases hc : c.2 = [] <;> simp [chainPart, truthy, List.lookup_append, hc]

theorem selectChain_same (embedded supplied : Chain) (x : Json × Json)
    (h : selectChain (chainOf (some embedded)) (some supplied) = .ok x) : embedded = supplied := by
  obtain ⟨ha,hu,_⟩ := (selectChain_both _ _ _).1 h
  obtain ⟨ha',hu'⟩ := chainPart_embedded embedded
  rw [ha', Value.str.injEq] at ha
  rw [hu', Value.str.injEq] at hu
  exact Prod.ext ha hu

/-- An accepted token carries the claims of a token its issuer key minted. -/
theorem decodeToken_minted_by (history : List Call) (ideal : IdealSignatures history)
    (tok : Str) (x : Decoded) (h : decodeToken tok = .ok x) :
    ∃ kp c t, Call.issue kp c ∈ history ∧ kp.publicKey = x.issuer ∧ c.run kp = .ok t ∧
      Carries t x ∧ Drafted kp c x := by
  obtain ⟨p0,p1,p2,payload,kp,sig,hp,hs,hx,hk,_,hv⟩ := (decodeToken_ok _ _).1 h
  obtain ⟨call,hmem,_,hsig⟩ := ideal _ _ _ _ hk hv
  cases call with
  | issue kp' c =>
    obtain ⟨d,input,t,hd,hi,hm,hrun,henc⟩ := signed_issue kp' c _ hsig
    have hdist := (draft_body kp' c d hd).2
    obtain ⟨jti,hj,hr,rfl⟩ :=
      decodeToken_signed kp' d input tok x p0 p1 p2 payload hi hdist hp hs hx hm.symm
    exact ⟨kp',c,t,hmem,rfl,hrun,encodeV1_carries kp' d t jti henc hdist hj hr,d,jti,hr,hd,rfl⟩
  | request kp' context now =>
    rw [Call.signed, signedPayload_ok _ _ (rfc3339nano_stamp now), ok_bind] at hsig
    simp only [bind_ok, pure_ok] at hsig
    obtain ⟨_,_,he⟩ := hsig
    have hin := encodePass_injective he
    obtain ⟨bs,hb,_⟩ := (segmentObject_ok _ _ _).1 hs
    refine absurd hin.symm (signedText_ne p0 p1 _ context ?_)
    intro c hc
    rcases List.mem_append.mp hc with hc | hc
    · exact (urlChar_ascii c ((peekVersion_ok _ _ _ _ _ hp).2 c hc)).2.2
    · rcases List.mem_cons.mp hc with rfl | hc
      · decide
      · exact (urlChar_ascii c (b64urlDecode_char _ bs hb c hc)).2.2

/-- An accepted request signature was made by `sign_request` over that context. -/
theorem verifySignature_signed_by (inj : Function.Injective Platform.sha256)
    (history : List Call) (ideal : IdealSignatures history) (key ts sig : Str)
    (context : Bytes) (now : DateTime) (skew : TimeDelta)
    (h : verifySignature key ts sig context now skew = .ok ()) :
    ∃ kp t made, Call.request kp context t ∈ history ∧ Holds kp key ∧
      signRequest kp context t = .ok (ts,made) := by
  obtain ⟨hshape,_,raw,kp,_,hk,hv⟩ := (verifySignature_ok _ _ _ _ _ _ _).1 h
  obtain ⟨call,hmem,hkey,hsig⟩ := ideal _ _ _ _ hk hv
  have hstamp := shape_stamp ts hshape
  cases call with
  | issue kp' c =>
    obtain ⟨d,input,t,_,hi,hm,_⟩ := signed_issue kp' c _ hsig
    obtain ⟨jti,text,_,_,rfl⟩ := signingInput_ok kp' d input hi
    refine absurd (encodePass_injective hm) (signedText_ne _ _ ts context ?_)
    intro c hc
    rcases List.mem_append.mp hc with hc | hc
    · exact (urlChar_ascii c (b64url_char _ c hc)).2.2
    · rcases List.mem_cons.mp hc with rfl | hc
      · decide
      · exact (urlChar_ascii c (b64url_char _ c hc)).2.2
  | request kp' context' t =>
    rw [Call.signed, signedPayload_ok _ _ (rfc3339nano_stamp t), ok_bind] at hsig
    simp only [bind_ok, pure_ok] at hsig
    obtain ⟨made,hmade,he⟩ := hsig
    obtain ⟨rfl,hc⟩ := signedText_inj _ _ _ _ (rfc3339nano_stamp t) hstamp (encodePass_injective he)
    obtain rfl := inj hc
    exact ⟨kp',t,_,hmem,hkey,(signRequest_ok _ _ _ _ _).2 ⟨rfl,made,hmade,rfl⟩⟩

end Valiss.SigningHistory
