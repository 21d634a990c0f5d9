import Valiss.Lib.Timestamps
import Valiss.Printing
import Valiss.Recorded

/-!
# Issuing and verifying are inverse

A token of a level, verified at that level under its issuer's key, returns the
arguments it was issued with; the other levels refuse it. Times come back as
whole seconds, except where the conversion of an instant to a double has moved
it to the next one.
-/

set_option autoImplicit false

namespace Valiss.IssuedTokens
open Lib.Unicode Lib.Json Lib.Calendar Lib.Timestamps Lib.Fallible Valiss.Errors Valiss.Nkeys
open Valiss.Codec Valiss.TokenClaims Valiss.Mint Valiss.Decode Valiss.TokenRoundTrip
open Valiss.Operators Valiss.Message Valiss.Printing Valiss.Recorded

section Calls
variable [Platform]

/-- The arguments of one level's issuing function, beside the key and the options. -/
inductive Level where
  | operator (name : Str)
  | account (name accountPubKey : Str)
  | user (name userPubKey : Str) (bearer : Bool)

namespace Level

def issue (kp : KeyPair) (o : MintOptions) : Level → Py Str
  | .operator name => issueOperator kp name o
  | .account name pub => issueAccount kp name pub o
  | .user name pub bearer => issueUser kp name pub bearer o

def name : Level → Str
  | .operator name => name
  | .account name _ => name
  | .user name _ _ => name

def subject (kp : KeyPair) : Level → Str
  | .operator _ => kp.publicKey
  | .account _ pub => pub
  | .user _ pub _ => pub

def bearer : Level → Bool
  | .operator _ => false
  | .account _ _ => false
  | .user _ _ bearer => bearer

def type : Level → Str
  | .operator _ => operatorType
  | .account _ _ => accountType
  | .user _ _ _ => userType

def role : Level → Role
  | .operator _ => .operator
  | .account _ _ => .account
  | .user _ _ _ => .user

def draft (kp : KeyPair) (o : MintOptions) (expires nbf : ℤ) (ext : Dict Json) (l : Level) :
    Draft :=
  ⟨⟨l.type,o.epoch,l.bearer,[],none,ext⟩,l.name,l.subject kp,[],expires,nbf,o.now⟩

theorem issue_ok (kp : KeyPair) (o : MintOptions) (l : Level) (tok : Str)
    (h : l.issue kp o = .ok tok) : ∃ expires nbf ext, validity o = .ok (expires,nbf) ∧
      extensionsClaim o.extensions = .ok ext ∧ isValidPublic (l.subject kp) l.role = true ∧
      encodeV1 kp (l.draft kp o expires nbf ext) = .ok tok := by
  cases l with
  | operator name =>
    simp only [issue, issueOperator, operatorDraft, bind_ok, raiseIf_ok, not_not, pure_ok] at h
    obtain ⟨_,⟨_,hr,⟨expires,nbf⟩,hv,ext,he,rfl⟩,ht⟩ := h
    exact ⟨expires,nbf,ext,hv,he,hr,ht⟩
  | account name pub =>
    simp only [issue, issueAccount, accountDraft, bind_ok, raiseIf_ok, not_not, pure_ok] at h
    obtain ⟨_,⟨_,_,_,hr,⟨expires,nbf⟩,hv,ext,he,rfl⟩,ht⟩ := h
    exact ⟨expires,nbf,ext,hv,he,hr,ht⟩
  | user name pub bearer =>
    simp only [issue, issueUser, userDraft, bind_ok, raiseIf_ok, not_not, pure_ok] at h
    obtain ⟨_,⟨_,_,_,hr,⟨expires,nbf⟩,hv,ext,he,rfl⟩,ht⟩ := h
    exact ⟨expires,nbf,ext,hv,he,hr,ht⟩

def issuerRole : Level → Role
  | .operator _ => .operator
  | .account _ _ => .operator
  | .user _ _ _ => .account

theorem issue_eq (kp : KeyPair) (o : MintOptions) (l : Level) (expires nbf : ℤ) (ext : Dict Json)
    (hk : kp.role = l.issuerRole) (hs : isValidPublic (l.subject kp) l.role = true)
    (hv : validity o = .ok (expires,nbf)) (he : extensionsClaim o.extensions = .ok ext) :
    l.issue kp o = encodeV1 kp (l.draft kp o expires nbf ext) := by
  cases l with
  | operator name =>
    have hvalid : isValidPublicOperatorKey kp.publicKey = true :=
      (isValidPublic_publicKey kp .operator).2 hk
    rw [issue, issueOperator, operatorDraft, raiseIf_neg _ _ (not_not.2 hvalid), hv, he]
    rfl
  | account name pub =>
    have hvalid : isValidPublicOperatorKey kp.publicKey = true :=
      (isValidPublic_publicKey kp .operator).2 hk
    have hsub : isValidPublicAccountKey pub = true := hs
    rw [issue, issueAccount, accountDraft, raiseIf_neg _ _ (not_not.2 hvalid),
      raiseIf_neg _ _ (not_not.2 hsub), hv, he]
    rfl
  | user name pub bearer =>
    have hvalid : isValidPublicAccountKey kp.publicKey = true :=
      (isValidPublic_publicKey kp .account).2 hk
    have hsub : isValidPublicUserKey pub = true := hs
    rw [issue, issueUser, userDraft, raiseIf_neg _ _ (not_not.2 hvalid),
      raiseIf_neg _ _ (not_not.2 hsub), hv, he]
    rfl

omit [Platform] in
theorem type_distinct : operatorType ≠ accountType ∧ operatorType ≠ userType ∧
    accountType ≠ userType := by decide

omit [Platform] in
theorem type_level (l : Level) : l.type ≠ messageType := by
  cases l <;> simp [type, operatorType, accountType, userType, messageType]

end Level

def requestedExpiry (o : MintOptions) : Option DateTime :=
  match o.ttl with
  | some ttl => o.now.plus ttl
  | none => o.expiry

def written (t : Option DateTime) : ℤ := (t.map timestampInt).getD 0

theorem validity_written (o : MintOptions) (expires nbf : ℤ) (h : validity o = .ok (expires,nbf)) :
    expires = written (requestedExpiry o) ∧ nbf = written o.notBefore := by
  unfold requestedExpiry
  cases ht : o.ttl with
  | some ttl =>
    simp only [validity, ht, bind_ok, arith_ok, pure_ok, Prod.mk.injEq] at h
    obtain ⟨_,_,_,_,t,hp,rfl,rfl⟩ := h
    refine ⟨by simp only [hp, written, Option.map_some, Option.getD_some],?_⟩
    cases o.notBefore <;> rfl
  | none =>
    cases hx : o.expiry with
    | some t =>
      simp only [validity, ht, hx, bind_ok, pure_ok, Prod.mk.injEq] at h
      obtain ⟨_,_,rfl,rfl⟩ := h
      refine ⟨rfl,?_⟩
      cases o.notBefore <;> rfl
    | none =>
      simp only [validity, ht, hx, bind_ok, pure_ok, Prod.mk.injEq] at h
      obtain ⟨_,_,rfl,rfl⟩ := h
      refine ⟨rfl,?_⟩
      cases o.notBefore <;> rfl

omit [Platform] in
theorem written_brief (t : Option DateTime) : digitCount (written t) ≤ intDigits := by
  cases t with
  | none => exact brief_number 0 (by decide)
  | some x =>
    have hl := timestampInt_low x
    have hh := timestampInt_high x
    exact brief_number (timestampInt x) (by omega)

theorem issue_printable (kp : KeyPair) (seed : Key) (hseed : kp.seed = some seed) (o : MintOptions)
    (l : Level) (hk : kp.role = l.issuerRole) (hs : isValidPublic (l.subject kp) l.role = true)
    (hv : (validity o).isOk = true) (hepoch : 0 ≤ o.epoch ∧ o.epoch ≤ uint64Max)
    (hname : Encodable l.name) (hsubject : Encodable (l.subject kp)) (ext : Dict Json)
    (he : extensionsClaim o.extensions = .ok ext) (ht : TextsMembers Encodable ext)
    (hi : membersWithin intDigits ext = true) : ∃ tok, l.issue kp o = .ok tok := by
  obtain ⟨⟨expires,nbf⟩,hv⟩ := exists_ok _ hv
  obtain ⟨hexp,hnbf⟩ := validity_written o expires nbf hv
  have hmax : uint64Max = 18446744073709551615 := rfl
  have htypes : Encodable operatorType ∧ Encodable accountType ∧ Encodable userType := by decide
  have htype : Encodable l.type := by
    cases l with
    | operator _ => exact htypes.1
    | account _ _ => exact htypes.2.1
    | user _ _ _ => exact htypes.2.2
  rw [l.issue_eq kp o expires nbf ext hk hs hv he]
  apply encodeV1_printable kp seed hseed
  · exact ⟨hname,hsubject,encodable_nil,htype,encodable_nil,nofun,ht,hi⟩
  · exact ⟨written_brief (some o.now),hexp ▸ written_brief _,hnbf ▸ written_brief _,
      brief_number o.epoch (by omega)⟩

def EachInstant (P : DateTime → Prop) (o : MintOptions) : Prop :=
  P o.now ∧ (∀ t ∈ requestedExpiry o, P t) ∧ ∀ t ∈ o.notBefore, P t

omit [Platform] in
theorem ts_written (t : Option DateTime) (ht : ∀ x ∈ t, wholeSeconds x ≠ 0)
    (v : Within tsMin tsMax) (hv : v.val = written t) :
    ts v = t.map truncated ↔ ∀ x ∈ t, ¬ RoundsAway x := by
  cases t with
  | none =>
    have h0 : v.val = 0 := hv
    simp [ts, h0]
  | some x =>
    have hx : v.val = timestampInt x := hv
    have hne : v.val ≠ 0 := by
      rw [hx]
      exact (timestampInt_zero x).not.2 (ht x rfl)
    rw [ts, if_neg hne, Option.map_some, Option.some.injEq]
    simp only [Option.mem_some_iff, forall_eq', truncated, DateTime.mk.injEq, hx]
    rw [← timestampInt_exact]
    omega

omit [Platform] in
theorem written_range (t : Option DateTime) (h : ∀ x ∈ t, ¬ RoundsAway x) :
    tsMin ≤ written t ∧ written t ≤ tsMax := by
  cases t with
  | none => exact ts_zero
  | some x =>
    rw [written, Option.map_some, Option.getD_some, (timestampInt_exact x).2 (h x rfl)]
    exact wholeSeconds_range x

def Identified (tok id : Str) : Prop :=
  ∃ p0 p1 p2 claims, splitOn 46 tok = [p0,p1,p2] ∧
    segmentObject (lit "token claims") p1 = .ok ((lit "jti",.str id) :: claims) ∧
    jtiOf claims = .ok id

structure Returned (kp : KeyPair) (o : MintOptions) (l : Level) (tok : Str) (c : Claims)
    (label : Str) (generation : ℤ) (members : Dict Json) : Prop where
  issuer : c.issuer = kp.publicKey
  subject : c.subject = l.subject kp
  name : label = if l.name = [] then l.subject kp else l.name
  epoch : generation = o.epoch
  ext : members.Perm (o.extensions.map fun e => (e.name,.obj e.payload.val))
  issuedAt : c.issuedAt = some (truncated o.now)
  expiresAt : c.expiresAt = (requestedExpiry o).map truncated
  notBefore : c.notBefore = o.notBefore.map truncated
  id : Identified tok c.id

def Refused {α : Type} (x : Py α) : Prop := ∀ a, x ≠ .ok a

/-- Verified at its own level a token returns what it was issued with, and no
other function accepts it under any key. -/
def Level.Inverse (kp : KeyPair) (o : MintOptions) (tok : Str) (l : Level) : Prop :=
  (∀ anchor keyring m, Refused (verifyMessage tok anchor keyring m)) ∧
  match l with
  | .operator _ => (∃ c, verifyOperator tok kp.publicKey = .ok c ∧
      Returned kp o l tok c.toClaims c.name c.epoch c.ext) ∧
      ∀ key, Refused (verifyAccount tok key) ∧ Refused (verifyUser tok key)
  | .account _ _ => (∃ c, verifyAccount tok kp.publicKey = .ok c ∧
      Returned kp o l tok c.toClaims c.name c.epoch c.ext) ∧
      ∀ key, Refused (verifyOperator tok key) ∧ Refused (verifyUser tok key)
  | .user _ _ bearer => (∃ c, verifyUser tok kp.publicKey = .ok c ∧ c.bearer = bearer ∧
      Returned kp o l tok c.toClaims c.name c.epoch c.ext) ∧
      ∀ key, Refused (verifyOperator tok key) ∧ Refused (verifyAccount tok key)

theorem collect_members (es : List Extension) (ext out : Dict Json)
    (h : collect es ext = .ok out) :
    out = ext ++ es.map fun e => (e.name,.obj e.payload.val) := by
  induction es generalizing ext with
  | nil =>
    cases h
    simp
  | cons e es ih =>
    simp only [collect, bind_ok, raiseIf_ok] at h
    obtain ⟨_,_,_,hn,h⟩ := h
    have hk : e.name ∉ ext.map Prod.fst := by
      rw [← lookup_none_iff]
      exact Option.not_isSome_iff_eq_none.1 hn
    rw [ih _ h, put_new _ _ _ hk, List.append_assoc]
    rfl

theorem extensionsClaim_members (es : List Extension) (ext : Dict Json)
    (h : extensionsClaim es = .ok ext) :
    ext.Perm (es.map fun e => (e.name,.obj e.payload.val)) := by
  simp only [extensionsClaim, bind_ok, pure_ok] at h
  obtain ⟨d,hd,rfl⟩ := h
  have hm := collect_members es [] d hd
  rw [List.nil_append] at hm
  rw [← hm]
  exact List.perm_insertionSort _ d

section Issued
variable {kp : KeyPair} {o : MintOptions} {l : Level} {tok : Str}
  (h : l.issue kp o = .ok tok)
include h

theorem issued_read (x : Decoded) (hx : decodeToken tok = .ok x) :
    ∃ expires nbf ext jti, validity o = .ok (expires,nbf) ∧
      ∃ hr : InRange (l.draft kp o expires nbf ext),
        x = decodedDraft (l.draft kp o expires nbf ext) kp.publicKey jti hr := by
  obtain ⟨expires,nbf,ext,hv,he,_,ht⟩ := l.issue_ok kp o tok h
  obtain ⟨jti,_,hr,rfl⟩ := decodeToken_reads kp _ tok ht (extensionsClaim_distinct _ _ he) x hx
  exact ⟨expires,nbf,ext,jti,hv,hr,rfl⟩

theorem issued_fields (x : Decoded) (hx : decodeToken tok = .ok x) : x.type = l.type ∧
    x.issuer = kp.publicKey ∧ x.subject = l.subject kp ∧ x.bearer = l.bearer := by
  obtain ⟨_,_,_,_,_,_,rfl⟩ := issued_read h x hx
  exact ⟨rfl,rfl,rfl,rfl⟩

theorem issued_ne_nil : tok ≠ [] := by
  obtain ⟨_,_,_,_,_,_,ht⟩ := l.issue_ok kp o tok h
  obtain ⟨_,_,_,_,_,_,rfl⟩ := encodeV1_ok _ _ _ ht
  simp

theorem issued_values (x : Decoded) (hx : decodeToken tok = .ok x) :
    x.name = l.name ∧ x.epoch.val = o.epoch ∧ extensionsClaim o.extensions = .ok x.ext ∧
      x.expires.val = written (requestedExpiry o) ∧ x.notBefore.val = written o.notBefore := by
  obtain ⟨expires,nbf,ext,hv,he,_,ht⟩ := l.issue_ok kp o tok h
  obtain ⟨jti,_,hr,rfl⟩ := decodeToken_reads kp _ tok ht (extensionsClaim_distinct _ _ he) x hx
  obtain ⟨hexp,hnbf⟩ := validity_written o expires nbf hv
  cases l <;> exact ⟨rfl,rfl,he,hexp,hnbf⟩

theorem draft_decoded (hon : HonestSignatures) (expires nbf : ℤ) (ext : Dict Json)
    (hv : validity o = .ok (expires,nbf)) (he : extensionsClaim o.extensions = .ok ext)
    (hr : InRange (l.draft kp o expires nbf ext)) : ∃ jti,
      decodeToken tok = .ok (decodedDraft (l.draft kp o expires nbf ext) kp.publicKey jti hr) := by
  obtain ⟨expires',nbf',ext',hv',he',_,ht⟩ := l.issue_ok kp o tok h
  rw [hv, Except.ok.injEq, Prod.mk.injEq] at hv'
  rw [he, Except.ok.injEq] at he'
  obtain ⟨⟨rfl,rfl⟩,rfl⟩ := And.intro hv' he'
  have hd := extensionsClaim_distinct _ _ he
  obtain ⟨jti,hj,_⟩ := decodeToken_issued hon kp _ tok ht hd
  exact ⟨jti,(decodeToken_minted hon kp _ tok ht hd _).2 ⟨jti,hj,hr,rfl⟩⟩

theorem returned_iff (hon : HonestSignatures) (he : 0 ≤ o.epoch ∧ o.epoch ≤ uint64Max)
    (hz : EachInstant (fun t => wholeSeconds t ≠ 0) o) :
    (∃ x, decodeToken tok = .ok x ∧
      Returned kp o l tok (claimsOf x) (nameOf x.name x.subject) x.epoch.val x.ext) ↔
      EachInstant (fun t => ¬ RoundsAway t) o := by
  obtain ⟨expires,nbf,ext,hv,hext,_,ht⟩ := l.issue_ok kp o tok h
  obtain ⟨hexp,hnbf⟩ := validity_written o expires nbf hv
  have hnow : ∀ t ∈ some o.now, wholeSeconds t ≠ 0 := by
    simpa using hz.1
  constructor
  · rintro ⟨x,hx,hb⟩
    obtain ⟨expires',nbf',_,_,hv',hr,rfl⟩ := issued_read h x hx
    rw [hv, Except.ok.injEq, Prod.mk.injEq] at hv'
    obtain ⟨rfl,rfl⟩ := hv'
    refine ⟨?_,(ts_written _ hz.2.1 _ hexp).1 hb.expiresAt,(ts_written _ hz.2.2 _ hnbf).1 hb.notBefore⟩
    exact (ts_written (some o.now) hnow _ rfl).1 hb.issuedAt o.now rfl
  · rintro ⟨hi,hx,hn⟩
    have hi' : ∀ t ∈ some o.now, ¬ RoundsAway t := by simpa using hi
    have hdist := extensionsClaim_distinct _ _ hext
    obtain ⟨jti,text,sig,hj,hg,_,htok⟩ := encodeV1_ok kp _ _ ht
    let d := l.draft kp o expires nbf ext
    have hwx : tsMin ≤ expires ∧ expires ≤ tsMax := hexp ▸ written_range _ hx
    have hwn : tsMin ≤ nbf ∧ nbf ≤ tsMax := hnbf ▸ written_range _ hn
    have hr : InRange d := ⟨written_range (some o.now) hi',hwx,hwn,he⟩
    refine ⟨decodedDraft d kp.publicKey jti hr,
      (decodeToken_minted hon kp d tok ht hdist _).2 ⟨jti,hj,hr,rfl⟩,
      rfl,rfl,rfl,rfl,extensionsClaim_members _ _ hext,
      (ts_written (some o.now) hnow _ rfl).2 hi',(ts_written _ hz.2.1 _ hexp).2 hx,
      (ts_written _ hz.2.2 _ hnbf).2 hn,?_⟩
    refine ⟨headerSegment,b64url text,b64url sig,_,?_,
      segmentObject_goJson _ _ _ _ (payload_distinct d _ _ hdist) hg,hj⟩
    rw [htok]
    exact splitOn_segments _ _ _ (b64url_dotless _) (b64url_dotless _) (b64url_dotless _)

theorem other_refused (key : Str) :
    (l.type ≠ operatorType → Refused (verifyOperator tok key)) ∧
    (l.type ≠ accountType → Refused (verifyAccount tok key)) ∧
    (l.type ≠ userType → Refused (verifyUser tok key)) := by
  refine ⟨?_,?_,?_⟩
  · intro hl c hc
    obtain ⟨d,hd,ht,_⟩ := (verifyOperator_ok _ _ _).1 hc
    exact hl ((issued_fields h d hd).1.symm.trans ht)
  · intro hl c hc
    obtain ⟨d,hd,ht,_⟩ := (verifyAccount_ok _ _ _).1 hc
    exact hl ((issued_fields h d hd).1.symm.trans ht)
  · intro hl c hc
    obtain ⟨d,hd,ht,_⟩ := (verifyUser_ok _ _ _).1 hc
    exact hl ((issued_fields h d hd).1.symm.trans ht)

theorem message_refused (anchor : Option Str) (keyring : Option Keyring) (m : MessageOptions) :
    Refused (verifyMessage tok anchor keyring m) := by
  intro c hc
  simp only [verifyMessage, bind_ok] at hc
  obtain ⟨a,_,hc⟩ := hc
  obtain ⟨d,hd,_⟩ := (verifyUnder_ok _ _ _ _).1 hc
  obtain ⟨hd,ht,_⟩ := (messageToken_ok _ _).1 hd
  exact l.type_level ((issued_fields h d hd).1.symm.trans ht)

end Issued

/-- Verifying undoes issuing exactly when no given instant is moved to the next second. -/
theorem issuing_inverse (hon : HonestSignatures) (kp : KeyPair) (o : MintOptions) (l : Level)
    (tok : Str) (h : l.issue kp o = .ok tok) (he : 0 ≤ o.epoch ∧ o.epoch ≤ uint64Max)
    (hz : EachInstant (fun t => wholeSeconds t ≠ 0) o) :
    l.Inverse kp o tok ↔ EachInstant (fun t => ¬ RoundsAway t) o := by
  have hother := other_refused h
  have hread := returned_iff h hon he hz
  have hfields := issued_fields h
  obtain ⟨_,_,_,_,_,hrole,_⟩ := l.issue_ok kp o tok h
  obtain ⟨hoa,hou,hau⟩ := Level.type_distinct
  rw [← hread]
  refine (and_iff_right fun _ _ _ => message_refused h _ _ _).trans ?_
  cases l with
  | operator name =>
    refine (and_iff_left fun key => ⟨(hother key).2.1 hoa,(hother key).2.2 hou⟩).trans ?_
    constructor
    · rintro ⟨c,hc,hb⟩
      obtain ⟨d,hd,_,_,_,_,rfl⟩ := (verifyOperator_ok _ _ _).1 hc
      exact ⟨d,hd,hb⟩
    · rintro ⟨d,hd,hb⟩
      obtain ⟨ht,hi,hs,_⟩ := hfields d hd
      exact ⟨_,(verifyOperator_ok _ _ _).2 ⟨d,hd,ht,hi,hs,by rw [hs]; exact hrole,rfl⟩,hb⟩
  | account name pub =>
    refine (and_iff_left fun key => ⟨(hother key).1 hoa.symm,(hother key).2.2 hau⟩).trans ?_
    constructor
    · rintro ⟨c,hc,hb⟩
      obtain ⟨d,hd,_,_,_,rfl⟩ := (verifyAccount_ok _ _ _).1 hc
      exact ⟨d,hd,hb⟩
    · rintro ⟨d,hd,hb⟩
      obtain ⟨ht,hi,hs,_⟩ := hfields d hd
      exact ⟨_,(verifyAccount_ok _ _ _).2 ⟨d,hd,ht,hi,by rw [hs]; exact hrole,rfl⟩,hb⟩
  | user name pub bearer =>
    refine (and_iff_left fun key => ⟨(hother key).1 hou.symm,(hother key).2.1 hau.symm⟩).trans ?_
    constructor
    · rintro ⟨c,hc,_,hb⟩
      obtain ⟨d,hd,_,_,_,rfl⟩ := (verifyUser_ok _ _ _).1 hc
      exact ⟨d,hd,hb⟩
    · rintro ⟨d,hd,hb⟩
      obtain ⟨ht,hi,hs,hbear⟩ := hfields d hd
      exact ⟨_,(verifyUser_ok _ _ _).2 ⟨d,hd,ht,hi,by rw [hs]; exact hrole,rfl⟩,hbear,hb⟩

end Calls

section Domain
local instance : Platform := domain.honest

theorem operator_valid : isValidPublic operatorPair.publicKey .operator = true :=
  (isValidPublic_publicKey operatorPair .operator).2 rfl

def fewYears : MintOptions := {epoch := 7,expiry := some requestedAt,now := issuedAt}

theorem operator_issued (o : MintOptions) (name : Str) (hext : o.extensions = [])
    (hv : (validity o).isOk = true) (he : 0 ≤ o.epoch ∧ o.epoch ≤ uint64Max)
    (hname : Encodable name) : ∃ tok, (Level.operator name).issue operatorPair o = .ok tok :=
  issue_printable operatorPair operatorSeed rfl o (.operator name) rfl operator_valid hv he hname
    (b32encode_encodable _) [] (by rw [hext]; rfl) trivial rfl

theorem issuing_inverse_domain :
    ∃ tok, (Level.operator (lit "acme-trust")).issue operatorPair fewYears = .ok tok ∧
      (Level.operator (lit "acme-trust")).Inverse operatorPair fewYears tok := by
  obtain ⟨tok,ht⟩ := operator_issued fewYears (lit "acme-trust") rfl rfl (by decide) (by decide)
  refine ⟨tok,ht,(issuing_inverse (honest_signatures domain) operatorPair fewYears _ tok ht
    (by decide) ?_).2 ?_⟩
  · exact ⟨by decide,fun t h => by cases h; decide,fun t h => by cases h⟩
  · exact ⟨by decide,fun t h => by cases h; decide,fun t h => by cases h⟩

def lastInstant : DateTime := ⟨253402300799999999,by decide,by decide⟩

def untilTheEnd : MintOptions := {expiry := some lastInstant,now := issuedAt}

/-- A token that expires in the last microsecond is issued, and no function reads it. -/
theorem last_instant_unreadable :
    ¬ ∀ (kp : KeyPair) (o : MintOptions) (l : Level) (tok : Str), l.issue kp o = .ok tok →
      (0 ≤ o.epoch ∧ o.epoch ≤ uint64Max) → EachInstant (fun t => wholeSeconds t ≠ 0) o →
      l.Inverse kp o tok := by
  intro hall
  obtain ⟨tok,ht⟩ := operator_issued untilTheEnd [] rfl rfl (by decide) encodable_nil
  have hz : EachInstant (fun t => wholeSeconds t ≠ 0) untilTheEnd :=
    ⟨by decide,fun t h => by cases h; decide,fun t h => by cases h⟩
  obtain ⟨_,⟨c,hc,_⟩,_⟩ := hall operatorPair untilTheEnd (.operator []) tok ht (by decide) hz
  obtain ⟨d,hd,_⟩ := (verifyOperator_ok _ _ _).1 hc
  obtain ⟨expires,_,_,_,hv,hr,_⟩ := issued_read ht d hd
  have hx : expires = 253402300800 := (validity_written _ _ _ hv).1.trans (by decide)
  have hmax : expires ≤ 253402300799 := hr.expires.2
  omega

end Domain

end Valiss.IssuedTokens
