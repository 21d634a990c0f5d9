import Valiss.Decode

/-!
# Reading back what was minted

The claims of a draft are a dict, so their text reads back to them, and the
fields read from them are the fields of the draft. A token is therefore
accepted by its own reader exactly when the numbers it carries are within the
wire ranges.
-/

set_option autoImplicit false

namespace Valiss.TokenRoundTrip
open Lib.Unicode Lib.Base64 Lib.Json Lib.Calendar Lib.Fallible Valiss.Errors Valiss.Nkeys
open Valiss.Codec Valiss.Mint Valiss.Decode

theorem lit_injective : Function.Injective lit := by
  intro a b h
  apply String.toList_injective
  refine List.map_injective_iff.2 ?_ h
  intro c d hcd
  have hc : c.toNat < 0x110000 := by
    have := c.valid
    rcases this with h | h <;> simp only [Char.toNat, UInt32.toNat] at * <;> omega
  have hd : d.toNat < 0x110000 := by
    have := d.valid
    rcases this with h | h <;> simp only [Char.toNat, UInt32.toNat] at * <;> omega
  have hv := congrArg Fin.val hcd
  rw [codePoint_val _ hc, codePoint_val _ hd] at hv
  exact Char.toNat_inj.1 hv

@[simp] theorem lit_eq (a b : String) : lit a = lit b ↔ a = b := lit_injective.eq_iff

variable [Platform]

@[simp] theorem lookup_strMember (k : Str) (key : String) (s : Str) :
    (strMember key s).lookup k = if k = lit key ∧ s ≠ [] then some (.str s) else none := by
  unfold strMember
  by_cases hs : s = []
  · simp [hs]
  · by_cases hk : k = lit key
    · simp [hs, hk]
    · have : (k == lit key) = false := by simpa using hk
      simp [hs, hk, List.lookup_cons, this]

@[simp] theorem lookup_intMember (k : Str) (key : String) (n : ℤ) :
    (intMember key n).lookup k = if k = lit key ∧ n ≠ 0 then some (.int n) else none := by
  unfold intMember
  by_cases hn : n = 0
  · simp [hn]
  · by_cases hk : k = lit key
    · simp [hn, hk]
    · have : (k == lit key) = false := by simpa using hk
      simp [hn, hk, List.lookup_cons, this]

theorem strMember_keys (key : String) (s : Str) :
    ((strMember key s).map Prod.fst).Sublist [lit key] := by
  unfold strMember
  split_ifs <;> simp

theorem intMember_keys (key : String) (n : ℤ) :
    ((intMember key n).map Prod.fst).Sublist [lit key] := by
  unfold intMember
  split_ifs <;> simp

theorem strMember_distinct (key : String) (s : Str) :
    distinctMembers (strMember key s) = true := by
  unfold strMember
  split_ifs <;> simp [distinctMembers, distinct]

theorem intMember_distinct (key : String) (n : ℤ) :
    distinctMembers (intMember key n) = true := by
  unfold intMember
  split_ifs <;> simp [distinctMembers, distinct]

def chainKeys : List Str := [lit "account",lit "user"]

def bodyKeys : List Str :=
  [lit "type",lit "epoch",lit "bearer",lit "checksum",lit "chain",lit "ext"]

def payloadKeys : List Str :=
  [lit "jti",lit "iat",lit "iss",lit "name",lit "sub",lit "aud",lit "exp",lit "nbf",lit "valiss"]

omit [Platform] in
theorem keys_nodup : chainKeys.Nodup ∧ bodyKeys.Nodup ∧ payloadKeys.Nodup := by decide

theorem chain_distinct (account user : Str) :
    distinct (.obj (strMember "account" account ++ strMember "user" user) : Json) = true := by
  have hk : ((strMember "account" account ++ strMember "user" user).map Prod.fst).Sublist
      chainKeys := by
    rw [List.map_append]
    exact (strMember_keys _ _).append (strMember_keys _ _)
  simp only [distinct, Bool.and_eq_true, decide_eq_true_eq]
  exact ⟨hk.nodup keys_nodup.1,by
    rw [distinctMembers_append, strMember_distinct, strMember_distinct]; rfl⟩

theorem body_distinct (b : Body) (h : distinct (.obj b.ext) = true) :
    distinct (.obj b.members) = true := by
  have hb : ((if b.bearer then [(lit "bearer",(.bool true : Json))] else []).map
      Prod.fst).Sublist [lit "bearer"] := by
    split_ifs <;> simp
  have hc : ((chainMember b.chain).map Prod.fst).Sublist [lit "chain"] := by
    unfold chainMember
    split <;> simp
  have he : ((if b.ext = [] then [] else [(lit "ext",(.obj b.ext : Json))]).map
      Prod.fst).Sublist [lit "ext"] := by
    split_ifs <;> simp
  have hk : (b.members.map Prod.fst).Sublist bodyKeys := by
    simp only [Body.members, List.map_cons, List.map_append]
    exact (((intMember_keys _ _).append (hb.append ((strMember_keys _ _).append
      (hc.append he))))).cons_cons _
  have hb' : distinctMembers (if b.bearer then [(lit "bearer",(.bool true : Json))] else []) =
      true := by
    split_ifs <;> simp [distinctMembers, distinct]
  have hc' : distinctMembers (chainMember b.chain) = true := by
    unfold chainMember
    split
    · rfl
    · simp only [distinctMembers, chain_distinct, Bool.and_true]
  have he' : distinctMembers (if b.ext = [] then [] else [(lit "ext",(.obj b.ext : Json))]) =
      true := by
    split_ifs
    · rfl
    · simp only [distinctMembers, h, Bool.and_true]
  simp only [distinct, Bool.and_eq_true, decide_eq_true_eq]
  refine ⟨hk.nodup keys_nodup.2.1,?_⟩
  simp only [Body.members, distinctMembers, distinctMembers_append, intMember_distinct,
    strMember_distinct, hb', hc', he', distinct, Bool.and_true]

def payloadOf (d : Draft) (issuer jti : Str) : Dict Json := (lit "jti",.str jti) :: d.claims issuer

theorem payload_distinct (d : Draft) (issuer jti : Str)
    (h : distinct (.obj d.body.ext) = true) : distinct (.obj (payloadOf d issuer jti)) = true := by
  have hk : ((payloadOf d issuer jti).map Prod.fst).Sublist payloadKeys := by
    simp only [payloadOf, Draft.claims, List.map_cons, List.map_append]
    exact (((((strMember_keys _ _).append ((strMember_keys _ _).append ((strMember_keys _ _).append
      ((intMember_keys _ _).append ((intMember_keys _ _).append
        (List.Sublist.refl _)))))).cons_cons _).cons_cons _).cons_cons _)
  simp only [distinct, Bool.and_eq_true, decide_eq_true_eq]
  refine ⟨hk.nodup keys_nodup.2.2,?_⟩
  have hb := body_distinct d.body h
  simp only [distinct] at hb
  simp only [payloadOf, Draft.claims, distinctMembers, distinctMembers_append,
    intMember_distinct, strMember_distinct, distinct, hb, Bool.and_true]

structure InRange (d : Draft) : Prop where
  issuedAt : tsMin ≤ timestampInt d.now ∧ timestampInt d.now ≤ tsMax
  expires : tsMin ≤ d.expires ∧ d.expires ≤ tsMax
  notBefore : tsMin ≤ d.notBefore ∧ d.notBefore ≤ tsMax
  epoch : 0 ≤ d.body.epoch ∧ d.body.epoch ≤ uint64Max

def chainOf : Option (Str × Str) → Option (Dict Json) :=
  Option.map fun c => strMember "account" c.1 ++ strMember "user" c.2

def decodedDraft (d : Draft) (issuer jti : Str) (h : InRange d) : Decoded where
  id := jti
  issuer := issuer
  subject := d.subject
  name := d.name
  audience := d.audience
  issuedAt := ⟨timestampInt d.now,h.issuedAt⟩
  expires := ⟨d.expires,h.expires⟩
  notBefore := ⟨d.notBefore,h.notBefore⟩
  type := d.body.type
  epoch := ⟨d.body.epoch,h.epoch⟩
  bearer := d.body.bearer
  checksum := d.body.checksum
  chain := chainOf d.body.chain
  ext := d.body.ext

theorem wireStr_some (obj : Dict Json) (k : String) (s : Str)
    (h : obj.lookup (lit k) = some (.str s)) : wireStr obj k = .ok s := by
  rw [wireStr, h]

theorem wireStr_member (obj : Dict Json) (k : String) (s : Str)
    (h : obj.lookup (lit k) = if s = [] then none else some (.str s)) : wireStr obj k = .ok s := by
  rw [wireStr, h]
  by_cases hs : s = [] <;> simp [hs]

theorem wireInt_member (obj : Dict Json) (k : String) (n lo hi : ℤ) (h0 : lo ≤ 0 ∧ 0 ≤ hi)
    (h : obj.lookup (lit k) = if n = 0 then none else some (.int n)) (x : Within lo hi) :
    wireInt obj k lo hi h0 = .ok x ↔ x.val = n := by
  rw [wireInt, h]
  by_cases hn : n = 0
  · subst hn
    simp only [if_true, Except.ok.injEq]
    exact ⟨fun e => by rw [← e],fun e => Subtype.ext e.symm⟩
  · simp only [if_neg hn]
    by_cases hr : lo ≤ n ∧ n ≤ hi
    · rw [dif_pos hr, Except.ok.injEq]
      exact ⟨fun e => by rw [← e],fun e => Subtype.ext e.symm⟩
    · rw [dif_neg hr]
      simp only [reduceCtorEq, false_iff]
      rintro rfl
      exact hr x.property

theorem lookup_payload (d : Draft) (issuer jti : Str) :
    let p := payloadOf d issuer jti
    p.lookup (lit "jti") = some (.str jti) ∧
    p.lookup (lit "iat") = some (.int (timestampInt d.now)) ∧
    p.lookup (lit "iss") = some (.str issuer) ∧
    (p.lookup (lit "name") = if d.name = [] then none else some (.str d.name)) ∧
    (p.lookup (lit "sub") = if d.subject = [] then none else some (.str d.subject)) ∧
    (p.lookup (lit "aud") = if d.audience = [] then none else some (.str d.audience)) ∧
    (p.lookup (lit "exp") = if d.expires = 0 then none else some (.int d.expires)) ∧
    (p.lookup (lit "nbf") = if d.notBefore = 0 then none else some (.int d.notBefore)) ∧
    p.lookup (lit "valiss") = some (.obj d.body.members) := by
  simp only [payloadOf, Draft.claims]
  refine ⟨?_,?_,?_,?_,?_,?_,?_,?_,?_⟩
  all_goals simp [List.lookup_cons, List.lookup_append, beq_eq_decide]

theorem lookup_body (b : Body) :
    let p := b.members
    p.lookup (lit "type") = some (.str b.type) ∧
    (p.lookup (lit "epoch") = if b.epoch = 0 then none else some (.int b.epoch)) ∧
    (p.lookup (lit "bearer") = if b.bearer then some (.bool true) else none) ∧
    (p.lookup (lit "checksum") = if b.checksum = [] then none else some (.str b.checksum)) ∧
    (p.lookup (lit "chain") = (chainOf b.chain).map .obj) ∧
    (p.lookup (lit "ext") = if b.ext = [] then none else some (.obj b.ext)) := by
  have hc : ∀ k : Str, (chainMember b.chain).lookup k =
      if k = lit "chain" then (chainOf b.chain).map .obj else none := by
    intro k
    unfold chainMember chainOf
    cases b.chain with
    | none => simp
    | some c => by_cases hk : k = lit "chain" <;> simp [List.lookup_cons, hk, beq_eq_decide]
  have hb : ∀ k : Str, (if b.bearer then [(lit "bearer",(.bool true : Json))] else []).lookup k =
      if k = lit "bearer" ∧ b.bearer then some (.bool true) else none := by
    intro k
    by_cases hb : b.bearer <;> by_cases hk : k = lit "bearer" <;>
      simp [List.lookup_cons, hk, hb, beq_eq_decide]
  have he : ∀ k : Str, (if b.ext = [] then [] else [(lit "ext",(.obj b.ext : Json))]).lookup k =
      if k = lit "ext" ∧ b.ext ≠ [] then some (.obj b.ext) else none := by
    intro k
    by_cases hb : b.ext = [] <;> by_cases hk : k = lit "ext" <;>
      simp [List.lookup_cons, hk, hb, beq_eq_decide]
  simp only [Body.members]
  refine ⟨?_,?_,?_,?_,?_,?_⟩
  all_goals simp [List.lookup_cons, List.lookup_append, beq_eq_decide, hc, hb, he]

theorem wireBool_member (obj : Dict Json) (k : String) (b : Bool)
    (h : obj.lookup (lit k) = if b then some (.bool true) else none) :
    wireBool obj k = .ok b := by
  rw [wireBool, h]
  cases b <;> rfl

theorem wireObj_member (obj : Dict Json) (k : String) (o : Option (Dict Json))
    (h : obj.lookup (lit k) = o.map .obj) : wireObj obj k = .ok o := by
  rw [wireObj, h]
  cases o <;> rfl

/-- The reader accepts the claims of a draft exactly when their numbers are in
range, and then returns the draft. -/
theorem decodedOf_payload (d : Draft) (issuer jti : Str) (x : Decoded) :
    decodedOf (payloadOf d issuer jti) = .ok x ↔
      ∃ h : InRange d, x = decodedDraft d issuer jti h := by
  obtain ⟨hjti,hiat,hiss,hname,hsub,haud,hexp,hnbf,hval⟩ := lookup_payload d issuer jti
  obtain ⟨htype,hepoch,hbearer,hcheck,hchain,hext⟩ := lookup_body d.body
  have hext' : wireObj d.body.members "ext" =
      .ok (if d.body.ext = [] then none else some d.body.ext) := by
    apply wireObj_member
    rw [hext]
    split_ifs <;> rfl
  have hget : (if d.body.ext = [] then none else some d.body.ext).getD [] = d.body.ext := by
    split_ifs with h
    · exact h.symm
    · rfl
  simp only [decodedOf, bind_ok, wireObj_member _ _ (some d.body.members) hval,
    wireStr_some _ _ _ hjti, wireStr_some _ _ _ hiss, wireStr_member _ _ _ hname,
    wireStr_member _ _ _ hsub, wireStr_member _ _ _ haud, wireStr_some _ _ _ htype,
    wireBool_member _ _ _ hbearer, wireStr_member _ _ _ hcheck, wireObj_member _ _ _ hchain,
    hext', Except.ok.injEq, exists_eq_left', Option.getD_some, pure_ok, hget,
    wireInt_member _ _ _ _ _ _ hexp, wireInt_member _ _ _ _ _ _ hnbf,
    wireInt_member _ _ _ _ _ _ hepoch]
  constructor
  · rintro ⟨iat,hi,exp,he,nbf,hn,ep,hp,rfl⟩
    have hi' : iat.val = timestampInt d.now := by
      unfold wireInt at hi
      rw [hiat] at hi
      dsimp only at hi
      split_ifs at hi with hr
      rw [← Except.ok.inj hi]
    refine ⟨⟨hi' ▸ iat.property,he ▸ exp.property,hn ▸ nbf.property,hp ▸ ep.property⟩,?_⟩
    simp only [decodedDraft, Decoded.mk.injEq, true_and, and_true]
    exact ⟨Subtype.ext hi',Subtype.ext he,Subtype.ext hn,Subtype.ext hp⟩
  · rintro ⟨h,rfl⟩
    refine ⟨⟨timestampInt d.now,h.issuedAt⟩,?_,⟨d.expires,h.expires⟩,rfl,
      ⟨d.notBefore,h.notBefore⟩,rfl,⟨d.body.epoch,h.epoch⟩,rfl,rfl⟩
    unfold wireInt
    rw [hiat]
    exact dif_pos h.issuedAt

theorem jsonLoads_ok (what : Str) (bs : Bytes) (v : Json) :
    jsonLoads what bs = .ok v ↔ loads intDigits bs = .ok v := by
  unfold jsonLoads
  split <;> simp_all [builtin]

theorem segmentObject_ok (what seg : Str) (ms : Dict Json) :
    segmentObject what seg = .ok ms ↔
      ∃ bs, b64urlDecode seg = .ok bs ∧ loads intDigits bs = .ok (.obj ms : Json) := by
  have ha : ∀ v : Json, asObject what v = .ok ms ↔ v = .obj ms := by
    intro v
    cases v <;> simp [asObject]
  simp [segmentObject, jsonLoads_ok, ha]

theorem segmentObject_goJson (what : Str) (m : Str × Json) (ms : Dict Json) (bs : Bytes)
    (hd : distinct (.obj (m::ms)) = true) (h : goJson (.obj (m::ms)) = .ok bs) :
    segmentObject what (b64url bs) = .ok (m::ms) :=
  (segmentObject_ok _ _ _).2 ⟨bs,b64urlDecode_b64url bs,
    loads_goJson _ bs hd h⟩

def headerMembers : Dict Json :=
  [(lit "typ",.str (lit "JWT")),(lit "alg",.str (lit "ed25519-nkey")),(lit "ver",.int 1)]

theorem header_fields : headerMembers.lookup (lit "typ") = some (.str (lit "JWT")) ∧
    headerMembers.lookup (lit "alg") = some (.str (lit "ed25519-nkey")) ∧
    headerMembers.lookup (lit "ver") = some (.int 1) := ⟨rfl,rfl,rfl⟩

theorem goJson_header : goJson (.obj headerMembers) = .ok (encodePass tokenHeader) := by
  have ht : goText (.obj headerMembers) = tokenHeader := by rfl
  have hi : intsWithin intDigits (.obj headerMembers : Json) = true := by rfl
  rw [goJson, raiseIf_neg _ _ (by rw [hi]; decide), ok_bind, ht, encode_ok]
  exact ⟨by decide,rfl⟩

def headerSegment : Str := b64url (encodePass tokenHeader)

theorem segmentObject_header (what : Str) :
    segmentObject what headerSegment = .ok headerMembers :=
  segmentObject_goJson what _ _ _ (by rfl) goJson_header

omit [Platform] in
theorem splitOn_segments (p0 p1 p2 : Str) (h0 : (46 : CodePoint) ∉ p0)
    (h1 : (46 : CodePoint) ∉ p1) (h2 : (46 : CodePoint) ∉ p2) :
    splitOn 46 (p0 ++ 46 :: (p1 ++ 46 :: p2)) = [p0,p1,p2] := by
  rw [splitOn_cons _ _ _ h0, splitOn_cons _ _ _ h1, splitOn_none _ _ h2]

theorem peekVersion_ok (tok p0 p1 p2 : Str) (v : ℤ) (h : peekVersion tok = .ok (v,p0,p1,p2)) :
    splitOn 46 tok = [p0,p1,p2] ∧ ∀ c ∈ p0, UrlChar c := by
  unfold peekVersion at h
  split at h
  next q0 q1 q2 hs =>
    simp only [bind_ok, raiseIf_ok, pure_ok, Prod.mk.injEq] at h
    obtain ⟨_,hseg,_,_,_,_,_,rfl,rfl,rfl⟩ := h
    obtain ⟨bs,hb,_⟩ := (segmentObject_ok _ _ _).1 hseg
    exact ⟨hs,b64urlDecode_char _ bs hb⟩
  next => cases h

theorem peekVersion_minted (p1 p2 : Str) (h1 : (46 : CodePoint) ∉ p1)
    (h2 : (46 : CodePoint) ∉ p2) :
    peekVersion (headerSegment ++ 46 :: (p1 ++ 46 :: p2)) = .ok (1,headerSegment,p1,p2) := by
  unfold peekVersion
  rw [splitOn_segments headerSegment p1 p2 (b64url_dotless _) h1 h2]
  dsimp only
  rw [segmentObject_header, ok_bind, header_fields.1, header_fields.2.1, header_fields.2.2,
    raiseIf_neg _ _ (by simp [IsText]), ok_bind]
  rfl

theorem signedText (p0 p1 : Str) (h0 : ∀ c ∈ p0, UrlChar c) (h1 : ∀ c ∈ p1, UrlChar c) :
    encode (p0 ++ 46 :: p1) = .ok (encodePass (p0 ++ 46 :: p1)) := by
  apply encode_ascii
  rw [ascii_append, ascii_cons]
  exact ⟨fun c hc => (urlChar_ascii c (h0 c hc)).1,by decide,fun c hc => (urlChar_ascii c (h1 c hc)).1⟩

theorem decodeToken_ok (tok : Str) (d : Decoded) :
    decodeToken tok = .ok d ↔ ∃ p0 p1 p2 payload kp sig,
      peekVersion tok = .ok (1,p0,p1,p2) ∧
      segmentObject (lit "token claims") p1 = .ok payload ∧ decodedOf payload = .ok d ∧
      fromPublicKey d.issuer = .ok kp ∧ b64urlDecode p2 = .ok sig ∧
      Platform.edVerify kp.publicRaw (encodePass (p0 ++ 46 :: p1)) sig = true := by
  have henc : ∀ p0 p1 p2 payload, peekVersion tok = .ok (1,p0,p1,p2) →
      segmentObject (lit "token claims") p1 = .ok payload →
      encode (p0 ++ 46 :: p1) = .ok (encodePass (p0 ++ 46 :: p1)) := by
    intro p0 p1 p2 payload hp hs
    obtain ⟨bs,hb,_⟩ := (segmentObject_ok _ _ _).1 hs
    exact signedText p0 p1 (peekVersion_ok _ _ _ _ _ hp).2 (b64urlDecode_char _ bs hb)
  constructor
  · intro h
    simp only [decodeToken, bind_ok] at h
    obtain ⟨⟨v,p0,p1,p2⟩,hp,h⟩ := h
    dsimp only at h
    split_ifs at h with hv
    subst hv
    simp only [decodeV1, bind_ok, recast_ok, pure_ok] at h
    obtain ⟨payload,hs,x,hx,kp,hk,sig,hsig,m,hm,_,hver,rfl⟩ := h
    rw [henc p0 p1 p2 payload hp hs, Except.ok.injEq] at hm
    subst hm
    exact ⟨p0,p1,p2,payload,kp,sig,hp,hs,hx,hk,hsig,(verify_ok _ _ _ _).1 hver⟩
  · rintro ⟨p0,p1,p2,payload,kp,sig,hp,hs,hx,hk,hsig,hver⟩
    have hver' := (verify_ok kp (encodePass (p0 ++ 46 :: p1)) sig ()).2 hver
    rw [decodeToken, hp, ok_bind]
    dsimp only
    rw [if_pos rfl, decodeV1, hs, ok_bind, hx, ok_bind, hk]
    simp only [recast, ok_bind, hsig, henc p0 p1 p2 payload hp hs, hver']
    rfl

theorem signingInput_ok (kp : KeyPair) (d : Draft) (input : Str)
    (h : signingInput kp d = .ok input) :
    ∃ jti text, jtiOf (d.claims kp.publicKey) = .ok jti ∧
      goJson (.obj (payloadOf d kp.publicKey jti)) = .ok text ∧
      input = headerSegment ++ 46 :: b64url text := by
  simp only [signingInput, bind_ok, pure_ok] at h
  obtain ⟨jti,hj,header,hh,text,ht,rfl⟩ := h
  rw [encode_ascii _ (by decide), Except.ok.injEq] at hh
  exact ⟨jti,text,hj,ht,by rw [headerSegment, hh]⟩

theorem encodeV1_ok (kp : KeyPair) (d : Draft) (tok : Str) (h : encodeV1 kp d = .ok tok) :
    ∃ jti text sig, jtiOf (d.claims kp.publicKey) = .ok jti ∧
      goJson (.obj (payloadOf d kp.publicKey jti)) = .ok text ∧
      kp.sign (encodePass (headerSegment ++ 46 :: b64url text)) = .ok sig ∧
      tok = headerSegment ++ 46 :: (b64url text ++ 46 :: b64url sig) := by
  simp only [encodeV1, bind_ok, pure_ok] at h
  obtain ⟨input,hi,m,hm,sig,hs,rfl⟩ := h
  obtain ⟨jti,text,hj,ht,rfl⟩ := signingInput_ok kp d input hi
  rw [encode_ok] at hm
  rw [← hm.2] at hs
  exact ⟨jti,text,sig,hj,ht,hs,by simp⟩

theorem decodeToken_reads (kp : KeyPair) (d : Draft) (tok : Str) (h : encodeV1 kp d = .ok tok)
    (hd : distinct (.obj d.body.ext) = true) (x : Decoded) (hx : decodeToken tok = .ok x) :
    ∃ jti, jtiOf (d.claims kp.publicKey) = .ok jti ∧
      ∃ hr : InRange d, x = decodedDraft d kp.publicKey jti hr := by
  obtain ⟨jti,text,sig,hj,ht,_,rfl⟩ := encodeV1_ok kp d tok h
  obtain ⟨p0,p1,p2,payload,kp',sig',hp,hs,hx,_⟩ := (decodeToken_ok _ _).1 hx
  rw [peekVersion_minted _ _ (b64url_dotless _) (b64url_dotless _), Except.ok.injEq,
    Prod.mk.injEq, Prod.mk.injEq, Prod.mk.injEq] at hp
  obtain ⟨_,_,rfl,_⟩ := hp
  rw [segmentObject_goJson _ _ _ _ (payload_distinct d _ jti hd) ht, Except.ok.injEq] at hs
  subst hs
  exact ⟨jti,hj,(decodedOf_payload d _ jti x).1 hx⟩

theorem decodeToken_payload (kp : KeyPair) (d : Draft) (jti : Str) (text sig : Bytes)
    (hr : InRange d) (hd : distinct (.obj d.body.ext) = true)
    (ht : goJson (.obj (payloadOf d kp.publicKey jti)) = .ok text)
    (hv : Platform.edVerify kp.publicRaw (encodePass (headerSegment ++ 46 :: b64url text)) sig =
      true) :
    decodeToken (headerSegment ++ 46 :: (b64url text ++ 46 :: b64url sig)) =
      .ok (decodedDraft d kp.publicKey jti hr) :=
  (decodeToken_ok _ _).2 ⟨headerSegment,b64url text,b64url sig,_,_,sig,
    peekVersion_minted _ _ (b64url_dotless _) (b64url_dotless _),
    segmentObject_goJson _ _ _ _ (payload_distinct d _ jti hd) ht,
    (decodedOf_payload d _ jti _).2 ⟨hr,rfl⟩,fromPublicKey_publicKey kp,b64urlDecode_b64url sig,hv⟩

/-- A minted token is read as its draft, provided its numbers are in range. -/
theorem decodeToken_minted (hon : HonestSignatures) (kp : KeyPair) (d : Draft) (tok : Str)
    (h : encodeV1 kp d = .ok tok) (hd : distinct (.obj d.body.ext) = true) (x : Decoded) :
    decodeToken tok = .ok x ↔ ∃ jti, jtiOf (d.claims kp.publicKey) = .ok jti ∧
      ∃ hr : InRange d, x = decodedDraft d kp.publicKey jti hr := by
  refine ⟨decodeToken_reads kp d tok h hd x,?_⟩
  obtain ⟨jti,text,sig,hj,ht,hs,rfl⟩ := encodeV1_ok kp d tok h
  rintro ⟨jti',hj',hr,rfl⟩
  rw [hj, Except.ok.injEq] at hj'
  subst hj'
  exact decodeToken_payload kp d jti text sig hr hd ht (verify_sign hon kp _ sig hs)

theorem decodeToken_issued (hon : HonestSignatures) (kp : KeyPair) (d : Draft) (tok : Str)
    (h : encodeV1 kp d = .ok tok) (hd : distinct (.obj d.body.ext) = true) :
    ∃ jti, jtiOf (d.claims kp.publicKey) = .ok jti ∧
      decodeToken tok = decodedOf (payloadOf d kp.publicKey jti) := by
  obtain ⟨jti,text,sig,hj,ht,_,rfl⟩ := encodeV1_ok kp d tok h
  refine ⟨jti,hj,?_⟩
  cases hx : decodedOf (payloadOf d kp.publicKey jti) with
  | error e =>
    rw [decodeToken, peekVersion_minted _ _ (b64url_dotless _) (b64url_dotless _), ok_bind]
    dsimp only
    rw [if_pos rfl, decodeV1, segmentObject_goJson _ _ _ _ (payload_distinct d _ jti hd) ht, ok_bind,
      ← payloadOf, hx]
    rfl
  | ok x =>
    obtain ⟨hr,rfl⟩ := (decodedOf_payload d _ jti x).1 hx
    exact (decodeToken_minted hon kp d _ h hd _).2 ⟨jti,hj,hr,rfl⟩

theorem decodeToken_signed (kp : KeyPair) (d : Draft) (input tok : Str) (x : Decoded)
    (p0 p1 p2 : Str) (payload : Dict Json) (h : signingInput kp d = .ok input)
    (hd : distinct (.obj d.body.ext) = true) (hp : peekVersion tok = .ok (1,p0,p1,p2))
    (hs : segmentObject (lit "token claims") p1 = .ok payload) (hx : decodedOf payload = .ok x)
    (he : encodePass (p0 ++ 46 :: p1) = encodePass input) :
    ∃ jti, jtiOf (d.claims kp.publicKey) = .ok jti ∧
      ∃ hr : InRange d, x = decodedDraft d kp.publicKey jti hr := by
  obtain ⟨jti,text,hj,ht,rfl⟩ := signingInput_ok kp d input h
  obtain ⟨bs,hb,_⟩ := (segmentObject_ok _ _ _).1 hs
  have h0 : (46 : CodePoint) ∉ p0 := (splitOn_three _ _ _ _ _ (peekVersion_ok _ _ _ _ _ hp).1).2.1
  have h1 : (46 : CodePoint) ∉ p1 := fun hc =>
    (urlChar_ascii _ (b64urlDecode_char _ bs hb _ hc)).2.1 rfl
  have hin := congrArg (splitOn 46) (encodePass_injective he)
  rw [splitOn_cons _ _ _ h0, splitOn_none _ _ h1, splitOn_cons _ headerSegment _ (b64url_dotless _),
    splitOn_none _ _ (b64url_dotless _)] at hin
  obtain ⟨rfl,rfl⟩ : p0 = headerSegment ∧ p1 = b64url text := by simpa using hin
  rw [segmentObject_goJson _ _ _ _ (payload_distinct d _ jti hd) ht, Except.ok.injEq] at hs
  subst hs
  exact ⟨jti,hj,(decodedOf_payload d _ jti x).1 hx⟩

end Valiss.TokenRoundTrip
