import Valiss.MintedExtensions

/-!
# Token ids

The identifier of a token is a digest of its other claims as they are printed.
Printing can be undone, so with an injective digest two tokens share an
identifier only if they share those claims.
-/

set_option autoImplicit false

namespace Valiss.TokenIds
open Lib.Unicode Lib.Base32 Lib.Json Lib.Calendar Lib.Fallible
open Valiss.Errors Valiss.Nkeys Valiss.Codec Valiss.TokenClaims Valiss.Mint Valiss.Decode
open Valiss.TokenRoundTrip Valiss.SigningHistory Valiss.Verify Valiss.IssuedTokens Valiss.Recorded
open Valiss.MintedExtensions Valiss.Printing

section Model
variable [Platform]

def Payload (tok : Str) (x : Dict Json) : Prop :=
  ∃ p0 p1 p2, splitOn 46 tok = [p0,p1,p2] ∧ segmentObject (lit "token claims") p1 = .ok x

structure Content where
  issuedAt : Option Json
  issuer : Option Json
  name : Option Json
  subject : Option Json
  audience : Option Json
  expires : Option Json
  notBefore : Option Json
  body : Option Json

def contentOf (x : Dict Json) : Content where
  issuedAt := x.lookup (lit "iat")
  issuer := x.lookup (lit "iss")
  name := x.lookup (lit "name")
  subject := x.lookup (lit "sub")
  audience := x.lookup (lit "aud")
  expires := x.lookup (lit "exp")
  notBefore := x.lookup (lit "nbf")
  body := x.lookup (lit "valiss")

def idOf (x : Dict Json) : Option Json := x.lookup (lit "jti")

theorem claims_distinct (d : Draft) (issuer : Str) (h : distinct (.obj d.body.ext) = true) :
    distinct (.obj (d.claims issuer)) = true := by
  have hp := payload_distinct d issuer [] h
  simp only [distinct, payloadOf, List.map_cons, List.nodup_cons, distinctMembers,
    Bool.and_eq_true, decide_eq_true_eq] at hp ⊢
  exact ⟨hp.1.2,hp.2.2⟩

theorem jtiOf_injective (inj : Function.Injective Platform.sha256) (x y : Dict Json) (id : Str)
    (hx : distinct (.obj x) = true) (hy : distinct (.obj y) = true)
    (h : jtiOf x = .ok id) (h' : jtiOf y = .ok id) : x = y := by
  simp only [jtiOf, bind_ok, pure_ok] at h h'
  obtain ⟨text,ht,hid⟩ := h
  obtain ⟨text',ht',hid'⟩ := h'
  obtain rfl : text = text' := inj (b32encode_injective (hid.trans hid'.symm))
  have hread := (loads_goJson _ _ hx ht).symm.trans (loads_goJson _ _ hy ht')
  rwa [Except.ok.injEq, Value.obj.injEq] at hread

theorem minted_payload (kp : KeyPair) (c : Issue) (tok : Str) (h : c.run kp = .ok tok) :
    ∃ d id, c.draft kp = .ok d ∧ encodeV1 kp d = .ok tok ∧ jtiOf (d.claims kp.publicKey) = .ok id ∧
      Payload tok (payloadOf d kp.publicKey id) := by
  rw [run_draft, bind_ok] at h
  obtain ⟨d,hd,ht⟩ := h
  obtain ⟨id,text,sig,hj,hg,_,htok⟩ := encodeV1_ok kp d tok ht
  refine ⟨d,id,hd,ht,hj,headerSegment,b64url text,b64url sig,?_,
    segmentObject_goJson _ _ _ _ (payload_distinct d _ _ (draft_body kp c d hd).2) hg⟩
  rw [htok]
  exact splitOn_segments _ _ _ (b64url_dotless _) (b64url_dotless _) (b64url_dotless _)

theorem decoded_id (kp : KeyPair) (c : Issue) (d : Draft) (tok id : Str) (hd : c.draft kp = .ok d)
    (h : encodeV1 kp d = .ok tok) (hj : jtiOf (d.claims kp.publicKey) = .ok id) (x : Decoded)
    (hx : decodeToken tok = .ok x) : x.id = id := by
  obtain ⟨jti,hj',_,rfl⟩ := decodeToken_reads kp d tok h (draft_body kp c d hd).2 x hx
  rw [hj, Except.ok.injEq] at hj'
  exact hj'.symm

theorem contentOf_payload (d d' : Draft) (issuer issuer' id id' : Str)
    (h : d.claims issuer = d'.claims issuer') :
    contentOf (payloadOf d issuer id) = contentOf (payloadOf d' issuer' id') := by
  have hne : ∀ k : String, lit k ≠ lit "jti" →
      (payloadOf d issuer id).lookup (lit k) = (payloadOf d' issuer' id').lookup (lit k) := by
    intro k hk
    have hk' : (lit k == lit "jti") = false := by simpa using hk
    simp only [payloadOf, List.lookup_cons, hk', h]
  simp only [contentOf, Content.mk.injEq]
  refine ⟨?_,?_,?_,?_,?_,?_,?_,?_⟩
  all_goals
    apply hne
    decide

section Allowlist
variable {σ : Type}

def withAllowlist (v : Verifier σ) (f : Str → Bool) : Verifier σ :=
  {v with allowlist := f}

theorem checkChain_allowlist (v : Verifier σ) (f : Str → Bool) (now : DateTime) (r : Request)
    (account : AccountClaims) (operator : Option OperatorClaims)
    (h : f account.id = v.allowlist account.id) :
    checkChain (withAllowlist v f).toOptions now r account operator =
      checkChain v.toOptions now r account operator := by
  have ha : checkAccount (withAllowlist v f).toOptions now account =
      checkAccount v.toOptions now account := by
    simp only [checkAccount, withAllowlist, h]
  rw [checkChain, ha]
  rfl

theorem verify_allowlist (v : Verifier σ) (f : Str → Bool) (now : DateTime) (r : Request) (tok : Str)
    (ht : accountTokenOf v.toOptions r = .ok tok)
    (h : ∀ x, decodeToken tok = .ok x → f x.id = v.allowlist x.id) :
    verify (withAllowlist v f) now r = verify v now r := by
  have hchecked : checked (withAllowlist v f) now r = checked v now r := by
    have hanchor : (withAllowlist v f).anchor = v.anchor := rfl
    unfold checked
    rw [hanchor]
    cases v.anchor with
    | poisoned e => rfl
    | pinned | keyring =>
      apply bind_eq_on
      intro tok' htok'
      obtain rfl : tok = tok' := Except.ok.inj (ht.symm.trans htok')
      apply bind_eq_on
      rintro ⟨account,operator⟩ ha
      obtain ⟨key,hv⟩ := anchored_account _ _ _ _ ha
      obtain ⟨x,hx,_,_,_,rfl⟩ := (verifyAccount_ok _ _ _).1 hv
      dsimp only
      rw [checkChain_allowlist v f now r _ operator (h x hx)]
      rfl
  rw [verify, hchecked]
  rfl

end Allowlist

/-- Tokens with one identifier say the same, so listing or revoking an identifier
decides about no token that says something else. -/
theorem ids_separate (inj : Function.Injective Platform.sha256) (kp kp' : KeyPair) (c c' : Issue)
    (tok tok' : Str) (h : c.run kp = .ok tok) (h' : c'.run kp' = .ok tok') :
    ∃ x x' id id', Payload tok x ∧ Payload tok' x' ∧ idOf x = some (.str id) ∧
      idOf x' = some (.str id') ∧ (id = id' → contentOf x = contentOf x') ∧
      (contentOf x ≠ contentOf x' → ∀ (σ : Type) (v : Verifier σ) (listed : Bool) (now : DateTime)
        (r : Request), accountTokenOf v.toOptions r = .ok tok' →
        verify (withAllowlist v (Function.update v.allowlist id listed)) now r =
          verify v now r) := by
  obtain ⟨d,id,hd,_,hj,hp⟩ := minted_payload kp c tok h
  obtain ⟨d',id',hd',ht',hj',hp'⟩ := minted_payload kp' c' tok' h'
  have hx := claims_distinct d kp.publicKey (draft_body kp c d hd).2
  have hx' := claims_distinct d' kp'.publicKey (draft_body kp' c' d' hd').2
  have hsame : id = id' → contentOf (payloadOf d kp.publicKey id) =
      contentOf (payloadOf d' kp'.publicKey id') := by
    rintro rfl
    exact contentOf_payload d d' _ _ _ _ (jtiOf_injective inj _ _ id hx hx' hj hj')
  refine ⟨_,_,id,id',hp,hp',(lookup_payload _ _ _).1,(lookup_payload _ _ _).1,hsame,?_⟩
  intro hne σ v listed now r hr
  apply verify_allowlist v _ now r tok' hr
  intro x hxd
  rw [decoded_id kp' c' d' tok' id' hd' ht' hj' x hxd]
  exact Function.update_of_ne (fun he => hne (hsame he.symm)) _ _

theorem Payload.unique {tok : Str} {x y : Dict Json} (h : Payload tok x) (h' : Payload tok y) :
    x = y := by
  obtain ⟨p0,p1,p2,hs,hx⟩ := h
  obtain ⟨q0,q1,q2,hs',hy⟩ := h'
  rw [hs] at hs'
  simp only [List.cons.injEq, and_true] at hs'
  rw [← hs'.2.1, hx, Except.ok.injEq] at hy
  exact hy

theorem operator_payload {kp : KeyPair} {name tok : Str} {o : MintOptions} {x : Dict Json}
    (h : issueOperator kp name o = .ok tok) (hx : Payload tok x) :
    (contentOf x).name = if name = [] then none else some (.str name) := by
  obtain ⟨d,id,hd,_,_,hp⟩ := minted_payload kp (.operator name o) tok h
  obtain rfl := hx.unique hp
  simp only [Issue.draft, operatorDraft, bind_ok, pure_ok] at hd
  obtain ⟨_,_,_,_,_,_,rfl⟩ := hd
  exact (lookup_payload _ kp.publicKey id).2.2.2.1

mutual
/-- The same value, its mappings listing their keys in any order. -/
inductive Reordered : Json → Json → Prop
  | same (v : Json) : Reordered v v
  | arr {xs ys : List Json} (h : ReorderedItems xs ys) : Reordered (.arr xs) (.arr ys)
  | obj {ms ks ns : Dict Json} (h : ReorderedMembers ms ks) (p : ks.Perm ns) :
      Reordered (.obj ms) (.obj ns)

inductive ReorderedItems : List Json → List Json → Prop
  | nil : ReorderedItems [] []
  | cons {x y : Json} {xs ys : List Json} (h : Reordered x y) (hs : ReorderedItems xs ys) :
      ReorderedItems (x::xs) (y::ys)

inductive ReorderedMembers : Dict Json → Dict Json → Prop
  | nil : ReorderedMembers [] []
  | cons {k : Str} {x y : Json} {ms ns : Dict Json} (h : Reordered x y)
      (hs : ReorderedMembers ms ns) : ReorderedMembers ((k,x)::ms) ((k,y)::ns)
end

def AlikeExtensions (es es' : List Extension) : Prop :=
  ∃ ks, List.Forall₂ (fun e k : Extension => e.name = k.name ∧
    Reordered (.obj e.payload.val) (.obj k.payload.val)) es ks ∧ ks.Perm es'

def extending (es : List Extension) : Issue → Issue
  | .operator name o => .operator name {o with extensions := es}
  | .account name pub o => .account name pub {o with extensions := es}
  | .user name pub bearer o => .user name pub bearer {o with extensions := es}
  | .message audience sum chain o => .message audience sum chain {o with extensions := es}

def extensionsOf : Issue → List Extension
  | .operator _ o => o.extensions
  | .account _ _ o => o.extensions
  | .user _ _ _ o => o.extensions
  | .message _ _ _ o => o.extensions

/-- Payloads of one name list their keys in one order, at every depth. -/
def SameOrder (es es' : List Extension) : Prop :=
  ∀ e ∈ es, ∀ e' ∈ es', e.name = e'.name → e.payload.val = e'.payload.val

theorem extending_extensions (c : Issue) (es : List Extension) :
    extensionsOf (extending es c) = es := by
  cases c <;> rfl

theorem draft_ext (kp : KeyPair) (c : Issue) (d : Draft) (h : c.draft kp = .ok d) :
    extensionsClaim (extensionsOf c) = .ok d.body.ext := by
  cases c with
  | operator name o =>
    simp only [Issue.draft, operatorDraft, bind_ok, pure_ok] at h
    obtain ⟨_,_,_,_,_,he,rfl⟩ := h
    exact he
  | account name pub o =>
    simp only [Issue.draft, accountDraft, bind_ok, pure_ok] at h
    obtain ⟨_,_,_,_,_,_,_,he,rfl⟩ := h
    exact he
  | user name pub bearer o =>
    simp only [Issue.draft, userDraft, bind_ok, pure_ok] at h
    obtain ⟨_,_,_,_,_,_,_,he,rfl⟩ := h
    exact he
  | message audience sum chain o =>
    simp only [Issue.draft, Message.messageDraft, bind_ok, pure_ok] at h
    obtain ⟨_,_,_,_,_,he,_,_,_,_,_,_,rfl⟩ := h
    exact he

theorem extending_run (kp : KeyPair) (c : Issue) (es : List Extension)
    (h : extensionsClaim es = extensionsClaim (extensionsOf c)) :
    (extending es c).run kp = c.run kp := by
  cases c with
  | operator name o =>
    have h' : extensionsClaim es = extensionsClaim o.extensions := h
    simp only [extending, Issue.run, issueOperator, operatorDraft, h']
    rfl
  | account name pub o =>
    have h' : extensionsClaim es = extensionsClaim o.extensions := h
    simp only [extending, Issue.run, issueAccount, accountDraft, h']
    rfl
  | user name pub bearer o =>
    have h' : extensionsClaim es = extensionsClaim o.extensions := h
    simp only [extending, Issue.run, issueUser, userDraft, h']
    rfl
  | message audience sum chain o =>
    have h' : extensionsClaim es = extensionsClaim o.extensions := h
    simp only [extending, Issue.run, Message.issueMessage, Message.messageDraft, h']
    rfl

instance : IsTrans (Str × Json) (fun a b => a.1 ≤ b.1) := ⟨fun _ _ _ => le_trans⟩

instance : Std.Total (fun a b : Str × Json => a.1 ≤ b.1) := ⟨fun a b => le_total a.1 b.1⟩

theorem extensionsClaim_perm (es es' : List Extension) (h : es.Perm es') (ext ext' : Dict Json)
    (he : extensionsClaim es = .ok ext) (he' : extensionsClaim es' = .ok ext') : ext = ext' := by
  have hd := extensionsClaim_distinct es ext he
  simp only [distinct, Bool.and_eq_true, decide_eq_true_eq] at hd
  have hperm : ext.Perm ext' := (extensionsClaim_members es ext he).trans
    ((h.map _).trans (extensionsClaim_members es' ext' he').symm)
  simp only [extensionsClaim, bind_ok, pure_ok] at he he'
  obtain ⟨d,_,rfl⟩ := he
  obtain ⟨d',_,rfl⟩ := he'
  refine hperm.eq_of_pairwise ?_ (List.pairwise_insertionSort _ d)
    (List.pairwise_insertionSort _ d')
  intro a b ha hb hab hba
  exact List.inj_on_of_nodup_map hd.1 ha (hperm.mem_iff.2 hb) (le_antisymm hab hba)

theorem sameOrder_perm (es es' : List Extension) (h : AlikeExtensions es es')
    (hs : SameOrder es es') : es.Perm es' := by
  obtain ⟨ks,hks,hp⟩ := h
  have heq : es = ks := by
    have hmem : ∀ k ∈ ks, k ∈ es' := fun k hk => hp.mem_iff.1 hk
    clear hp
    induction hks with
    | nil => rfl
    | @cons e k es ks hek hks ih =>
      have hpay := hs e (List.mem_cons_self ..) k (hmem k (List.mem_cons_self ..)) hek.1
      have hhead : e = k := by
        obtain ⟨_,_⟩ := e
        obtain ⟨_,_⟩ := k
        rw [Extension.mk.injEq]
        exact ⟨hek.1,Subtype.ext hpay⟩
      rw [hhead, ih (fun e' he' => hs e' (List.mem_cons_of_mem _ he'))
        fun k' hk' => hmem k' (List.mem_cons_of_mem _ hk')]
  exact heq ▸ hp

def SameId (tok tok' : Str) : Prop :=
  ∃ x x' id, Payload tok x ∧ Payload tok' x' ∧ idOf x = some (.str id) ∧ idOf x' = some (.str id)

theorem sameId_claim (inj : Function.Injective Platform.sha256) (kp kp' : KeyPair) (c c' : Issue)
    (tok tok' : Str) (h : c.run kp = .ok tok) (h' : c'.run kp' = .ok tok')
    (hs : SameId tok tok') : ∃ ext, extensionsClaim (extensionsOf c) = .ok ext ∧
      extensionsClaim (extensionsOf c') = .ok ext := by
  obtain ⟨d,id,hd,_,hj,hp⟩ := minted_payload kp c tok h
  obtain ⟨d',id',hd',_,hj',hp'⟩ := minted_payload kp' c' tok' h'
  obtain ⟨x,x',jti,hx,hx',hi,hi'⟩ := hs
  obtain rfl := hx.unique hp
  obtain rfl := hx'.unique hp'
  rw [idOf, (lookup_payload d kp.publicKey id).1, Option.some.injEq, Value.str.injEq] at hi
  rw [idOf, (lookup_payload d' kp'.publicKey id').1, Option.some.injEq, Value.str.injEq] at hi'
  obtain rfl : id = id' := hi.trans hi'.symm
  have hclaims := jtiOf_injective inj _ _ id (claims_distinct d _ (draft_body kp c d hd).2)
    (claims_distinct d' _ (draft_body kp' c' d' hd').2) hj hj'
  have hbody := congrArg Content.body (contentOf_payload d d' _ _ id id hclaims)
  simp only [contentOf, (lookup_payload d kp.publicKey id).2.2.2.2.2.2.2.2,
    (lookup_payload d' kp'.publicKey id).2.2.2.2.2.2.2.2, Option.some.injEq, Value.obj.injEq] at hbody
  have hext := congrArg (List.lookup (lit "ext")) hbody
  rw [(lookup_body d.body).2.2.2.2.2, (lookup_body d'.body).2.2.2.2.2] at hext
  have heq : d.body.ext = d'.body.ext := by
    split_ifs at hext with hn hn' hn'
    · rw [hn, hn']
    · exact Value.obj.inj (Option.some.inj hext)
  exact ⟨d.body.ext,draft_ext kp c d hd,heq ▸ draft_ext kp' c' d' hd'⟩

theorem sameId_self (kp : KeyPair) (c : Issue) (tok : Str) (h : c.run kp = .ok tok) :
    SameId tok tok := by
  obtain ⟨d,id,_,_,_,hp⟩ := minted_payload kp c tok h
  exact ⟨_,_,id,hp,hp,(lookup_payload _ _ _).1,(lookup_payload _ _ _).1⟩

theorem claim_sameOrder (es es' : List Extension) (ext : Dict Json)
    (h : extensionsClaim es = .ok ext) (h' : extensionsClaim es' = .ok ext) : SameOrder es es' := by
  intro e he e' he' hn
  have hl := minted_lookup es ext h e he
  have hl' := minted_lookup es' ext h' e' he'
  rw [hn, hl', Option.some.injEq, Value.obj.injEq] at hl
  exact hl.symm

/-- Alike calls mint one token under one identifier exactly when the payloads
agree on the order of their keys. -/
theorem alike_ids (inj : Function.Injective Platform.sha256) (kp : KeyPair) (c : Issue)
    (es : List Extension) (ha : AlikeExtensions (extensionsOf c) es) (tok tok' : Str)
    (h : c.run kp = .ok tok) (h' : (extending es c).run kp = .ok tok') :
    (SameId tok tok' ↔ SameOrder (extensionsOf c) es) ∧
      (tok = tok' ↔ SameOrder (extensionsOf c) es) := by
  have hfrom : SameId tok tok' → SameOrder (extensionsOf c) es := by
    intro hs
    obtain ⟨ext,he,he'⟩ := sameId_claim inj kp kp c _ tok tok' h h' hs
    rw [extending_extensions] at he'
    exact claim_sameOrder _ _ ext he he'
  have hto : SameOrder (extensionsOf c) es → tok = tok' := by
    intro hs
    obtain ⟨d,_,hd,_⟩ := minted_payload kp c tok h
    obtain ⟨d',_,hd',_⟩ := minted_payload kp _ tok' h'
    have he := draft_ext kp c d hd
    have he' := draft_ext kp _ d' hd'
    rw [extending_extensions] at he'
    have heq := extensionsClaim_perm _ _ (sameOrder_perm _ _ ha hs) _ _ he he'
    rw [extending_run kp c es (by rw [he, he', heq]), h, Except.ok.injEq] at h'
    exact h'
  have hself : tok = tok' → SameId tok tok' := by
    rintro rfl
    exact sameId_self kp c tok h
  exact ⟨⟨hfrom,fun hs => hself (hto hs)⟩,fun he => hfrom (hself he),hto⟩

end Model

section Domain
local instance : Platform := domain.honest

/-- Issued alike under two names, the tokens have two identifiers. -/
theorem ids_separate_names : ∃ tok tok' id id' x x',
    issueOperator operatorPair (lit "acme-trust") fewYears = .ok tok ∧
    issueOperator operatorPair (lit "acme") fewYears = .ok tok' ∧ Payload tok x ∧ Payload tok' x' ∧
    idOf x = some (.str id) ∧ idOf x' = some (.str id') ∧ id ≠ id' := by
  obtain ⟨tok,ht⟩ := operator_issued fewYears (lit "acme-trust") rfl rfl (by decide) (by decide)
  obtain ⟨tok',ht'⟩ := operator_issued fewYears (lit "acme") rfl rfl (by decide) (by decide)
  obtain ⟨x,x',id,id',hx,hx',hi,hi',hsame,_⟩ := ids_separate (domain_injective _) operatorPair
    operatorPair (.operator (lit "acme-trust") fewYears) (.operator (lit "acme") fewYears) tok tok'
    ht ht'
  refine ⟨tok,tok',id,id',x,x',ht,ht',hx,hx',hi,hi',?_⟩
  intro he
  have hname := congrArg Content.name (hsame he)
  have hnil : lit "acme-trust" ≠ [] ∧ lit "acme" ≠ [] := by decide
  rw [operator_payload ht hx, operator_payload ht' hx', if_neg hnil.1, if_neg hnil.2,
    Option.some.injEq, Value.str.injEq] at hname
  exact absurd hname (by decide)

def carrying (es : List Extension) : MintOptions := {epoch := 7,extensions := es,now := issuedAt}

theorem operator_carrying (es : List Extension) (ext : Dict Json)
    (he : extensionsClaim es = .ok ext) (ht : TextsMembers Encodable ext)
    (hi : membersWithin intDigits ext = true) :
    ∃ tok, issueOperator operatorPair (lit "acme-trust") (carrying es) = .ok tok :=
  issue_printable operatorPair operatorSeed rfl (carrying es) (.operator (lit "acme-trust")) rfl
    operator_valid rfl (show (0 : ℤ) ≤ 7 ∧ (7 : ℤ) ≤ uint64Max by decide)
    (show Encodable (lit "acme-trust") by decide)
    (b32encode_encodable _) ext he ht hi

def limits : Extension := ⟨lit "limits",⟨[(lit "a",.int 1),(lit "b",.int 2)],rfl⟩⟩

def limitsTurned : Extension := ⟨lit "limits",⟨[(lit "b",.int 2),(lit "a",.int 1)],rfl⟩⟩

def region : Extension := ⟨lit "region",⟨[(lit "eu",.bool true)],rfl⟩⟩

theorem turned_alike : AlikeExtensions [limits] [limitsTurned] :=
  ⟨[limitsTurned],.cons ⟨rfl,.obj (.cons (.same _) (.cons (.same _) .nil)) (.swap ..)⟩ .nil,.rfl⟩

theorem alike_perm (es es' : List Extension) (h : es.Perm es') : AlikeExtensions es es' :=
  ⟨es,List.forall₂_same.2 fun _ _ => ⟨rfl,.same _⟩,h⟩

/-- Extensions may come in any order. -/
theorem alike_ids_domain : ∃ tok,
    issueOperator operatorPair (lit "acme-trust") (carrying [limits,region]) = .ok tok ∧
    issueOperator operatorPair (lit "acme-trust") (carrying [region,limits]) = .ok tok := by
  have hperm : [limits,region].Perm [region,limits] := .swap ..
  have hclaim : ∀ es, es = [limits,region] ∨ es = [region,limits] → extensionsClaim es =
      .ok [(limits.name,.obj limits.payload.val),(region.name,.obj region.payload.val)] := by
    rintro es (rfl | rfl) <;> rfl
  have htexts : TextsMembers Encodable [(limits.name,(.obj limits.payload.val : Json)),
      (region.name,.obj region.payload.val)] := by
    refine ⟨?_,⟨?_,trivial,?_,trivial,trivial⟩,?_,⟨?_,trivial,trivial⟩,trivial⟩
    all_goals
      show Encodable _
      decide
  obtain ⟨tok,ht⟩ := operator_carrying _ _ (hclaim _ (.inl rfl)) htexts rfl
  obtain ⟨tok',ht'⟩ := operator_carrying _ _ (hclaim _ (.inr rfl)) htexts rfl
  have heq := (alike_ids (domain_injective _) operatorPair
    (.operator (lit "acme-trust") (carrying [limits,region])) [region,limits] (alike_perm _ _ hperm)
    tok tok' ht ht').2.2
  obtain rfl := heq (claim_sameOrder _ _ _ (hclaim _ (.inl rfl)) (hclaim _ (.inr rfl)))
  exact ⟨tok,ht,ht'⟩

/-- Keys in another order inside a payload change the identifier. -/
theorem turned_apart : ¬ ∀ (kp : KeyPair) (c : Issue) (es : List Extension) (tok tok' : Str),
    AlikeExtensions (extensionsOf c) es → c.run kp = .ok tok →
    (extending es c).run kp = .ok tok' → SameId tok tok' := by
  intro hall
  have hclaim := single_claim limits (by decide)
  have hclaim' := single_claim limitsTurned (by decide)
  have htexts : Encodable (lit "limits") ∧ Encodable (lit "a") ∧ Encodable (lit "b") := by decide
  obtain ⟨hn,ha,hb⟩ := htexts
  obtain ⟨tok,ht⟩ := operator_carrying _ _ hclaim ⟨hn,⟨ha,trivial,hb,trivial,trivial⟩,trivial⟩ rfl
  obtain ⟨tok',ht'⟩ :=
    operator_carrying _ _ hclaim' ⟨hn,⟨hb,trivial,ha,trivial,trivial⟩,trivial⟩ rfl
  have hs := hall operatorPair (.operator (lit "acme-trust") (carrying [limits])) [limitsTurned]
    tok tok' turned_alike ht ht'
  obtain ⟨ext,he,he'⟩ := sameId_claim (domain_injective _) operatorPair operatorPair
    (.operator (lit "acme-trust") (carrying [limits]))
    (.operator (lit "acme-trust") (carrying [limitsTurned])) tok tok' ht ht' hs
  have hsame := claim_sameOrder [limits] [limitsTurned] ext he he' limits
    (List.mem_singleton_self _) limitsTurned (List.mem_singleton_self _) rfl
  simp [limits, limitsTurned] at hsame

end Domain

end Valiss.TokenIds
