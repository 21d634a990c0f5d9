import Valiss.ExtensionShape
import Valiss.HonestClient
import Valiss.Recorded

/-!
# Minted extensions are enforced exactly

A grant loses its empty dimensions when it is minted and is read back whole from
every token that carries it. What enforcement then accepts is what the account's
grant permits and, for a user's request, what both grants permit.
-/

set_option autoImplicit false

namespace Valiss.MintedExtensions
open Lib.Unicode Lib.Json Lib.Calendar Lib.Fallible Lib.Assoc
open Valiss.Errors Valiss.Nkeys Valiss.TokenClaims Valiss.Mint Valiss.Decode Valiss.Verify
open Valiss.TransportExt Valiss.HttpAuth Valiss.GrpcAuth Valiss.ExtensionShape
open Valiss.IssuedTokens Valiss.HonestClient Valiss.Printing Valiss.Recorded

/-- Equality, or a prefix before a trailing `*`. -/
def Matches (pattern text : Str) : Prop :=
  pattern = text ∨ ∃ start, pattern = start ++ [42] ∧ start <+: text

def HttpPermits (e : HttpExt) (method host path : Str) : Prop :=
  (e.hosts ≠ [] ∨ e.methods ≠ [] ∨ e.paths ≠ []) ∧ (e.hosts ≠ [] → host ∈ e.hosts) ∧
    (e.methods ≠ [] → method ∈ e.methods) ∧ (e.paths ≠ [] → ∃ p ∈ e.paths, Matches p path)

def GrpcPermits (e : GrpcExt) (fullMethod : Str) : Prop :=
  e.methods ≠ [] ∧ ∃ p ∈ e.methods, Matches p fullMethod

theorem covers_iff (pattern text : Str) : covers pattern text = true ↔ Matches pattern text := by
  unfold covers Matches
  split_ifs with h
  · obtain ⟨start,rfl⟩ := List.getLast?_eq_some_iff.1 h
    rw [List.dropLast_concat, List.isPrefixOf_iff_prefix]
    constructor
    · intro hp
      exact Or.inr ⟨start,rfl,hp⟩
    · rintro (rfl | ⟨start',he,hp⟩)
      · exact List.prefix_append _ _
      · rw [List.append_left_inj] at he
        exact he ▸ hp
  · rw [decide_eq_true_eq]
    constructor
    · exact Or.inl
    · rintro (he | ⟨start,rfl,_⟩)
      · exact he
      · exact absurd (List.getLast?_concat ..) h

theorem covered_iff (granted : List Str) (text : Str) :
    covered granted text = true ↔ ∃ p ∈ granted, Matches p text := by
  simp only [covered, List.any_eq_true, covers_iff]

theorem httpPermits_iff (e : HttpExt) (method host path : Str) :
    e.authorizes method host path = true ↔ HttpPermits e method host path := by
  unfold HttpExt.authorizes HttpPermits
  rw [← covered_iff]
  split_ifs with h
  · simp [h]
  · rw [decide_eq_true_eq]
    tauto

theorem grpcPermits_iff (e : GrpcExt) (fullMethod : Str) :
    e.authorizes fullMethod = true ↔ GrpcPermits e fullMethod := by
  rw [GrpcExt.authorizes, covered_iff]
  constructor
  · rintro ⟨p,hp,hm⟩
    exact ⟨List.ne_nil_of_mem hp,p,hp,hm⟩
  · exact And.right

section Model
variable [Platform]

theorem minted_lookup (es : List Extension) (ext : Dict Json) (h : extensionsClaim es = .ok ext)
    (e : Extension) (he : e ∈ es) : ext.lookup e.name = some (.obj e.payload.val) := by
  have hd := extensionsClaim_distinct es ext h
  simp only [distinct, Bool.and_eq_true, decide_eq_true_eq] at hd
  apply lookup_of_mem hd.1
  exact (extensionsClaim_members es ext h).mem_iff.2 (List.mem_map_of_mem (f := fun e =>
    (e.name,(.obj e.payload.val : Json))) he)

theorem dimension_listed (payload : Dict Json) (k : String) (ss : List Str)
    (h : payload.lookup (lit k) = if ss = [] then none else some (.arr (ss.map .str))) :
    Listed (payload.lookup (lit k)) ss := by
  rw [h]
  split_ifs with hs
  · exact hs ▸ .absent
  · exact .strings ss

theorem http_decoded (e : HttpExt) : httpExt.decode e.extension.payload.val = .ok e := by
  have hl : ∀ key, e.extensionPayload.lookup key =
      ((dimensionMember "hosts" e.hosts).lookup key).or
        (((dimensionMember "methods" e.methods).lookup key).or
          ((dimensionMember "paths" e.paths).lookup key)) := by
    intro key
    rw [HttpExt.extensionPayload, List.lookup_append, List.lookup_append]
  refine (http_reads.decode _ _).2 ⟨.listed _ _ (dimension_listed _ _ _ ?_),
    .listed _ _ (dimension_listed _ _ _ ?_),.listed _ _ (dimension_listed _ _ _ ?_)⟩
  all_goals
    show e.extensionPayload.lookup _ = _
    rw [hl]
    simp only [lookup_dimensionMember]
    simp

theorem grpc_decoded (e : GrpcExt) : grpcExt.decode e.extension.payload.val = .ok e := by
  refine (grpc_reads.decode _ _).2 (.listed _ _ (dimension_listed _ _ _ ?_))
  show e.extensionPayload.lookup _ = _
  rw [GrpcExt.extensionPayload, lookup_dimensionMember]
  simp

structure Transport (α : Type) where
  reader : ExtType α
  extension : α → Extension
  named : ∀ e, (extension e).name = reader.name
  decoded : ∀ e, reader.decode (extension e).payload.val = .ok e

def httpTransport : Transport HttpExt := ⟨httpExt,HttpExt.extension,fun _ => rfl,http_decoded⟩

def grpcTransport : Transport GrpcExt := ⟨grpcExt,GrpcExt.extension,fun _ => rfl,grpc_decoded⟩

variable {α : Type} (p : Transport α)

def Carries (ext : Dict Json) (e : α) : Prop :=
  ∃ es, extensionsClaim es = .ok ext ∧ p.extension e ∈ es

theorem extOf_minted (ext : Dict Json) (e : α) (h : Carries p ext e) :
    extOf p.reader ext = .ok (some e) := by
  obtain ⟨es,hes,he⟩ := h
  have hl := minted_lookup es ext hes _ he
  rw [p.named e] at hl
  simp only [extOf, hl, p.decoded e]

theorem authorizeExts_minted (permits : α → Bool) (missing denied : Str) (allowMissing : Bool)
    (exts : List (Dict Json)) (es : List α) (h : List.Forall₂ (Carries p) exts es) :
    authorizeExts p.reader permits missing denied allowMissing exts = .ok () ↔
      ∀ e ∈ es, permits e = true := by
  induction h with
  | nil => simp [authorizeExts]
  | cons hext _ ih =>
    rw [authorizeExts, extOf_minted p _ _ hext, ok_bind, List.forall_mem_cons, ← ih]
    simp only [bind_ok, raiseIf_ok, Bool.not_eq_false]
    constructor
    · rintro ⟨_,hp,hr⟩
      exact ⟨hp,hr⟩
    · rintro ⟨hp,hr⟩
      exact ⟨(),hp,hr⟩

variable {σ : Type}

theorem verified_account (v : Verifier σ) (now : DateTime) (r : Request) (s t : σ) (i : Identity)
    (h : (verify v now r).run s = (.ok i,t)) (tok : Str)
    (hr : accountTokenOf v.toOptions r = .ok tok) :
    ∃ x, decodeToken tok = .ok x ∧ i.account = accountClaims x := by
  obtain ⟨_,hk,_⟩ := (verify_ok _ _ _ _ _ _).1 h
  obtain ⟨tok',htok,account,operator,ha,hchain,_⟩ := (checked_ok _ _ _ _).1 hk
  rw [hr, Except.ok.injEq] at htok
  subst htok
  obtain ⟨rfl,rfl,_⟩ := (checkChain_ok _ _ _ _ _ _).1 hchain
  obtain ⟨key,hv⟩ := anchored_account _ _ _ _ ha
  obtain ⟨x,hx,_,_,_,he⟩ := (verifyAccount_ok _ _ _).1 hv
  exact ⟨x,hx,he⟩

theorem verified_user (v : Verifier σ) (now : DateTime) (r : Request) (s t : σ) (i : Identity)
    (h : (verify v now r).run s = (.ok i,t)) : (r.userToken = [] ∧ i.user = none) ∨
      (r.userToken ≠ [] ∧ ∃ x, decodeToken r.userToken = .ok x ∧ i.user = some (userClaims x)) := by
  obtain ⟨_,hk,_⟩ := (verify_ok _ _ _ _ _ _).1 h
  obtain ⟨_,_,account,operator,_,hchain,_⟩ := (checked_ok _ _ _ _).1 hk
  obtain ⟨_,_,_,_,hu⟩ := (checkChain_ok _ _ _ _ _ _).1 hchain
  rcases (checkUser_ok _ _ _ _ _ _).1 hu with h | ⟨hne,c,hc,hv,_⟩
  · exact Or.inl h
  · obtain ⟨x,hx,_,_,_,rfl⟩ := (verifyUser_ok _ _ _).1 hv
    exact Or.inr ⟨hne,x,hx,hc⟩

/-- What enforcement accepts for a verified request whose account token was
minted with `accountOptions`: what the account's grant permits, and what both
grants permit when a minted user token came along, which is then also permitted
to the account alone. -/
def Enforced (extension : α → Extension) (permits : α → Prop) (authorize : Identity → Py Unit)
    (accountOptions : MintOptions) (r : Request) (i : Identity) : Prop :=
  ∀ ea, extension ea ∈ accountOptions.extensions →
    (r.userToken = [] → (authorize i = .ok () ↔ permits ea)) ∧
    ∀ account name pub bearer userOptions,
      issueUser account name pub bearer userOptions = .ok r.userToken →
      ∀ eu, extension eu ∈ userOptions.extensions →
        (authorize i = .ok () ↔ permits ea ∧ permits eu) ∧
        (authorize i = .ok () → authorize {i with user := none} = .ok ())

theorem minted_enforced (permits : α → Bool) (missing denied : Str) (allowMissing : Bool)
    (v : Verifier σ) (now : DateTime) (r : Request) (s t : σ) (i : Identity)
    (h : (verify v now r).run s = (.ok i,t)) (operator : KeyPair) (name pub : Str)
    (o : MintOptions) (tok : Str) (ha : issueAccount operator name pub o = .ok tok)
    (hr : accountTokenOf v.toOptions r = .ok tok) :
    Enforced p.extension (fun e => permits e = true)
      (fun j => authorizeExts p.reader permits missing denied allowMissing (extsOf j)) o r i := by
  intro ea hea
  obtain ⟨x,hx,hacc⟩ := verified_account v now r s t i h tok hr
  have hlevel : (Level.account name pub).issue operator o = .ok tok := ha
  have hext : Carries p i.account.ext ea := by
    rw [hacc]
    exact ⟨o.extensions,(issued_values hlevel x hx).2.2.1,hea⟩
  have hone := authorizeExts_minted p permits missing denied allowMissing [i.account.ext] [ea]
    (.cons hext .nil)
  rw [List.forall_mem_singleton] at hone
  constructor
  · intro hnone
    rcases verified_user v now r s t i h with ⟨_,hu⟩ | ⟨hne,_⟩
    · have hexts : extsOf i = [i.account.ext] := by rw [extsOf, hu]
      dsimp only
      rw [hexts]
      exact hone
    · exact absurd hnone hne
  · intro account uname upub bearer ou hu eu heu
    have hulevel : (Level.user uname upub bearer).issue account ou = .ok r.userToken := hu
    rcases verified_user v now r s t i h with ⟨hnil,_⟩ | ⟨_,y,hy,huser⟩
    · exact absurd hnil (issued_ne_nil hulevel)
    · have huext : Carries p (userClaims y).ext eu :=
        ⟨ou.extensions,(issued_values hulevel y hy).2.2.1,heu⟩
      have htwo := authorizeExts_minted p permits missing denied allowMissing
        [i.account.ext,(userClaims y).ext] [ea,eu] (.cons hext (.cons huext .nil))
      rw [List.forall_mem_cons, List.forall_mem_singleton] at htwo
      have hexts : extsOf i = [i.account.ext,(userClaims y).ext] := by rw [extsOf, huser]
      dsimp only
      rw [hexts]
      exact ⟨htwo,fun hall => hone.2 (htwo.1 hall).1⟩

/-- Both transports enforce the grants of minted tokens exactly, and an account's
grant bounds those of its users. -/
theorem extensions_enforced (v : Verifier σ) (now : DateTime) (r : Request) (s t : σ)
    (i : Identity) (h : (verify v now r).run s = (.ok i,t)) (operator : KeyPair) (name pub : Str)
    (o : MintOptions) (tok : Str) (ha : issueAccount operator name pub o = .ok tok)
    (hr : accountTokenOf v.toOptions r = .ok tok) :
    (∀ method host path allowMissing, Enforced HttpExt.extension
      (fun e => HttpPermits e method host path)
      (fun j => HttpAuth.authorizeExt j method host path allowMissing) o r i) ∧
    ∀ fullMethod allowMissing, Enforced GrpcExt.extension (fun e => GrpcPermits e fullMethod)
      (fun j => GrpcAuth.authorizeExt j fullMethod allowMissing) o r i := by
  constructor
  · intro method host path allowMissing
    simp only [← httpPermits_iff]
    exact minted_enforced httpTransport _ _ _ allowMissing v now r s t i h operator name pub o tok
      ha hr
  · intro fullMethod allowMissing
    simp only [← grpcPermits_iff]
    exact minted_enforced grpcTransport _ _ _ allowMissing v now r s t i h operator name pub o tok
      ha hr

end Model

section Domain
local instance : Platform := domain.honest

def readWidgets : HttpExt := {methods := [lit "GET"]}

def underV1 : HttpExt := {paths := [lit "/v1/*"]}

def granting (e : HttpExt) : MintOptions := {epoch := 7,extensions := [e.extension],now := issuedAt}

def server : Verifier Unit where
  allowlist _ := true
  skew := 120000000
  resolver := none
  replayCache := none
  validators := []
  extensionTypes := []
  anchor := .pinned operatorPair.publicKey none

theorem single_claim (e : Extension) (h : e.name ≠ []) :
    extensionsClaim [e] = .ok [(e.name,.obj e.payload.val)] := by
  have hn : (([] : Dict Json).lookup e.name).isSome ≠ true := by simp
  rw [extensionsClaim, collect, raiseIf_neg _ _ h, ok_bind, raiseIf_neg _ _ hn]
  rfl

theorem account_issued : ∃ tok, issueAccount operatorPair (lit "acme") accountPair.publicKey
    (granting underV1) = .ok tok :=
  issue_printable operatorPair operatorSeed rfl (granting underV1)
    (.account (lit "acme") accountPair.publicKey) rfl ((isValidPublic_publicKey _ _).2 rfl) rfl
    (by decide) (by decide) (b32encode_encodable _) _ (single_claim underV1.extension (by decide))
    ⟨by decide,⟨by decide,⟨show Lib.Unicode.Encodable (lit "/v1/*") by decide,trivial⟩,trivial⟩,trivial⟩
    (by decide)

theorem user_issued : ∃ tok, issueUser accountPair (lit "alice") userPair.publicKey true
    (granting readWidgets) = .ok tok :=
  issue_printable accountPair accountSeed rfl (granting readWidgets)
    (.user (lit "alice") userPair.publicKey true) rfl ((isValidPublic_publicKey _ _).2 rfl) rfl
    (by decide) (by decide) (b32encode_encodable _) _
    (single_claim readWidgets.extension (by decide))
    ⟨by decide,⟨by decide,⟨show Lib.Unicode.Encodable (lit "GET") by decide,trivial⟩,trivial⟩,trivial⟩
    (by decide)

theorem granted_read (e : HttpExt) (l : Level) (kp : KeyPair) (tok : Str)
    (h : l.issue kp (granting e) = .ok tok) : ∃ x, decodeToken tok = .ok x ∧
      (claimsOf x).expiresAt = none ∧ (claimsOf x).notBefore = none := by
  obtain ⟨x,hx⟩ := (issued_decodes h (honest_signatures domain)
    (show (0 : ℤ) ≤ 7 ∧ (7 : ℤ) ≤ uint64Max by decide)).2
      ⟨show timestampInt issuedAt ≤ tsMax by decide,ts_zero.2,ts_zero.2⟩
  have hw := issued_window h x hx
  simp only [windowOf, mintedWindow, Prod.mk.injEq] at hw
  exact ⟨x,hx,Option.map_eq_none_iff.1 hw.1,Option.map_eq_none_iff.1 hw.2⟩

theorem bearer_verified (a u : Str) (hta : issueAccount operatorPair (lit "acme")
    accountPair.publicKey (granting underV1) = .ok a) (htu : issueUser accountPair (lit "alice")
    userPair.publicKey true (granting readWidgets) = .ok u) (now : DateTime) :
    ∃ i, (verify server now {accountToken := a,userToken := u}).run () = (.ok i,()) := by
  have hepoch : (0 : ℤ) ≤ 7 ∧ (7 : ℤ) ≤ uint64Max := by decide
  let acct : HonestClient.Account :=
    ⟨operatorPair,accountPair,lit "acme",granting underV1,a,hta,hepoch⟩
  let alice : HonestClient.User acct :=
    ⟨userPair,lit "alice",true,granting readWidgets,u,htu,hepoch⟩
  obtain ⟨x,hx,hxe,hxn⟩ := granted_read underV1 acct.level operatorPair a hta
  obtain ⟨y,hy,hye,hyn⟩ := granted_read readWidgets alice.level accountPair u htu
  obtain ⟨_,_,_,hbearer⟩ := issued_fields alice.made y hy
  have hverified := (alice.verified (userClaims y)).2 ⟨y,hy,rfl⟩
  have hsubject : (accountClaims x).subject = accountPair.publicKey :=
    (issued_fields acct.made x hx).2.2.1
  have hpolicy : PolicyOk now server.skew (accountClaims x) none :=
    fun c hc => (Option.not_mem_none c hc).elim
  refine ⟨⟨accountClaims x,some (userClaims y),none⟩,(verify_ok _ _ _ _ _ _).2 ⟨none,?_,(),rfl,rfl⟩⟩
  refine (checked_ok _ _ _ _).2 ⟨a,if_pos (issued_ne_nil acct.made),accountClaims x,none,?_,?_,?_⟩
  · show anchored (.pinned operatorPair.publicKey none) a = _
    rw [anchored, (acct.verified _).2 ⟨x,hx,rfl⟩]
    rfl
  · refine (checkChain_ok _ _ _ _ _ _).2 ⟨rfl,rfl,hpolicy,(checkAccount_ok _ _ _ _).2 ?_,
      (checkUser_ok _ _ _ _ _ _).2 (Or.inr ⟨issued_ne_nil alice.made,_,rfl,?_,
        fun c hc => (Option.not_mem_none c hc).elim,?_⟩)⟩
    · exact ⟨(Widgets.unbounded _ _ _ hxe hxn).1,(Widgets.unbounded _ _ _ hxe hxn).2,rfl⟩
    · rw [hsubject]
      exact hverified
    · exact Widgets.unbounded _ _ _ hye hyn
  · rw [possession, if_pos ⟨rfl,rfl⟩]
    simp only [Identity.bearer, userClaims, hbearer]
    rfl

/-- Alice may read what her account may see under `/v1/` and nothing else. -/
theorem extensions_enforced_widgets : ∃ a u i,
    (verify server requestedAt {accountToken := a,userToken := u}).run () = (.ok i,()) ∧
    HttpAuth.authorizeExt i (lit "GET") (lit "api.example.com") (lit "/v1/widgets") false =
      .ok () ∧
    HttpAuth.authorizeExt i (lit "GET") (lit "api.example.com") (lit "/admin") false ≠ .ok () ∧
    HttpAuth.authorizeExt i (lit "PUT") (lit "api.example.com") (lit "/v1/widgets") false ≠
      .ok () := by
  obtain ⟨a,ha⟩ := account_issued
  obtain ⟨u,hu⟩ := user_issued
  obtain ⟨i,hi⟩ := bearer_verified a u ha hu requestedAt
  have hne : a ≠ [] := issued_ne_nil (l := .account (lit "acme") accountPair.publicKey) ha
  have hall := (extensions_enforced server requestedAt _ () () i hi operatorPair (lit "acme")
    accountPair.publicKey (granting underV1) a ha (if_pos hne)).1
  have hboth : ∀ method path, HttpAuth.authorizeExt i method (lit "api.example.com") path false =
      .ok () ↔ underV1.authorizes method (lit "api.example.com") path = true ∧
        readWidgets.authorizes method (lit "api.example.com") path = true := by
    intro method path
    rw [httpPermits_iff, httpPermits_iff]
    exact ((hall method (lit "api.example.com") path false underV1 (List.mem_singleton.2 rfl)).2
      accountPair (lit "alice") userPair.publicKey true (granting readWidgets) hu readWidgets
      (List.mem_singleton.2 rfl)).1
  refine ⟨a,u,i,hi,(hboth _ _).2 (by decide),?_,?_⟩
  · rw [ne_eq, hboth]
    decide
  · rw [ne_eq, hboth]
    decide

end Domain

end Valiss.MintedExtensions
