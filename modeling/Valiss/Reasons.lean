import Valiss.ExtensionShape
import Valiss.HostileTokens
import Valiss.Recorded

/-!
# Reasons of a rejected request

A verifier made of the library's own parts rejects with a reason code, whatever
the request. The one exception is a user token whose account the configured
account tokens do not cover: the lookup raises without a reason, and nothing
wraps it.
-/

set_option autoImplicit false

namespace Valiss.Reasons
open Lib.Unicode Lib.Json Lib.Calendar Lib.Fallible Valiss.Errors Valiss.TokenClaims Valiss.Decode
open Valiss.Operators Valiss.Replay Valiss.RequestSignature Valiss.Verify Valiss.Raising
open Valiss.HostileTokens Valiss.ExtensionShape Valiss.Recorded

def Reasoned (e : Exc) : Prop := e.isValiss = true → ∃ r, e.reason = some r

theorem reasoned_ordinary : Ordinary Reasoned := fun _ r _ _ => ⟨r,rfl⟩

theorem reasoned_builtin (k : Builtin) (m : Str) : Reasoned (.builtin k m) := by
  intro h
  cases h

theorem reasoned_recast {α : Type} (f : Exc → Exc) (x : Py α) (hf : ∀ e, Reasoned (f e)) :
    Raises Reasoned (recast f x) :=
  raises_recast _ _ _ (fun _ _ => hf _) fun k m _ => reasoned_builtin k m

section Parts
variable [Platform]

/-- The loop of `static_account_tokens`. -/
def tokensByKey : List Str → Dict Str → Py (Dict Str)
  | [], byKey => .ok byKey
  | tok::toks, byKey => do
    let issuer ← issuerOf tok
    let claims ← verifyAccount tok issuer
    tokensByKey toks (put byKey claims.subject tok)

def staticAccountTokens (tokens : List Str) : Py AccountTokenResolver := do
  let byKey ← tokensByKey tokens []
  return mappingResolver byKey

inductive Resolver where
  | static (tokens : List Str)
  | mapping (table : Dict Str)

def Resolver.table : Resolver → Py (Dict Str)
  | .static tokens => tokensByKey tokens []
  | .mapping table => .ok table

/-- `_as_resolver` -/
def asResolver : Option Resolver → Py (Option AccountTokenResolver)
  | none => .ok none
  | some (.static tokens) => do
    let resolve ← staticAccountTokens tokens
    return some resolve
  | some (.mapping table) => .ok (some (mappingResolver table))

inductive Transport where
  | http
  | grpc

/-- Registration for eager decoding keeps nothing of what was decoded. -/
def registered {α : Type} (t : ExtType α) : ExtType Unit :=
  ⟨t.name,fun payload => do
    let _ ← t.decode payload
    return ()⟩

def Transport.ext : Transport → ExtType Unit
  | .http => registered HttpAuth.httpExt
  | .grpc => registered GrpcAuth.grpcExt

/-- What a verifier is configured with: no allowlist accepts every token, and
the replay cache is given by what its clock reads. -/
structure Parts where
  allowlist : Option (List Str) := none
  skew : TimeDelta
  resolver : Option Resolver := none
  replayClock : Option DateTime := none
  extensionTypes : List Transport := []

def Parts.options (p : Parts) : Py (Options Seen) := do
  let resolver ← asResolver p.resolver
  return ⟨fun id => p.allowlist.all fun ids => ids.contains id,p.skew,resolver,
    p.replayClock.map memoryReplayCache,[],p.extensionTypes.map Transport.ext⟩

inductive Trust where
  | operator (operatorPubKey : Str) (operatorToken : Option Str)
  | keyring (k : Keyring)

def Parts.verifier (p : Parts) : Trust → Py (Verifier Seen)
  | .operator key token => do
    let o ← p.options
    Verifier.pinned o key token
  | .keyring k => do
    let o ← p.options
    return Verifier.withKeyring o k

theorem asResolver_table (r : Option Resolver) (f : Option AccountTokenResolver)
    (h : asResolver r = .ok f) : (r = none ∧ f = none) ∨
      ∃ x table, r = some x ∧ x.table = .ok table ∧ f = some (mappingResolver table) := by
  rcases r with _ | (tokens | table)
  · exact Or.inl ⟨rfl,(Except.ok.inj h).symm⟩
  · simp only [asResolver, staticAccountTokens, bind_ok, pure_ok] at h
    obtain ⟨_,⟨byKey,hb,rfl⟩,rfl⟩ := h
    exact Or.inr ⟨_,byKey,rfl,hb,rfl⟩
  · exact Or.inr ⟨_,table,rfl,rfl,(Except.ok.inj h).symm⟩

theorem pinned_options (o : Options Seen) (key : Str) (token : Option Str) (v : Verifier Seen)
    (h : Verifier.pinned o key token = .ok v) : v.toOptions = o := by
  unfold Verifier.pinned at h
  split at h
  next =>
    obtain rfl := Except.ok.inj h
    rfl
  next =>
    split at h
    next =>
      obtain rfl := Except.ok.inj h
      rfl
    next =>
      obtain rfl := Except.ok.inj h
      rfl
    next => cases h

theorem verifier_options (p : Parts) (trust : Trust) (v : Verifier Seen)
    (h : p.verifier trust = .ok v) : p.options = .ok v.toOptions := by
  cases trust with
  | operator key token =>
    simp only [Parts.verifier, bind_ok] at h
    obtain ⟨o,ho,h⟩ := h
    rw [pinned_options o key token v h, ho]
  | keyring k =>
    simp only [Parts.verifier, bind_ok, pure_ok] at h
    obtain ⟨o,ho,rfl⟩ := h
    exact ho

theorem decodeToken_reasoned (tok : Str) : Raises Reasoned (decodeToken tok) := by
  by_cases h : TooLong tok
  · rw [decodeToken_long tok h]
    exact (raises_error _ _).2 (reasoned_builtin _ _)
  · intro e he _
    obtain ⟨r,_,hr⟩ := decodeToken_expected tok h e he
    exact ⟨r,hr⟩

theorem timely_reasoned (c : Claims) (now : DateTime) (skew : TimeDelta) :
    Timely Reasoned c now skew := by
  have harith : ∀ t : Option DateTime, Raises Reasoned (arith t) := fun t =>
    (raises_ofOption _ _ _).2 fun _ => reasoned_builtin _ _
  exact timely_of_arith c now skew (fun _ => harith _) fun _ => harith _

theorem checkWindow_reasoned (c : Claims) (now : DateTime) (skew : TimeDelta)
    (late early : String) : Raises Reasoned (checkWindow c now skew late early) :=
  (checkWindow_raises reasoned_ordinary _ _ _ _ _).2 (timely_reasoned c now skew)

/-- The configured account tokens do not cover the account of a lone user token. -/
def Uncovered (p : Parts) (r : Request) : Prop :=
  r.accountToken = [] ∧ r.userToken ≠ [] ∧ ∃ x table key, p.resolver = some x ∧
    x.table = .ok table ∧ issuerOf r.userToken = .ok key ∧ table.lookup key = none

theorem accountTokenOf_reasoned (p : Parts) (o : Options Seen) (ho : p.options = .ok o)
    (r : Request) : Raises Reasoned (accountTokenOf o r) ↔ ¬ Uncovered p r := by
  simp only [Parts.options, bind_ok, pure_ok] at ho
  obtain ⟨f,hf,rfl⟩ := ho
  unfold accountTokenOf
  by_cases ha : r.accountToken = []
  · by_cases hu : r.userToken = []
    · simp only [Uncovered, ha, hu, ne_eq, not_true_eq_false, if_false, false_and, and_false,
        not_false_eq_true, iff_true]
      exact Raises.bind (raises_reason reasoned_ordinary _ _ _ (by decide)) fun _ h => by
        simp at h
    · rw [if_neg (not_not.2 ha), raiseIf_neg _ _ hu, ok_bind]
      rcases asResolver_table p.resolver f hf with ⟨hn,rfl⟩ | ⟨x,table,hx,ht,rfl⟩
      · refine iff_of_true ?_ ?_
        · exact Raises.bind (raises_absent reasoned_ordinary _ _ _ (by decide)) fun _ h => by
            simp at h
        · rintro ⟨_,_,y,_,_,hy,_⟩
          rw [hn] at hy
          cases hy
      · have hcover : Uncovered p r ↔
            ∃ key, issuerOf r.userToken = .ok key ∧ table.lookup key = none := by
          simp [Uncovered, ha, hu, hx, ht]
        have hsome : ∀ (e : Exc) (f : AccountTokenResolver), ofOption e (some f) = .ok f :=
          fun _ _ => rfl
        simp only [hcover, hsome, ok_bind, raises_bind, mappingResolver, raises_ofOption]
        constructor
        · rintro ⟨_,h⟩ ⟨key,hk,hl⟩
          obtain ⟨_,hr⟩ := h key hk hl rfl
          cases hr
        · intro h
          exact ⟨issuerOf_raises _ (decodeToken_reasoned _),fun key hk hl =>
            absurd ⟨key,hk,hl⟩ h⟩
  · rw [if_pos ha]
    exact iff_of_true (raises_ok _ _) fun h => ha h.1

theorem anchored_reasoned (a : Anchor) (tok : Str) (h : ∀ e, a ≠ .poisoned e) :
    Raises Reasoned (anchored a tok) := by
  have hd := decodeToken_reasoned tok
  cases a with
  | poisoned e => exact absurd rfl (h e)
  | pinned key operator =>
    apply Raises.bind (verifyAccount_raises reasoned_ordinary tok key hd)
    intro _ _
    exact raises_ok _ _
  | keyring k => exact keyringAccount_raises reasoned_ordinary k tok hd

theorem checkChain_reasoned (o : Options Seen) (now : DateTime) (r : Request)
    (account : AccountClaims) (operator : Option OperatorClaims) :
    Raises Reasoned (checkChain o now r account operator) := by
  have hreason := @raises_reason _ reasoned_ordinary
  apply Raises.bind
  · cases operator with
    | none => exact raises_ok _ _
    | some c => exact Raises.bind (checkWindow_reasoned _ _ _ _ _) fun _ _ => hreason _ _ _ (by decide)
  intro _ _
  apply Raises.bind
  · exact Raises.bind (checkWindow_reasoned _ _ _ _ _) fun _ _ => hreason _ _ _ (by decide)
  intro _ _
  apply Raises.bind
  · unfold checkUser
    split_ifs
    · exact raises_ok _ _
    · apply Raises.bind (verifyUser_raises reasoned_ordinary _ _ (decodeToken_reasoned _))
      intro user _
      apply Raises.bind
      · cases operator with
        | none => exact raises_ok _ _
        | some c => exact hreason _ _ _ (by decide)
      intro _ _
      apply Raises.bind (checkWindow_reasoned _ _ _ _ _)
      intro _ _
      exact raises_ok _ _
  intro _ _
  exact raises_ok _ _

theorem verifySignature_reasoned (key ts sig : Str) (context : Bytes) (now : DateTime)
    (skew : TimeDelta) : Raises Reasoned (verifySignature key ts sig context now skew) := by
  have hreason := @raises_reason _ reasoned_ordinary
  apply Raises.bind (hreason _ _ _ (by decide))
  intro _ _
  apply Raises.bind (raises_absent reasoned_ordinary _ _ _ (by decide))
  intro stamp _
  apply Raises.bind (hreason _ _ _ (by decide))
  intro _ _
  apply Raises.bind (raises_absent reasoned_ordinary _ _ _ (by decide))
  intro raw _
  apply Raises.bind (reasoned_recast _ _ fun _ _ => ⟨_,rfl⟩)
  intro pub _
  apply Raises.bind
  · intro e he
    unfold signedPayload encode at he
    split at he
    next => cases he
    next =>
      obtain rfl := Except.error.inj he
      exact reasoned_builtin _ _
  intro payload _
  exact reasoned_recast _ _ fun _ _ => ⟨_,rfl⟩

theorem possession_reasoned (o : Options Seen) (now : DateTime) (r : Request) (i : Identity) :
    Raises Reasoned (possession o now r i) := by
  unfold possession
  split_ifs
  · apply Raises.bind (raises_reason reasoned_ordinary _ _ _ (by decide))
    intro _ _
    exact raises_ok _ _
  · apply Raises.bind (verifySignature_reasoned _ _ _ _ _ _)
    intro _ _
    apply Raises.bind (raises_reason reasoned_ordinary _ _ _ (by decide))
    intro _ _
    apply Raises.bind ((raises_ofOption _ _ _).2 fun _ => reasoned_builtin _ _)
    intro _ _
    exact raises_ok _ _
  · apply Raises.bind (verifySignature_reasoned _ _ _ _ _ _)
    intro _ _
    exact raises_ok _ _

theorem suppress_reasoned (p : Parts) (o : Options Seen) (ho : p.options = .ok o)
    (entry : Option (Str × DateTime)) : Act.Raises Reasoned (suppress o entry) := by
  simp only [Parts.options, bind_ok, pure_ok] at ho
  obtain ⟨f,_,rfl⟩ := ho
  rcases entry with _ | ⟨nonce,expiry⟩
  · exact Act.raises_pure _ _
  · unfold suppress
    dsimp only
    cases p.replayClock with
    | none => exact Act.raises_pure _ _
    | some clock =>
      apply Act.raises_bind
      · intro s e t h
        cases h
      intro _ seen _ _
      exact Act.raises_lift (raises_reason reasoned_ordinary _ _ _ (by decide))

theorem registered_fails {α : Type} (t : ExtType α)
    (h : ∀ payload e, t.decode payload = .error e → FromDecoder e) (payload : Dict Json) (e : Exc)
    (he : (registered t).decode payload = .error e) : FromDecoder e := by
  rcases (bind_error _ _ _).1 he with he | ⟨_,_,he⟩
  · exact h payload e he
  · cases he

theorem transport_fails (t : Transport) (payload : Dict Json) (e : Exc)
    (he : t.ext.decode payload = .error e) : FromDecoder e := by
  cases t with
  | http => exact registered_fails _ http_reads.error payload e he
  | grpc => exact registered_fails _ grpc_reads.error payload e he

theorem checkExtensions_reasoned (i : Identity) (ts : List Transport) :
    Raises Reasoned (checkExtensions i (ts.map Transport.ext)) := by
  have hext : ∀ (t : Transport) ext, Raises Reasoned (extOf t.ext ext) := fun t ext e he _ =>
    ⟨_,extOf_raises t.ext (transport_fails t) ext e he⟩
  induction ts with
  | nil => exact raises_ok _ _
  | cons t ts ih =>
    apply Raises.bind (hext t _)
    intro _ _
    apply Raises.bind
    · unfold userExtOf
      split
      next => exact hext t _
      next => exact raises_ok _ _
    intro _ _
    exact ih

theorem checked_reasoned (p : Parts) (v : Verifier Seen) (hv : p.options = .ok v.toOptions)
    (now : DateTime) (r : Request) :
    Raises Reasoned (checked v now r) ↔ (∀ e, v.anchor ≠ .poisoned e) → ¬ Uncovered p r := by
  unfold checked
  split
  next e he =>
    refine iff_of_true ((raises_error _ _).2 fun _ => ⟨_,rfl⟩) fun h => ?_
    exact absurd he (h e)
  next hne =>
    rw [raises_bind, accountTokenOf_reasoned p _ hv r]
    refine ⟨fun h _ => h.1,fun h => ⟨h hne,fun tok _ => ?_⟩⟩
    apply Raises.bind (anchored_reasoned _ _ hne)
    rintro ⟨account,operator⟩ _
    apply Raises.bind (checkChain_reasoned _ _ _ _ _)
    intro i _
    apply Raises.bind (possession_reasoned _ _ _ _)
    intro _ _
    exact raises_ok _ _

/-- Every `ValissError` of a verifier made of library parts has a reason, unless
the request needs an account token that was not configured. -/
theorem rejections_reasoned (p : Parts) (trust : Trust) (v : Verifier Seen)
    (h : p.verifier trust = .ok v) (now : DateTime) (r : Request) (seen : Seen) :
    (∀ e t, (verify v now r).run seen = (.error e,t) → e.isValiss = true →
        ∃ reason, e.reason = some reason) ↔
      ((∀ e, v.anchor ≠ .poisoned e) → ¬ Uncovered p r) := by
  have hv := verifier_options p trust v h
  rw [← checked_reasoned p v hv now r]
  constructor
  · intro hall e he
    refine hall e seen ?_
    rw [verify, Act.run_lift_bind, he]
  · intro hc e t
    refine Act.raises_bind (Act.raises_lift hc) ?_ seen e t
    rintro _ ⟨i,entry⟩ _ _
    apply Act.raises_bind (suppress_reasoned p _ hv entry)
    intro _ _ _ _
    refine Act.raises_bind ?_ fun _ _ _ _ => Act.raises_pure _ _
    simp only [Parts.options, bind_ok, pure_ok] at hv
    obtain ⟨f,_,hv⟩ := hv
    rw [← hv]
    exact Act.raises_bind (Act.raises_lift (checkExtensions_reasoned i _)) fun _ _ _ _ =>
      Act.raises_pure _ _

end Parts

section Domain
local instance : Platform := domain.ideal

def finding (table : Dict Str) : Parts := {skew := 120000000,resolver := some (.mapping table)}

def aloneRequest : Request := {userToken := userSample.token}

theorem aloneRequest_issuer : issuerOf userSample.token = .ok accountKey :=
  (issuerOf_ok _ _).2 ⟨Widgets.userRead,Widgets.user_decoded,rfl⟩

theorem rejections_reasoned_widgets : ∃ v,
    (finding [(accountKey,accountSample.token)]).verifier (.operator operatorKey none) = .ok v ∧
    ∀ e t, (verify v issuedAt aloneRequest).run [] = (.error e,t) → e.isValiss = true →
      ∃ reason, e.reason = some reason := by
  refine ⟨_,rfl,(rejections_reasoned (finding [(accountKey,accountSample.token)])
    (.operator operatorKey none) _ rfl issuedAt aloneRequest []).2 fun _ => ?_⟩
  rintro ⟨_,_,_,_,key,hx,ht,hk,hn⟩
  obtain rfl := Option.some.inj hx
  obtain rfl := Except.ok.inj ht
  rw [show aloneRequest.userToken = userSample.token from rfl, aloneRequest_issuer] at hk
  obtain rfl := Except.ok.inj hk
  simp at hn

/-- The account of a user token is not configured, and the rejection has no reason. -/
theorem uncovered_unreasoned :
    ¬ ∀ (p : Parts) (trust : Trust) (v : Verifier Seen), p.verifier trust = .ok v →
      ∀ now r seen e t, (verify v now r).run seen = (.error e,t) → e.isValiss = true →
        ∃ reason, e.reason = some reason := by
  intro hall
  let v : Verifier Seen := ⟨⟨fun _ => true,120000000,some (mappingResolver []),none,[],[]⟩,
    .pinned operatorKey none⟩
  have hc : Raises Reasoned (checked v issuedAt aloneRequest) := by
    intro e he
    apply hall (finding []) (.operator operatorKey none) v rfl issuedAt aloneRequest [] e []
    rw [verify, Act.run_lift_bind, he]
  refine (checked_reasoned (finding []) v rfl issuedAt aloneRequest).1 hc ?_ ?_
  · intro e he
    cases he
  · exact ⟨rfl,userSample.token_ne_nil,_,[],accountKey,rfl,rfl,aloneRequest_issuer,rfl⟩

end Domain

end Valiss.Reasons
