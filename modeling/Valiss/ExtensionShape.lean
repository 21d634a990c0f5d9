import Valiss.GrpcAuth
import Valiss.Recorded

/-!
# The shape of an extension

A dimension should be absent, null or an array of strings. Python's iteration
reads more than that: a string passes for the list of its characters, an object
for the list of its keys. Enforcement fails closed exactly when no such reading
carries every token of the chain.
-/

set_option autoImplicit false

namespace Valiss.ExtensionShape
open Lib.Unicode Lib.Json Lib.Fallible
open Valiss.Errors Valiss.TokenClaims Valiss.Decode Valiss.Message Valiss.Verify
open Valiss.TransportExt Valiss.Recorded

section Shapes
variable [Platform]

inductive Listed : Option Json → List Str → Prop
  | absent : Listed none []
  | null : Listed (some .null) []
  | strings (ss : List Str) : Listed (some (.arr (ss.map .str))) ss

/-- The list a value of a dimension passes for, documented or not. -/
inductive PassesFor : Option Json → List Str → Prop
  | listed (v : Option Json) (ss : List Str) (h : Listed v ss) : PassesFor v ss
  | no : PassesFor (some (.bool false)) []
  | zero : PassesFor (some (.int 0)) []
  | floatZero (x : Platform.Flt) (h : FloatText.isZero x = true) : PassesFor (some (.float x)) []
  | characters (s : Str) : PassesFor (some (.str s)) (s.map fun c => [c])
  | keys (ms : Dict Json) : PassesFor (some (.obj ms)) (ms.map Prod.fst)
  | texts (xs : List Json) (h : itemsWithin intDigits xs = true) :
      PassesFor (some (.arr xs)) (xs.map strOf)

def Shaped (v : Option Json) : Prop := ∃ ss, Listed v ss

theorem itemsWithin_strings (ss : List Str) :
    itemsWithin intDigits (ss.map .str : List Json) = true := by
  induction ss with
  | nil => rfl
  | cons s ss ih => simpa [itemsWithin, intsWithin] using ih

theorem pyStrs_eq (xs : List Json) : pyStrs xs =
    if itemsWithin intDigits xs = true then .ok (xs.map strOf) else builtin .valueError := by
  induction xs with
  | nil => rfl
  | cons x xs ih =>
    unfold pyStrs pyStr
    rw [ih]
    by_cases hx : intsWithin intDigits x = true
    · by_cases hxs : itemsWithin intDigits xs = true
      · simp only [itemsWithin, hx, hxs, Bool.and_self, if_true]
        rfl
      · simp only [itemsWithin, hx, hxs, Bool.true_and, if_true]
        rfl
    · simp only [itemsWithin, hx, Bool.false_and, if_false, Bool.false_eq_true]
      rfl

theorem strOf_strings (ss : List Str) : (ss.map .str : List Json).map strOf = ss := by
  induction ss with
  | nil => rfl
  | cons s ss ih => simpa [strOf] using ih

theorem strings_ok (v : Json) (ss : List Str) (ht : truthy v = true) :
    strings v = .ok ss ↔ PassesFor (some v) ss := by
  constructor
  · intro h
    cases v with
    | null => cases ht
    | bool b => cases h
    | int n => cases h
    | float x => cases h
    | str s =>
      obtain rfl := Except.ok.inj h
      exact .characters s
    | arr xs =>
      rw [strings, pyStrs_eq] at h
      split_ifs at h with hx
      · obtain rfl := Except.ok.inj h
        exact .texts xs hx
      · cases h
    | obj ms =>
      obtain rfl := Except.ok.inj h
      exact .keys ms
  · intro h
    cases h with
    | listed _ _ h =>
      cases h with
      | null => cases ht
      | strings =>
        rw [strings, pyStrs_eq, if_pos (itemsWithin_strings ss), strOf_strings]
    | no => cases ht
    | zero => cases ht
    | floatZero x hx => simp [truthy, hx] at ht
    | characters s => rfl
    | keys ms => rfl
    | texts xs hx => rw [strings, pyStrs_eq, if_pos hx]

theorem falsy_passes (v : Json) (ss : List Str) (ht : truthy v = false) :
    PassesFor (some v) ss ↔ ss = [] := by
  constructor
  · intro h
    cases h with
    | listed _ _ h =>
      cases h with
      | null => rfl
      | strings => simpa [truthy] using ht
    | no => rfl
    | zero => rfl
    | floatZero => rfl
    | characters s =>
      have : s = [] := by simpa [truthy] using ht
      rw [this]
      rfl
    | keys ms =>
      have : ms = [] := by simpa [truthy] using ht
      rw [this]
      rfl
    | texts xs =>
      have : xs = [] := by simpa [truthy] using ht
      rw [this]
      rfl
  · rintro rfl
    cases v with
    | null => exact .listed _ _ .null
    | bool b =>
      cases b with
      | false => exact .no
      | true => cases ht
    | int n =>
      have : n = 0 := by simpa [truthy] using ht
      rw [this]
      exact .zero
    | float x => exact .floatZero x (by simpa [truthy] using ht)
    | str s =>
      have : s = [] := by simpa [truthy] using ht
      rw [this]
      exact .characters []
    | arr xs =>
      have : xs = [] := by simpa [truthy] using ht
      rw [this]
      exact .listed _ _ (.strings [])
    | obj ms =>
      have : ms = [] := by simpa [truthy] using ht
      rw [this]
      exact .keys []

theorem dimension_ok (payload : Dict Json) (k : String) (ss : List Str) :
    dimension payload k = .ok ss ↔ PassesFor (payload.lookup (lit k)) ss := by
  unfold dimension
  cases payload.lookup (lit k) with
  | none =>
    constructor
    · intro h
      obtain rfl := Except.ok.inj h
      exact .listed _ _ .absent
    · intro h
      cases h with
      | listed _ _ h => cases h with | absent => rfl
  | some v =>
    by_cases ht : truthy v = true
    · simpa only [ht, if_true] using strings_ok v ss ht
    · have hf := eq_false_of_ne_true ht
      simp only [hf, Bool.false_eq_true, if_false, falsy_passes v ss hf, Except.ok.injEq, eq_comm]

/-- What `ext_of` turns into a `ValissError`. -/
def FromDecoder (e : Exc) : Prop := ∃ kind text, e = .builtin kind text ∧
  Builtin.ofDecoder kind = true

def OwnWords (e : Exc) : Prop := ∃ kind, Builtin.ofDecoder kind = true ∧
  e = .builtin kind (Platform.builtinText kind)

theorem OwnWords.fromDecoder {e : Exc} (h : OwnWords e) : FromDecoder e := by
  obtain ⟨kind,hk,rfl⟩ := h
  exact ⟨kind,_,rfl,hk⟩

theorem strings_error (v : Json) (e : Exc) (h : strings v = .error e) : OwnWords e := by
  have htype : ∀ e', builtin .typeError = (.error e' : Py (List Str)) → OwnWords e' := by
    intro e' h'
    obtain rfl := Except.error.inj h'
    exact ⟨_,rfl,rfl⟩
  cases v with
  | null => exact htype e h
  | bool b => exact htype e h
  | int n => exact htype e h
  | float x => exact htype e h
  | str s => cases h
  | arr xs =>
    rw [strings, pyStrs_eq] at h
    split_ifs at h
    obtain rfl := Except.error.inj h
    exact ⟨_,rfl,rfl⟩
  | obj ms => cases h

theorem dimension_error (payload : Dict Json) (k : String) (e : Exc)
    (h : dimension payload k = .error e) : OwnWords e := by
  unfold dimension at h
  cases hv : payload.lookup (lit k) with
  | none => simp [hv] at h
  | some v =>
    rw [hv] at h
    dsimp only at h
    split_ifs at h
    exact strings_error v e h

def Refusal (e : Exc) : Prop := e.reason = some .extensionInvalid

theorem extOf_raises {α : Type} (t : ExtType α)
    (hd : ∀ payload e, t.decode payload = .error e → FromDecoder e) (ext : Dict Json) :
    Raises Refusal (extOf t ext) := by
  intro e h
  unfold extOf at h
  split at h
  next => cases h
  next => cases h
  next payload _ =>
    split at h
    next => cases h
    next e' he =>
      obtain ⟨k,text,rfl,hk⟩ := hd _ _ he
      obtain rfl := Except.error.inj h
      simp [Refusal, decodeFailed, hk, errFor, Exc.reason]
  next =>
    obtain rfl := Except.error.inj h
    rfl

theorem authorizeExts_raises {α : Type} (P : Exc → Prop) (t : ExtType α) (permits : α → Bool)
    (missing denied : Str) (allowMissing : Bool) (hext : ∀ ext, Raises P (extOf t ext))
    (hm : P (errFor missing .extensionInvalid)) (hd : P (errFor denied .extensionInvalid))
    (exts : List (Dict Json)) :
    Raises P (authorizeExts t permits missing denied allowMissing exts) := by
  induction exts with
  | nil => exact raises_ok _ _
  | cons ext exts ih =>
    apply Raises.bind (hext ext)
    intro decoded _
    cases decoded with
    | none => exact Raises.bind ((raises_raiseIf _ _ _).2 fun _ => hm) fun _ _ => ih
    | some x => exact Raises.bind ((raises_raiseIf _ _ _).2 fun _ => hd) fun _ _ => ih

/-- The token lets the request pass: it has no extension and may do without, or
the extension, its dimensions read by `reads`, permits the request. -/
inductive Grants {α : Type} (name : Str) (reads : Dict Json → α → Prop) (permits : α → Bool)
    (allowMissing : Bool) (ext : Dict Json) : Prop
  | missing (h : ext.lookup name = none ∨ ext.lookup name = some .null)
      (ha : allowMissing = true)
  | permitted (payload : Dict Json) (e : α) (h : ext.lookup name = some (.obj payload))
      (hr : reads payload e) (hp : permits e = true)

/-- There is an extension, and it is no object or has a dimension that is neither
absent, null nor an array of strings. -/
def Malformed (name : Str) (dims : List String) (ext : Dict Json) : Prop :=
  ∃ v, ext.lookup name = some v ∧ v ≠ .null ∧
    ∀ payload, v = .obj payload → ∃ k ∈ dims, ¬ Shaped (payload.lookup (lit k))

structure Reads {α : Type} (t : ExtType α) (dims : List String)
    (reads : (Option Json → List Str → Prop) → Dict Json → α → Prop) : Prop where
  decode : ∀ payload e, t.decode payload = .ok e ↔ reads PassesFor payload e
  error : ∀ payload e, t.decode payload = .error e → FromDecoder e
  shaped : ∀ payload e, reads Listed payload e ↔
    reads PassesFor payload e ∧ ∀ k ∈ dims, Shaped (payload.lookup (lit k))

variable {α : Type} (t : ExtType α) (dims : List String)
  (reads : (Option Json → List Str → Prop) → Dict Json → α → Prop)
  (permits : α → Bool) (missing denied : Str) (allowMissing : Bool)

theorem extOf_grants (hr : Reads t dims reads) (ext : Dict Json) :
    ((extOf t ext = .ok none ∧ allowMissing = true) ∨
      ∃ e, extOf t ext = .ok (some e) ∧ permits e = true) ↔
    Grants t.name (reads PassesFor) permits allowMissing ext := by
  constructor
  · rintro (⟨h,ha⟩ | ⟨e,h,hp⟩)
    · unfold extOf at h
      split at h
      next hl => exact .missing (Or.inl hl) ha
      next hl => exact .missing (Or.inr hl) ha
      next => split at h <;> cases h
      next => cases h
    · unfold extOf at h
      split at h
      next => cases h
      next => cases h
      next payload hl =>
        split at h
        next a hd =>
          obtain rfl := Option.some.inj (Except.ok.inj h)
          exact .permitted payload a hl ((hr.decode _ _).1 hd) hp
        next => cases h
      next => cases h
  · intro h
    cases h with
    | missing h ha =>
      left
      refine ⟨?_,ha⟩
      rcases h with h | h <;> rw [extOf, h]
    | permitted payload e h hread hp =>
      right
      refine ⟨e,?_,hp⟩
      simp only [extOf, h, (hr.decode payload e).2 hread]

theorem authorizeExts_ok (hr : Reads t dims reads) (exts : List (Dict Json)) :
    authorizeExts t permits missing denied allowMissing exts = .ok () ↔
      ∀ ext ∈ exts, Grants t.name (reads PassesFor) permits allowMissing ext := by
  induction exts with
  | nil => simp [authorizeExts]
  | cons ext exts ih =>
    rw [List.forall_mem_cons, ← ih, ← extOf_grants t dims reads permits allowMissing hr ext]
    rw [authorizeExts]
    cases h : extOf t ext with
    | error e => simp [error_bind]
    | ok decoded =>
      cases decoded with
      | none => simp [ok_bind]
      | some e => simp [ok_bind]

theorem grants_listed (hr : Reads t dims reads) (ext : Dict Json) :
    Grants t.name (reads Listed) permits allowMissing ext ↔
      Grants t.name (reads PassesFor) permits allowMissing ext ∧ ¬ Malformed t.name dims ext := by
  constructor
  · intro h
    cases h with
    | missing h ha =>
      refine ⟨.missing h ha,?_⟩
      rintro ⟨v,hv,hn,_⟩
      rcases h with h | h
      · rw [h] at hv
        cases hv
      · rw [h] at hv
        exact hn (Option.some.inj hv).symm
    | permitted payload e h hread hp =>
      obtain ⟨hloose,hshape⟩ := (hr.shaped _ _).1 hread
      refine ⟨.permitted payload e h hloose hp,?_⟩
      rintro ⟨v,hv,_,hbad⟩
      rw [h] at hv
      obtain ⟨k,hk,hno⟩ := hbad payload (Option.some.inj hv).symm
      exact hno (hshape k hk)
  · rintro ⟨h,hshape⟩
    cases h with
    | missing h ha => exact .missing h ha
    | permitted payload e h hread hp =>
      refine .permitted payload e h ((hr.shaped _ _).2 ⟨hread,?_⟩) hp
      intro k hk
      by_contra hno
      apply hshape
      refine ⟨.obj payload,h,by simp,?_⟩
      intro p he
      obtain rfl : payload = p := by simpa using he
      exact ⟨k,hk,hno⟩

/-- What failing closed means for one call over the ext maps of a chain. -/
structure FailsClosed (call : Py Unit) (granted malformed : Dict Json → Prop)
    (exts : List (Dict Json)) : Prop where
  accepts : call = .ok () → ∀ ext ∈ exts, granted ext
  rejects : (∃ ext ∈ exts, malformed ext) → ∃ m r, call = .error (.valiss m r)

def Caught (malformed asRead : Dict Json → Prop) (exts : List (Dict Json)) : Prop :=
  (∀ ext ∈ exts, ¬ malformed ext) ∨ ∃ ext ∈ exts, ¬ asRead ext

theorem authorizeExts_closed (hr : Reads t dims reads) (exts : List (Dict Json)) :
    FailsClosed (authorizeExts t permits missing denied allowMissing exts)
        (Grants t.name (reads Listed) permits allowMissing) (Malformed t.name dims) exts ↔
      Caught (Malformed t.name dims) (Grants t.name (reads PassesFor) permits allowMissing)
        exts := by
  have hok := authorizeExts_ok t dims reads permits missing denied allowMissing hr exts
  constructor
  · intro h
    by_cases hall : ∀ ext ∈ exts, Grants t.name (reads PassesFor) permits allowMissing ext
    · left
      intro ext hm
      exact ((grants_listed t dims reads permits allowMissing hr ext).1
        (h.accepts (hok.2 hall) ext hm)).2
    · right
      simpa using hall
  · intro h
    constructor
    · intro hcall ext hm
      have hall := hok.1 hcall
      rcases h with h | ⟨bad,hbad,hno⟩
      · exact (grants_listed t dims reads permits allowMissing hr ext).2 ⟨hall ext hm,h ext hm⟩
      · exact absurd (hall bad hbad) hno
    · rintro ⟨ext,hm,hmal⟩
      rcases h with h | ⟨bad,hbad,hno⟩
      · exact absurd hmal (h ext hm)
      · cases hcall : authorizeExts t permits missing denied allowMissing exts with
        | ok u => exact absurd (hok.1 hcall bad hbad) hno
        | error e =>
          have hr := authorizeExts_raises Refusal t permits missing denied allowMissing
            (extOf_raises t hr.error) rfl rfl exts e hcall
          cases e with
          | valiss m r => exact ⟨m,r,rfl⟩
          | builtin k m => cases hr

theorem listed_iff (v : Option Json) (ss : List Str) :
    Listed v ss ↔ PassesFor v ss ∧ Shaped v := by
  constructor
  · intro h
    exact ⟨.listed v ss h,ss,h⟩
  · rintro ⟨h,tt,ht⟩
    suffices ss = tt by rwa [this]
    cases ht with
    | absent => cases h with
      | listed _ _ h => cases h with | absent => rfl
    | null => exact (falsy_passes .null ss rfl).1 h
    | strings =>
      have hl : PassesFor (some (.arr (tt.map .str))) tt := .listed _ _ (.strings tt)
      by_cases ht : truthy (.arr (tt.map .str) : Json) = true
      · exact Except.ok.inj (((strings_ok _ ss ht).2 h).symm.trans ((strings_ok _ tt ht).2 hl))
      · have hf := eq_false_of_ne_true ht
        rw [(falsy_passes _ ss hf).1 h, (falsy_passes _ tt hf).1 hl]

def httpDims : List String := ["hosts","methods","paths"]

def HttpReads (reads : Option Json → List Str → Prop) (payload : Dict Json)
    (e : HttpAuth.HttpExt) : Prop :=
  reads (payload.lookup (lit "hosts")) e.hosts ∧ reads (payload.lookup (lit "methods")) e.methods ∧
    reads (payload.lookup (lit "paths")) e.paths

theorem http_error (payload : Dict Json) (e : Exc)
    (h : HttpAuth.httpExt.decode payload = .error e) : OwnWords e := by
  simp only [HttpAuth.httpExt, HttpAuth.decodeExt, bind_error] at h
  rcases h with h | ⟨_,_,h | ⟨_,_,h | ⟨_,_,h⟩⟩⟩
  · exact dimension_error payload _ e h
  · exact dimension_error payload _ e h
  · exact dimension_error payload _ e h
  · cases h

theorem http_reads : Reads HttpAuth.httpExt httpDims HttpReads := by
  constructor
  · intro payload e
    simp only [HttpAuth.httpExt, HttpAuth.decodeExt, Lib.Fallible.bind_ok, dimension_ok, pure_ok,
      HttpReads]
    constructor
    · rintro ⟨hosts,hh,methods,hm,paths,hp,rfl⟩
      exact ⟨hh,hm,hp⟩
    · rintro ⟨hh,hm,hp⟩
      exact ⟨_,hh,_,hm,_,hp,rfl⟩
  · intro payload e h
    exact (http_error payload e h).fromDecoder
  · intro payload e
    simp only [HttpReads, listed_iff, httpDims, List.mem_cons, List.not_mem_nil, or_false,
      forall_eq_or_imp, forall_eq]
    tauto

def grpcDims : List String := ["methods"]

def GrpcReads (reads : Option Json → List Str → Prop) (payload : Dict Json)
    (e : GrpcAuth.GrpcExt) : Prop :=
  reads (payload.lookup (lit "methods")) e.methods

theorem grpc_reads : Reads GrpcAuth.grpcExt grpcDims GrpcReads := by
  constructor
  · intro payload e
    simp only [GrpcAuth.grpcExt, GrpcAuth.decodeExt, Lib.Fallible.bind_ok, dimension_ok, pure_ok,
      GrpcReads]
    constructor
    · rintro ⟨methods,hm,rfl⟩
      exact hm
    · intro hm
      exact ⟨_,hm,rfl⟩
  · intro payload e h
    simp only [GrpcAuth.grpcExt, GrpcAuth.decodeExt, bind_error] at h
    rcases h with h | ⟨_,_,h⟩
    · exact (dimension_error payload _ e h).fromDecoder
    · cases h
  · intro payload e
    simp only [GrpcReads, listed_iff, grpcDims, List.mem_singleton, forall_eq]

def httpGrants (reads : Option Json → List Str → Prop) (method host path : Str)
    (allowMissing : Bool) : Dict Json → Prop :=
  Grants (lit "http") (HttpReads reads) (fun e => e.authorizes method host path) allowMissing

def httpMalformed : Dict Json → Prop := Malformed (lit "http") httpDims

def grpcGrants (reads : Option Json → List Str → Prop) (fullMethod : Str)
    (allowMissing : Bool) : Dict Json → Prop :=
  Grants (lit "grpc") (GrpcReads reads) (fun e => e.authorizes fullMethod) allowMissing

def grpcMalformed : Dict Json → Prop := Malformed (lit "grpc") grpcDims

/-- Both transports fail closed exactly when a malformed chain is caught by a
token that refuses however it is read. -/
theorem extensions_closed (i : Identity) (allowMissing : Bool) :
    (∀ method host path,
      FailsClosed (HttpAuth.authorizeExt i method host path allowMissing)
          (httpGrants Listed method host path allowMissing) httpMalformed (extsOf i) ↔
        Caught httpMalformed (httpGrants PassesFor method host path allowMissing) (extsOf i)) ∧
    ∀ fullMethod,
      FailsClosed (GrpcAuth.authorizeExt i fullMethod allowMissing)
          (grpcGrants Listed fullMethod allowMissing) grpcMalformed (extsOf i) ↔
        Caught grpcMalformed (grpcGrants PassesFor fullMethod allowMissing) (extsOf i) :=
  ⟨fun _ _ _ => authorizeExts_closed _ httpDims HttpReads _ _ _ allowMissing http_reads (extsOf i),
    fun _ => authorizeExts_closed _ grpcDims GrpcReads _ _ _ allowMissing grpc_reads (extsOf i)⟩

end Shapes

section Widgets
local instance : Platform := domain.ideal

/-- An account whose `http` extension has text where its paths should be. -/
def textPaths : Identity where
  account := {
    id := [], issuer := operatorKey, subject := accountKey, issuedAt := none, expiresAt := none
    notBefore := none, name := lit "acme", epoch := 7
    ext := [(lit "http",.obj [(lit "paths",.str (lit "/v1/*"))])] }
  user := none
  operator := none

/-- Its last character alone is a wildcard for every path. -/
theorem text_paths_open :
    HttpAuth.authorizeExt textPaths (lit "GET") (lit "api.example.com") (lit "/admin") false =
      .ok () ∧
    ¬ FailsClosed
      (HttpAuth.authorizeExt textPaths (lit "GET") (lit "api.example.com") (lit "/admin") false)
      (httpGrants Listed (lit "GET") (lit "api.example.com") (lit "/admin") false) httpMalformed
      (extsOf textPaths) := by
  have hok : HttpAuth.authorizeExt textPaths (lit "GET") (lit "api.example.com") (lit "/admin")
      false = .ok () := by decide +kernel
  refine ⟨hok,?_⟩
  intro h
  obtain ⟨m,r,he⟩ := h.rejects ⟨_,List.mem_cons_self,.obj [(lit "paths",.str (lit "/v1/*"))],rfl,
    by simp, fun payload hp => ⟨"paths",by decide,by
      obtain rfl := Value.obj.inj hp
      rintro ⟨ss,hs⟩
      cases hs⟩⟩
  rw [hok] at he
  cases he

end Widgets

end Valiss.ExtensionShape
