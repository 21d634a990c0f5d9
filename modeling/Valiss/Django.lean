import Valiss.HttpSig
import Valiss.Lib.Layers
import Valiss.Provenance

/-!
# The Django middlewares

A view and the middlewares around it share one request object. A middleware of
the scheme answers, or attaches what it verified to the request and goes on; the
guard answers where no identity is attached. Other middlewares do what they like
as long as they hand on requests that read like those they were handed.
-/

set_option autoImplicit false

namespace Valiss.Django
open Lib.Unicode Lib.Json Lib.Calendar Lib.Fallible Lib.Layers Valiss.Errors Valiss.Verify
open Valiss.Message Valiss.Chains Valiss.HttpAuth Valiss.HttpSig Valiss.MsgTransport
open Valiss.SigningHistory Valiss.Provenance Valiss.Recorded Lib.Base64

structure HttpResponse where
  status : ℕ
  content : Bytes
  headers : Headers

/-- `django.http.HttpResponse`, of a status, a text and a content type. -/
class Responses where
  make : ℕ → Str → Str → Py HttpResponse

def plainType : Str := lit "text/plain; charset=utf-8"

/-- A response encodes its text in the charset of its content type, its one header. -/
def Responses.Encodes [Platform] [Responses] : Prop := ∀ status message,
  make status message plainType = (encode message).map fun content =>
    ⟨status,content,[(lit "content-type",plainType)]⟩

section Model
variable [Platform] [Responses] {σ : Type}

/-- `body` is what reading it returns or raises; the last two are the attributes
that the middlewares set. -/
structure HttpRequest where
  headers : Headers
  method : Option Str
  path : Str
  body : Py Bytes
  identity : Option Identity := none
  message : Option MessageClaims := none

/-- `HttpResponse(message, status=status, content_type=...)` -/
def httpResponse (status : ℕ) (message : Str) : Py HttpResponse :=
  Responses.make status message plainType

/-- `response[name] = value` -/
def HttpResponse.set (response : HttpResponse) (name : String) (value : Str) : HttpResponse :=
  {response with headers := put response.headers (lit name) value}

/-- `HttpResponse(result.message, status=401, ...)`, and the negotiation signal. -/
def reject (x : Reject) : Py HttpResponse := do
  let response ← httpResponse 401 x.message
  pure (if x.chainRequired then response.set "valiss-chain" (lit "required") else response)

structure Served (σ : Type) where
  request : HttpRequest
  store : σ

abbrev View (σ : Type) := Act Exc (Served σ) HttpResponse

def asked : Act Exc (Served σ) HttpRequest := fun w => (.ok w.request,w)

def attach (f : HttpRequest → HttpRequest) : Act Exc (Served σ) Unit := fun w =>
  (.ok (),{w with request := f w.request})

def onStore {α : Type} (x : Act Exc σ α) : Act Exc (Served σ) α := fun w =>
  ((x.run w.store).1,{w with store := (x.run w.store).2})

/-- `valiss.httpauth.django.middleware`, its clock reading `now`. -/
def authMiddleware (v : Verifier σ) (now : DateTime) (allowMissing : Bool)
    (getResponse : View σ) : Act Exc (Served σ) HttpResponse := do
  let request ← asked
  let result ← onStore (authenticateHeaders v now request.headers (request.method.getD [])
    (header request.headers "host") request.path allowMissing)
  match result with
  | .status code message => httpResponse code message
  | .identity i => do
    attach fun q => {q with identity := some i}
    getResponse

/-- `valiss.httpsig.django.middleware`, on the readings of its verifications. -/
def sigMiddleware (r : Receiver) (cache : Option (ChainCache σ)) (t₁ t₂ : DateTime)
    (getResponse : View σ) : Act Exc (Served σ) HttpResponse := do
  let request ← asked
  if header request.headers "valiss-message-token" = [] then
    httpResponse 401 (lit "valiss: missing message token")
  else do
    let body ← request.body
    let result ← onStore (authenticateMessage r cache (delivery request.headers request.path body)
      t₁ t₂)
    match result with
    | .reject x => reject x
    | .claims c => do
      attach fun q => {q with message := some c}
      getResponse

/-- `valiss_required` -/
def valissRequired (view : View σ) : Act Exc (Served σ) HttpResponse := do
  let request ← asked
  if request.identity.isNone then httpResponse 401 (lit "valiss: authentication required")
  else view

inductive Layer (σ : Type) where
  | auth (v : Verifier σ) (now : DateTime) (allowMissing : Bool)
  | sig (r : Receiver) (cache : Option (ChainCache σ)) (t₁ t₂ : DateTime)

def Layer.django : Layer σ → View σ → View σ
  | .auth v now allowMissing => authMiddleware v now allowMissing
  | .sig r cache t₁ t₂ => sigMiddleware r cache t₁ t₂

inductive Entry (σ : Type) where
  | valiss (l : Layer σ)
  | foreign (layer : View σ → View σ)

def Entry.make : Entry σ → View σ → View σ
  | .valiss l => l.django
  | .foreign layer => layer

def serve (entries : List (Entry σ)) (view : View σ) : View σ :=
  stacked (entries.map Entry.make) view

omit [Responses] in
theorem onStore_run {α : Type} (x : Act Exc σ α) (w : Served σ) :
    (onStore x).run w = ((x.run w.store).1,{w with store := (x.run w.store).2}) := rfl

theorem authMiddleware_run (v : Verifier σ) (now : DateTime) (allowMissing : Bool) (view : View σ)
    (w : Served σ) : (authMiddleware v now allowMissing view).run w =
      match (authenticateHeaders v now w.request.headers (w.request.method.getD [])
        (header w.request.headers "host") w.request.path allowMissing).run w.store with
      | (.error e,t) => (.error e,{w with store := t})
      | (.ok (.status code message),t) => (httpResponse code message,{w with store := t})
      | (.ok (.identity i),t) => view.run ⟨{w.request with identity := some i},t⟩ := by
  unfold authMiddleware
  rw [Act.run_bind]
  show (onStore _ >>= _).run w = _
  rw [Act.run_bind, onStore_run]
  rcases (authenticateHeaders v now w.request.headers (w.request.method.getD [])
    (header w.request.headers "host") w.request.path allowMissing).run w.store with
    ⟨e | (i | ⟨code,message⟩),t⟩ <;> rfl

theorem sigMiddleware_run (r : Receiver) (cache : Option (ChainCache σ)) (t₁ t₂ : DateTime)
    (view : View σ) (w : Served σ) : (sigMiddleware r cache t₁ t₂ view).run w =
      if header w.request.headers "valiss-message-token" = [] then
        (httpResponse 401 (lit "valiss: missing message token"),w)
      else match w.request.body with
        | .error e => (.error e,w)
        | .ok body => match (authenticateMessage r cache
            (delivery w.request.headers w.request.path body) t₁ t₂).run w.store with
          | (.error e,t) => (.error e,{w with store := t})
          | (.ok (.reject x),t) => (reject x,{w with store := t})
          | (.ok (.claims c),t) => view.run ⟨{w.request with message := some c},t⟩ := by
  unfold sigMiddleware
  rw [Act.run_bind]
  show (if header w.request.headers "valiss-message-token" = [] then _ else _ : Act _ _ _).run w = _
  split_ifs with ht
  · rfl
  · rw [Act.run_lift_bind]
    cases w.request.body with
    | error e => rfl
    | ok body =>
      show (onStore _ >>= _).run w = _
      rw [Act.run_bind, onStore_run]
      dsimp only
      rcases (authenticateMessage r cache (delivery w.request.headers w.request.path body)
        t₁ t₂).run w.store with ⟨e | (c | x),t⟩ <;> rfl

theorem valissRequired_none (view : View σ) (w : Served σ) (h : w.request.identity = none) :
    (valissRequired view).run w =
      (httpResponse 401 (lit "valiss: authentication required"),w) := by
  unfold valissRequired
  rw [Act.run_bind]
  show (if w.request.identity.isNone = true then _ else _ : Act _ _ _).run w = _
  rw [h]
  rfl

theorem valissRequired_some (view : View σ) (w : Served σ) (i : Identity)
    (h : w.request.identity = some i) : (valissRequired view).run w = view.run w := by
  unfold valissRequired
  rw [Act.run_bind]
  show (if w.request.identity.isNone = true then _ else _ : Act _ _ _).run w = _
  rw [h]
  rfl

def HttpRequest.host (q : HttpRequest) : Str := header q.headers "host"

def HttpRequest.request (q : HttpRequest) : Request :=
  ⟨header q.headers "valiss-account-token",header q.headers "valiss-user-token",
    header q.headers "valiss-timestamp",header q.headers "valiss-signature",
    encodePass (contextText (q.method.getD []) q.host q.path (header q.headers "valiss-nonce")),
    header q.headers "valiss-nonce"⟩

structure Reads where
  headers : Headers
  method : Option Str
  path : Str
  identity : Option Identity

def HttpRequest.reads (q : HttpRequest) : Reads := ⟨q.headers,q.method,q.path,q.identity⟩

/-- A middleware that hands on requests that read like the one it was handed or
like those it got back. -/
def Honest (layer : View σ → View σ) : Prop :=
  ∀ R : Reads → Prop, Confined (fun w => R w.request.reads) layer

variable (history : List Call) (entries : List (Entry σ)) (q : HttpRequest)

/-- A verifier of the stack has accepted the request as this identity's. -/
def Vouched (i : Identity) : Prop :=
  ∃ v now allowMissing, .valiss (.auth v now allowMissing) ∈ entries ∧
    Entitled history v now q.request i ∧
    authorizeExt i (q.method.getD []) q.host q.path allowMissing = .ok ()

/-- The request reads as it arrived, but for an identity that is vouched for. -/
def Standing (x : Reads) : Prop :=
  x = {q.reads with identity := x.identity} ∧ ∀ i ∈ x.identity, Vouched history entries q i

variable {history entries q}

omit [Responses] in
theorem granted_vouched (inj : Function.Injective Platform.sha256) (ideal : IdealSignatures history)
    {v : Verifier σ} {now : DateTime} {allowMissing : Bool}
    (he : .valiss (.auth v now allowMissing) ∈ entries) (s t : σ) (i : Identity)
    (h : (authenticateHeaders v now q.headers (q.method.getD []) q.host q.path allowMissing).run s =
      (.ok (.identity i),t)) : Vouched history entries q i := by
  obtain ⟨_,context,hc,hv,ha⟩ := (authenticate_ok _ _ _ _ _ _ _ _ _ _ _ _ _ _).1 h
  obtain rfl := ((encode_ok _ _).1 hc).2
  exact ⟨v,now,allowMissing,he,verify_entitled inj history ideal v now _ s t i hv,ha⟩

omit [Responses] in
theorem Standing.same {p : HttpRequest} (h : Standing history entries q p.reads) :
    p.headers = q.headers ∧ p.method = q.method ∧ p.path = q.path :=
  ⟨congrArg Reads.headers h.1,congrArg Reads.method h.1,congrArg Reads.path h.1⟩

omit [Responses] in
theorem Standing.vouched {p : HttpRequest} (h : Standing history entries q p.reads) (i : Identity)
    (hi : Vouched history entries p i) : Vouched history entries q i := by
  obtain ⟨hheaders,hmethod,hpath⟩ := h.same
  simpa only [Vouched, HttpRequest.request, HttpRequest.host, hheaders, hmethod, hpath] using hi

omit [Responses] in
theorem Standing.identity {p : HttpRequest} (h : Standing history entries q p.reads) (i : Identity)
    (hi : Vouched history entries q i) :
    Standing history entries q {p with identity := some i}.reads := by
  refine ⟨?_,?_⟩
  · have hp := h.1
    simp only [HttpRequest.reads, Reads.mk.injEq] at hp ⊢
    exact ⟨hp.1,hp.2.1,hp.2.2.1,trivial⟩
  · intro j hj
    obtain rfl := Option.some.inj hj
    exact hi

/-- One layer: a middleware of the scheme goes on with an identity only if it is
vouched for, and the others do not make one up. -/
theorem entry_confined (inj : Function.Injective Platform.sha256) (ideal : IdealSignatures history)
    (hforeign : ∀ layer, .foreign layer ∈ entries → Honest layer) (e : Entry σ) (he : e ∈ entries) :
    Confined (fun w => Standing history entries q w.request.reads) e.make := by
  cases e with
  | foreign layer => exact hforeign layer he _
  | valiss l =>
    intro f g hfg w hw
    cases l with
    | auth v now allowMissing =>
      show ((authMiddleware v now allowMissing f).run w = _) ∧ _
      rw [Entry.make, Layer.django, authMiddleware_run, authMiddleware_run]
      split
      next => exact ⟨rfl,hw⟩
      next => exact ⟨rfl,hw⟩
      next i t hrun =>
        exact hfg _ (hw.identity i (hw.vouched i (granted_vouched inj ideal he _ t i hrun)))
    | sig r cache t₁ t₂ =>
      show ((sigMiddleware r cache t₁ t₂ f).run w = _) ∧ _
      rw [Entry.make, Layer.django, sigMiddleware_run, sigMiddleware_run]
      split_ifs
      · exact ⟨rfl,hw⟩
      · split
        next => exact ⟨rfl,hw⟩
        next =>
          split
          next => exact ⟨rfl,hw⟩
          next => exact ⟨rfl,hw⟩
          next => exact hfg _ hw

/-- Behind any middlewares that are honest, what a guarded view does with a request that
came without an identity matters only if the identity it finds is vouched for by a
verifier of the stack, as long as the view leaves the request as it read. -/
theorem guard_mediates (inj : Function.Injective Platform.sha256) (history : List Call)
    (ideal : IdealSignatures history) (entries : List (Entry σ))
    (hforeign : ∀ layer, .foreign layer ∈ entries → Honest layer) (q : HttpRequest)
    (hq : q.identity = none) (s : σ) (view other : View σ)
    (hviews : ∀ p i t, p.headers = q.headers ∧ p.method = q.method ∧ p.path = q.path →
      p.identity = some i → Vouched history entries q i →
      view.run ⟨p,t⟩ = other.run ⟨p,t⟩ ∧ (view.run ⟨p,t⟩).2.request.reads = p.reads) :
    (serve entries (valissRequired view)).run ⟨q,s⟩ =
      (serve entries (valissRequired other)).run ⟨q,s⟩ := by
  have hguard : Alike (fun w => Standing history entries q w.request.reads) (valissRequired view)
      (valissRequired other) := by
    intro w hw
    cases hi : w.request.identity with
    | none =>
      rw [valissRequired_none _ w hi, valissRequired_none _ w hi]
      exact ⟨rfl,hw⟩
    | some i =>
      obtain ⟨heq,hreads⟩ := hviews w.request i w.store hw.same hi (hw.2 i hi)
      rw [valissRequired_some _ w i hi, valissRequired_some _ w i hi]
      refine ⟨heq,?_⟩
      show Standing history entries q (view.run w).2.request.reads
      rw [show (view.run w).2.request.reads = w.request.reads from hreads]
      exact hw
  have hstack : Confined (fun w => Standing history entries q w.request.reads)
      (stacked (entries.map Entry.make)) := by
    apply confined_stacked
    simp only [List.mem_map, forall_exists_index, and_imp, forall_apply_eq_imp_iff₂]
    exact entry_confined inj ideal hforeign
  refine (hstack _ _ hguard ⟨q,s⟩ ⟨rfl,?_⟩).1
  intro i hi
  simp [HttpRequest.reads, hq] at hi

end Model

section Widgets
local instance : Platform := domain.ideal

local instance utf8Responses : Responses where
  make status message contentType := (encode message).map fun content =>
    ⟨status,content,[(lit "content-type",contentType)]⟩

theorem utf8Responses_encodes : Responses.Encodes := fun _ _ => rfl

def widgetVerifier : Verifier Unit where
  allowlist _ := true
  skew := 120000000
  resolver := none
  replayCache := none
  validators := []
  extensionTypes := []
  anchor := .pinned operatorKey none

def widgetGet : HttpRequest where
  headers := [(lit "host",lit "api.example.com"),(lit "valiss-account-token",accountSample.token),
    (lit "valiss-user-token",userSample.token),(lit "valiss-timestamp",requestStamp),
    (lit "valiss-signature",b64encode widgetSignature),(lit "valiss-nonce",lit "n-1")]
  method := some (lit "GET")
  path := lit "/v1/widgets"
  body := .ok []

theorem header_first (name : String) (value : Str) (h : Headers) :
    header ((lit name,value)::h) name = value := by
  simp [header]

theorem header_rest (k name : String) (value : Str) (h : Headers)
    (hk : (lit name == lit k) = false) : header ((lit k,value)::h) name = header h name := by
  simp only [header, List.lookup_cons, hk]

theorem widgetGet_headers : header widgetGet.headers "host" = lit "api.example.com" ∧
    header widgetGet.headers "valiss-account-token" = accountSample.token ∧
    header widgetGet.headers "valiss-user-token" = userSample.token ∧
    header widgetGet.headers "valiss-timestamp" = requestStamp ∧
    header widgetGet.headers "valiss-signature" = b64encode widgetSignature ∧
    header widgetGet.headers "valiss-nonce" = lit "n-1" := by
  unfold widgetGet
  simp (disch := decide) only [header_first, header_rest, and_self]

theorem widget_verified : (verify widgetVerifier requestedAt widgetRequest).run () =
    (.ok (Widgets.widgetIdentity none),()) := by
  have hk := Widgets.widget_checked widgetVerifier requestedAt none (Widgets.widget_pinned none)
    (Or.inl rfl) rfl (by decide) (by decide) requestedAt (by decide)
  exact (verify_ok _ _ _ _ _ _).2 ⟨none,hk,(),rfl,rfl⟩

theorem widget_authenticated : (authenticateHeaders widgetVerifier requestedAt widgetGet.headers
    (widgetGet.method.getD []) (header widgetGet.headers "host") widgetGet.path true).run () =
      (.ok (.identity (Widgets.widgetIdentity none)),()) := by
  obtain ⟨hhost,haccount,huser,hstamp,hsig,hnonce⟩ := widgetGet_headers
  rw [authenticateHeaders, hhost, haccount, huser, hstamp, hsig, hnonce]
  refine (authenticate_ok _ _ _ _ _ _ _ _ _ _ _ _ _ _).2 ⟨fun h => accountSample.token_ne_nil h.1,
    widgetContext,?_,widget_verified,rfl⟩
  exact (encode_ok _ _).2 ⟨by decide,rfl⟩

def retrying (getResponse : View Unit) : Act Exc (Served Unit) HttpResponse := do
  let response ← getResponse
  if response.status = 503 then getResponse else pure response

theorem retrying_honest : Honest retrying := by
  intro R f g hfg
  apply hfg.bind
  intro response
  split_ifs
  · exact hfg
  · exact alike_lift (.ok response)

def whoami (nobody : Str) : Act Exc (Served Unit) HttpResponse := do
  let request ← asked
  match request.identity with
  | some i => httpResponse 200 i.account.name
  | none => httpResponse 200 nobody

theorem whoami_some (nobody : Str) (w : Served Unit) (i : Identity)
    (h : w.request.identity = some i) :
    (whoami nobody).run w = (httpResponse 200 i.account.name,w) := by
  unfold whoami
  rw [Act.run_bind]
  show (match w.request.identity with
    | some i => liftM (httpResponse 200 i.account.name)
    | none => liftM (httpResponse 200 nobody) : Act _ _ _).run w = _
  rw [h]
  rfl

def widgetStack : List (Entry Unit) :=
  [.foreign retrying,.valiss (.auth widgetVerifier requestedAt true)]

theorem widgetStack_answers : ∃ response w,
    (serve widgetStack (valissRequired (whoami []))).run ⟨widgetGet,()⟩ = (.ok response,w) ∧
    response.content = encodePass (lit "acme") := by
  have hacme : httpResponse 200 (lit "acme") = .ok ⟨200,encodePass (lit "acme"),
      [(lit "content-type",plainType)]⟩ := by
    rw [httpResponse, utf8Responses_encodes, (encode_ok (lit "acme") _).2 ⟨by decide,rfl⟩]
    rfl
  have hauth : (authMiddleware widgetVerifier requestedAt true (valissRequired (whoami []))).run
      ⟨widgetGet,()⟩ = (httpResponse 200 (lit "acme"),
        ⟨{widgetGet with identity := some (Widgets.widgetIdentity none)},()⟩) := by
    rw [authMiddleware_run, widget_authenticated]
    dsimp only
    rw [valissRequired_some _ _ _ rfl, whoami_some _ _ _ rfl]
    rfl
  have hserve : serve widgetStack (valissRequired (whoami [])) =
      retrying (authMiddleware widgetVerifier requestedAt true (valissRequired (whoami []))) := rfl
  rw [hserve, retrying, Act.run_bind, hauth, hacme]
  exact ⟨_,_,rfl,rfl⟩

theorem guard_mediates_widgets : ∃ response w,
    (serve widgetStack (valissRequired (whoami []))).run ⟨widgetGet,()⟩ = (.ok response,w) ∧
    response.content = encodePass (lit "acme") ∧
    (serve widgetStack (valissRequired (whoami (lit "nobody")))).run ⟨widgetGet,()⟩ =
      (.ok response,w) := by
  have hforeign : ∀ layer, .foreign layer ∈ widgetStack → Honest layer := by
    simp only [widgetStack, List.mem_cons, List.not_mem_nil, or_false, Entry.foreign.injEq,
      reduceCtorEq]
    rintro _ rfl
    exact retrying_honest
  have hsame := guard_mediates (domain_injective _) domainHistory domain_ideal widgetStack hforeign
    widgetGet rfl () (whoami []) (whoami (lit "nobody")) (by
      intro p i t _ hi _
      rw [whoami_some _ ⟨p,t⟩ i hi, whoami_some _ ⟨p,t⟩ i hi]
      exact ⟨rfl,rfl⟩)
  obtain ⟨response,w,hrun,hcontent⟩ := widgetStack_answers
  exact ⟨response,w,hrun,hcontent,hsame.symm.trans hrun⟩

end Widgets

end Valiss.Django
