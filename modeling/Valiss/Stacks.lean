import Valiss.BodyReplay
import Valiss.Destination
import Valiss.Django
import Valiss.Wire

/-!
# The same stack behind two servers

Middlewares of the scheme in one order, in front of a Django view and of an ASGI
app. The ASGI ones call the app with the events that are left and share the
request state; what the app does stands where it was called.
-/

set_option autoImplicit false

namespace Valiss.Stacks
open Lib.Unicode Lib.Base64 Lib.Json Lib.Calendar Lib.Fallible Valiss.Errors Valiss.Verify
open Valiss.Message Valiss.Chains Valiss.HttpAuth Valiss.HttpSig Valiss.MsgTransport
open Valiss.SigningHistory Valiss.Provenance Valiss.Asgi Valiss.Django Valiss.Recorded

section Model
variable [Platform] {σ : Type}

/-- `scope["state"]`, as far as the middlewares set it. -/
structure Attached where
  identity : Option Identity := none
  message : Option MessageClaims := none

abbrev Call (σ : Type) := (End × List (Action Attached)) × (Attached × σ)

/-- What follows a call of the middleware: `app` runs where it is called. -/
def follow {β : Type} (app : β → List Event → Attached × σ → Call σ) (ending : End) :
    List (Action β) → Attached × σ → Call σ
  | [], s => ((ending,[]),s)
  | .app b events::rest, s => match app b events s with
    | ((.returned,done),t) =>
      let (call,u) := follow app ending rest t
      ((call.1,done ++ call.2),u)
    | stopped => stopped
  | .start status headers::rest, s =>
    let (call,u) := follow app ending rest s
    ((call.1,.start status headers::call.2),u)
  | .body content::rest, s =>
    let (call,u) := follow app ending rest s
    ((call.1,.body content::call.2),u)

/-- `Middleware.__call__` in front of an app that shares the scope. -/
def asgiLayer (scope : Scope) (app : List Event → Attached × σ → Call σ) :
    Layer σ → List Event → Attached × σ → Call σ
  | .auth v now allowMissing, events, s =>
    let (call,t) := Asgi.authMiddleware (verify v now) allowMissing scope events s.2
    follow (fun i rest u => app rest ({u.1 with identity := some i},u.2)) call.1 call.2 (s.1,t)
  | .sig r cache t₁ t₂, events, s =>
    let (call,t) := Asgi.sigMiddleware r cache scope events t₁ t₂ s.2
    follow (fun c rest u => app rest ({u.1 with message := some c},u.2)) call.1 call.2 (s.1,t)

def reached (events : List Event) (s : Attached × σ) : Call σ :=
  ((.returned,[.app s.1 events]),s)

def asgiStack (layers : List (Layer σ)) (scope : Scope) : List Event → Attached × σ → Call σ :=
  layers.foldr (fun l app => asgiLayer scope app l) reached

theorem asgiStack_cons (l : Layer σ) (layers : List (Layer σ)) (scope : Scope) :
    asgiStack (l::layers) scope = asgiLayer scope (asgiStack layers scope) l := rfl

theorem follow_app {β : Type} (app : β → List Event → Attached × σ → Call σ) (b : β)
    (events : List Event) (s : Attached × σ) :
    follow app .returned [.app b events] s = app b events s := by
  unfold follow
  rcases app b events s with ⟨⟨ending | e | _,done⟩,t⟩ <;> simp [follow]

theorem follow_response {β : Type} (app : β → List Event → Attached × σ → Call σ) (status : ℕ)
    (message : Str) (extra : List (Bytes × Bytes)) (s : Attached × σ) :
    follow app (Asgi.reject status message extra : End × List (Action β)).1
      (Asgi.reject status message extra).2 s = (Asgi.reject status message extra,s) := by
  unfold Asgi.reject
  cases encode message <;> rfl

/-- Both servers make the same of a request: each header that is read has one value,
and the body is there as a whole. -/
structure Matches (q : HttpRequest) (scope : Scope) (events : List Event) : Prop where
  headers : ∀ name, header q.headers name = header (headersOf scope.headers) name
  method : q.method.getD [] = scope.method
  path : q.path = scope.path
  body : ∃ body rest, q.body = .ok body ∧ bufferBody events = some (body,rest)

def Attached.onto (a : Attached) (q : HttpRequest) : HttpRequest :=
  {q with identity := a.identity,message := a.message}

/-- Headers as Django has them: it leaves the length to the server. -/
def unlengthed (headers : List (Bytes × Bytes)) : Headers :=
  (headers.map fun e => (latin1 e.1,latin1 e.2)).filter fun e => e.1 ≠ lit "content-length"

/-- The view does what it would where the app is called, with the same body to read;
otherwise both end with the same exception or the same response. -/
inductive Simulates (q : HttpRequest) (scope : Scope) (view : View σ) :
    Call σ → Except Exc HttpResponse × Served σ → Prop where
  | app (events : List Event) (a : Attached) (s : σ) (h : Matches q scope events) :
    Simulates q scope view ((.returned,[.app a events]),(a,s)) (view.run ⟨a.onto q,s⟩)
  | raised (e : Exc) (a : Attached) (s : σ) :
    Simulates q scope view ((.raised e,[]),(a,s)) (.error e,⟨a.onto q,s⟩)
  | sent (status : ℕ) (headers : List (Bytes × Bytes)) (content : Bytes) (a : Attached) (s : σ) :
    Simulates q scope view ((.returned,[.start status headers,.body content]),(a,s))
      (.ok ⟨status,content,unlengthed headers⟩,⟨a.onto q,s⟩)

variable {q : HttpRequest} {scope : Scope} {events : List Event}

theorem Matches.buffered (h : Matches q scope events) (body : Bytes) (rest : List Event)
    (hb : bufferBody events = some (body,rest)) :
    Matches q scope (.request (some body) (some false) :: rest) := by
  obtain ⟨body',rest',hq,hb'⟩ := h.body
  rw [hb, Option.some.injEq, Prod.mk.injEq] at hb'
  obtain ⟨rfl,rfl⟩ := hb'
  exact ⟨h.headers,h.method,h.path,body,rest,hq,rfl⟩

theorem Matches.authenticates (h : Matches q scope events) (v : Verifier σ) (now : DateTime)
    (allowMissing : Bool) : authenticateScope (verify v now) allowMissing scope =
      authenticateHeaders v now q.headers (q.method.getD []) (header q.headers "host") q.path
        allowMissing := by
  simp only [authenticateScope, authenticateHeaders, authenticate_with, h.headers, h.method, h.path]

theorem Matches.delivers (h : Matches q scope events) (body : Bytes) :
    delivery (headersOf scope.headers) scope.path body = delivery q.headers q.path body := by
  simp only [delivery, h.headers, h.path]

omit [Platform] in
theorem unlengthed_response (length : Bytes) (extra : List (Bytes × Bytes)) :
    unlengthed ((ascii "content-type",ascii "text/plain; charset=utf-8") ::
      (ascii "content-length",length) :: extra) =
      (lit "content-type",plainType) :: unlengthed extra := by
  have htype : latin1 (ascii "content-type") = lit "content-type" := by decide
  have hplain : latin1 (ascii "text/plain; charset=utf-8") = plainType := by decide
  have hlength : latin1 (ascii "content-length") = lit "content-length" := by decide
  have hne : lit "content-type" ≠ lit "content-length" := by decide
  simp [unlengthed, htype, hplain, hlength, hne]

section Simulation
variable [Responses]

theorem rejects_simulate (he : Responses.Encodes) (view : View σ) (status : ℕ) (message : Str)
    (extra : List (Bytes × Bytes)) (response : Py HttpResponse)
    (h : response = (httpResponse status message).map fun r =>
      {r with headers := r.headers ++ unlengthed extra}) (a : Attached) (s : σ) :
    Simulates q scope view (Asgi.reject status message extra,(a,s)) (response,⟨a.onto q,s⟩) := by
  subst h
  rw [Asgi.reject, httpResponse, he]
  cases encode message with
  | error e => exact .raised e a s
  | ok content =>
    show Simulates q scope view _ (.ok ⟨status,content,(lit "content-type",plainType) ::
      unlengthed extra⟩,_)
    rw [← unlengthed_response (encodePass (natText content.length)) extra]
    exact .sent status _ content a s

theorem plain_simulates (he : Responses.Encodes) (view : View σ) (status : ℕ) (message : Str)
    (a : Attached) (s : σ) :
    Simulates q scope view (Asgi.reject status message [],(a,s))
      (httpResponse status message,⟨a.onto q,s⟩) := by
  apply rejects_simulate he
  rw [httpResponse, he]
  cases encode message <;> rfl

theorem reject_simulates (he : Responses.Encodes) (view : View σ) (x : Reject) (a : Attached)
    (s : σ) :
    Simulates q scope view (Asgi.reject 401 x.message
      (if x.chainRequired then [(ascii "valiss-chain",ascii "required")] else []),(a,s))
      (Django.reject x,⟨a.onto q,s⟩) := by
  apply rejects_simulate he
  rw [Django.reject, httpResponse, he]
  cases encode x.message with
  | error e => rfl
  | ok content => cases x.chainRequired <;> rfl

theorem auth_simulates (he : Responses.Encodes) (v : Verifier σ) (now : DateTime)
    (allowMissing : Bool)
    (app : List Event → Attached × σ → Call σ) (view outer : View σ)
    (h : ∀ events a s, Matches q scope events →
      Simulates q scope outer (app events (a,s)) (view.run ⟨a.onto q,s⟩))
    (hm : Matches q scope events) (a : Attached) (s : σ) :
    Simulates q scope outer (asgiLayer scope app (.auth v now allowMissing) events (a,s))
      ((Django.authMiddleware v now allowMissing view).run ⟨a.onto q,s⟩) := by
  rw [Django.authMiddleware_run]
  unfold asgiLayer Asgi.authMiddleware
  dsimp only [Attached.onto]
  rw [hm.authenticates]
  rcases (authenticateHeaders v now q.headers (q.method.getD []) (header q.headers "host") q.path
    allowMissing).run s with ⟨e | (i | ⟨code,message⟩),t⟩
  · exact .raised e a t
  · dsimp only
    rw [follow_app]
    exact h events {a with identity := some i} t hm
  · dsimp only
    rw [follow_response]
    exact plain_simulates he outer code message a t

theorem sig_simulates (he : Responses.Encodes) (r : Receiver) (cache : Option (ChainCache σ))
    (t₁ t₂ : DateTime)
    (app : List Event → Attached × σ → Call σ) (view outer : View σ)
    (h : ∀ events a s, Matches q scope events →
      Simulates q scope outer (app events (a,s)) (view.run ⟨a.onto q,s⟩))
    (hm : Matches q scope events) (a : Attached) (s : σ) :
    Simulates q scope outer (asgiLayer scope app (.sig r cache t₁ t₂) events (a,s))
      ((Django.sigMiddleware r cache t₁ t₂ view).run ⟨a.onto q,s⟩) := by
  obtain ⟨body,rest,hq,hb⟩ := hm.body
  unfold asgiLayer Asgi.sigMiddleware
  dsimp only
  rw [← hm.headers, Django.sigMiddleware_run]
  by_cases ht : header q.headers "valiss-message-token" = []
  · rw [if_pos ht, if_pos (show header (a.onto q).headers _ = [] from ht), follow_response]
    exact plain_simulates he outer 401 _ a s
  · rw [if_neg ht, if_neg (show ¬ header (a.onto q).headers _ = [] from ht), hb,
      show (a.onto q).body = .ok body from hq]
    dsimp only
    rw [hm.delivers, show delivery (a.onto q).headers (a.onto q).path body =
      delivery q.headers q.path body from rfl]
    rcases (authenticateMessage r cache (delivery q.headers q.path body) t₁ t₂).run s with
      ⟨e | (c | x),t⟩
    · exact .raised e a t
    · dsimp only
      rw [follow_app]
      exact h _ {a with message := some c} t (hm.buffered body rest hb)
    · dsimp only
      rw [follow_response]
      exact reject_simulates he outer x a t

/-- The same middlewares in the same order make the same of a request, whichever
server they stand behind. -/
theorem stacks_agree (he : Responses.Encodes) (layers : List (Layer σ)) (view : View σ)
    (q : HttpRequest) (scope : Scope) (events : List Event) (hm : Matches q scope events)
    (a : Attached) (s : σ) :
    Simulates q scope view (asgiStack layers scope events (a,s))
      ((serve (layers.map .valiss) view).run ⟨a.onto q,s⟩) := by
  induction layers generalizing events a s with
  | nil => exact .app events a s hm
  | cons l layers ih =>
    cases l with
    | auth v now allowMissing =>
      exact auth_simulates he v now allowMissing _ _ view (fun events a s hm => ih events hm a s) hm
        a s
    | sig r cache t₁ t₂ =>
      exact sig_simulates he r cache t₁ t₂ _ _ view (fun events a s hm => ih events hm a s) hm a s

end Simulation

theorem auth_goes_on (v : Verifier σ) (now : DateTime) (allowMissing : Bool)
    (app : List Event → Attached × σ → Call σ) {a : Attached} {s t : σ} {i : Identity}
    (h : (authenticateScope (verify v now) allowMissing scope).run s = (.ok (.identity i),t)) :
    asgiLayer scope app (.auth v now allowMissing) events (a,s) =
      app events ({a with identity := some i},t) := by
  unfold asgiLayer Asgi.authMiddleware
  dsimp only
  rw [h]
  exact follow_app _ i events (a,t)

theorem sig_goes_on (r : Receiver) (cache : Option (ChainCache σ)) (t₁ t₂ : DateTime)
    (app : List Event → Attached × σ → Call σ) {a : Attached} {s t : σ} {c : MessageClaims}
    (ht : header (headersOf scope.headers) "valiss-message-token" ≠ []) (body : Bytes)
    (rest : List Event) (hb : bufferBody events = some (body,rest))
    (h : (authenticateMessage r cache (delivery (headersOf scope.headers) scope.path body)
      t₁ t₂).run s = (.ok (.claims c),t)) :
    asgiLayer scope app (.sig r cache t₁ t₂) events (a,s) =
      app (.request (some body) (some false) :: rest) ({a with message := some c},t) := by
  unfold asgiLayer Asgi.sigMiddleware
  dsimp only
  rw [if_neg ht, hb]
  dsimp only
  rw [h]
  exact follow_app _ c _ (a,t)

def isAuth : Layer σ → Bool
  | .auth _ _ _ => true
  | .sig _ _ _ _ => false

/-- What a layer has attached was vouched for when it did. -/
def Accepts (history : List SigningHistory.Call) (scope : Scope) (events : List Event)
    (a : Attached) : Layer σ → Prop
  | .auth v now allowMissing => ∃ i, a.identity = some i ∧ Entitled history v now scope.request i ∧
    authorizeExt i scope.method scope.host scope.path allowMissing = .ok ()
  | .sig r _ _ _ => ∃ c t, a.message = some c ∧ Authentic history r (scope.message events) t c

/-- A call that came through: its body is still to be read, every layer has accepted
it, and what is attached comes of the layers, if there are any that attach it. -/
structure Passed (history : List SigningHistory.Call) (layers : List (Layer σ)) (scope : Scope)
    (events after : List Event) (a b : Attached) : Prop where
  body : (bufferBody after).map Prod.fst = (bufferBody events).map Prod.fst
  each : ∀ l ∈ layers, ∃ d, Accepts history scope events d l
  identity : (b.identity = a.identity ∧ ∀ l ∈ layers, isAuth l = false) ∨
    ∃ l ∈ layers, isAuth l = true ∧ Accepts history scope events b l
  message : (b.message = a.message ∧ ∀ l ∈ layers, isAuth l = true) ∨
    ∃ l ∈ layers, isAuth l = false ∧ Accepts history scope events b l

variable {history : List SigningHistory.Call} {app : List Event → Attached × σ → Call σ}
  {after : List Event} {a b : Attached} {s : σ}

theorem auth_calls (inj : Function.Injective Platform.sha256) (ideal : IdealSignatures history)
    (v : Verifier σ) (now : DateTime) (allowMissing : Bool)
    (h : .app b after ∈ (asgiLayer scope app (.auth v now allowMissing) events (a,s)).1.2) :
    ∃ i t, Entitled history v now scope.request i ∧
      authorizeExt i scope.method scope.host scope.path allowMissing = .ok () ∧
      .app b after ∈ (app events ({a with identity := some i},t)).1.2 := by
  unfold asgiLayer Asgi.authMiddleware at h
  dsimp only at h
  rcases hrun : (authenticateScope (verify v now) allowMissing scope).run s with
    ⟨e | (i | ⟨code,message⟩),t⟩
  · rw [hrun] at h
    cases h
  · rw [hrun] at h
    dsimp only at h
    rw [follow_app] at h
    obtain ⟨_,context,hc,hv,ha⟩ := (authenticate_ok v now _ _ _ _ _ _ _ _ _ _ _ _).1 hrun
    obtain rfl := ((Errors.encode_ok _ _).1 hc).2
    exact ⟨i,t,verify_entitled inj history ideal v now scope.request s t i hv,ha,h⟩
  · rw [hrun] at h
    dsimp only at h
    rw [follow_response] at h
    exact absurd h (BodyReplay.reject_no_app _ _ _ _ _)

theorem sig_calls (ideal : IdealSignatures history) (hne : audience scope.host scope.path ≠ [])
    (r : Receiver) (cache : Option (ChainCache σ)) (t₁ t₂ : DateTime)
    (h : .app b after ∈ (asgiLayer scope app (.sig r cache t₁ t₂) events (a,s)).1.2) :
    ∃ c now body rest t, Authentic history r (scope.message events) now c ∧
      bufferBody events = some (body,rest) ∧ .app b after ∈
        (app (.request (some body) (some false) :: rest) ({a with message := some c},t)).1.2 := by
  unfold asgiLayer Asgi.sigMiddleware at h
  dsimp only at h
  by_cases ht : header (headersOf scope.headers) "valiss-message-token" = []
  · rw [if_pos ht, follow_response] at h
    exact absurd h (BodyReplay.reject_no_app _ _ _ _ _)
  rw [if_neg ht] at h
  cases hb : bufferBody events with
  | none =>
    rw [hb] at h
    cases h
  | some p =>
    obtain ⟨body,rest⟩ := p
    have hm : delivery (headersOf scope.headers) scope.path body = scope.message events := by
      rw [Scope.message, hb]
      rfl
    rw [hb] at h
    dsimp only at h
    rw [hm] at h
    rcases hrun : (authenticateMessage r cache (scope.message events) t₁ t₂).run s with
      ⟨e | (c | x),t⟩
    · rw [hrun] at h
      cases h
    · rw [hrun] at h
      dsimp only at h
      rw [follow_app] at h
      obtain ⟨key,w,_,hs,_⟩ := (authenticateMessage_ok _ _ _ _ _ _ _ _).1 hrun
      obtain ⟨now,chain,hv⟩ := settle_claims _ _ _ _ _ _ _ _ _ hs
      exact ⟨c,_,body,rest,t,runVerify_authentic history ideal r _ hne now chain c hv,rfl,h⟩
    · rw [hrun] at h
      dsimp only at h
      rw [follow_response] at h
      exact absurd h (BodyReplay.reject_no_app _ _ _ _ _)

theorem reached_app (h : .app b after ∈ (reached events (a,s) : Call σ).1.2) :
    b = a ∧ after = events := by
  obtain ⟨rfl,rfl⟩ := (Action.app.injEq ..).mp (List.mem_singleton.1 h)
  exact ⟨rfl,rfl⟩

theorem Passed.rebuffered {layers : List (Layer σ)} {rest : List Event} {body : Bytes}
    (hb : bufferBody events = some (body,rest))
    (h : Passed history layers scope (.request (some body) (some false) :: rest) after a b) :
    Passed history layers scope events after a b := by
  have hbody : (bufferBody (.request (some body) (some false) :: rest)).map Prod.fst =
      (bufferBody events).map Prod.fst := by
    rw [hb]
    rfl
  have hmessage : scope.message (.request (some body) (some false) :: rest) =
      scope.message events := by
    rw [Scope.message, hbody, Scope.message]
  have haccepts : ∀ d (l : Layer σ),
      Accepts history scope (.request (some body) (some false) :: rest) d l →
      Accepts history scope events d l := by
    intro d l hl
    cases l with
    | auth v now allowMissing => exact hl
    | sig r cache t₁ t₂ =>
      obtain ⟨c,t,hc,hauthentic⟩ := hl
      exact ⟨c,t,hc,hmessage ▸ hauthentic⟩
  refine ⟨h.body.trans hbody,?_,?_,?_⟩
  · intro l hl
    obtain ⟨d,hd⟩ := h.each l hl
    exact ⟨d,haccepts d l hd⟩
  · rcases h.identity with hsame | ⟨l,hl,hk,hacc⟩
    · exact Or.inl hsame
    · exact Or.inr ⟨l,hl,hk,haccepts b l hacc⟩
  · rcases h.message with hsame | ⟨l,hl,hk,hacc⟩
    · exact Or.inl hsame
    · exact Or.inr ⟨l,hl,hk,haccepts b l hacc⟩

theorem Passed.around {layers : List (Layer σ)} (l : Layer σ) (d : Attached)
    (hd : Accepts history scope events d l)
    (hidentity : isAuth l = false → d.identity = a.identity)
    (hmessage : isAuth l = true → d.message = a.message)
    (h : Passed history layers scope events after d b) :
    Passed history (l::layers) scope events after a b := by
  refine ⟨h.body,?_,?_,?_⟩
  · simp only [List.forall_mem_cons]
    exact ⟨⟨d,hd⟩,h.each⟩
  · rcases h.identity with ⟨hsame,hnone⟩ | ⟨l',hl',hk,hacc⟩
    · cases l with
      | sig r cache t₁ t₂ =>
        refine Or.inl ⟨hsame.trans (hidentity rfl),?_⟩
        simpa [isAuth] using hnone
      | auth v now allowMissing =>
        obtain ⟨i,hi,hentitled⟩ := hd
        exact Or.inr ⟨_,List.mem_cons_self,rfl,i,hsame.trans hi,hentitled⟩
    · exact Or.inr ⟨l',List.mem_cons_of_mem _ hl',hk,hacc⟩
  · rcases h.message with ⟨hsame,hnone⟩ | ⟨l',hl',hk,hacc⟩
    · cases l with
      | auth v now allowMissing =>
        refine Or.inl ⟨hsame.trans (hmessage rfl),?_⟩
        simpa [isAuth] using hnone
      | sig r cache t₁ t₂ =>
        obtain ⟨c,t,hc,hauthentic⟩ := hd
        exact Or.inr ⟨_,List.mem_cons_self,rfl,c,t,hsame.trans hc,hauthentic⟩
    · exact Or.inr ⟨l',List.mem_cons_of_mem _ hl',hk,hacc⟩

/-- Behind any stack of the scheme's middlewares the app is only called with what
they have vouched for, and it can still read the body they have verified. -/
theorem app_vouched (inj : Function.Injective Platform.sha256)
    (history : List SigningHistory.Call) (ideal : IdealSignatures history)
    (layers : List (Layer σ)) (scope : Scope) (hne : audience scope.host scope.path ≠ [])
    (events after : List Event) (a b : Attached) (s : σ)
    (h : .app b after ∈ (asgiStack layers scope events (a,s)).1.2) :
    Passed history layers scope events after a b := by
  induction layers generalizing events a s with
  | nil =>
    obtain ⟨rfl,rfl⟩ := reached_app h
    exact ⟨rfl,by simp,Or.inl ⟨rfl,by simp⟩,Or.inl ⟨rfl,by simp⟩⟩
  | cons l layers ih =>
    cases l with
    | auth v now allowMissing =>
      obtain ⟨i,t,hentitled,hallowed,happ⟩ := auth_calls inj ideal v now allowMissing h
      exact (ih events _ t happ).around _ {a with identity := some i} ⟨i,rfl,hentitled,hallowed⟩
        (fun hk => by cases hk) (fun _ => rfl)
    | sig r cache t₁ t₂ =>
      obtain ⟨c,now,body,rest,t,hauthentic,hb,happ⟩ := sig_calls ideal hne r cache t₁ t₂ h
      exact ((ih _ _ t happ).rebuffered hb).around _ {a with message := some c}
        ⟨c,now,rfl,hauthentic⟩ (fun _ => rfl) (fun hk => by cases hk)

end Model

section Widgets
local instance : Platform := domain.ideal
local instance : Responses := utf8Responses

def widgetHeaders : Headers :=
  widgetGet.headers ++ [(lit "valiss-message-token",messageSample.token),
    (lit "valiss-chain-account-token",accountSample.token),
    (lit "valiss-chain-user-token",userSample.token)]

def widgetPost : HttpRequest :=
  ⟨widgetHeaders,some (lit "GET"),lit "/v1/widgets",.ok bodyBytes,none,none⟩

def widgetScope : Scope := ⟨Wire.onWire widgetHeaders,lit "GET",lit "/v1/widgets"⟩

def widgetEvents : List Event := [.request (some (bodyBytes.take 5)) (some true),
  .request (some (bodyBytes.drop 5)) none]

def widgetLayers : List (Layer Unit) :=
  [.auth widgetVerifier requestedAt true,
    .sig Destination.widgetReceiver none requestedAt requestedAt]

theorem widget_settable : Wire.Settable widgetHeaders := by
  have hlatin : ∀ e ∈ widgetHeaders, Ascii e.1 ∧ Ascii e.2 := by
    simp only [widgetHeaders, widgetGet, List.cons_append, List.nil_append, List.forall_mem_cons,
      List.not_mem_nil, false_imp_iff, implies_true, Sample.token_ascii, and_true]
    decide +kernel
  refine ⟨by decide,?_⟩
  intro e he
  exact ⟨Wire.ascii_latin1 _ (hlatin e he).1,Wire.ascii_latin1 _ (hlatin e he).2⟩

theorem widget_buffered : bufferBody widgetEvents = some (bodyBytes,[]) := rfl

theorem widget_matches : Matches widgetPost widgetScope widgetEvents :=
  ⟨fun name => (Wire.header_onWire _ widget_settable name).symm,rfl,rfl,bodyBytes,[],rfl,
    widget_buffered⟩

theorem widgetHeaders_read : header widgetHeaders "host" = lit "api.example.com" ∧
    header widgetHeaders "valiss-account-token" = accountSample.token ∧
    header widgetHeaders "valiss-user-token" = userSample.token ∧
    header widgetHeaders "valiss-timestamp" = requestStamp ∧
    header widgetHeaders "valiss-signature" = b64encode widgetSignature ∧
    header widgetHeaders "valiss-nonce" = lit "n-1" ∧
    header widgetHeaders "valiss-message-token" = messageSample.token ∧
    header widgetHeaders "valiss-chain-account-token" = accountSample.token ∧
    header widgetHeaders "valiss-chain-user-token" = userSample.token := by
  simp only [widgetHeaders, widgetGet, List.cons_append, List.nil_append]
  simp (disch := decide) only [header_first, header_rest, and_self]

def widgetAttached : Attached where
  identity := some (Widgets.widgetIdentity none)
  message := some (Widgets.widgetMessage (some (Decode.operatorClaims Widgets.operatorRead)))

theorem widget_called : asgiStack widgetLayers widgetScope widgetEvents ({},()) =
    ((.returned,[.app widgetAttached [.request (some bodyBytes) (some false)]]),
      (widgetAttached,())) := by
  obtain ⟨hhost,haccount,huser,hstamp,hsig,hnonce,hmessage,hchain,hchainUser⟩ := widgetHeaders_read
  have hauth : (authenticateScope (verify widgetVerifier requestedAt) true widgetScope).run () =
      (.ok (.identity (Widgets.widgetIdentity none)),()) := by
    rw [widget_matches.authenticates]
    show (authenticateHeaders _ _ widgetHeaders _ (header widgetHeaders "host") _ _).run () = _
    rw [authenticateHeaders, hhost, haccount, huser, hstamp, hsig, hnonce]
    refine (authenticate_ok _ _ _ _ _ _ _ _ _ _ _ _ _ _).2 ⟨fun h => accountSample.token_ne_nil h.1,
      widgetContext,?_,widget_verified,rfl⟩
    exact (Errors.encode_ok _ _).2 ⟨by decide,rfl⟩
  have hdelivery : delivery (headersOf widgetScope.headers) widgetScope.path bodyBytes =
      Widgets.bundled := by
    rw [widget_matches.delivers]
    show delivery widgetHeaders _ _ = _
    rw [delivery, hhost, hmessage, hchain, hchainUser]
    rfl
  have hrun := Widgets.widget_run Destination.widgetReceiver.options Widgets.bundled requestedAt _ _
    rfl rfl rfl rfl Widgets.widget_operatorPolicy (Or.inr rfl) (by decide) (by decide) (by decide)
  have hclaims := authenticateMessage_detached Destination.widgetReceiver
    (none : Option (ChainCache Unit)) _ requestedAt requestedAt () _ Widgets.bundled_detached hrun
  have htoken : header (headersOf widgetScope.headers) "valiss-message-token" ≠ [] := by
    rw [← widget_matches.headers, show header widgetPost.headers "valiss-message-token" = _ from
      hmessage]
    exact messageSample.token_ne_nil
  rw [← hdelivery] at hclaims
  rw [widgetLayers, asgiStack_cons, auth_goes_on _ _ _ _ hauth, asgiStack_cons,
    sig_goes_on _ _ _ _ _ htoken bodyBytes [] widget_buffered hclaims]
  rfl

/-- The view behind Django is asked where the app is called. -/
theorem stacks_agree_widgets : Simulates widgetPost widgetScope (whoami [])
    ((.returned,[.app widgetAttached [.request (some bodyBytes) (some false)]]),(widgetAttached,()))
    ((serve (widgetLayers.map .valiss) (whoami [])).run ⟨widgetPost,()⟩) := by
  have hsame := stacks_agree utf8Responses_encodes widgetLayers (whoami []) widgetPost widgetScope
    widgetEvents
    widget_matches {} ()
  rw [widget_called] at hsame
  exact hsame

theorem app_vouched_widgets : ∃ i c now, widgetAttached.identity = some i ∧
    Entitled domainHistory widgetVerifier requestedAt widgetScope.request i ∧
    widgetAttached.message = some c ∧ Authentic domainHistory Destination.widgetReceiver
      (widgetScope.message widgetEvents) now c := by
  have hpassed := app_vouched (domain_injective _) domainHistory domain_ideal widgetLayers
    widgetScope (by
      rw [Scope.host, ← widget_matches.headers, show header widgetPost.headers "host" = _ from
        widgetHeaders_read.1]
      decide) widgetEvents _ {} _ ()
      (by rw [widget_called]; exact List.mem_singleton_self _)
  obtain ⟨_,hnone⟩ | ⟨l,hl,hk,hauth⟩ := hpassed.identity
  · simp [widgetLayers, isAuth] at hnone
  obtain ⟨_,hnone⟩ | ⟨l',hl',hk',hsig⟩ := hpassed.message
  · simp [widgetLayers, isAuth] at hnone
  simp only [widgetLayers, List.mem_cons, List.not_mem_nil, or_false] at hl hl'
  rcases hl with rfl | rfl
  · rcases hl' with rfl | rfl
    · cases hk'
    · obtain ⟨i,hi,hentitled,_⟩ := hauth
      obtain ⟨c,now,hc,hauthentic⟩ := hsig
      exact ⟨i,c,now,hi,hentitled,hc,hauthentic⟩
  · cases hk

end Widgets

end Valiss.Stacks
