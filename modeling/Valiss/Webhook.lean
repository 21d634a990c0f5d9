import Valiss.Asgi
import Valiss.MessageClients
import Valiss.TwoSends

/-!
# A webhook, end to end

The clients of message tokens against the receiving middlewares, whatever other
calls do to the cache between two sends, as long as the chains found in it decode
and their times compare. A current message is sent at most twice and the
application is called once, under the emitter's claims.
-/

set_option autoImplicit false

namespace Valiss.Webhook
open Lib.Unicode Lib.Json Lib.Calendar Lib.Fallible Lib.Dialogue Valiss.Errors Valiss.Message
open Valiss.Chains Valiss.MsgTransport Valiss.HttpAuth Valiss.HttpSig Valiss.GrpcAuth
open Valiss.GrpcSig Valiss.Asgi Valiss.Exchange Valiss.PreparedRequests Valiss.MessageClients
open Valiss.TwoSends Valiss.Recorded Valiss.Negotiation

theorem header_setHeader (h : Headers) (name other : String) (v : Str) :
    header (setHeader h name v) other = if lit other = lit name then v else header h other := by
  unfold header setHeader
  rw [lookup_put]
  split <;> rfl

def firstHeaders (h : Headers) (tok : Str) : Headers := setHeader h "valiss-message-token" tok

def Unclaimed (h : Headers) : Prop :=
  h.lookup (lit "valiss-chain-account-token") = none ∧
    h.lookup (lit "valiss-chain-user-token") = none

theorem firstHeaders_read (h : Headers) (tok : Str) (hown : Unclaimed h) :
    header (firstHeaders h tok) "valiss-message-token" = tok ∧
      header (firstHeaders h tok) "valiss-chain-account-token" = [] ∧
      header (firstHeaders h tok) "valiss-chain-user-token" = [] := by
  refine ⟨?_,?_,?_⟩
  · rw [firstHeaders, header_setHeader, if_pos rfl]
  · rw [firstHeaders, header_setHeader, if_neg (by decide), header, hown.1]
    rfl
  · rw [firstHeaders, header_setHeader, if_neg (by decide), header, hown.2]
    rfl

section Clients
variable [Platform]

def againHeaders (t : Transport) (h : Headers) (tok : Str) : Headers :=
  t.withChain (firstHeaders h tok)

theorem againHeaders_read (t : Transport) (h : Headers) (tok : Str) :
    header (againHeaders t h tok) "valiss-message-token" = tok ∧
      header (againHeaders t h tok) "valiss-chain-account-token" = t.accountToken ∧
      header (againHeaders t h tok) "valiss-chain-user-token" = t.userToken := by
  unfold againHeaders Transport.withChain firstHeaders
  refine ⟨?_,?_,?_⟩
  · rw [header_setHeader, if_neg (by decide), header_setHeader, if_neg (by decide),
      header_setHeader, if_pos rfl]
  · rw [header_setHeader, if_neg (by decide), header_setHeader, if_pos rfl]
  · rw [header_setHeader, if_pos rfl]

variable {e : Emitter} {negotiate : Bool}

theorem make_kept (ttl : Option TimeDelta) (t : Transport)
    (h : Transport.make e.creds ttl negotiate = .ok t) :
    t = ⟨e.user,e.epoch,e.creds.accountToken,e.creds.userToken,ttl.getD defaultMessageTtl,
      negotiate⟩ := by
  rw [Transport.make, e.minted, ok_bind, pure_ok] at h
  exact h.symm

theorem embedded_kept (ttl : Option TimeDelta) (t : Transport)
    (h : Transport.make e.creds ttl negotiate = .ok t) :
    t.embedded = if negotiate then none else some e.chain := by
  rw [make_kept ttl t h]
  rfl

structure Addressed (t : Transport) (x : Emission e negotiate) (audience : Str) (body : Bytes) :
    Prop where
  audience : x.message.audience = audience
  body : x.message.body = body
  ttl : x.message.ttl = t.ttl

theorem minted_token (ttl : Option TimeDelta) (t : Transport)
    (h : Transport.make e.creds ttl negotiate = .ok t) (x : Emission e negotiate) (audience : Str)
    (body : Bytes) (hx : Addressed t x audience body) :
    issueMessage t.user audience (checksum body) t.embedded
      {ttl := some t.ttl,epoch := t.epoch,now := x.message.now} = .ok x.token := by
  obtain ⟨rfl,rfl,httl⟩ := hx
  rw [embedded_kept ttl t h, ← httl, make_kept ttl t h]
  exact x.minted

def Transport.retries (t : Transport) (a : Response) : Bool := t.negotiate && a.asks

theorem authFlow_minted (t : Transport) (q : HttpRequest) (now : DateTime) :
    t.authFlow q now = (fun tok => onceMore {q with headers := firstHeaders q.headers tok}
      {q with headers := againHeaders t q.headers tok} (Transport.retries t)) <$>
        mintMessage t.user t.epoch t.embedded t.ttl q.host q.path q.content now := by
  rw [Transport.authFlow]
  cases mintMessage t.user t.epoch t.embedded t.ttl q.host q.path q.content now with
  | error e => rfl
  | ok tok =>
    refine congrArg (fun next => Except.ok (Flow.send _ next)) (funext fun a => ?_)
    unfold Transport.retries
    cases t.negotiate <;> rfl

theorem requestsFlow_minted (bracketed : Str → Bool) (t : Transport) (p : PreparedRequest)
    (now : DateTime) (host path : Str) (body : Bytes)
    (hbody : MessageClients.bodyBytes p.body = .ok body)
    (hpath : hostPath bracketed p.url (header p.headers "host") = .ok (host,path)) :
    t.requestsFlow bracketed p now =
      (fun tok => onceMore {p with headers := firstHeaders p.headers tok}
        {p with headers := againHeaders t p.headers tok} fun a =>
          Transport.retries t a && (p.headers.lookup (lit "valiss-chain-user-token")).isNone) <$>
        mintMessage t.user t.epoch t.embedded t.ttl host path body now := by
  have hkept : ∀ tok, (firstHeaders p.headers tok).lookup (lit "valiss-chain-user-token") =
      p.headers.lookup (lit "valiss-chain-user-token") := by
    intro tok
    rw [firstHeaders, setHeader, lookup_put, if_neg (by decide)]
  rw [Transport.requestsFlow, Transport.signPrepared, hbody, ok_bind, hpath, ok_bind]
  dsimp only
  cases mintMessage t.user t.epoch t.embedded t.ttl host path body now with
  | error e => rfl
  | ok tok =>
    have hset : setHeader p.headers "valiss-message-token" tok = firstHeaders p.headers tok := rfl
    refine congrArg (fun next => Except.ok (Flow.send _ next)) (funext fun a => ?_)
    unfold Transport.retries Transport.retransmit
    rw [hset, hkept]
    cases t.negotiate with
    | false => rfl
    | true =>
      cases ha : a.asks <;> cases p.headers.lookup (lit "valiss-chain-user-token") <;>
        simp [againHeaders, ha]

theorem authFlow_sends (ttl : Option TimeDelta) (t : Transport)
    (h : Transport.make e.creds ttl negotiate = .ok t) (q : HttpRequest) (x : Emission e negotiate)
    (hx : Addressed t x (audience q.host q.path) q.content) : t.authFlow q x.message.now =
      .ok (onceMore {q with headers := firstHeaders q.headers x.token}
        {q with headers := againHeaders t q.headers x.token} (Transport.retries t)) := by
  rw [authFlow_minted, mintMessage, minted_token ttl t h x _ _ hx]
  rfl

/-- For the same destination, headers and body the two HTTP clients fail alike, or send
the same headers whatever is answered; unless the client negotiates and the caller has set
the header of a chain's user token, which `requests` takes for a retransmit of its own. -/
theorem clients_agree (bracketed : Str → Bool) (t : Transport) (q : HttpRequest)
    (p : PreparedRequest) (now : DateTime) (hheaders : p.headers = q.headers)
    (hbody : MessageClients.bodyBytes p.body = .ok q.content)
    (hpath : hostPath bracketed p.url (header p.headers "host") = .ok (q.host,q.path)) :
    (∃ e, t.authFlow q now = .error e ∧ t.requestsFlow bracketed p now = .error e) ∨
    ∃ f g, t.authFlow q now = .ok f ∧ t.requestsFlow bracketed p now = .ok g ∧
      ((∀ as, (f.sent as).map HttpRequest.headers = (g.sent as).map PreparedRequest.headers) ↔
        t.negotiate = false ∨ q.headers.lookup (lit "valiss-chain-user-token") = none) := by
  rw [authFlow_minted, requestsFlow_minted bracketed t p now _ _ _ hbody hpath, hheaders]
  cases mintMessage t.user t.epoch t.embedded t.ttl q.host q.path q.content now with
  | error e => exact Or.inl ⟨e,rfl,rfl⟩
  | ok tok =>
    refine Or.inr ⟨_,_,rfl,rfl,?_⟩
    simp only [onceMore_sent]
    constructor
    · intro h
      have hasking := h [⟨401,[(lit "valiss-chain",lit "required")]⟩]
      have hasks : Response.asks ⟨401,[(lit "valiss-chain",lit "required")]⟩ = true := by decide
      by_contra hn
      rw [not_or] at hn
      obtain ⟨hneg,hset⟩ := hn
      simp [Transport.retries, hasks, hneg, hset] at hasking
    · intro h as
      have hsame : ∀ a : Response, (Transport.retries t a &&
          (q.headers.lookup (lit "valiss-chain-user-token")).isNone) = Transport.retries t a := by
        intro a
        rcases h with hneg | hnone
        · rw [Transport.retries, hneg]
          rfl
        · rw [hnone, Option.isNone_none, Bool.and_true]
      simp only [hsame]
      split <;> rfl

end Clients

section Sites
variable [Platform] {σ Q : Type}

/-- What arrives of a request: its path and body, and what its headers say to the
middleware. Other headers may be added on the way. -/
structure Carries (h : Headers) (host path : Str) (body : Bytes) (scope : Scope)
    (events : List Event) : Prop where
  path : scope.path = path
  body : ∃ rest, bufferBody events = some (body,rest)
  host : header (headersOf scope.headers) "host" = host
  token : header (headersOf scope.headers) "valiss-message-token" = header h "valiss-message-token"
  account : header (headersOf scope.headers) "valiss-chain-account-token" =
    header h "valiss-chain-account-token"
  user : header (headersOf scope.headers) "valiss-chain-user-token" =
    header h "valiss-chain-user-token"

/-- What the middleware has of a delivery. -/
def Brings (d : Delivery) (scope : Scope) (events : List Event) : Prop :=
  (∃ rest, bufferBody events = some (d.body,rest)) ∧
    delivery (headersOf scope.headers) scope.path d.body = d

omit [Platform] in
theorem carries_brings (h : Headers) (host path : Str) (body : Bytes) (scope : Scope)
    (events : List Event) (hc : Carries h host path body scope events) (tok account user : Str)
    (hh : header h "valiss-message-token" = tok ∧
      header h "valiss-chain-account-token" = account ∧
      header h "valiss-chain-user-token" = user) :
    Brings ⟨tok,body,audience host path,account,user⟩ scope events := by
  refine ⟨hc.body,?_⟩
  simp only [HttpSig.delivery, hc.path, hc.host, hc.token, hc.account, hc.user, hh]

abbrev HttpCall := End × List (Action MessageClaims)

def httpCall (w : Site σ) (arrive : ℕ → Q → Scope × List Event) (n : ℕ) (q : Q) (s : σ) :
    HttpCall × σ :=
  sigMiddleware w.receiver w.cache (arrive n q).1 (arrive n q).2 (w.first n) (w.second n)
    (w.others n s)

/-- The response of a call: the app's own when it is called, and the server's for
a call that is not answered. -/
def responseOf (respond : MessageClaims → Response) : HttpCall → Response
  | (_,[.app c _]) => respond c
  | (_,[.start status headers,.body _]) => ⟨status,headersOf headers⟩
  | _ => ⟨500,[]⟩

variable {e : Emitter} {negotiate : Bool}

/-- The app was called, once, with the body and claims of the emitter. -/
def Accepted (m : Minted e) (call : HttpCall) : Prop :=
  ∃ c rest, Spoken m c ∧ call =
    (.returned,[.app c (.request (some m.body) (some false) :: rest)])

def Asked (call : HttpCall) : Prop :=
  ∃ headers content, call = (.returned,[.start 401 headers,.body content]) ∧
    (headersOf headers).lookup (lit "valiss-chain") = some (lit "required")

theorem token_ne_nil (hon : HonestSignatures) (x : Emission e negotiate) : x.token ≠ [] := by
  intro h
  obtain ⟨d,hd,_⟩ := first_read hon x
  rw [h] at hd
  cases hd

def callOf (body : Bytes) (rest : List Event) : Outcome → HttpCall
  | .claims c => (.returned,[.app c (.request (some body) (some false) :: rest)])
  | .reject x => reject 401 x.message
    (if x.chainRequired then [(ascii "valiss-chain",ascii "required")] else [])

theorem sigMiddleware_brings (r : Receiver) (cache : Option (ChainCache σ)) (d : Delivery)
    (scope : Scope) (events : List Event) (hd : Brings d scope events) (ht : d.token ≠ [])
    (t₁ t₂ : DateTime) (s u : σ) (out : Outcome)
    (h : (authenticateMessage r cache d t₁ t₂).run s = (.ok out,u)) :
    ∃ rest, sigMiddleware r cache scope events t₁ t₂ s = (callOf d.body rest out,u) := by
  obtain ⟨⟨rest,hb⟩,hdel⟩ := hd
  refine ⟨rest,?_⟩
  have htok : header (headersOf scope.headers) "valiss-message-token" ≠ [] := by
    rw [← hdel] at ht
    exact ht
  unfold sigMiddleware
  dsimp only
  rw [if_neg htok, hb]
  dsimp only
  rw [hdel, h]
  cases out <;> rfl

theorem chainRequired_asks : Asked (reject 401 chainRequired.message
    (if chainRequired.chainRequired then [(ascii "valiss-chain",ascii "required")] else [])) := by
  have hmessage : encode chainRequired.message = .ok (encodePass chainRequired.message) :=
    (encode_ok _ _).2 ⟨by decide,rfl⟩
  rw [Asked, reject, hmessage]
  exact ⟨_,_,rfl,rfl⟩

theorem site_delivers (hon : HonestSignatures) (digest : ∀ b, Platform.sha256 b ≠ [])
    (x : Emission e negotiate) (w : Site σ) (s : σ) (hw : w.Ready x s)
    (arrive : ℕ → Q → Scope × List Event) (first again : Q)
    (hfirst : Brings x.first (arrive 0 first).1 (arrive 0 first).2)
    (hagain : negotiate = true → Brings x.again (arrive 1 again).1 (arrive 1 again).2)
    (t : Transport) (ht : t.negotiate = negotiate) (respond : MessageClaims → Response)
    (quiet : ∀ c, (respond c).asks = false) :
    Delivered x (w.found e s) (Accepted x.message) Asked (responseOf respond)
      ((onceMore first again (Transport.retries t)).run (responseOf respond) (httpCall w arrive) 0
        s).1 := by
  have htok := token_ne_nil hon x
  apply delivers hon digest x w s hw
  · rintro _ ⟨c,rest,_,rfl⟩
    rw [Transport.retries, responseOf, quiet, Bool.and_false]
  · rintro _ ⟨hn,headers,content,rfl,hasked⟩
    simp [Transport.retries, ht, hn, responseOf, Response.asks, hasked]
  · intro out u hrun
    obtain ⟨rest,hcall⟩ := sigMiddleware_brings w.receiver w.cache x.first _ _ hfirst htok _ _ _ _
      out hrun
    rw [httpCall, hcall]
    constructor
    · rintro c rfl hc
      exact ⟨c,rest,hc,rfl⟩
    · rintro rfl
      exact chainRequired_asks
  · intro hn v c u hrun hc
    obtain ⟨rest,hcall⟩ := sigMiddleware_brings w.receiver w.cache x.again _ _ (hagain hn) htok
      _ _ _ _ _ hrun
    rw [httpCall, hcall]
    exact ⟨c,rest,hc,rfl⟩

theorem sends_bring (ttl : Option TimeDelta) (t : Transport)
    (ht : Transport.make e.creds ttl negotiate = .ok t) (x : Emission e negotiate)
    (host path : Str) (body : Bytes) (hx : Addressed t x (audience host path) body) (h : Headers)
    (hown : Unclaimed h) (scope : Scope) (events : List Event) :
    (Carries (firstHeaders h x.token) host path body scope events →
      Brings x.first scope events) ∧
    (Carries (againHeaders t h x.token) host path body scope events →
      Brings x.again scope events) := by
  rw [Emission.first, Emission.again, hx.audience, hx.body]
  have hkept := make_kept ttl t ht
  constructor
  · intro hc
    exact carries_brings _ _ _ _ _ _ hc _ _ _ (firstHeaders_read h x.token hown)
  · intro hc
    have hread := againHeaders_read t h x.token
    rw [hkept] at hread
    rw [hkept] at hc
    exact carries_brings _ _ _ _ _ _ hc _ _ _ hread

/-- What both HTTP clients do at a site, `heads` being the headers of a send. -/
theorem carried_delivers (hon : HonestSignatures) (digest : ∀ b, Platform.sha256 b ≠ [])
    (ttl : Option TimeDelta) (t : Transport) (ht : Transport.make e.creds ttl negotiate = .ok t)
    (x : Emission e negotiate) (h : Headers) (hown : Unclaimed h) (host path : Str) (body : Bytes)
    (hx : Addressed t x (audience host path) body) (heads : Q → Headers) (first again : Q)
    (hfirst : heads first = firstHeaders h x.token)
    (hagain : heads again = againHeaders t h x.token)
    (w : Site σ) (s : σ) (hw : w.Ready x s) (arrive : ℕ → Q → Scope × List Event)
    (hcarry : ∀ p n, (onceMore first again (Transport.retries t)).Sends p →
      Carries (heads p) host path body (arrive n p).1 (arrive n p).2)
    (respond : MessageClaims → Response) (quiet : ∀ c, (respond c).asks = false) :
    Delivered x (w.found e s) (Accepted x.message) Asked (responseOf respond)
      ((onceMore first again (Transport.retries t)).run (responseOf respond) (httpCall w arrive) 0
        s).1 := by
  have hneg : t.negotiate = negotiate := by rw [make_kept ttl t ht]
  apply site_delivers hon digest x w s hw arrive _ _ _ _ t hneg respond quiet
  · have hc := hcarry first 0 ((onceMore_sends _ _ _ _).2 (Or.inl rfl))
    rw [hfirst] at hc
    exact (sends_bring ttl t ht x host path body hx h hown _ _).1 hc
  · intro hn
    have hretries : Transport.retries t ⟨401,[(lit "valiss-chain",lit "required")]⟩ = true := by
      rw [Transport.retries, hneg, hn]
      decide
    have hc := hcarry again 1 ((onceMore_sends _ _ _ _).2 (Or.inr ⟨⟨_,hretries⟩,rfl⟩))
    rw [hagain] at hc
    exact (sends_bring ttl t ht x host path body hx h hown _ _).2 hc

theorem httpx_delivered (hon : HonestSignatures) (digest : ∀ b, Platform.sha256 b ≠ [])
    (e : Emitter) (ttl : Option TimeDelta) (negotiate : Bool) (t : Transport)
    (ht : Transport.make e.creds ttl negotiate = .ok t) (q : HttpRequest)
    (hown : Unclaimed q.headers) (x : Emission e negotiate)
    (hx : Addressed t x (audience q.host q.path) q.content) :
    ∃ flow, t.authFlow q x.message.now = .ok flow ∧
      ∀ (w : Site σ) (s : σ) (arrive : ℕ → HttpRequest → Scope × List Event)
        (respond : MessageClaims → Response), w.Ready x s →
        (∀ p n, flow.Sends p → Carries p.headers q.host q.path q.content (arrive n p).1
          (arrive n p).2) →
        (∀ c, (respond c).asks = false) →
        Delivered x (w.found e s) (Accepted x.message) Asked (responseOf respond)
          (flow.run (responseOf respond) (httpCall w arrive) 0 s).1 := by
  refine ⟨_,authFlow_sends ttl t ht q x hx,?_⟩
  intro w s arrive respond hw hcarry quiet
  exact carried_delivers hon digest ttl t ht x q.headers hown q.host q.path q.content hx
    HttpRequest.headers _ _ rfl rfl w s hw arrive hcarry respond quiet

end Sites

theorem incoming_append (a b : List (Str × Str)) (name : String)
    (h : a.lookup (lit name) = none) : incoming (a ++ b) name = incoming b name := by
  rw [incoming, incoming, List.lookup_append, h, Option.none_or]

section Calls
variable [Platform] {σ M : Type}

/-- What arrives of a call: its method, its message as far as the encoding shows, and
what its metadata says to the interceptor. -/
structure Arrives (serialize : M → Py Bytes) (sent seen : GrpcCall M) : Prop where
  method : seen.method = sent.method
  message : serialize seen.message = serialize sent.message
  token : incoming seen.metadata "valiss-message-token" =
    incoming sent.metadata "valiss-message-token"
  account : incoming seen.metadata "valiss-chain-account-token" =
    incoming sent.metadata "valiss-chain-account-token"
  user : incoming seen.metadata "valiss-chain-user-token" =
    incoming sent.metadata "valiss-chain-user-token"

def grpcCall (w : Site σ) (serialize : M → Py Bytes) (arrive : ℕ → GrpcCall M → GrpcCall M)
    (n : ℕ) (q : GrpcCall M) (s : σ) : CallEnd × σ :=
  GrpcSig.intercept w.receiver w.cache serialize false (arrive n q) (w.first n) (w.second n)
    (w.others n s)

/-- The status of a call: the handler's own when it runs, `UNKNOWN` for an exception. -/
def resultOf (respond : Option MessageClaims → CallResult) : CallEnd → CallResult
  | .handled c => respond (some c)
  | .passed => respond none
  | .aborted code _ trailing => ⟨code,trailing⟩
  | .raised _ => ⟨2,[]⟩

variable {e : Emitter} {negotiate : Bool}

def UnclaimedCall (q : GrpcCall M) : Prop :=
  q.metadata.lookup (lit "valiss-message-token") = none ∧
    q.metadata.lookup (lit "valiss-chain-account-token") = none ∧
    q.metadata.lookup (lit "valiss-chain-user-token") = none

def firstCall (q : GrpcCall M) (tok : Str) : GrpcCall M :=
  withMetadata q [(lit "valiss-message-token",tok)]

def againCall (t : Transport) (q : GrpcCall M) (tok : Str) : GrpcCall M :=
  withMetadata q [(lit "valiss-message-token",tok),
    (lit "valiss-chain-account-token",t.accountToken),(lit "valiss-chain-user-token",t.userToken)]

def Transport.retriesCall (t : Transport) (a : CallResult) : Bool := t.negotiate && a.asks

theorem unaryFlow_sends (serialize : M → Py Bytes) (ttl : Option TimeDelta) (t : Transport)
    (ht : Transport.make e.creds ttl negotiate = .ok t) (q : GrpcCall M) (body : Bytes)
    (hbody : serialize q.message = .ok body) (x : Emission e negotiate)
    (hx : Addressed t x q.method body) : t.unaryFlow serialize q x.message.now =
      .ok (onceMore (firstCall q x.token) (againCall t q x.token) (Transport.retriesCall t)) := by
  have hm := minted_token ttl t ht x _ _ hx
  rw [Transport.unaryFlow, hbody, ok_bind, hm, ok_bind, pure_ok, onceMore]
  congr 1
  funext a
  unfold Transport.retriesCall
  cases t.negotiate <;> rfl

def Shows (serialize : M → Py Bytes) (d : Delivery) (seen : GrpcCall M) : Prop :=
  serialize seen.message = .ok d.body ∧ GrpcSig.delivery seen d.body = d

theorem calls_show (serialize : M → Py Bytes) (ttl : Option TimeDelta) (t : Transport)
    (ht : Transport.make e.creds ttl negotiate = .ok t) (x : Emission e negotiate)
    (q : GrpcCall M) (hown : UnclaimedCall q) (body : Bytes)
    (hbody : serialize q.message = .ok body) (hx : Addressed t x q.method body)
    (seen : GrpcCall M) :
    (Arrives serialize (firstCall q x.token) seen → Shows serialize x.first seen) ∧
    (Arrives serialize (againCall t q x.token) seen → Shows serialize x.again seen) := by
  obtain ⟨htok,hacc,huser⟩ := hown
  rw [Emission.first, Emission.again, hx.audience, hx.body]
  have hkept := make_kept ttl t ht
  constructor
  · intro h
    refine ⟨h.message.trans hbody,?_⟩
    simp only [GrpcSig.delivery, h.token, h.account, h.user, h.method]
    simp only [firstCall, withMetadata, incoming_append _ _ _ htok, incoming_append _ _ _ hacc,
      incoming_append _ _ _ huser]
    rfl
  · intro h
    refine ⟨h.message.trans hbody,?_⟩
    simp only [GrpcSig.delivery, h.token, h.account, h.user, h.method]
    simp only [againCall, withMetadata, incoming_append _ _ _ htok, incoming_append _ _ _ hacc,
      incoming_append _ _ _ huser, hkept]
    rfl

/-- The handler ran, once, under the claims of the emitter. -/
def Handled (m : Minted e) (call : CallEnd) : Prop := ∃ c, Spoken m c ∧ call = .handled c

def AskedCall (call : CallEnd) : Prop :=
  ∃ message trailing, call = .aborted unauthenticated message trailing ∧
    incoming trailing "valiss-chain" = lit "required"

def endOf : Outcome → CallEnd
  | .claims c => .handled c
  | .reject x => .aborted unauthenticated x.message
    (if x.chainRequired then [(lit "valiss-chain",lit "required")] else [])

theorem intercept_shows (r : Receiver) (cache : Option (ChainCache σ)) (serialize : M → Py Bytes)
    (d : Delivery) (seen : GrpcCall M) (hd : Shows serialize d seen) (ht : d.token ≠ [])
    (t₁ t₂ : DateTime) (s u : σ) (out : Outcome)
    (h : (authenticateMessage r cache d t₁ t₂).run s = (.ok out,u)) :
    GrpcSig.intercept r cache serialize false seen t₁ t₂ s = (endOf out,u) := by
  obtain ⟨hbody,hdel⟩ := hd
  have htok : incoming seen.metadata "valiss-message-token" ≠ [] := by
    rw [← hdel] at ht
    exact ht
  unfold GrpcSig.intercept
  rw [if_neg (by decide), if_neg htok, hbody]
  dsimp only
  rw [hdel, h]
  cases out <;> rfl

/-- A gRPC client and the interceptor: the handler runs exactly once, at the latest for
the second call. -/
theorem grpc_delivered (hon : HonestSignatures) (digest : ∀ b, Platform.sha256 b ≠ [])
    (e : Emitter) (ttl : Option TimeDelta) (negotiate : Bool) (t : Transport)
    (ht : Transport.make e.creds ttl negotiate = .ok t) (serialize : M → Py Bytes)
    (q : GrpcCall M) (hown : UnclaimedCall q) (body : Bytes)
    (hbody : serialize q.message = .ok body) (x : Emission e negotiate)
    (hx : Addressed t x q.method body) :
    ∃ flow, t.unaryFlow serialize q x.message.now = .ok flow ∧
      ∀ (w : Site σ) (s : σ) (arrive : ℕ → GrpcCall M → GrpcCall M)
        (respond : Option MessageClaims → CallResult), w.Ready x s →
        (∀ p n, flow.Sends p → Arrives serialize p (arrive n p)) →
        (∀ c, (respond c).asks = false) →
        Delivered x (w.found e s) (Handled x.message) AskedCall (resultOf respond)
          (flow.run (resultOf respond) (grpcCall w serialize arrive) 0 s).1 := by
  have hneg : t.negotiate = negotiate := by rw [make_kept ttl t ht]
  have htok := token_ne_nil hon x
  refine ⟨_,unaryFlow_sends serialize ttl t ht q body hbody x hx,?_⟩
  intro w s arrive respond hw harrive quiet
  have hshow := calls_show serialize ttl t ht x q hown body hbody hx
  have hfirst := (hshow _).1 (harrive _ 0 ((onceMore_sends _ _ _ _).2 (Or.inl rfl)))
  apply delivers hon digest x w s hw
  · rintro _ ⟨c,_,rfl⟩
    rw [Transport.retriesCall, resultOf, quiet, Bool.and_false]
  · rintro _ ⟨hn,message,trailing,rfl,hasked⟩
    simp [Transport.retriesCall, hneg, hn, resultOf, CallResult.asks, CallResult.trailer, hasked]
  · intro out u hrun
    rw [grpcCall, intercept_shows w.receiver w.cache serialize x.first _ hfirst htok _ _ _ _
      out hrun]
    constructor
    · rintro c rfl hc
      exact ⟨c,hc,rfl⟩
    · rintro rfl
      exact ⟨_,_,rfl,rfl⟩
  · intro hn v c u hrun hc
    have hretries : Transport.retriesCall t
        ⟨unauthenticated,[(lit "valiss-chain",lit "required")]⟩ = true := by
      rw [Transport.retriesCall, hneg, hn]
      decide
    have hagain := (hshow _).2 (harrive _ 1
      ((onceMore_sends _ _ _ _).2 (Or.inr ⟨⟨_,hretries⟩,rfl⟩)))
    rw [grpcCall, intercept_shows w.receiver w.cache serialize x.again _ hagain htok _ _ _ _
      _ hrun]
    exact ⟨c,hc,rfl⟩

end Calls

section Widgets
local instance : Platform := lateDomain.honest

def quietSite : Site Lru :=
  ⟨negotiating,some memoryChainCache,fun _ s => s,fun _ => requestedAt,fun _ => requestedAt⟩

theorem widget_transport : Transport.make emitter.creds (some 60000000) true = .ok
    ⟨emitter.user,emitter.epoch,emitter.creds.accountToken,emitter.creds.userToken,60000000,
      true⟩ := by
  rw [Transport.make, emitter.minted]
  rfl

theorem quietSite_ready (x : Emission emitter true) (h : Due x.message negotiating requestedAt) :
    quietSite.Ready x [] :=
  ⟨⟨rfl,h,h,fun _ c hc => (Option.not_mem_none c hc).elim⟩,h⟩

def claimedHeaders : Headers := [(lit "valiss-chain-user-token",lit "mine")]

def claimedPost : HttpRequest :=
  ⟨claimedHeaders,lit "api.example.com",lit "/v1/widgets",Recorded.bodyBytes⟩

def claimedPrepared : PreparedRequest :=
  ⟨lit "https://api.example.com/v1/widgets",claimedHeaders,.bytes Recorded.bodyBytes⟩

theorem clients_agree_claimed :
    ∃ (t : Transport) (f : Flow HttpRequest Response Response)
      (g : Flow PreparedRequest Response Response) (as : List Response),
      t.authFlow claimedPost requestedAt = .ok f ∧
      t.requestsFlow (fun _ => true) claimedPrepared requestedAt = .ok g ∧
      (f.sent as).map HttpRequest.headers ≠ (g.sent as).map PreparedRequest.headers := by
  obtain ⟨x,ha,hb,httl,hnow,_⟩ := widget_emission destination (by decide) (by decide)
  have hflow := authFlow_sends (some 60000000) _ widget_transport claimedPost x ⟨ha,hb,httl⟩
  rw [hnow] at hflow
  rcases clients_agree (fun _ => true) _ claimedPost claimedPrepared requestedAt rfl rfl rfl with
    ⟨e,hf,_⟩ | ⟨f,g,hf,hg,hiff⟩
  · rw [hflow] at hf
    cases hf
  · have hnot := mt hiff.1 (by decide)
    rw [not_forall] at hnot
    obtain ⟨as,hdiffer⟩ := hnot
    exact ⟨_,f,g,as,hf,hg,hdiffer⟩

def widgetCall : GrpcCall Bytes := ⟨lit "/widgets.Widgets/Create",[],Recorded.bodyBytes⟩

theorem grpc_delivered_widgets :
    ∃ (t : Transport) (flow : Flow (GrpcCall Bytes) CallResult CallResult),
      Transport.make bundle (some 60000000) true = .ok t ∧
      t.unaryFlow .ok widgetCall requestedAt = .ok flow ∧
      (flow.run (resultOf fun _ => ⟨0,[]⟩) (grpcCall quietSite .ok fun _ p => p) 0 []).1.1.length
        = 2 := by
  obtain ⟨x,ha,hb,httl,hnow,hdue⟩ := widget_emission (lit "/widgets.Widgets/Create") (by decide)
    (by decide)
  obtain ⟨flow,hflow,hdelivered⟩ := grpc_delivered (honest_signatures _) widget_digests emitter
    (some 60000000) true _ widget_transport .ok widgetCall ⟨rfl,rfl,rfl⟩ Recorded.bodyBytes rfl x
    ⟨ha,hb,httl⟩
  have hdel := hdelivered quietSite [] (fun _ p => p) (fun _ => ⟨0,[]⟩) (quietSite_ready x hdue)
    (fun _ _ _ => ⟨rfl,rfl,rfl,rfl,rfl⟩) (fun _ => by decide)
  exact ⟨_,flow,widget_transport,hnow ▸ hflow,hdel.unknown rfl rfl⟩

end Widgets

end Valiss.Webhook
