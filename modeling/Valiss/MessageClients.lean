import Valiss.Lib.Dialogue
import Valiss.GrpcSig
import Valiss.PreparedRequests

/-!
# The sending side of message tokens

The `httpx` hook, the `requests` hook and the gRPC interceptor mint one token for
a request and, when they negotiate, send the request once more with the chain
detached if the answer asks for it.
-/

set_option autoImplicit false

namespace Valiss.MessageClients
open Lib.Unicode Lib.Json Lib.Calendar Lib.Dialogue Valiss.Errors Valiss.Nkeys Valiss.Message
open Valiss.Credentials Valiss.MsgTransport Valiss.HttpAuth Valiss.HttpSig Valiss.GrpcAuth
open Valiss.GrpcSig Valiss.PreparedRequests

def defaultMessageTtl : TimeDelta := 30000000

section Clients
variable [Platform]

structure Transport where
  user : KeyPair
  epoch : ℤ
  accountToken : Str
  userToken : Str
  ttl : TimeDelta
  negotiate : Bool

/-- `__init__` -/
def Transport.make (c : Creds) (ttl : Option TimeDelta) (negotiate : Bool) : Py Transport := do
  let (user,epoch) ← minter c
  return ⟨user,epoch,c.accountToken,c.userToken,ttl.getD defaultMessageTtl,negotiate⟩

def Transport.embedded (t : Transport) : Option Chain :=
  if t.negotiate then none else some (t.accountToken,t.userToken)

/-- A request as an `httpx` hook sees it, its path percent-decoded. -/
structure HttpRequest where
  headers : Headers
  urlHost : Str
  path : Str
  content : Bytes

structure Response where
  status : ℕ
  headers : Headers

def Response.asks (a : Response) : Bool :=
  decide (a.status = 401 ∧ a.headers.lookup (lit "valiss-chain") = some (lit "required"))

def setHeader (h : Headers) (name : String) (value : Str) : Headers := put h (lit name) value

def Transport.withChain (t : Transport) (h : Headers) : Headers :=
  setHeader (setHeader h "valiss-chain-account-token" t.accountToken)
    "valiss-chain-user-token" t.userToken

/-- `headers.get("host") or url.host` -/
def HttpRequest.host (q : HttpRequest) : Str :=
  if header q.headers "host" = [] then q.urlHost else header q.headers "host"

/-- `Transport.auth_flow` -/
def Transport.authFlow (t : Transport) (q : HttpRequest) (now : DateTime) :
    Py (Flow HttpRequest Response Response) := do
  let tok ← mintMessage t.user t.epoch t.embedded t.ttl q.host q.path q.content now
  let signed := {q with headers := setHeader q.headers "valiss-message-token" tok}
  return .send signed fun a =>
    if t.negotiate = false then .done a
    else if a.asks then .send {signed with headers := t.withChain signed.headers} .done
    else .done a

inductive PreparedBody where
  | none
  | bytes (b : Bytes)
  | text (s : Str)
  | stream

def bodyBytes : PreparedBody → Py Bytes
  | .none => .ok []
  | .bytes b => .ok b
  | .text s => encode s
  | .stream => .error (err (lit
      "valiss: message token requires a buffered request body; pass bytes, not a stream"))

structure PreparedRequest where
  url : Str
  headers : Headers
  body : PreparedBody

/-- `RequestsTransport.__call__` without the hook it registers. -/
def Transport.signPrepared (bracketed : Str → Bool) (t : Transport) (q : PreparedRequest)
    (now : DateTime) : Py PreparedRequest := do
  let body ← bodyBytes q.body
  let (host,path) ← hostPath bracketed q.url (header q.headers "host")
  let tok ← mintMessage t.user t.epoch t.embedded t.ttl host path body now
  return {q with headers := setHeader q.headers "valiss-message-token" tok}

/-- `_retransmit_with_chain`: the request that is sent again, if any. -/
def Transport.retransmit (t : Transport) (a : Response) (q : PreparedRequest) :
    Option PreparedRequest :=
  if a.asks = false ∨ (q.headers.lookup (lit "valiss-chain-user-token")).isSome then none
  else some {q with headers := t.withChain q.headers}

/-- One request of a session: the hook sees its answer, not the one to the retry. -/
def Transport.requestsFlow (bracketed : Str → Bool) (t : Transport) (q : PreparedRequest)
    (now : DateTime) : Py (Flow PreparedRequest Response Response) := do
  let signed ← t.signPrepared bracketed q now
  return .send signed fun a =>
    if t.negotiate = false then .done a
    else match t.retransmit a signed with
      | some retry => .send retry .done
      | none => .done a

structure CallResult where
  code : ℕ
  trailing : List (Str × Str)

/-- `_trailer` -/
def CallResult.trailer (a : CallResult) (key : String) : Str := incoming a.trailing key

def CallResult.asks (a : CallResult) : Bool :=
  decide (a.code = unauthenticated ∧ a.trailer "valiss-chain" = lit "required")

/-- `_with_metadata` -/
def withMetadata {M : Type} (call : GrpcCall M) (extra : List (Str × Str)) : GrpcCall M :=
  {call with metadata := call.metadata ++ extra}

/-- `_ClientInterceptor.intercept_unary_unary` -/
def Transport.unaryFlow {M : Type} (serialize : M → Py Bytes) (t : Transport) (call : GrpcCall M)
    (now : DateTime) : Py (Flow (GrpcCall M) CallResult CallResult) := do
  let body ← serialize call.message
  let tok ← issueMessage t.user call.method (checksum body) t.embedded
    {ttl := some t.ttl,epoch := t.epoch,now := now}
  return .send (withMetadata call [(lit "valiss-message-token",tok)]) fun a =>
    if t.negotiate = false then .done a
    else if a.asks then .send (withMetadata call [(lit "valiss-message-token",tok),
      (lit "valiss-chain-account-token",t.accountToken),
      (lit "valiss-chain-user-token",t.userToken)]) .done
    else .done a

end Clients

end Valiss.MessageClients
