import Valiss.GrpcAuth
import Valiss.MsgTransport

/-!
# Message tokens over gRPC

The server interceptor. A call whose request is one message is verified for its
method and the deterministic encoding of that message before its handler runs;
a call whose request is a stream is passed on unverified.
-/

set_option autoImplicit false

namespace Valiss.GrpcSig
open Lib.Unicode Lib.Calendar Lib.Fallible Valiss.Errors Valiss.Message Valiss.Chains
open Valiss.MsgTransport Valiss.GrpcAuth

def unauthenticated : ℕ := 16

structure GrpcCall (M : Type) where
  method : Str
  metadata : List (Str × Str)
  message : M

variable [Platform] {M : Type}

/-- How a call ends in the interceptor: the handler runs under verified claims,
or behind nothing, or the call is aborted, or an exception escapes. -/
inductive CallEnd where
  | handled (c : MessageClaims)
  | passed
  | aborted (code : ℕ) (message : Str) (trailing : List (Str × Str))
  | raised (e : Exc)

def delivery (call : GrpcCall M) (body : Bytes) : Delivery :=
  ⟨incoming call.metadata "valiss-message-token",body,call.method,
    incoming call.metadata "valiss-chain-account-token",
    incoming call.metadata "valiss-chain-user-token"⟩

variable {σ : Type}

/-- `_ServerInterceptor`, `serialize` being the deterministic encoding of a message. -/
def intercept (r : Receiver) (cache : Option (ChainCache σ)) (serialize : M → Py Bytes)
    (requestStreaming : Bool) (call : GrpcCall M) (t₁ t₂ : DateTime) (s : σ) : CallEnd × σ :=
  if requestStreaming then (.passed,s)
  else if incoming call.metadata "valiss-message-token" = [] then
    (.aborted unauthenticated (lit "valiss: missing message token") [],s)
  else match serialize call.message with
    | .error e => (.aborted unauthenticated e.text [],s)
    | .ok body => match (authenticateMessage r cache (delivery call body) t₁ t₂).run s with
      | (.error e,t) => (.raised e,t)
      | (.ok (.reject x),t) => (.aborted unauthenticated x.message
          (if x.chainRequired then [(lit "valiss-chain",lit "required")] else []),t)
      | (.ok (.claims c),t) => (.handled c,t)

end Valiss.GrpcSig
