import Valiss.HttpAuth

/-!
# gRPC credentials

The signature is bound to the full method and the nonce. The interceptor aborts
the call on any failure, before the handler runs.
-/

set_option autoImplicit false

namespace Valiss.GrpcAuth
open Lib.Unicode Lib.Json Lib.Calendar Lib.Fallible Valiss.Errors Valiss.TokenClaims Valiss.Verify
open Valiss.TransportExt

structure GrpcExt where
  methods : List Str := []

def GrpcExt.authorizes (e : GrpcExt) (fullMethod : Str) : Bool := covered e.methods fullMethod

def contextText (fullMethod nonce : Str) : Str := lit "grpc\n" ++ (fullMethod ++ 10 :: nonce)

variable [Platform]

def GrpcExt.extensionPayload (e : GrpcExt) : Dict Json := dimensionMember "methods" e.methods

theorem grpcPayload_distinct (e : GrpcExt) : distinct (.obj e.extensionPayload : Json) = true := by
  have hk := (dimensionMember_keys "methods" e.methods).nodup (List.nodup_singleton _)
  simp only [distinct, Bool.and_eq_true, decide_eq_true_eq]
  exact ⟨hk,dimensionMember_distinct _ _⟩

def GrpcExt.extension (e : GrpcExt) : Extension :=
  ⟨lit "grpc",e.extensionPayload,grpcPayload_distinct e⟩

def decodeExt (payload : Dict Json) : Py GrpcExt := do
  let methods ← dimension payload "methods"
  return ⟨methods⟩

def grpcExt : ExtType GrpcExt := ⟨lit "grpc",decodeExt⟩

def methodContext (fullMethod nonce : Str) : Py Bytes := encode (contextText fullMethod nonce)

def authorizeExt (i : Identity) (fullMethod : Str) (allowMissing : Bool) : Py Unit :=
  authorizeExts grpcExt (fun e => e.authorizes fullMethod)
    (lit "valiss: token carries no grpc extension")
    (lit "valiss: token does not permit " ++ fullMethod) allowMissing (extsOf i)

inductive StatusCode where
  | unauthenticated
  | permissionDenied
  deriving DecidableEq

inductive Answer where
  | identity (i : Identity)
  | abort (code : StatusCode) (message : Str)

def incoming (metadata : List (Str × Str)) (name : String) : Str :=
  (metadata.lookup (lit name)).getD []

def callRequest (metadata : List (Str × Str)) (fullMethod : Str) : Request where
  accountToken := incoming metadata "valiss-account-token"
  userToken := incoming metadata "valiss-user-token"
  timestamp := incoming metadata "valiss-timestamp"
  signature := incoming metadata "valiss-signature"
  context := encodePass (contextText fullMethod (incoming metadata "valiss-nonce"))
  nonce := incoming metadata "valiss-nonce"

variable {σ : Type}

/-- `Authenticator._authenticate` -/
def authenticate (v : Verifier σ) (now : DateTime) (metadata : List (Str × Str))
    (fullMethod : Str) (allowMissing : Bool) : Act Exc σ Answer :=
  let accountToken := incoming metadata "valiss-account-token"
  let userToken := incoming metadata "valiss-user-token"
  let nonce := incoming metadata "valiss-nonce"
  if accountToken = [] ∧ userToken = [] then
    pure (.abort .unauthenticated (lit "valiss: missing credentials"))
  else do
    let context ← methodContext fullMethod nonce
    let verified ← (verify v now ⟨accountToken,userToken,incoming metadata "valiss-timestamp",
      incoming metadata "valiss-signature",context,nonce⟩).catching Exc.isValiss
    match verified with
    | .error e => pure (.abort .unauthenticated e.text)
    | .ok i => match authorizeExt i fullMethod allowMissing with
      | .ok _ => pure (.identity i)
      | .error (.valiss m _) => pure (.abort .permissionDenied m)
      | .error e => liftM (Except.error e : Py Answer)

theorem authenticate_ok (v : Verifier σ) (now : DateTime) (metadata : List (Str × Str))
    (fullMethod : Str) (allowMissing : Bool) (s u : σ) (i : Identity)
    (h : (authenticate v now metadata fullMethod allowMissing).run s = (.ok (.identity i),u)) :
    ∃ context, methodContext fullMethod (incoming metadata "valiss-nonce") = .ok context ∧
      (verify v now ⟨incoming metadata "valiss-account-token",
        incoming metadata "valiss-user-token",incoming metadata "valiss-timestamp",
        incoming metadata "valiss-signature",context,incoming metadata "valiss-nonce"⟩).run s =
          (.ok i,u) ∧ authorizeExt i fullMethod allowMissing = .ok () := by
  unfold authenticate at h
  dsimp only at h
  split_ifs at h with ht
  · simp at h
  · obtain ⟨context,hc,h⟩ := (Act.lift_bind_ok _ _ _ _ _).1 h
    obtain ⟨verified,t,hv,h⟩ := (Act.bind_ok _ _ _ _ _).1 h
    cases verified with
    | error e => simp at h
    | ok j =>
      dsimp only at h
      have hverify := (Act.catching_ok _ _ _ _ _).1 hv
      split at h
      next hauth =>
        simp only [Act.run_pure, Prod.mk.injEq, Except.ok.injEq, Answer.identity.injEq] at h
        obtain ⟨rfl,rfl⟩ := h
        exact ⟨context,hc,hverify,hauth⟩
      next => simp at h
      next => simp at h

end Valiss.GrpcAuth
