import Valiss.Credentials
import Valiss.TransportExt

/-!
# HTTP credentials

The client attaches its tokens and a signature bound to method, host, path and
nonce; the server rebuilds the same context bytes, verifies, and enforces the
`http` extension of every token in the chain.
-/

set_option autoImplicit false

namespace Valiss.HttpAuth
open Lib.Unicode Lib.Json Lib.Calendar Lib.Fallible Valiss.Errors Valiss.TokenClaims
open Valiss.RequestSignature Valiss.Verify Valiss.Credentials Valiss.TransportExt

structure HttpExt where
  hosts : List Str := []
  methods : List Str := []
  paths : List Str := []

def HttpExt.authorizes (e : HttpExt) (method host path : Str) : Bool :=
  if e.hosts = [] ∧ e.methods = [] ∧ e.paths = [] then false
  else decide ((e.hosts = [] ∨ host ∈ e.hosts) ∧ (e.methods = [] ∨ method ∈ e.methods) ∧
    (e.paths = [] ∨ covered e.paths path = true))

def contextText (method host path nonce : Str) : Str :=
  lit "http\n" ++ (method ++ 10 :: (host ++ 10 :: (path ++ 10 :: nonce)))

variable [Platform]

def HttpExt.extensionPayload (e : HttpExt) : Dict Json :=
  dimensionMember "hosts" e.hosts ++ (dimensionMember "methods" e.methods ++
    dimensionMember "paths" e.paths)

theorem httpPayload_distinct (e : HttpExt) : distinct (.obj e.extensionPayload : Json) = true := by
  have hk : (e.extensionPayload.map Prod.fst).Sublist [lit "hosts",lit "methods",lit "paths"] := by
    simp only [HttpExt.extensionPayload, List.map_append]
    exact (dimensionMember_keys _ _).append ((dimensionMember_keys _ _).append
      (dimensionMember_keys _ _))
  have hn : [lit "hosts",lit "methods",lit "paths"].Nodup := by decide
  simp only [distinct, Bool.and_eq_true, decide_eq_true_eq]
  exact ⟨hk.nodup hn,by simp only [HttpExt.extensionPayload, distinctMembers_append,
    dimensionMember_distinct, Bool.and_true]⟩

def HttpExt.extension (e : HttpExt) : Extension :=
  ⟨lit "http",e.extensionPayload,httpPayload_distinct e⟩

def decodeExt (payload : Dict Json) : Py HttpExt := do
  let hosts ← dimension payload "hosts"
  let methods ← dimension payload "methods"
  let paths ← dimension payload "paths"
  return ⟨hosts,methods,paths⟩

def httpExt : ExtType HttpExt := ⟨lit "http",decodeExt⟩

def requestContext (method host path nonce : Str) : Py Bytes :=
  encode (contextText method host path nonce)

def authorizeExt (i : Identity) (method host path : Str) (allowMissing : Bool) : Py Unit :=
  authorizeExts httpExt (fun e => e.authorizes method host path)
    (lit "valiss: token carries no http extension")
    (lit "valiss: token does not permit " ++ method ++ 32 :: path) allowMissing (extsOf i)

abbrev Headers := Dict Str

def headerMember (k : String) (s : Str) : Headers := if s = [] then [] else [(lit k,s)]

/-- The headers a client attaches to one request, its clock reading `now`. -/
def credentialHeaders (c : Creds) (method host path nonce : Str) (now : DateTime) :
    Py Headers := do
  let tokens := headerMember "valiss-account-token" c.accountToken ++
    headerMember "valiss-user-token" c.userToken
  let signer ← c.signer
  match signer with
  | none => return tokens
  | some kp => do
    let context ← requestContext method host path nonce
    let (timestamp,signature) ← signRequest kp context now
    return tokens ++ (headerMember "valiss-nonce" nonce ++
      [(lit "valiss-timestamp",timestamp),(lit "valiss-signature",signature)])

inductive Answer where
  | identity (i : Identity)
  | status (code : ℕ) (message : Str)

variable {σ : Type}

/-- `authenticate`, the verifier's clock reading `now`. -/
def authenticate (v : Verifier σ) (now : DateTime)
    (accountToken userToken timestamp signature nonce method host path : Str)
    (allowMissing : Bool) : Act Exc σ Answer :=
  if accountToken = [] ∧ userToken = [] then
    pure (.status 401 (lit "valiss: missing credentials"))
  else do
    let context ← requestContext method host path nonce
    let verified ← (verify v now ⟨accountToken,userToken,timestamp,signature,context,nonce⟩).catching
      Exc.isValiss
    match verified with
    | .error e => pure (.status 401 e.text)
    | .ok i => match authorizeExt i method host path allowMissing with
      | .ok _ => pure (.identity i)
      | .error (.valiss m _) => pure (.status 403 m)
      | .error e => liftM (Except.error e : Py Answer)

/-- An identity is answered exactly when `verify` accepts and every extension permits. -/
theorem authenticate_ok (v : Verifier σ) (now : DateTime)
    (accountToken userToken timestamp signature nonce method host path : Str)
    (allowMissing : Bool) (s u : σ) (i : Identity) :
    (authenticate v now accountToken userToken timestamp signature nonce method host path
      allowMissing).run s = (.ok (.identity i),u) ↔ ¬ (accountToken = [] ∧ userToken = []) ∧
      ∃ context, requestContext method host path nonce = .ok context ∧
        (verify v now ⟨accountToken,userToken,timestamp,signature,context,nonce⟩).run s =
          (.ok i,u) ∧ authorizeExt i method host path allowMissing = .ok () := by
  unfold authenticate
  split_ifs with ht
  · simp [ht]
  · rw [Act.lift_bind_ok]
    constructor
    · intro h
      obtain ⟨context,hc,h⟩ := h
      obtain ⟨verified,t,hv,h⟩ := (Act.bind_ok _ _ _ _ _).1 h
      cases verified with
      | error e => simp at h
      | ok j =>
        dsimp only at h
        have hverify := (Act.catching_ok _ _ _ _ _).1 hv
        split at h
        next hauth =>
          simp only [Act.run_pure, Prod.mk.injEq, Except.ok.injEq, Answer.identity.injEq] at h
          obtain ⟨rfl,rfl⟩ := h
          exact ⟨ht,context,hc,hverify,hauth⟩
        next => simp at h
        next => simp at h
    · intro h
      obtain ⟨_,context,hc,hv,hauth⟩ := h
      refine ⟨context,hc,(Act.bind_ok _ _ _ _ _).2 ⟨.ok i,u,(Act.catching_ok _ _ _ _ _).2 hv,?_⟩⟩
      dsimp only
      rw [hauth]
      rfl

/-- `headers.get(name, "")` -/
def header (h : Headers) (name : String) : Str := (h.lookup (lit name)).getD []

def authenticateHeaders (v : Verifier σ) (now : DateTime) (h : Headers) (method host path : Str)
    (allowMissing : Bool) : Act Exc σ Answer :=
  authenticate v now (header h "valiss-account-token") (header h "valiss-user-token")
    (header h "valiss-timestamp") (header h "valiss-signature") (header h "valiss-nonce")
    method host path allowMissing

end Valiss.HttpAuth
