import Valiss.Lib.Percent
import Valiss.Lib.Url
import Valiss.HttpSig
import Valiss.Recorded

/-!
# The `requests` adapters

A prepared request is bound to the host and path of its URL as the URL spells
them. A server and the `httpx` adapters bind the percent-decoded path, so the two
agree exactly where the path has nothing to decode.
-/

set_option autoImplicit false

namespace Valiss.PreparedRequests
open Lib.Unicode Lib.Json Lib.Calendar Lib.Percent Lib.Url Valiss.Errors Valiss.Nkeys
open Valiss.Message Valiss.Credentials Valiss.HttpAuth Valiss.HttpSig Valiss.Recorded

def defaultPorts : Dict ℕ := [(lit "http",80),(lit "https",443)]

/-- The port of a Host header; `http.client` leaves out the default one. -/
def portSuffix (scheme : Str) : Option ℕ → Str
  | none => []
  | some n => if defaultPorts.lookup scheme = some n then [] else 58::natText n

section Adapters
variable [Platform]
-- whether `ipaddress` reads what stands in brackets
variable (bracketed : Str → Bool)

def hostPath (url hostHeader : Str) : Py (Str × Str) :=
  match urlsplit bracketed url with
  | none => builtin .valueError
  | some parts =>
    let path := if parts.path = [] then [47] else parts.path
    if hostHeader ≠ [] then .ok (hostHeader,path)
    else
      let host := (hostname parts.netloc).getD []
      -- an IPv6 literal keeps its brackets
      let host := if host.contains 58 then 91::(host ++ [93]) else host
      match Lib.Url.port parts.netloc with
      | none => builtin .valueError
      | some port => .ok (host ++ portSuffix parts.scheme port,path)

/-- `RequestsAuth` on a request to `url` with an explicit Host, if any. -/
def requestsAuth (c : Creds) (method url hostHeader nonce : Str) (now : DateTime) :
    Py Headers := do
  let (host,path) ← hostPath bracketed url hostHeader
  credentialHeaders c method host path nonce now

/-- The token `RequestsTransport` mints. -/
def requestsTransport (user : KeyPair) (epoch : ℤ) (chain : Option Chain) (ttl : TimeDelta)
    (url hostHeader : Str) (body : Bytes) (now : DateTime) : Py Str := do
  let (host,path) ← hostPath bracketed url hostHeader
  mintMessage user epoch chain ttl host path body now

end Adapters

/-- What `requests` prepares: an absolute `http` or `https` URL. -/
structure PreparedUrl extends Absolute where
  http : scheme = lit "http" ∨ scheme = lit "https"

namespace PreparedUrl
variable (u : PreparedUrl)

def wireHost (hostHeader : Str) : Str :=
  if hostHeader ≠ [] then hostHeader else u.host.text ++ portSuffix u.scheme u.port

/-- The ASGI scope path, Django's `request.path` and `httpx`'s `request.url.path`. -/
def servedPath : Str := unquote u.path

end PreparedUrl

section Agreement
variable [Platform] (bracketed : Str → Bool)

theorem hostPath_text (u : PreparedUrl) (hostHeader : Str) :
    hostPath bracketed u.text hostHeader =
      if u.host.readable bracketed then .ok (u.wireHost hostHeader,u.path)
      else builtin .valueError := by
  have hpath : u.path ≠ [] := by
    have hr := u.rooted
    rintro h
    rw [h] at hr
    cases hr
  have hhost : (if u.host.inner.contains 58 then 91::(u.host.inner ++ [93]) else u.host.inner) =
      u.host.text := by
    have hf := u.hostFormed
    cases hh : u.host with
    | name s =>
      rw [hh] at hf
      exact if_neg fun h => hf.2.1.free (by decide) (List.contains_iff_mem.1 h)
    | address s =>
      rw [hh] at hf
      exact if_pos (List.contains_iff_mem.2 hf.1)
  rw [hostPath, Absolute.urlsplit_text]
  by_cases hb : u.host.readable bracketed = true
  · rw [if_pos hb, if_pos hb, PreparedUrl.wireHost]
    simp only [if_neg hpath, Absolute.hostname_authority, Absolute.port_authority,
      Option.getD_some, hhost]
    split_ifs <;> rfl
  · rw [if_neg hb, if_neg hb]

/-- A request is bound to the host and path its server is asked for. -/
structure Agrees (u : PreparedUrl) (hostHeader : Str) : Prop where
  path : ∃ host, hostPath bracketed u.text hostHeader = .ok (host,u.servedPath)
  context : ∀ method nonce, (do
      let (host,path) ← hostPath bracketed u.text hostHeader
      requestContext method host path nonce) =
    requestContext method (u.wireHost hostHeader) u.servedPath nonce
  destination : (do
      let (host,path) ← hostPath bracketed u.text hostHeader
      return audience host path) = (.ok (audience (u.wireHost hostHeader) u.servedPath) : Py Str)
  headers : ∀ c method nonce now, requestsAuth bracketed c method u.text hostHeader nonce now =
    credentialHeaders c method (u.wireHost hostHeader) u.servedPath nonce now
  message : ∀ user epoch chain ttl body now,
    requestsTransport bracketed user epoch chain ttl u.text hostHeader body now =
      mintMessage user epoch chain ttl (u.wireHost hostHeader) u.servedPath body now

theorem agrees_path (u : PreparedUrl) (hostHeader : Str) :
    Agrees bracketed u hostHeader ↔
      u.host.readable bracketed = true ∧ u.servedPath = u.path := by
  have ht := hostPath_text bracketed u hostHeader
  constructor
  · intro h
    obtain ⟨host,hp⟩ := h.path
    rw [ht] at hp
    split_ifs at hp with hb
    · exact ⟨hb,((Prod.mk.inj (Except.ok.inj hp)).2).symm⟩
    · cases hp
  · rintro ⟨hb,hp⟩
    rw [if_pos hb, ← hp] at ht
    refine ⟨⟨_,ht⟩,fun method nonce => ?_,?_,fun c method nonce now => ?_,
      fun user epoch chain ttl body now => ?_⟩
    · rw [ht]
      rfl
    · rw [ht]
      rfl
    · rw [requestsAuth, ht]
      rfl
    · rw [requestsTransport, ht]
      rfl

/-- The adapters bind what the server sees exactly when no character of the path is escaped. -/
theorem requests_agree (u : PreparedUrl) (hostHeader : Str) :
    Agrees bracketed u hostHeader ↔ u.host.readable bracketed = true ∧ ¬ Escaped u.path := by
  have hascii : Ascii u.path := fun c hc => by
    have hv := (u.pathPlain c hc).1
    rw [Visible] at hv
    omega
  rw [agrees_path, PreparedUrl.servedPath, unquote_eq u.path hascii]

end Agreement

section Domain
local instance : Platform := domain.ideal

def spacedUrl : PreparedUrl where
  scheme := lit "https"
  userinfo := none
  host := .name (lit "api.example.com")
  port := none
  path := lit "/v1/a%20b"
  query := none
  fragment := none
  schemeText := by decide
  userinfoPlain := by decide
  hostFormed := by decide
  portBound := by decide
  rooted := by decide
  pathPlain := by decide
  queryPlain := by decide
  fragmentPlain := by decide
  http := Or.inr rfl

theorem spaced_disagrees : ¬ Agrees (fun _ => true) spacedUrl [] := by
  rw [agrees_path]
  decide

end Domain

end Valiss.PreparedRequests
