import Valiss.BodyReplay
import Valiss.Django
import Valiss.Handlers
import Valiss.HonestClient
import Valiss.Wire

/-!
# Credentials on the wire

The `httpx` hook, the `requests` hook and the gRPC plugin attach the same tokens
and sign each for its own transport. What an honest client attaches is read by the
three servers as it was meant, so its requests reach the app, the view and the
handler under the identity it was issued, unless an instant is out of range.
-/

set_option autoImplicit false

namespace Valiss.CredentialClients
open Lib.Unicode Lib.Assoc Lib.Base64 Lib.Json Lib.Calendar Lib.IsoTime Lib.Fallible Lib.Percent
open Lib.Url Valiss.Errors Valiss.Codec Valiss.Nkeys Valiss.Mint Valiss.TokenRoundTrip
open Valiss.RequestSignature Valiss.Verify Valiss.Replay Valiss.Credentials Valiss.HttpAuth
open Valiss.GrpcAuth Valiss.IssuedTokens Valiss.HonestClient Valiss.Asgi Valiss.PreparedRequests
open Valiss.HttpSig Valiss.Wire Valiss.Handlers Valiss.Recorded

/-- `headers.update(extra)` -/
def updated (h extra : Headers) : Headers := extra.foldl (fun h e => put h e.1 e.2) h

def credentialNames : List Str :=
  [lit "valiss-account-token",lit "valiss-user-token",lit "valiss-nonce",lit "valiss-timestamp",
    lit "valiss-signature"]

def Unclaimed (h : Headers) : Prop := ∀ name ∈ credentialNames, h.lookup name = none

instance (h : Headers) : Decidable (Unclaimed h) :=
  inferInstanceAs (Decidable (∀ name ∈ credentialNames, h.lookup name = none))

def Reads (h headers : Headers) : Prop :=
  ∀ name, lit name ∈ credentialNames → header h name = header headers name

structure Sendable (headers : Headers) : Prop where
  keys : (headers.map Prod.fst).Sublist credentialNames
  narrow : ∀ e ∈ headers, Latin1 e.2

theorem Sendable.nodup {headers : Headers} (hs : Sendable headers) :
    (headers.map Prod.fst).Nodup :=
  have hnames : credentialNames.Nodup := by decide
  hs.keys.nodup hnames

theorem updated_lookup (h extra : Headers) (name : Str) :
    (updated h extra).lookup name = (extra.reverse.lookup name).or (h.lookup name) := by
  unfold updated
  induction extra generalizing h with
  | nil => rfl
  | cons e extra ih =>
    rw [List.foldl_cons, ih, lookup_put, List.reverse_cons, List.lookup_append, Option.or_assoc]
    congr 1
    rw [List.lookup_cons, List.lookup_nil]
    by_cases hn : name = e.1
    · rw [if_pos hn, beq_iff_eq.2 hn]
      rfl
    · rw [if_neg hn, beq_false_of_ne hn]
      rfl

theorem updated_reads (h extra : Headers) (hh : Unclaimed h) (he : Sendable extra) :
    Reads (updated h extra) extra := by
  intro name hn
  rw [header, header, updated_lookup, lookup_reverse he.nodup, hh _ hn, Option.or_none]

theorem updated_other (h extra : Headers) (he : Sendable extra) (name : Str)
    (hn : name ∉ credentialNames) : (updated h extra).lookup name = h.lookup name := by
  have hnone : extra.lookup name = none := by
    rw [List.lookup_eq_none_iff]
    intro e hm
    rw [bne_iff_ne]
    rintro rfl
    exact hn (he.keys.subset (List.mem_map_of_mem hm))
  rw [updated_lookup, lookup_reverse he.nodup, hnone, Option.none_or]

theorem updated_settable (h extra : Headers) (hh : Settable h) (he : Sendable extra) :
    Settable (updated h extra) := by
  obtain ⟨hkeys,hnarrow⟩ := he
  have hnames : ∀ name ∈ extra.map Prod.fst, Latin1 name := by
    intro name hn
    have hall : ∀ name ∈ credentialNames, Ascii name := by decide
    exact ascii_latin1 _ (hall name (hkeys.subset hn))
  clear hkeys
  unfold updated
  induction extra generalizing h with
  | nil => exact hh
  | cons e extra ih =>
    refine ih _ ⟨put_nodup h _ _ hh.distinct,?_⟩ (fun x hx => hnarrow x (List.mem_cons_of_mem _ hx))
      (fun x hx => hnames x (List.mem_cons_of_mem _ hx))
    intro x hx
    rcases mem_put h _ _ x hx with rfl | hx
    · exact ⟨hnames _ List.mem_cons_self,hnarrow e List.mem_cons_self⟩
    · exact hh.narrow x hx

theorem b64encode_ascii (bs : Bytes) : Ascii (b64encode bs) := by
  rw [b64encode, ascii_append]
  constructor
  · intro c hc
    obtain ⟨n,hn,rfl⟩ := rawEncode_symbol bs c hc
    exact (symbol_facts ⟨n,hn⟩).2.2
  · intro c hc
    rw [pads, List.mem_replicate] at hc
    rw [hc.2]
    decide

theorem rfc3339nano_ascii (t : DateTime) (hy : 1000 ≤ t.fields.year) : Ascii (rfc3339nano t) := by
  have hus : t.fields.microsecond < 1000000 := (fields_valid t).2.2.2.2.2.2.2.2
  have hshape : Rfc3339Shape IsDigit (rfc3339nano t) := by
    apply isoSeconds_shape IsDigit (fun _ h => h) _ (fields_valid t) hy (fields_year t).2
    by_cases hz : rstrip 48 (six t.fields.microsecond) = []
    · rw [if_pos hz]
      decide
    · rw [if_neg hz]
      exact rstrip_fraction IsDigit (fun _ h => h) (by decide) _ hus hz
  refine shape_chars IsDigit _ ?_ (by decide) _ hshape
  intro c hc
  rw [IsDigit] at hc
  omega

theorem headerMember_keys (k : String) (s : Str) :
    ((headerMember k s).map Prod.fst).Sublist [lit k] := by
  unfold headerMember
  split_ifs
  · exact List.nil_sublist _
  · exact List.Sublist.refl _

theorem headerMember_latin1 (k : String) (s : Str) (hs : Latin1 s) (e : Str × Str)
    (he : e ∈ headerMember k s) : Latin1 e.2 := by
  unfold headerMember at he
  split_ifs at he
  · cases he
  · rw [List.mem_singleton.1 he]
    exact hs

theorem attached_sendable (account user nonce : Str) (proof : Headers) (ha : Latin1 account)
    (hu : Latin1 user) (hn : Latin1 nonce) (hp : ∀ e ∈ proof, Latin1 e.2)
    (h : (proof.map Prod.fst).Sublist [lit "valiss-timestamp",lit "valiss-signature"]) :
    Sendable (attached account user nonce proof) := by
  constructor
  · simp only [attached, List.map_append]
    exact ((headerMember_keys _ _).append (headerMember_keys _ _)).append
      ((headerMember_keys _ _).append h)
  · intro e he
    simp only [attached, List.mem_append] at he
    rcases he with (he | he) | he | he
    · exact headerMember_latin1 _ _ ha e he
    · exact headerMember_latin1 _ _ hu e he
    · exact headerMember_latin1 _ _ hn e he
    · exact hp e he

section Clients
variable [Platform]

theorem issued_ascii {kp : KeyPair} {o : MintOptions} {l : Level} {tok : Str}
    (h : l.issue kp o = .ok tok) : Ascii tok := by
  obtain ⟨_,_,_,_,_,_,ht⟩ := l.issue_ok kp o tok h
  obtain ⟨_,_,_,_,_,_,rfl⟩ := encodeV1_ok _ _ _ ht
  rw [headerSegment, ascii_append, ascii_cons, ascii_append, ascii_cons]
  exact ⟨b64url_ascii _,by decide,b64url_ascii _,by decide,b64url_ascii _⟩

def attach (c : Creds) (context : Py Bytes) (nonce : Str) (now : DateTime) : Py Headers := do
  let tokens := headerMember "valiss-account-token" c.accountToken ++
    headerMember "valiss-user-token" c.userToken
  let signer ← c.signer
  match signer with
  | none => return tokens
  | some kp => do
    let context ← context
    let (timestamp,signature) ← signRequest kp context now
    return tokens ++ (headerMember "valiss-nonce" nonce ++
      [(lit "valiss-timestamp",timestamp),(lit "valiss-signature",signature)])

theorem credentialHeaders_attach (c : Creds) (method host path nonce : Str) (now : DateTime) :
    credentialHeaders c method host path nonce now =
      attach c (requestContext method host path nonce) nonce now := rfl

/-- A request as the `httpx` hook sees it, its path percent-decoded. -/
structure Outgoing where
  method : Str
  headers : Headers
  urlHost : Str
  path : Str

/-- `headers.get("host", url.host)` -/
def Outgoing.host (q : Outgoing) : Str := (q.headers.lookup (lit "host")).getD q.urlHost

/-- `Auth.auth_flow` -/
def authFlow (c : Creds) (nonce : Str) (now : DateTime) (q : Outgoing) : Py Outgoing := do
  let extra ← credentialHeaders c q.method q.host q.path nonce now
  return {q with headers := updated q.headers extra}

structure Prepared where
  method : Option Str
  url : Str
  headers : Headers

/-- `RequestsAuth.__call__` -/
def signPrepared (bracketed : Str → Bool) (c : Creds) (nonce : Str) (now : DateTime)
    (q : Prepared) : Py Prepared := do
  let extra ← requestsAuth bracketed c (q.method.getD []) q.url (header q.headers "host") nonce now
  return {q with headers := updated q.headers extra}

/-- `_full_method` -/
def fullMethod (serviceUrl methodName : Str) : Str :=
  47::(afterLast 47 serviceUrl ++ 47::methodName)

/-- `_CredentialsPlugin.__call__`: the metadata of one call. -/
def callMetadata (c : Creds) (serviceUrl methodName nonce : Str) (now : DateTime) :
    Py (List (Str × Str)) :=
  attach c (methodContext (fullMethod serviceUrl methodName) nonce) nonce now

def requestOf (h : Headers) (context : Bytes) : Request :=
  ⟨header h "valiss-account-token",header h "valiss-user-token",header h "valiss-timestamp",
    header h "valiss-signature",context,header h "valiss-nonce"⟩

omit [Platform] in
theorem requestOf_reads {h headers : Headers} (hr : Reads h headers) (context : Bytes) :
    requestOf h context = requestOf headers context := by
  have hsame : ∀ name, lit name ∈ credentialNames → header h name = header headers name := hr
  simp (disch := decide) only [requestOf, hsame]

end Clients

section Meetings
variable [Platform] {σ : Type} (m : Meeting σ)

theorem attach_sent (hn : Latin1 m.nonce) (context : Str → Py Bytes)
    (hc : ∀ nonce, Lib.Unicode.Encodable nonce → ∃ b, context nonce = .ok b) : ∃ headers,
    attach m.creds (context m.nonce) m.nonce m.sent = .ok headers ∧ Sendable headers ∧
    ∃ b, context (header headers "valiss-nonce") = .ok b ∧ m.Sent (requestOf headers b) := by
  have haccount : Latin1 m.creds.accountToken := by
    rw [m.holdsAccount]
    exact ascii_latin1 _ (issued_ascii m.account.made)
  have huser : Latin1 m.creds.userToken := by
    rw [m.holdsUser]
    cases m.user with
    | none => exact ascii_latin1 _ ascii_nil
    | some u => exact ascii_latin1 _ (issued_ascii u.made)
  rcases m.holdsSeed with ⟨hseed,hbearer⟩ | ⟨hseed,kp,hkp,hkey⟩
  · obtain ⟨b,hb⟩ := hc [] encodable_nil
    obtain ⟨ha,hu,hnonce,ht,hs⟩ := headers_read m.creds.accountToken m.creds.userToken [] []
      (fun _ _ => rfl)
    refine ⟨attached m.creds.accountToken m.creds.userToken [] [],?_,
      attached_sendable _ _ _ _ haccount huser (ascii_latin1 _ ascii_nil) (by simp)
        (List.nil_sublist _),b,by rw [hnonce]; exact hb,?_⟩
    · rw [attach, Creds.signer, if_pos hseed, attached,
        show headerMember "valiss-nonce" [] ++ [] = ([] : Headers) from rfl, List.append_nil]
      rfl
    · exact ⟨ha.trans m.holdsAccount,hu.trans m.holdsUser,Or.inl ⟨hseed,ht,hs,hbearer⟩⟩
  · obtain ⟨b,hb⟩ := hc m.nonce m.encodable.2.2.2
    obtain ⟨sig,hsig⟩ := fromSeed_signs _ _ hkp (encodePass (signedText (rfc3339nano m.sent) b))
    have hsign := (signRequest_ok kp b m.sent _ _).2 ⟨rfl,sig,hsig,rfl⟩
    have hsigner : m.creds.signer = .ok (some kp) := by
      rw [Creds.signer, if_neg hseed, hkp]
      rfl
    obtain ⟨hempty,hts,hsg⟩ := signedWith_read (rfc3339nano m.sent) (b64encode sig)
    obtain ⟨ha,hu,hnonce,ht,hs⟩ := headers_read m.creds.accountToken m.creds.userToken m.nonce
      (signedWith (rfc3339nano m.sent) (b64encode sig)) hempty
    refine ⟨attached m.creds.accountToken m.creds.userToken m.nonce
      (signedWith (rfc3339nano m.sent) (b64encode sig)),?_,
      attached_sendable _ _ _ _ haccount huser hn ?_ (List.Sublist.refl _),b,
      by rw [hnonce]; exact hb,?_⟩
    · rw [attach, hsigner, ok_bind]
      dsimp only
      rw [hb, ok_bind, hsign, ok_bind]
      rfl
    · simp only [signedWith, List.forall_mem_cons]
      exact ⟨ascii_latin1 _ (rfc3339nano_ascii _ m.year),ascii_latin1 _ (b64encode_ascii sig),
        by simp⟩
    · refine ⟨ha.trans m.holdsAccount,hu.trans m.holdsUser,Or.inr ⟨hseed,hnonce,kp,hkey,?_⟩⟩
      rw [requestOf, ht, hs, hts, hsg]
      exact hsign

theorem verified_made (r : Request) (hs : m.Sent r) (i : Identity) (t : σ)
    (h : (verify m.server m.received r).run m.before = (.ok i,t)) : m.Made i := by
  obtain ⟨e,hc,_⟩ := (verify_ok _ _ _ _ _ _).1 h
  exact ((m.checked_issued r hs i e).1 hc).1

theorem token_sent (r : Request) (hs : m.Sent r) : r.accountToken ≠ [] := by
  rw [hs.account]
  exact issued_ne_nil m.account.made

theorem headers_served (hon : HonestSignatures) (h : Headers) (b : Bytes)
    (hb : requestContext m.method m.host m.path (header h "valiss-nonce") = .ok b)
    (hs : m.Sent (requestOf h b)) :
    (∃ i t, (authenticateHeaders m.server m.received h m.method m.host m.path m.allowMissing).run
      m.before = (.ok (.identity i),t) ∧ m.Recognizes i) ↔ m.Representable := by
  constructor
  · rintro ⟨i,t,hrun,_⟩
    obtain ⟨_,b',hb',hv,_⟩ := (HttpAuth.authenticate_ok _ _ _ _ _ _ _ _ _ _ _ _ _ _).1 hrun
    rw [hb, Except.ok.injEq] at hb'
    subst hb'
    exact (m.verify_issued hon _ hs).1 ⟨i,t,hv,verified_made m _ hs i t hv⟩
  · intro hrep
    obtain ⟨i,t,hv,hm⟩ := (m.verify_issued hon _ hs).2 hrep
    exact ⟨i,t,(HttpAuth.authenticate_ok _ _ _ _ _ _ _ _ _ _ _ _ _ _).2
      ⟨fun ht => token_sent m _ hs ht.1,b,hb,hv,m.permitted _ (m.made_exts i hm) i rfl⟩,
      m.made_recognized i hm⟩

theorem call_served {M : Type} (hon : HonestSignatures) (allowMissing : Bool) (q : Rpc M)
    (he : Lib.Unicode.Encodable
      (GrpcAuth.contextText q.method (incoming q.metadata "valiss-nonce")))
    (hs : m.Sent q.request)
    (hp : ∀ exts, m.exts = .ok exts → ∀ i, TransportExt.extsOf i = exts →
      GrpcAuth.authorizeExt i q.method allowMissing = .ok ()) :
    (∃ i t, authenticateRpc m.server allowMissing q m.received m.before =
      (.ok (.identity i),t) ∧ m.Recognizes i) ↔ m.Representable := by
  constructor
  · rintro ⟨i,t,hrun,_⟩
    obtain ⟨⟨u,hv⟩,_⟩ := authenticateRpc_identity m.server allowMissing q m.received m.before i
      (by rw [hrun]; rfl)
    exact (m.verify_issued hon _ hs).1 ⟨i,u,hv,verified_made m _ hs i u hv⟩
  · intro hrep
    obtain ⟨i,t,hv,hm⟩ := (m.verify_issued hon _ hs).2 hrep
    exact ⟨i,t,authenticateRpc_grants m.server allowMissing q m.received m.before t i
      (fun ht => token_sent m _ hs ht.1) ((encode_ok _ _).2 ⟨he,rfl⟩) hv
      (hp _ (m.made_exts i hm) i rfl),m.made_recognized i hm⟩

theorem unanswered (x : Except Exc Django.HttpResponse × Django.Served σ) (w : Django.Served σ) :
    ¬ ∀ view : Django.View σ, x = view.run w := by
  intro h
  have htwo := (h fun w => (.ok ⟨200,[],[]⟩,w)).symm.trans (h fun w => (.ok ⟨404,[],[]⟩,w))
  have hresponse := congrArg Prod.fst htwo
  cases hresponse

variable [Django.Responses]

/-- Behind both middlewares a request with these headers is served under the client's
identity, if no instant is out of range. -/
structure Served (h : Headers) : Prop where
  asgi : ∀ events, (∃ i t, Asgi.authMiddleware (verify m.server m.received) m.allowMissing
    ⟨onWire h,m.method,m.path⟩ events m.before = ((.returned,[.app i events]),t) ∧
      m.Recognizes i) ↔ m.Representable
  django : ∀ body, (∃ i t, m.Recognizes i ∧ ∀ view,
    (Django.authMiddleware m.server m.received m.allowMissing view).run
      ⟨⟨h,some m.method,m.path,body,none,none⟩,m.before⟩ =
        view.run ⟨⟨h,some m.method,m.path,body,some i,none⟩,t⟩) ↔ m.Representable

theorem served (hon : HonestSignatures) (h : Headers) (hset : Settable h)
    (hhost : header h "host" = m.host) (b : Bytes)
    (hb : requestContext m.method m.host m.path (header h "valiss-nonce") = .ok b)
    (hs : m.Sent (requestOf h b)) : Served m h := by
  have hanswer := headers_served m hon h b hb hs
  constructor
  · intro events
    rw [← hanswer]
    have hscope : authenticateScope (verify m.server m.received) m.allowMissing
        ⟨onWire h,m.method,m.path⟩ =
          authenticateHeaders m.server m.received h m.method m.host m.path m.allowMissing := by
      simp only [authenticateScope, header_onWire h hset, hhost, authenticateHeaders,
        authenticate_with]
    unfold Asgi.authMiddleware
    rw [hscope]
    rcases (authenticateHeaders m.server m.received h m.method m.host m.path m.allowMissing).run
      m.before with ⟨e | (i | ⟨code,message⟩),t⟩
    · simp
    · simp
    · dsimp only
      refine iff_of_false ?_ (by simp)
      rintro ⟨i,t',hcall,_⟩
      have hmem := congrArg (fun p => Action.app i events ∈ p.1.2) hcall
      simp only [List.mem_singleton, eq_iff_iff, iff_true] at hmem
      exact BodyReplay.reject_no_app _ _ _ _ _ hmem
  · intro body
    rw [← hanswer]
    simp only [Django.authMiddleware_run, Option.getD_some, hhost]
    rcases (authenticateHeaders m.server m.received h m.method m.host m.path m.allowMissing).run
      m.before with ⟨e | (i | ⟨code,message⟩),t⟩
    · exact iff_of_false (fun ⟨_,_,_,hall⟩ => unanswered _ _ hall) (by simp)
    · constructor
      · rintro ⟨i',t',hi,hall⟩
        have hstate := congrArg (fun p => p.2.request.identity)
          (hall fun w => (.ok ⟨200,[],[]⟩,w))
        obtain rfl : i = i' := Option.some.inj hstate
        exact ⟨i,t,rfl,hi⟩
      · rintro ⟨i',t',hrun,hi⟩
        simp only [Prod.mk.injEq, Except.ok.injEq, HttpAuth.Answer.identity.injEq] at hrun
        obtain ⟨rfl,rfl⟩ := hrun
        exact ⟨i,t,hi,fun _ => rfl⟩
    · exact iff_of_false (fun ⟨_,_,_,hall⟩ => unanswered _ _ hall) (by simp)

/-- The headers of the request on the wire: the client names the host it sends to. -/
def Outgoing.sent (q : Outgoing) : Headers := put q.headers (lit "host") q.host

def Prepared.sent (u : PreparedUrl) (q : Prepared) : Headers :=
  put q.headers (lit "host") (u.wireHost (header q.headers "host"))

/-- The caller asks for the client's request and leaves the scheme's headers alone. -/
structure Asks (q : Outgoing) : Prop where
  target : q.method = m.method ∧ q.host = m.host ∧ q.path = m.path
  unclaimed : Unclaimed q.headers
  settable : Settable q.headers

structure AsksPrepared (bracketed : Str → Bool) (u : PreparedUrl) (q : Prepared) : Prop where
  url : q.url = u.text
  readable : u.host.readable bracketed = true
  unescaped : ¬ Escaped u.path
  target : q.method.getD [] = m.method ∧ u.wireHost (header q.headers "host") = m.host ∧
    u.servedPath = m.path
  unclaimed : Unclaimed q.headers
  settable : Settable q.headers

/-- The call is to a method of a service under its URL, which the tokens permit. -/
structure Dials {M : Type} (serviceUrl name : Str) (allowMissing : Bool) (q : Rpc M) : Prop where
  dialed : ∃ base service, serviceUrl = base ++ 47::service ∧ 47 ∉ service ∧
    q.method = 47::(service ++ 47::name)
  encodable : Lib.Unicode.Encodable q.method
  permitted : ∀ exts, m.exts = .ok exts → ∀ i, TransportExt.extsOf i = exts →
    GrpcAuth.authorizeExt i q.method allowMissing = .ok ()
  unclaimed : Unclaimed q.metadata

theorem attached_served (hon : HonestSignatures) (hhost : Latin1 m.host) (hn : Latin1 m.nonce)
    (h : Headers) (hown : Unclaimed h) (hset : Settable h) : ∃ extra,
    credentialHeaders m.creds m.method m.host m.path m.nonce m.sent = .ok extra ∧
    (updated h extra).lookup (lit "host") = h.lookup (lit "host") ∧
    Served m (put (updated h extra) (lit "host") m.host) := by
  obtain ⟨extra,hextra,hsend,b,hb,hsent⟩ := attach_sent m hn
    (fun nonce => requestContext m.method m.host m.path nonce) (m.requestContext_made ·)
  have hother : lit "host" ∉ credentialNames := by decide
  have hreads : Reads (put (updated h extra) (lit "host") m.host) extra := by
    intro name hname
    have hne : lit name ≠ lit "host" := fun he => hother (he ▸ hname)
    rw [← updated_reads h extra hown hsend name hname, header, lookup_put, if_neg hne]
    rfl
  refine ⟨extra,(credentialHeaders_attach _ _ _ _ _ _).trans hextra,
    updated_other h extra hsend _ hother,?_⟩
  apply served m hon _ _ _ b
  · rw [hreads "valiss-nonce" (by decide)]
    exact hb
  · rw [requestOf_reads hreads]
    exact hsent
  · exact settable_set _ "host" _ (updated_settable h extra hset hsend)
      (ascii_latin1 _ (by decide)) hhost
  · rw [header, lookup_put, if_pos rfl]
    rfl

theorem httpx_served (hon : HonestSignatures) (hhost : Latin1 m.host) (hn : Latin1 m.nonce)
    (q : Outgoing) (hq : Asks m q) : ∃ signed,
    authFlow m.creds m.nonce m.sent q = .ok signed ∧ Served m signed.sent := by
  obtain ⟨hmethod,hto,hpath⟩ := hq.target
  obtain ⟨extra,hextra,hkept,hserved⟩ :=
    attached_served m hon hhost hn q.headers hq.unclaimed hq.settable
  refine ⟨{q with headers := updated q.headers extra},?_,?_⟩
  · rw [authFlow, hmethod, hto, hpath, hextra]
    rfl
  · rw [Outgoing.sent, Outgoing.host, hkept]
    rw [Outgoing.host] at hto
    rw [hto]
    exact hserved

theorem requests_served (hon : HonestSignatures) (hhost : Latin1 m.host) (hn : Latin1 m.nonce)
    (bracketed : Str → Bool) (u : PreparedUrl) (q : Prepared)
    (hq : AsksPrepared m bracketed u q) : ∃ signed,
    signPrepared bracketed m.creds m.nonce m.sent q = .ok signed ∧ Served m (signed.sent u) := by
  obtain ⟨hmethod,hto,hpath⟩ := hq.target
  obtain ⟨extra,hextra,hkept,hserved⟩ :=
    attached_served m hon hhost hn q.headers hq.unclaimed hq.settable
  have hascii : Ascii u.path := fun c hc => by
    have hv := (u.pathPlain c hc).1
    rw [Visible] at hv
    omega
  have hplain : u.path = m.path := by
    rw [← hpath, PreparedUrl.servedPath, (unquote_eq u.path hascii).2 hq.unescaped]
  refine ⟨{q with headers := updated q.headers extra},?_,?_⟩
  · rw [signPrepared, requestsAuth, hq.url, hostPath_text, if_pos hq.readable, hto, hplain,
      hmethod, ok_bind]
    dsimp only
    rw [hextra]
    rfl
  · rw [Prepared.sent, header, hkept]
    rw [header] at hto
    rw [hto]
    exact hserved

omit [Django.Responses] in
theorem rpc_served {M : Type} (hon : HonestSignatures) (hn : Latin1 m.nonce)
    (serviceUrl name : Str) (allowMissing : Bool) (q : Rpc M)
    (hq : Dials m serviceUrl name allowMissing q) : ∃ metadata,
    callMetadata m.creds serviceUrl name m.nonce m.sent = .ok metadata ∧
    ((∃ i t, authenticateRpc m.server allowMissing {q with metadata := q.metadata ++ metadata}
      m.received m.before = (.ok (.identity i),t) ∧ m.Recognizes i) ↔ m.Representable) := by
  obtain ⟨base,service,rfl,hservice,hmethod⟩ := hq.dialed
  have hfull : fullMethod (base ++ 47::service) name = q.method := by
    rw [fullMethod, afterLast_found 47 base service hservice, hmethod]
  have hcontext : ∀ nonce, Lib.Unicode.Encodable nonce →
      Lib.Unicode.Encodable (GrpcAuth.contextText q.method nonce) := by
    intro nonce hnonce
    simp only [GrpcAuth.contextText, encodable_append, encodable_cons]
    exact ⟨by decide,hq.encodable,by decide,hnonce⟩
  obtain ⟨extra,hextra,hsend,b,hb,hsent⟩ := attach_sent m hn (methodContext q.method)
    fun nonce hnonce => ⟨_,(encode_ok _ _).2 ⟨hcontext nonce hnonce,rfl⟩⟩
  have hreads : Reads (q.metadata ++ extra) extra := by
    intro name hname
    rw [header, header, List.lookup_append, hq.unclaimed _ hname, Option.none_or]
  obtain ⟨henc,rfl⟩ := (encode_ok _ _).1 hb
  refine ⟨extra,?_,call_served m hon allowMissing _ ?_ ?_ hq.permitted⟩
  · rw [callMetadata, hfull]
    exact hextra
  · rw [← hreads "valiss-nonce" (by decide)] at henc
    exact henc
  · rw [← hreads "valiss-nonce" (by decide), ← requestOf_reads hreads] at hsent
    exact hsent

/-- The same credentials on three transports, end to end: whichever client attaches
them, the server behind it grants the identity they were issued for, if and only if
nothing it computes is out of range. -/
theorem credentials_served {M : Type} (hon : HonestSignatures) (hhost : Latin1 m.host)
    (hn : Latin1 m.nonce) :
    (∀ q, Asks m q → ∃ signed, authFlow m.creds m.nonce m.sent q = .ok signed ∧
      Served m signed.sent) ∧
    (∀ bracketed u q, AsksPrepared m bracketed u q → ∃ signed,
      signPrepared bracketed m.creds m.nonce m.sent q = .ok signed ∧ Served m (signed.sent u)) ∧
    ∀ serviceUrl name allowMissing (q : Rpc M), Dials m serviceUrl name allowMissing q →
      ∃ metadata, callMetadata m.creds serviceUrl name m.nonce m.sent = .ok metadata ∧
      ((∃ i t, authenticateRpc m.server allowMissing {q with metadata := q.metadata ++ metadata}
        m.received m.before = (.ok (.identity i),t) ∧ m.Recognizes i) ↔ m.Representable) :=
  ⟨httpx_served m hon hhost hn,requests_served m hon hhost hn,rpc_served m hon hn⟩

end Meetings

section Widgets
local instance : Platform := domain.honest
local instance : Django.Responses := Django.utf8Responses

def widgetOutgoing : Outgoing :=
  ⟨lit "GET",[(lit "accept",lit "*/*")],lit "api.example.com",lit "/v1/widgets"⟩

theorem widgetPath_plain : Plain [63,35] (lit "/v1/widgets") := by decide

def widgetUrl : PreparedUrl :=
  {spacedUrl with path := lit "/v1/widgets",rooted := rfl,pathPlain := widgetPath_plain}

def widgetPrepared : Prepared := ⟨some (lit "GET"),widgetUrl.text,[(lit "accept",lit "*/*")]⟩

def widgetRpc : Rpc Unit where
  method := lit "/widgets.Widgets/List"
  message := ()
  metadata := []
  responseStreaming := true

theorem widgetUrl_served : widgetUrl.servedPath = lit "/v1/widgets" := by decide

variable (a u : Str)
  (ha : issueAccount operatorPair (lit "acme") accountPair.publicKey undated = .ok a)
  (hu : issueUser accountPair (lit "alice") userPair.publicKey false undated = .ok u)

theorem undated_epoch : 0 ≤ undated.epoch ∧ undated.epoch ≤ Decode.uint64Max := by decide

def undatedMeeting : Meeting Seen :=
  widgetMeeting undated a u ha hu undated_epoch rfl undated_inside

theorem undated_representable : (undatedMeeting a u ha hu).Representable := by
  refine ⟨undated_readable,?_,?_,fun _ _ => expiry_recorded⟩
  · intro v hv
    rw [alice_user _ _ _ _ _ _ v hv]
    exact undated_readable
  · refine (Meeting.tested_each _).2 ⟨fun c hc => (Option.not_mem_none c hc).elim,undated_tested,?_⟩
    intro v hv
    rw [alice_user _ _ _ _ _ _ v hv]
    exact undated_tested

theorem accept_settable : Settable [(lit "accept",lit "*/*")] := by
  refine ⟨by decide,?_⟩
  simp only [List.forall_mem_cons]
  exact ⟨⟨ascii_latin1 _ (by decide),ascii_latin1 _ (by decide)⟩,by simp⟩

theorem outgoing_asks : Asks (undatedMeeting a u ha hu) widgetOutgoing :=
  ⟨⟨rfl,rfl,rfl⟩,by decide,accept_settable⟩

theorem prepared_asks :
    AsksPrepared (undatedMeeting a u ha hu) (fun _ => true) widgetUrl widgetPrepared :=
  ⟨rfl,rfl,(unquote_eq _ (by decide)).1 (by decide),⟨rfl,rfl,widgetUrl_served⟩,by decide,
    accept_settable⟩

theorem rpc_dials : Dials (undatedMeeting a u ha hu) (lit "https://api.example.com/widgets.Widgets")
    (lit "List") true widgetRpc := by
  refine ⟨⟨lit "https://api.example.com",lit "widgets.Widgets",by decide,by decide,by decide⟩,
    by decide,?_,by decide⟩
  intro exts hexts i hi
  have hnone : (undatedMeeting a u ha hu).exts = .ok [[],[]] := rfl
  rw [hnone, Except.ok.injEq] at hexts
  rw [GrpcAuth.authorizeExt, hi, ← hexts]
  rfl

theorem credentials_served_widgets : ∃ a u ha hu,
    (∃ signed i t, authFlow (undatedMeeting a u ha hu).creds (lit "n-1") requestedAt
      widgetOutgoing = .ok signed ∧ i.account.name = lit "acme" ∧
      Asgi.authMiddleware (verify widgetServer requestedAt) true
        ⟨onWire signed.sent,lit "GET",lit "/v1/widgets"⟩ [] [] = ((.returned,[.app i []]),t)) ∧
    (∃ signed i t, signPrepared (fun _ => true) (undatedMeeting a u ha hu).creds (lit "n-1")
      requestedAt widgetPrepared = .ok signed ∧ i.account.name = lit "acme" ∧
      ∀ view, (Django.authMiddleware widgetServer requestedAt true view).run
        ⟨⟨signed.sent widgetUrl,some (lit "GET"),lit "/v1/widgets",.ok [],none,none⟩,[]⟩ = view.run
          ⟨⟨signed.sent widgetUrl,some (lit "GET"),lit "/v1/widgets",.ok [],some i,none⟩,t⟩) ∧
    ∃ metadata i t, callMetadata (undatedMeeting a u ha hu).creds
      (lit "https://api.example.com/widgets.Widgets") (lit "List") (lit "n-1") requestedAt =
        .ok metadata ∧ i.account.name = lit "acme" ∧
      authenticateRpc widgetServer true {widgetRpc with metadata := metadata} requestedAt [] =
        (.ok (.identity i),t) := by
  obtain ⟨a,ha⟩ := acme_issued undated rfl rfl (by decide)
  obtain ⟨u,hu⟩ := alice_issued
  have hhost : Ascii (lit "api.example.com") := by decide
  have hnonce : Ascii (lit "n-1") := by decide
  obtain ⟨hhttpx,hrequests,hgrpc⟩ := credentials_served (M := Unit) (undatedMeeting a u ha hu)
    (honest_signatures domain) (ascii_latin1 _ hhost) (ascii_latin1 _ hnonce)
  have hrep := undated_representable a u ha hu
  refine ⟨a,u,ha,hu,?_,?_,?_⟩
  · obtain ⟨signed,hsigned,hserved⟩ := hhttpx _ (outgoing_asks a u ha hu)
    obtain ⟨i,t,hcall,hi⟩ := (hserved.asgi []).2 hrep
    exact ⟨signed,i,t,hsigned,(Prod.mk.inj hi.1).1,hcall⟩
  · obtain ⟨signed,hsigned,hserved⟩ := hrequests _ _ _ (prepared_asks a u ha hu)
    obtain ⟨i,t,hi,hview⟩ := (hserved.django (.ok [])).2 hrep
    exact ⟨signed,i,t,hsigned,(Prod.mk.inj hi.1).1,hview⟩
  · obtain ⟨metadata,hmade,hcall⟩ := hgrpc _ _ _ _ (rpc_dials a u ha hu)
    obtain ⟨i,t,hrun,hi⟩ := hcall.2 hrep
    exact ⟨metadata,i,t,hmade,(Prod.mk.inj hi.1).1,hrun⟩

end Widgets

end Valiss.CredentialClients
