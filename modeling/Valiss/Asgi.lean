import Valiss.ExtensionShape
import Valiss.HttpSig

/-!
# The ASGI middlewares

A call ends by returning, by an exception of its own, or waiting for an event
that never comes, and leaves a trace of what the server and the app saw of it.
A rejection has to encode its text before anything is sent, so an unprintable
text leaves the request unanswered.
-/

set_option autoImplicit false

namespace Valiss.Asgi
open Lib.Unicode Lib.Json Lib.Calendar Lib.Fallible Valiss.Errors Valiss.TokenClaims Valiss.Decode
open Valiss.Replay Valiss.Verify Valiss.Message Valiss.Chains Valiss.HttpAuth Valiss.MsgTransport
open Valiss.HttpSig Valiss.Codec Valiss.ExtensionShape Valiss.Recorded

/-- An event of `receive`; members an event leaves out have defaults. -/
inductive Event where
  | request (body : Option Bytes) (moreBody : Option Bool)
  | disconnect
  | other

def Event.last : Event → Bool
  | .request _ more => !more.getD false
  | .disconnect => true
  | .other => false

/-- What others see of a call: the app called with a result and what is left to
receive, or an event sent. -/
inductive Action (β : Type) where
  | app (result : β) (events : List Event)
  | start (status : ℕ) (headers : List (Bytes × Bytes))
  | body (content : Bytes)

inductive End where
  | returned
  | raised (e : Exc)
  | waiting

structure Scope where
  headers : List (Bytes × Bytes)
  method : Str
  path : Str

/-- `_buffer_body`: the body, and the events behind it. -/
def bufferBody : List Event → Option (Bytes × List Event)
  | [] => none
  | .request body more :: events =>
    if more.getD false then (bufferBody events).map fun p => (body.getD [] ++ p.1,p.2)
    else some (body.getD [],events)
  | .disconnect :: events => some ([],events)
  | .other :: events => bufferBody events

theorem bufferBody_ends (events : List Event) (h : ∃ e ∈ events, e.last = true) :
    ∃ body rest, bufferBody events = some (body,rest) := by
  induction events with
  | nil => simp at h
  | cons e events ih =>
    cases e with
    | request body more =>
      by_cases hm : more.getD false = true
      · have hrest : ∃ e ∈ events, e.last = true := by
          simpa [Event.last, hm] using h
        obtain ⟨b,rest,hb⟩ := ih hrest
        exact ⟨body.getD [] ++ b,rest,by simp [bufferBody, hm, hb]⟩
      · exact ⟨body.getD [],events,by simp [bufferBody, hm]⟩
    | disconnect => exact ⟨[],events,rfl⟩
    | other =>
      have hrest : ∃ e ∈ events, e.last = true := by
        simpa [Event.last] using h
      exact ih hrest

section Calls
variable [Platform] {σ : Type}

def ascii (s : String) : Bytes := encodePass (lit s)

/-- `_reject` -/
def reject {β : Type} (status : ℕ) (message : Str) (extra : List (Bytes × Bytes)) :
    End × List (Action β) :=
  match encode message with
  | .error e => (.raised e,[])
  | .ok payload => (.returned,[.start status ((ascii "content-type",ascii
      "text/plain; charset=utf-8") :: (ascii "content-length",encodePass (natText payload.length)) ::
        extra),.body payload])

def authenticateWith (verify : Request → Act Exc σ Identity)
    (accountToken userToken timestamp signature nonce method host path : Str)
    (allowMissing : Bool) : Act Exc σ Answer :=
  if accountToken = [] ∧ userToken = [] then
    pure (.status 401 (lit "valiss: missing credentials"))
  else do
    let context ← requestContext method host path nonce
    let verified ← (verify ⟨accountToken,userToken,timestamp,signature,context,nonce⟩).catching
      Exc.isValiss
    match verified with
    | .error e => pure (.status 401 e.text)
    | .ok i => match authorizeExt i method host path allowMissing with
      | .ok _ => pure (.identity i)
      | .error (.valiss m _) => pure (.status 403 m)
      | .error e => liftM (Except.error e : Py Answer)

theorem authenticate_with (v : Verifier σ) (now : DateTime) :
    HttpAuth.authenticate v now = authenticateWith (verify v now) := rfl

def authenticateScope (verify : Request → Act Exc σ Identity) (allowMissing : Bool)
    (scope : Scope) : Act Exc σ Answer :=
  let h := headersOf scope.headers
  authenticateWith verify (header h "valiss-account-token") (header h "valiss-user-token")
    (header h "valiss-timestamp") (header h "valiss-signature") (header h "valiss-nonce")
    scope.method (header h "host") scope.path allowMissing

/-- `valiss.httpauth.asgi.Middleware.__call__` on an HTTP scope. -/
def authMiddleware (verify : Request → Act Exc σ Identity) (allowMissing : Bool) (scope : Scope)
    (events : List Event) (s : σ) : (End × List (Action Identity)) × σ :=
  match (authenticateScope verify allowMissing scope).run s with
  | (.error e,t) => ((.raised e,[]),t)
  | (.ok (.status code message),t) => (reject code message [],t)
  | (.ok (.identity i),t) => ((.returned,[.app i events]),t)

/-- `valiss.httpsig.asgi.Middleware.__call__` on an HTTP scope. -/
def sigMiddleware (r : Receiver) (cache : Option (ChainCache σ)) (scope : Scope)
    (events : List Event) (t₁ t₂ : DateTime) (s : σ) : (End × List (Action MessageClaims)) × σ :=
  let h := headersOf scope.headers
  if header h "valiss-message-token" = [] then
    (reject 401 (lit "valiss: missing message token") [],s)
  else match bufferBody events with
    | none => ((.waiting,[]),s)
    | some (body,rest) =>
      match (authenticateMessage r cache (delivery h scope.path body) t₁ t₂).run s with
      | (.error e,t) => ((.raised e,[]),t)
      | (.ok (.reject x),t) => (reject 401 x.message
          (if x.chainRequired then [(ascii "valiss-chain",ascii "required")] else []),t)
      | (.ok (.claims c),t) =>
        ((.returned,[.app c (.request (some body) (some false) :: rest)]),t)

/-- The app was called once with a granted result and nothing was sent, or one
whole response was sent and the app was not called. -/
def OneAnswer {β : Type} (granted : β → Prop) (refused : ℕ → Prop)
    (call : End × List (Action β)) : Prop :=
  call.1 = .returned ∧ ((∃ result events, granted result ∧ call.2 = [.app result events]) ∨
    ∃ status headers content, refused status ∧ call.2 = [.start status headers,.body content])

theorem reject_answers {β : Type} (granted : β → Prop) (refused : ℕ → Prop) (status : ℕ)
    (message : Str) (extra : List (Bytes × Bytes)) (hs : refused status) :
    OneAnswer granted refused (reject status message extra) ↔ Encodable message := by
  unfold reject
  by_cases he : Encodable message
  · rw [(encode_ok message _).2 ⟨he,rfl⟩]
    exact iff_of_true ⟨rfl,Or.inr ⟨status,_,_,hs,rfl⟩⟩ he
  · cases hc : encode message with
    | ok b => exact absurd ((encode_ok _ _).1 hc).1 he
    | error e =>
      refine iff_of_false ?_ he
      rintro ⟨h,_⟩
      cases h

omit [Platform] in
theorem raised_silent {β : Type} (granted : β → Prop) (refused : ℕ → Prop) (e : Exc)
    (done : List (Action β)) : ¬ OneAnswer granted refused (.raised e,done) := by
  rintro ⟨h,_⟩
  cases h

def PlainTexts : Prop :=
  Encodable (Platform.repr (lit "http")) ∧ ∀ kind, Encodable (Platform.builtinText kind)

theorem extOf_text (plain : PlainTexts) (ext : Dict Json) :
    Raises (fun e => Encodable e.text) (extOf httpExt ext) := by
  intro e h
  unfold extOf at h
  split at h
  next => cases h
  next => cases h
  next payload _ =>
    split at h
    next => cases h
    next e' he =>
      obtain ⟨kind,hk,rfl⟩ := http_error payload e' he
      obtain rfl := Except.error.inj h
      simp only [decodeFailed, hk, if_true, errFor, Exc.text, encodable_append]
      exact ⟨⟨⟨by decide,plain.1⟩,by decide⟩,plain.2 kind⟩
  next =>
    obtain rfl := Except.error.inj h
    simp only [errFor, Exc.text, encodable_append]
    exact ⟨⟨by decide,plain.1⟩,by decide⟩

/-- A denial is a `ValissError` that prints if the method and the path do. -/
theorem authorizeExt_denies (plain : PlainTexts) (i : Identity) (method host path : Str)
    (allowMissing : Bool) (hm : Encodable method) (hp : Encodable path) :
    Raises (fun e => e.isValiss = true ∧ Encodable e.text)
      (authorizeExt i method host path allowMissing) := by
  apply authorizeExts_raises
  · intro ext e he
    have hr := extOf_raises httpExt http_reads.error ext e he
    cases e with
    | valiss m r => exact ⟨rfl,extOf_text plain ext _ he⟩
    | builtin k m => cases hr
  · exact ⟨rfl,by decide⟩
  · refine ⟨rfl,?_⟩
    simp only [errFor, Exc.text, encodable_append, encodable_cons]
    exact ⟨⟨by decide,hm⟩,by decide,hp⟩

def decided (allowMissing : Bool) (method host path : Str) :
    Except Exc (Except Exc Identity) × σ → Except Exc Answer × σ
  | (.error e,t) => (.error e,t)
  | (.ok (.error e),t) => (.ok (.status 401 e.text),t)
  | (.ok (.ok i),t) => match authorizeExt i method host path allowMissing with
    | .ok _ => (.ok (.identity i),t)
    | .error (.valiss m _) => (.ok (.status 403 m),t)
    | .error e => (.error e,t)

theorem authenticateWith_run (verify : Request → Act Exc σ Identity)
    (accountToken userToken timestamp signature nonce method host path : Str)
    (allowMissing : Bool) (s : σ) (h : ¬ (accountToken = [] ∧ userToken = [])) :
    (∀ context, requestContext method host path nonce = .ok context →
      (authenticateWith verify accountToken userToken timestamp signature nonce method host path
        allowMissing).run s = decided allowMissing method host path
          (((verify ⟨accountToken,userToken,timestamp,signature,context,nonce⟩).catching
            Exc.isValiss).run s)) ∧
    ∀ e, requestContext method host path nonce = .error e →
      (authenticateWith verify accountToken userToken timestamp signature nonce method host path
        allowMissing).run s = (.error e,s) := by
  unfold authenticateWith
  rw [if_neg h, Act.run_lift_bind]
  refine ⟨?_,?_⟩
  · intro context hc
    rw [hc]
    dsimp only
    rw [Act.run_bind]
    rcases ((verify ⟨accountToken,userToken,timestamp,signature,context,nonce⟩).catching
      Exc.isValiss).run s with ⟨e | (e | i),t⟩
    · rfl
    · rfl
    · dsimp only [decided]
      rcases authorizeExt i method host path allowMissing with (⟨m,r⟩ | ⟨k,m⟩) | u <;> rfl
  · intro e hc
    rw [hc]

omit [Platform] in
theorem latin1_encodable (s : Str) (h : Latin1 s) : Encodable s := by
  intro c hc hs
  have := h c hc
  unfold Surrogate at hs
  omega

omit [Platform] in
theorem contextText_encodable (method host path nonce : Str) (hh : Latin1 host)
    (hn : Latin1 nonce) : Encodable (contextText method host path nonce) ↔
      Encodable method ∧ Encodable path := by
  have h10 : ¬ Surrogate 10 := by decide
  simp only [contextText, encodable_append, encodable_cons, h10, not_false_eq_true, true_and,
    latin1_encodable host hh, latin1_encodable nonce hn, and_true,
    show Encodable (lit "http\n") from by decide]

def Scope.request (scope : Scope) : Request :=
  let h := headersOf scope.headers
  ⟨header h "valiss-account-token",header h "valiss-user-token",header h "valiss-timestamp",
    header h "valiss-signature",encodePass (contextText scope.method (header h "host") scope.path
      (header h "valiss-nonce")),header h "valiss-nonce"⟩

def Scope.host (scope : Scope) : Str := header (headersOf scope.headers) "host"

def Scope.bare (scope : Scope) : Prop :=
  scope.request.accountToken = [] ∧ scope.request.userToken = []

section Auth
variable (verify : Request → Act Exc σ Identity) (allowMissing : Bool) (scope : Scope)
  (events : List Event) (s : σ)

theorem authenticateScope_bare (h : scope.bare) :
    (authenticateScope verify allowMissing scope).run s =
      (.ok (.status 401 (lit "valiss: missing credentials")),s) := by
  have hrun : authenticateScope verify allowMissing scope =
      pure (.status 401 (lit "valiss: missing credentials")) := if_pos h
  rw [hrun, Act.run_pure]

theorem authenticateScope_context (h : ¬ scope.bare) :
    ((Encodable scope.method ∧ Encodable scope.path) ∧
      (authenticateScope verify allowMissing scope).run s = decided allowMissing scope.method
        scope.host scope.path (((verify scope.request).catching Exc.isValiss).run s)) ∨
    (¬ (Encodable scope.method ∧ Encodable scope.path) ∧
      ∃ e, (authenticateScope verify allowMissing scope).run s = (.error e,s)) := by
  have hcontext := contextText_encodable scope.method scope.host scope.path
    (header (headersOf scope.headers) "valiss-nonce") (header_latin1 _ _) (header_latin1 _ _)
  have hrun := authenticateWith_run verify scope.request.accountToken scope.request.userToken
    scope.request.timestamp scope.request.signature scope.request.nonce scope.method scope.host
    scope.path allowMissing s h
  by_cases hp : Encodable scope.method ∧ Encodable scope.path
  · exact Or.inl ⟨hp,hrun.1 _ ((encode_ok _ _).2 ⟨hcontext.2 hp,rfl⟩)⟩
  · refine Or.inr ⟨hp,?_⟩
    cases hc : requestContext scope.method scope.host scope.path scope.request.nonce with
    | ok b => exact absurd (hcontext.1 ((encode_ok _ _).1 hc).1) hp
    | error e => exact ⟨e,hrun.2 e hc⟩

def Granted (i : Identity) : Prop :=
  ∃ t, (verify scope.request).run s = (.ok i,t) ∧
    authorizeExt i scope.method scope.host scope.path allowMissing = .ok ()

def Refused (status : ℕ) : Prop :=
  status = 401 ∨ (status = 403 ∧ ∃ i t, (verify scope.request).run s = (.ok i,t) ∧
    authorizeExt i scope.method scope.host scope.path allowMissing ≠ .ok ())

def Printable : Prop :=
  scope.bare ∨ ((Encodable scope.method ∧ Encodable scope.path) ∧
    ∀ e t, (verify scope.request).run s = (.error e,t) → Encodable e.text)

theorem authMiddleware_answers (plain : PlainTexts)
    (hv : ∀ e t, (verify scope.request).run s = (.error e,t) → e.isValiss = true) :
    OneAnswer (Granted verify allowMissing scope s) (Refused verify allowMissing scope s)
      (authMiddleware verify allowMissing scope events s).1 ↔ Printable verify scope s := by
  unfold authMiddleware Printable
  by_cases hbare : scope.bare
  · rw [authenticateScope_bare verify allowMissing scope s hbare]
    refine iff_of_true ?_ (Or.inl hbare)
    exact (reject_answers _ _ 401 _ [] (Or.inl rfl)).2 (by decide)
  rw [or_iff_right hbare]
  rcases authenticateScope_context verify allowMissing scope s hbare with ⟨hp,hrun⟩ | ⟨hp,e,hrun⟩
  · rw [hrun, and_iff_right hp, Act.run_catching]
    rcases hs : (verify scope.request).run s with ⟨e | i,t⟩
    · simp only [if_pos (hv e t hs), decided]
      rw [reject_answers _ _ 401 _ [] (Or.inl rfl)]
      refine ⟨?_,fun h => h e t rfl⟩
      rintro h _ _ ⟨rfl,rfl⟩
      exact h
    · have hdenies := authorizeExt_denies plain i scope.method scope.host scope.path allowMissing
        hp.1 hp.2
      refine iff_of_true ?_ (fun e _ h => by cases h)
      cases ha : authorizeExt i scope.method scope.host scope.path allowMissing with
      | ok u =>
        simp only [decided, ha]
        exact ⟨rfl,Or.inl ⟨i,events,⟨t,hs,ha⟩,rfl⟩⟩
      | error e =>
        obtain ⟨hk,htext⟩ := hdenies e ha
        cases e with
        | valiss m r =>
          simp only [decided, ha]
          refine (reject_answers _ _ 403 m [] (Or.inr ⟨rfl,i,t,hs,?_⟩)).2 htext
          rw [ha]
          intro h
          cases h
        | builtin k m => cases hk
  · rw [hrun]
    exact iff_of_false (raised_silent _ _ _ _) fun h => hp h.1

end Auth

theorem decodeToken_onlyValiss (r : Receiver) (m : Delivery) (t : DateTime) (chain : Option Chain)
    (h : OnlyValiss (runVerify r m t chain)) : OnlyValiss (decodeToken m.token) := by
  intro e he
  apply h e
  unfold runVerify verifyUnder messageToken
  rw [he]
  rfl

theorem lookupKey_answers (cache : Option (ChainCache σ)) (m : Delivery)
    (h : OnlyValiss (decodeToken m.token)) : ∃ key, lookupKey cache m = .ok key := by
  unfold lookupKey
  split_ifs
  · unfold cacheKey
    split_ifs
    · exact ⟨_,rfl⟩
    · cases hc : decodeClaims m.token with
      | ok c => exact ⟨_,rfl⟩
      | error e =>
        have hk := (Raises.bind h fun _ _ => raises_ok _ _) e hc
        cases e with
        | valiss text reason => exact ⟨_,rfl⟩
        | builtin k text => cases hk
  · exact ⟨_,rfl⟩

theorem settle_answers (r : Receiver) (hasCache : Bool) (m : Delivery) (key : Option Str)
    (found : Option Chain) (t₁ t₂ : DateTime)
    (h : ∀ t chain, OnlyValiss (runVerify r m t chain)) :
    ∃ out w, settle r hasCache m key found t₁ t₂ = .ok (out,w) := by
  unfold settle
  dsimp only
  split
  next => exact ⟨_,_,rfl⟩
  next hv => cases h _ _ _ hv
  next =>
    split
    next =>
      split
      next => exact ⟨_,_,rfl⟩
      next hv => cases h _ _ _ hv
      next => split_ifs <;> exact ⟨_,_,rfl⟩
    next => exact ⟨_,_,rfl⟩

def Scope.message (scope : Scope) (events : List Event) : Delivery :=
  delivery (headersOf scope.headers) scope.path (((bufferBody events).map Prod.fst).getD [])

section Sig
variable (r : Receiver) (cache : Option (ChainCache σ)) (scope : Scope) (events : List Event)
  (t₁ t₂ : DateTime) (s : σ)

def SigPrintable : Prop :=
  (scope.message events).token = [] ∨ ∀ rej u,
    (authenticateMessage r cache (scope.message events) t₁ t₂).run s = (.ok (.reject rej),u) →
      Encodable rej.message

theorem sigMiddleware_answers (hend : ∃ e ∈ events, e.last = true)
    (hv : ∀ t chain, OnlyValiss (runVerify r (scope.message events) t chain)) :
    OneAnswer (fun c => ∃ u, (authenticateMessage r cache (scope.message events) t₁ t₂).run s =
        (.ok (.claims c),u)) (fun status => status = 401)
      (sigMiddleware r cache scope events t₁ t₂ s).1 ↔ SigPrintable r cache scope events t₁ t₂ s := by
  obtain ⟨body,rest,hb⟩ := bufferBody_ends events hend
  have hm : scope.message events = delivery (headersOf scope.headers) scope.path body := by
    rw [Scope.message, hb]
    rfl
  unfold sigMiddleware SigPrintable
  dsimp only
  by_cases htok : (scope.message events).token = []
  · rw [if_pos (show header _ _ = [] from htok)]
    exact iff_of_true ((reject_answers _ (fun status => status = 401) 401
      (lit "valiss: missing message token") [] rfl).2 (by decide)) (Or.inl htok)
  · obtain ⟨key,hk⟩ := lookupKey_answers cache (scope.message events)
      (decodeToken_onlyValiss r _ t₁ none (hv t₁ none))
    obtain ⟨out,w,hs⟩ := settle_answers r cache.isSome (scope.message events) key
      (lookupChain cache key s).1 t₁ t₂ hv
    have hrun := (authenticateMessage_ok r cache (scope.message events) t₁ t₂ s _ out).2
      ⟨key,w,hk,hs,rfl⟩
    rw [if_neg (show ¬ header _ _ = [] from htok), hb]
    dsimp only
    rw [← hm, hrun, or_iff_right htok]
    cases out with
    | claims c =>
      refine iff_of_true ⟨rfl,Or.inl ⟨c,_,⟨_,rfl⟩,rfl⟩⟩ ?_
      intro rej u h
      cases h
    | reject x =>
      dsimp only
      rw [reject_answers _ (fun status => status = 401) 401 _ _ rfl]
      refine ⟨?_,fun h => h x _ rfl⟩
      rintro h _ _ ⟨rfl,rfl⟩
      exact h

end Sig

/-- Both middlewares give one answer to every HTTP request exactly when what
they have to encode can be encoded. -/
theorem middlewares_answer (plain : PlainTexts) :
    (∀ (verify : Request → Act Exc σ Identity) allowMissing scope events s,
      (∀ e t, (verify scope.request).run s = (.error e,t) → e.isValiss = true) →
      (OneAnswer (Granted verify allowMissing scope s) (Refused verify allowMissing scope s)
        (authMiddleware verify allowMissing scope events s).1 ↔ Printable verify scope s)) ∧
    ∀ r (cache : Option (ChainCache σ)) scope events t₁ t₂ s, (∃ e ∈ events, e.last = true) →
      (∀ t chain, OnlyValiss (runVerify r (scope.message events) t chain)) →
      (OneAnswer (fun c => ∃ u, (authenticateMessage r cache (scope.message events) t₁ t₂).run s =
          (.ok (.claims c),u)) (fun status => status = 401)
        (sigMiddleware r cache scope events t₁ t₂ s).1 ↔
          SigPrintable r cache scope events t₁ t₂ s) :=
  ⟨fun verify allowMissing scope events s =>
    authMiddleware_answers verify allowMissing scope events s plain,
   fun r cache scope events t₁ t₂ s => sigMiddleware_answers r cache scope events t₁ t₂ s⟩

end Calls

section Domain
local instance : Platform := domain.ideal

theorem domain_plain : PlainTexts := ⟨by decide,fun _ => encodable_nil⟩

def bearing (name : String) (value : Str) : Scope :=
  ⟨[(ascii "host",ascii "api.example.com"),(ascii name,encodePass value)],lit "GET",
    lit "/v1/widgets"⟩

def closed : Request → Act Exc Seen Identity := fun _ => Act.ofExcept (.error (err (lit "closed")))

def pinnedReceiver : Receiver := ⟨.pinned operatorKey,{}⟩

def shortAuth : Scope := bearing "valiss-account-token" (lit "a")

def shortSig : Scope := bearing "valiss-message-token" (lit "a")

theorem short_malformed (t : DateTime) (chain : Option Chain) :
    runVerify pinnedReceiver (shortSig.message [.request none none]) t chain =
      .error (malformed (lit "malformed token")) := rfl

theorem middlewares_answer_domain :
    OneAnswer (Granted closed false shortAuth []) (Refused closed false shortAuth [])
      (authMiddleware closed false shortAuth [] []).1 ∧
    OneAnswer (fun c => ∃ u, (authenticateMessage pinnedReceiver (none : Option (ChainCache Seen))
        (shortSig.message [.request none none]) issuedAt issuedAt).run [] = (.ok (.claims c),u))
      (fun status => status = 401) (sigMiddleware pinnedReceiver none shortSig
        [.request none none] issuedAt issuedAt ([] : Seen)).1 := by
  have hall := @middlewares_answer _ Seen domain_plain
  refine ⟨(hall.1 closed false shortAuth [] [] ?_).2 ?_,
    (hall.2 pinnedReceiver none shortSig [.request none none] issuedAt issuedAt [] ?_ ?_).2 ?_⟩
  · rintro e t ⟨rfl,rfl⟩
    rfl
  · refine Or.inr ⟨by decide,?_⟩
    rintro e t ⟨rfl,rfl⟩
    decide
  · exact ⟨_,List.mem_singleton_self _,rfl⟩
  · intro t chain e he
    rw [short_malformed] at he
    obtain rfl := Except.error.inj he
    rfl
  · refine Or.inr ?_
    rintro rej u ⟨rfl,rfl⟩
    decide

def surrogateToken : Str :=
  b64url (encodePass (lit "\x7b\"typ\":\"\\ud800\"\x7d")) ++ lit ".e30.AA"

def surrogateScope : Scope := bearing "valiss-account-token" surrogateToken

theorem surrogate_unprintable :
    ∃ e, decodeToken surrogateToken = .error e ∧ e.isValiss = true ∧ ¬ Encodable e.text := by
  have h : (match decodeToken surrogateToken with
      | .error e => decide (e.isValiss = true ∧ ¬ Encodable e.text)
      | .ok _ => false) = true := by
    decide +kernel
  cases hd : decodeToken surrogateToken with
  | ok d =>
    rw [hd] at h
    cases h
  | error e =>
    rw [hd] at h
    obtain ⟨hv,he⟩ := of_decide_eq_true h
    exact ⟨e,rfl,hv,he⟩

def plainVerifier : Verifier Seen :=
  ⟨⟨fun _ => true,120000000,none,none,[],[]⟩,.pinned operatorKey none⟩

theorem plainVerifier_undecoded (now : DateTime) (r : Request) (e : Exc) (s : Seen)
    (ha : r.accountToken ≠ []) (he : decodeToken r.accountToken = .error e) :
    (verify plainVerifier now r).run s = (.error e,s) := by
  have hc : checked plainVerifier now r = .error e := by
    simp only [checked, plainVerifier, accountTokenOf, if_pos ha, ok_bind, anchored,
      verifyAccount, he, error_bind]
  rw [verify, Act.run_lift_bind, hc]

/-- The rejection quotes the surrogate, and the middleware raises instead of answering. -/
theorem surrogate_unanswered :
    ¬ ∀ (v : Verifier Seen) now allowMissing scope events s,
      (∀ e t, (verify v now scope.request).run s = (.error e,t) → e.isValiss = true) →
      OneAnswer (Granted (verify v now) allowMissing scope s)
        (Refused (verify v now) allowMissing scope s)
        (authMiddleware (verify v now) allowMissing scope events s).1 := by
  intro hall
  obtain ⟨e,he,hvaliss,htext⟩ := surrogate_unprintable
  have htok : surrogateScope.request.accountToken = surrogateToken := by decide +kernel
  have hne : surrogateScope.request.accountToken ≠ [] := by
    rw [htok]
    decide
  have hrun := plainVerifier_undecoded issuedAt surrogateScope.request e [] hne (by rw [htok, he])
  have hv : ∀ e' t, (verify plainVerifier issuedAt surrogateScope.request).run [] =
      (.error e',t) → e'.isValiss = true := by
    intro e' t h
    rw [hrun, Prod.mk.injEq, Except.error.injEq] at h
    rw [← h.1]
    exact hvaliss
  rcases (authMiddleware_answers _ _ _ _ _ domain_plain hv).1
    (hall plainVerifier issuedAt false surrogateScope [] [] hv) with h | ⟨_,h⟩
  · exact hne h.1
  · exact htext (h e [] hrun)

end Domain

end Valiss.Asgi
