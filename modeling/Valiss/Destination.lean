import Valiss.HttpSig
import Valiss.Recorded

/-!
# The destination of an HTTP message

The middleware compares Host and path as one string. A token it accepts is tied
to one request exactly when that string cannot be parted a second way: no slash
in the Host, and no further slash of the path that a Host could reach.
-/

set_option autoImplicit false

namespace Valiss.Destination
open Lib.Unicode Lib.Base64 Lib.Calendar Lib.Fallible Valiss.Errors Valiss.Message Valiss.Chains
open Valiss.MsgTransport Valiss.HttpAuth Valiss.HttpSig Valiss.Recorded

def slash : CodePoint := 47

/-- Host and path part in one way only. -/
structure Single (host path : Str) : Prop where
  host : slash ∉ host
  path : ∀ l m, path = slash::(l ++ slash::m) → ¬ Latin1 l

theorem parted_again (host path : Str) (hl : Latin1 host) (h : ¬ Single host path) :
    ∃ host' path', Latin1 host' ∧ path'.head? = some slash ∧ host' ++ path' = host ++ path ∧
      host' ≠ host := by
  by_cases hh : slash ∈ host
  · obtain ⟨l,m,rfl⟩ := List.mem_iff_append.1 hh
    refine ⟨l,slash::m ++ path,fun c hc => hl c (List.mem_append_left _ hc),rfl,by simp,?_⟩
    intro e
    have := congrArg List.length e
    simp at this
  · by_contra hno
    apply h
    constructor
    · exact hh
    · intro l m hp hlat
      apply hno
      refine ⟨host ++ slash::l,slash::m,?_,rfl,by simp [hp],?_⟩
      · intro c hc
        rcases List.mem_append.1 hc with hc | hc
        · exact hl c hc
        · rcases List.mem_cons.1 hc with rfl | hc
          · decide
          · exact hlat c hc
      · intro e
        have := congrArg List.length e
        simp at this

theorem parted_once (host path host' path' : Str) (h : Single host path)
    (hp : path.head? = some slash) (hp' : path'.head? = some slash) (hl : Latin1 host')
    (he : host' ++ path' = host ++ path) : host' = host ∧ path' = path := by
  rcases List.append_eq_append_iff.1 he with ⟨a,rfl,rfl⟩ | ⟨a,rfl,rfl⟩
  · -- the other Host is shorter: what it leaves starts with a slash
    cases a with
    | nil => simp
    | cons x a =>
      obtain rfl := Option.some.inj hp'
      exact absurd (by simp) h.host
  · -- the other Host is longer: it takes in the first slash of the path
    cases a with
    | nil => simp
    | cons x a =>
      obtain rfl := Option.some.inj hp
      cases path' with
      | nil => cases hp'
      | cons y m =>
        obtain rfl := Option.some.inj hp'
        apply absurd _ (h.path a m rfl)
        intro c hc
        exact hl c (List.mem_append_right _ (List.mem_cons_of_mem _ hc))

section Middleware
variable [Platform] {σ : Type}

/-- At some moment the middleware accepts the token on a request with this Host,
path and body. -/
def Accepts (r : Receiver) (cache : Option (ChainCache σ)) (tok host path : Str)
    (body : Bytes) : Prop :=
  ∃ (raw : List (Bytes × Bytes)) (s u : σ) (t₁ t₂ : DateTime) (c : MessageClaims),
    header (headersOf raw) "valiss-message-token" = tok ∧ header (headersOf raw) "host" = host ∧
      (middleware r cache raw path body t₁ t₂).run s = (.ok (.claims c),u)

theorem accepts_latin1 (r : Receiver) (cache : Option (ChainCache σ)) (tok host path : Str)
    (body : Bytes) (h : Accepts r cache tok host path body) : Latin1 host := by
  obtain ⟨raw,_,_,_,_,_,_,rfl,_⟩ := h
  exact header_latin1 raw "host"

theorem middleware_claims (r : Receiver) (cache : Option (ChainCache σ))
    (raw : List (Bytes × Bytes)) (path : Str) (body : Bytes) (t₁ t₂ : DateTime) (s u : σ)
    (c : MessageClaims) :
    (middleware r cache raw path body t₁ t₂).run s = (.ok (.claims c),u) ↔
      header (headersOf raw) "valiss-message-token" ≠ [] ∧
      (authenticateMessage r cache (delivery (headersOf raw) path body) t₁ t₂).run s =
        (.ok (.claims c),u) := by
  unfold middleware
  split_ifs with ht <;> simp [ht]

theorem accepts_token (r : Receiver) (cache : Option (ChainCache σ)) (tok host path : Str)
    (body : Bytes) (hp : path ≠ []) (h : Accepts r cache tok host path body) :
    ∃ d, messageToken tok = .ok d ∧ d.audience = host ++ path ∧ d.checksum = checksum body := by
  obtain ⟨raw,s,u,t₁,t₂,c,rfl,rfl,hm⟩ := h
  obtain ⟨_,ha⟩ := (middleware_claims _ _ _ _ _ _ _ _ _ _).1 hm
  exact authenticateMessage_binds r cache _ t₁ t₂ s u c (by simp [delivery, audience, hp]) ha

theorem accepts_moved (r : Receiver) (cache : Option (ChainCache σ)) (tok host path : Str)
    (body : Bytes) (host' path' : Str) (hl : Latin1 host') (he : host' ++ path' = host ++ path)
    (h : Accepts r cache tok host path body) : Accepts r cache tok host' path' body := by
  obtain ⟨raw,s,u,t₁,t₂,c,rfl,rfl,hm⟩ := h
  let moved := raw ++ [((lit "host").map fun c => byte c.val,host'.map fun c => byte c.val)]
  have hmoved : headersOf moved = (lit "host",host')::headersOf raw := by
    have hname : latin1 ((lit "host").map fun c => byte c.val) = lit "host" := by decide
    simp [moved, headersOf, hname, latin1_byte host' hl]
  have hother : ∀ k : String, k ≠ "host" → header (headersOf moved) k = header (headersOf raw) k := by
    intro k hk
    have hne : (lit k == lit "host") = false := by simpa using hk
    rw [hmoved]
    simp [header, List.lookup_cons, hne]
  have hhost : header (headersOf moved) "host" = host' := by
    rw [hmoved]
    simp [header]
  have hd : delivery (headersOf moved) path' body = delivery (headersOf raw) path body := by
    simp only [delivery, audience, hhost, he, hother "valiss-message-token" (by decide),
      hother "valiss-chain-account-token" (by decide), hother "valiss-chain-user-token" (by decide)]
  obtain ⟨ht,ha⟩ := (middleware_claims _ _ _ _ _ _ _ _ _ _).1 hm
  refine ⟨moved,s,u,t₁,t₂,c,hother _ (by decide),hhost,?_⟩
  apply (middleware_claims _ _ _ _ _ _ _ _ _ _).2
  rw [hother "valiss-message-token" (by decide), hd]
  exact ⟨ht,ha⟩

theorem destination_unique (inj : Function.Injective Platform.sha256) (r : Receiver)
    (cache : Option (ChainCache σ)) (tok host path : Str) (body : Bytes)
    (hp : path.head? = some slash) (h : Accepts r cache tok host path body) :
    (∀ host' path' body', path'.head? = some slash → Accepts r cache tok host' path' body' →
      host' = host ∧ path' = path ∧ body' = body) ↔ Single host path := by
  have hne : ∀ p : Str, p.head? = some slash → p ≠ [] := by
    rintro p hp rfl
    cases hp
  constructor
  · intro hall
    by_contra hc
    obtain ⟨host',path',hl,hp',he,hdiff⟩ :=
      parted_again host path (accepts_latin1 r cache tok host path body h) hc
    exact hdiff (hall host' path' body hp' (accepts_moved r cache tok host path body _ _ hl he h)).1
  · intro hc host' path' body' hp' h'
    obtain ⟨d,hd,ha,hs⟩ := accepts_token r cache tok host path body (hne path hp) h
    obtain ⟨d',hd',ha',hs'⟩ := accepts_token r cache tok host' path' body' (hne path' hp') h'
    rw [hd, Except.ok.injEq] at hd'
    subst hd'
    have hb : body' = body := inj (hex_injective (hs'.symm.trans hs))
    obtain ⟨h1,h2⟩ := parted_once host path host' path' hc hp hp'
      (accepts_latin1 r cache tok host' path' body' h') (ha'.symm.trans ha)
    exact ⟨h1,h2,hb⟩

end Middleware

section Widgets
local instance : Platform := domain.ideal

def widgetReceiver : Receiver := ⟨.pinned operatorKey,{operatorToken := some operatorSample.token}⟩

def raw (s : Str) : Bytes := s.map fun c => byte c.val

def widgetHeaders (host : Str) : List (Bytes × Bytes) :=
  [(raw (lit "host"),raw host),
   (raw (lit "valiss-message-token"),raw messageSample.token),
   (raw (lit "valiss-chain-account-token"),raw accountSample.token),
   (raw (lit "valiss-chain-user-token"),raw userSample.token)]

theorem raw_token (s : Sample) : latin1 (raw s.token) = s.token :=
  latin1_byte s.token fun c hc => (s.token_ascii c hc).trans (by decide)

theorem raw_host : latin1 (raw (lit "api.example.com")) = lit "api.example.com" := by decide

theorem widget_headers : headersOf (widgetHeaders (lit "api.example.com")) =
    [(lit "valiss-chain-user-token",userSample.token),
     (lit "valiss-chain-account-token",accountSample.token),
     (lit "valiss-message-token",messageSample.token),(lit "host",lit "api.example.com")] := by
  simp only [headersOf, widgetHeaders, List.map_cons, List.map_nil, raw_token, raw_host]
  rfl

theorem widget_accepted : Accepts widgetReceiver (none : Option (ChainCache Unit))
    messageSample.token (lit "api.example.com") (lit "/v1/widgets") bodyBytes := by
  have hread : ∀ k, header (headersOf (widgetHeaders (lit "api.example.com"))) k = header
      [(lit "valiss-chain-user-token",userSample.token),
       (lit "valiss-chain-account-token",accountSample.token),
       (lit "valiss-message-token",messageSample.token),(lit "host",lit "api.example.com")] k := by
    intro k
    rw [widget_headers]
  have hdelivery : delivery (headersOf (widgetHeaders (lit "api.example.com")))
      (lit "/v1/widgets") bodyBytes = Widgets.bundled := by
    rw [delivery, hread, hread, hread, hread]
    rfl
  have hrun := Widgets.widget_run widgetReceiver.options Widgets.bundled requestedAt _ _ rfl rfl rfl
    rfl Widgets.widget_operatorPolicy (Or.inr rfl) (by decide) (by decide) (by decide)
  have hmessage := authenticateMessage_detached widgetReceiver (none : Option (ChainCache Unit)) _
    requestedAt requestedAt () _ Widgets.bundled_detached hrun
  rw [← hdelivery] at hmessage
  have htoken : header (headersOf (widgetHeaders (lit "api.example.com"))) "valiss-message-token" =
      messageSample.token := (hread _).trans rfl
  refine ⟨widgetHeaders (lit "api.example.com"),(),_,requestedAt,requestedAt,_,htoken,
    (hread _).trans rfl,(middleware_claims _ _ _ _ _ _ _ _ _ _).2 ⟨?_,hmessage⟩⟩
  rw [htoken]
  exact messageSample.token_ne_nil

/-- The user's message for `/v1/widgets` passes for `/widgets` with `/v1` in the Host. -/
theorem destination_moved : ∃ host' path', path'.head? = some slash ∧
    host' ≠ lit "api.example.com" ∧ path' ≠ lit "/v1/widgets" ∧
    Accepts widgetReceiver (none : Option (ChainCache Unit)) messageSample.token
      (lit "api.example.com") (lit "/v1/widgets") bodyBytes ∧
    Accepts widgetReceiver (none : Option (ChainCache Unit)) messageSample.token
      host' path' bodyBytes :=
  ⟨lit "api.example.com/v1",lit "/widgets",by decide,by decide,by decide,widget_accepted,
    accepts_moved widgetReceiver none messageSample.token _ _ _ _ _
      (by
        rw [Latin1]
        decide) (by decide) widget_accepted⟩

theorem destination_unique_widgets :
    (∀ host' path' body', path'.head? = some slash →
      Accepts widgetReceiver (none : Option (ChainCache Unit)) messageSample.token
        host' path' body' →
      host' = lit "api.example.com" ∧ path' = lit "/v1/widgets" ∧ body' = bodyBytes) ↔
    Single (lit "api.example.com") (lit "/v1/widgets") :=
  destination_unique (domain_injective _) widgetReceiver none messageSample.token _ _ _
    (by decide) widget_accepted

end Widgets

end Valiss.Destination
