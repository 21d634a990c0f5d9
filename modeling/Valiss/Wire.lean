import Valiss.Webhook

/-!
# Headers on the wire

A client writes its headers byte by byte and the ASGI server hands them on. With
distinct names, within Latin-1, the middleware reads in each what was set; the
tokens are ASCII.
-/

set_option autoImplicit false

namespace Valiss.Wire
open Lib.Unicode Lib.Json Lib.Calendar Lib.Fallible Lib.Assoc Lib.Dialogue Valiss.Errors
open Valiss.Codec Valiss.Decode Valiss.Message Valiss.HttpAuth Valiss.HttpSig Valiss.Asgi
open Valiss.Exchange Valiss.MessageClients Valiss.TwoSends Valiss.Webhook Valiss.Recorded
open Valiss.Negotiation

def narrow (s : Str) : Bytes := s.map fun c => byte c.val

def onWire (h : Headers) : List (Bytes × Bytes) := h.map fun e => (narrow e.1,narrow e.2)

/-- Headers a client can set: each name once, and nothing beyond Latin-1. -/
structure Settable (h : Headers) : Prop where
  distinct : (h.map Prod.fst).Nodup
  narrow : ∀ e ∈ h, Latin1 e.1 ∧ Latin1 e.2

theorem settable_set (h : Headers) (name : String) (v : Str) (hh : Settable h)
    (hn : Latin1 (lit name)) (hv : Latin1 v) : Settable (setHeader h name v) := by
  refine ⟨put_nodup h _ v hh.distinct,?_⟩
  intro e he
  rcases mem_put h _ v e he with rfl | he
  · exact ⟨hn,hv⟩
  · exact hh.narrow e he

theorem headersOf_onWire (h : Headers) (hh : Settable h) : headersOf (onWire h) = h.reverse := by
  have hread : ∀ e ∈ h, (latin1 (narrow e.1),latin1 (narrow e.2)) = e := by
    intro e he
    obtain ⟨hname,hvalue⟩ := hh.narrow e he
    rw [narrow, narrow, latin1_byte _ hname, latin1_byte _ hvalue]
  rw [headersOf, onWire, List.map_map]
  exact congrArg List.reverse ((List.map_congr_left hread).trans (List.map_id h))

theorem header_onWire (h : Headers) (hh : Settable h) (name : String) :
    header (headersOf (onWire h)) name = header h name := by
  rw [header, header, headersOf_onWire h hh, lookup_reverse hh.distinct]

theorem ascii_latin1 (s : Str) (h : Ascii s) : Latin1 s := fun c hc =>
  Nat.lt_trans (h c hc) (by decide)

section Tokens
variable [Platform]

theorem decoded_ascii (tok : Str) (d : Decoded) (h : decodeToken tok = .ok d) : Ascii tok := by
  have hsegment : ∀ (s : Str) (raw : Bytes), b64urlDecode s = .ok raw → Ascii s :=
    fun s raw hs c hc => (urlChar_ascii c (b64urlDecode_char s raw hs c hc)).1
  rw [decodeToken, bind_ok] at h
  obtain ⟨⟨ver,p0,p1,p2⟩,hpeek,h⟩ := h
  dsimp only at h
  split_ifs at h
  unfold peekVersion at hpeek
  split at hpeek
  next q0 q1 q2 hsplit =>
    simp only [bind_ok, segmentObject, raiseIf_ok, pure_ok, Prod.mk.injEq] at hpeek
    obtain ⟨_,⟨b0,h0,_⟩,_,_,_,_,_,rfl,rfl,rfl⟩ := hpeek
    simp only [decodeV1, segmentObject, bind_ok, pure_ok] at h
    obtain ⟨_,⟨b1,h1,_⟩,_,_,_,_,b2,h2,_⟩ := h
    rw [(splitOn_three _ _ _ _ _ hsplit).1, ascii_append, ascii_cons, ascii_append, ascii_cons]
    exact ⟨⟨hsegment _ _ h0,by decide,hsegment _ _ h1⟩,by decide,hsegment _ _ h2⟩
  next => cases hpeek

variable {e : Emitter} {negotiate : Bool}

theorem chain_ascii (e : Emitter) : Ascii e.creds.accountToken ∧ Ascii e.creds.userToken := by
  obtain ⟨_,_,_,issuer,account,claims,hacc,huser,_⟩ := minter_ok e.creds e.user e.epoch e.minted
  obtain ⟨d,hd,_⟩ := (verifyAccount_ok _ _ _).1 hacc
  obtain ⟨c,hc,_⟩ := (verifyUser_ok _ _ _).1 huser
  exact ⟨decoded_ascii _ d hd,decoded_ascii _ c hc⟩

theorem emission_ascii (hon : HonestSignatures) (x : Emission e negotiate) : Ascii x.token := by
  obtain ⟨d,hd,_⟩ := first_read hon x
  exact decoded_ascii _ d ((messageToken_ok _ _).1 hd).1

/-- The scope and the events of a request: `httpx` adds the Host it sends to. -/
def posted (q : HttpRequest) : Scope × List Event :=
  (⟨onWire (setHeader q.headers "host" q.host),lit "POST",q.path⟩,[.request (some q.content) none])

omit [Platform] in
theorem posted_carries (q : HttpRequest) (hh : Settable q.headers) (hhost : Latin1 q.host) :
    Carries q.headers q.host q.path q.content (posted q).1 (posted q).2 := by
  have hset : Settable (setHeader q.headers "host" q.host) :=
    settable_set _ _ _ hh (ascii_latin1 _ (by decide)) hhost
  refine ⟨rfl,⟨[],rfl⟩,?_,?_,?_,?_⟩
  · rw [posted, header_onWire _ hset, header_setHeader, if_pos rfl]
  all_goals rw [posted, header_onWire _ hset, header_setHeader, if_neg (by decide)]

/-- A webhook, end to end: a client that can set its headers, and the middleware behind
the server. Where the site is ready for the message, the app is called exactly once, at the
latest for the second send. -/
theorem webhook_delivered {σ : Type} (hon : HonestSignatures)
    (digest : ∀ b, Platform.sha256 b ≠ []) (e : Emitter) (ttl : Option TimeDelta)
    (negotiate : Bool) (t : Transport) (ht : Transport.make e.creds ttl negotiate = .ok t)
    (q : HttpRequest) (hown : Unclaimed q.headers) (hh : Settable q.headers)
    (hhost : Latin1 q.host) (x : Emission e negotiate)
    (hx : Addressed t x (audience q.host q.path) q.content) (w : Site σ) (s : σ)
    (hw : w.Ready x s) (respond : MessageClaims → Response)
    (quiet : ∀ c, (respond c).asks = false) :
    ∃ flow, t.authFlow q x.message.now = .ok flow ∧
      Delivered x (w.found e s) (Accepted x.message) Asked (responseOf respond)
        (flow.run (responseOf respond) (httpCall w fun _ p => posted p) 0 s).1 := by
  have hfirst : Settable (firstHeaders q.headers x.token) :=
    settable_set _ _ _ hh (ascii_latin1 _ (by decide)) (ascii_latin1 _ (emission_ascii hon x))
  have hagain : Settable (againHeaders t q.headers x.token) := by
    rw [make_kept ttl t ht]
    exact settable_set _ _ _ (settable_set _ _ _ hfirst (ascii_latin1 _ (by decide))
      (ascii_latin1 _ (chain_ascii e).1)) (ascii_latin1 _ (by decide))
      (ascii_latin1 _ (chain_ascii e).2)
  have hcarried : ∀ h : Headers, Settable h → header h "host" = header q.headers "host" →
      Carries h q.host q.path q.content (posted {q with headers := h}).1
        (posted {q with headers := h}).2 := by
    intro h hset hsame
    have hname : HttpRequest.host {q with headers := h} = q.host := by
      simp only [HttpRequest.host, hsame]
    have hc := posted_carries {q with headers := h} hset (hname ▸ hhost)
    rwa [hname] at hc
  obtain ⟨flow,hflow,hdelivered⟩ := httpx_delivered hon digest e ttl negotiate t ht q hown x hx
  refine ⟨flow,hflow,hdelivered w s (fun _ p => posted p) respond hw ?_ quiet⟩
  intro p _ hp
  rw [authFlow_sends ttl t ht q x hx, Except.ok.injEq] at hflow
  rw [← hflow] at hp
  rcases (onceMore_sends _ _ _ _).1 hp with rfl | ⟨_,rfl⟩
  · exact hcarried _ hfirst (by rw [firstHeaders, header_setHeader, if_neg (by decide)])
  · apply hcarried _ hagain
    rw [againHeaders, Transport.withChain, firstHeaders]
    iterate 3 rw [header_setHeader, if_neg (by decide)]

end Tokens

section Widgets
local instance : Platform := lateDomain.honest

def widgetPost : HttpRequest :=
  ⟨[(lit "content-type",lit "text/plain")],lit "api.example.com",lit "/v1/widgets",
    Recorded.bodyBytes⟩

theorem webhook_delivered_widgets : ∃ (t : Transport) (flow : Flow HttpRequest Response Response),
    Transport.make bundle (some 60000000) true = .ok t ∧
    t.authFlow widgetPost requestedAt = .ok flow ∧
    (flow.run (responseOf fun _ => ⟨204,[]⟩) (httpCall quietSite fun _ p => posted p) 0
      []).1.1.length = 2 := by
  obtain ⟨x,ha,hb,httl,hnow,hdue⟩ := widget_emission destination (by decide) (by decide)
  have hset : Settable widgetPost.headers := by
    refine ⟨by decide,?_⟩
    intro h hh
    obtain rfl := List.mem_singleton.1 hh
    exact ⟨ascii_latin1 _ (by decide),ascii_latin1 _ (by decide)⟩
  obtain ⟨flow,hflow,hdelivered⟩ := webhook_delivered (honest_signatures _) widget_digests emitter
    (some 60000000) true _ widget_transport widgetPost ⟨by decide,by decide⟩ hset
    (ascii_latin1 _ (by decide)) x ⟨ha,hb,httl⟩ quietSite [] (quietSite_ready x hdue)
    (fun _ => ⟨204,[]⟩) (fun _ => by decide)
  exact ⟨_,flow,widget_transport,hnow ▸ hflow,hdelivered.unknown rfl rfl⟩

end Widgets

end Valiss.Wire
