import Valiss.Asgi
import Valiss.Destination

/-!
# The app reads the verified bytes

The middleware drains a request in a loop, verifies what it has drained and
hands the app a `receive` of its own, which gives all of it back at once and
then passes on what the server still sends.
-/

set_option autoImplicit false

namespace Valiss.BodyReplay
open Lib.Unicode Lib.Calendar Lib.Fallible Valiss.Errors Valiss.Message Valiss.Chains
open Valiss.MsgTransport Valiss.HttpAuth Valiss.HttpSig Valiss.Asgi Valiss.Recorded
open Valiss.Destination

def chunk : Event → Option Bytes
  | .request body _ => some (body.getD [])
  | .disconnect => none
  | .other => none

/-- The loop of `_buffer_body` over its chunks and its flag. -/
def drain : List Bytes → Bool → List Event → Option (List Bytes × List Event)
  | chunks, false, events => some (chunks,events)
  | _, true, [] => none
  | chunks, true, .request body more :: events =>
    drain (chunks ++ [body.getD []]) (more.getD false) events
  | chunks, true, .disconnect :: events => some (chunks,events)
  | chunks, true, .other :: events => drain chunks true events

/-- The events up to the first that ends a body, and those behind it. -/
structure Drained (events seen rest : List Event) : Prop where
  parts : events = seen ++ rest
  ended : ∃ before e, seen = before ++ [e] ∧ e.last = true ∧ ∀ x ∈ before, x.last = false

def content (seen : List Event) : Bytes := (seen.filterMap chunk).flatten

theorem Drained.single (e : Event) (rest : List Event) (h : e.last = true) :
    Drained (e::rest) [e] rest := ⟨rfl,[],e,rfl,h,by simp⟩

theorem Drained.cons {events seen rest : List Event} (e : Event) (h : e.last = false)
    (hd : Drained events seen rest) : Drained (e::events) (e::seen) rest := by
  obtain ⟨rfl,before,last,rfl,hl,hb⟩ := hd
  exact ⟨rfl,e::before,last,rfl,hl,List.forall_mem_cons.2 ⟨h,hb⟩⟩

theorem drain_ok (chunks : List Bytes) (events : List Event) (out : List Bytes)
    (rest : List Event) (h : drain chunks true events = some (out,rest)) :
    ∃ seen, Drained events seen rest ∧ out = chunks ++ seen.filterMap chunk := by
  induction events generalizing chunks with
  | nil => cases h
  | cons e events ih =>
    cases e with
    | request body more =>
      rw [drain] at h
      cases hm : more.getD false with
      | false =>
        rw [hm, drain] at h
        obtain ⟨rfl,rfl⟩ := Prod.mk.inj (Option.some.inj h)
        exact ⟨_,.single _ _ (by simp [Event.last, hm]),rfl⟩
      | true =>
        rw [hm] at h
        obtain ⟨seen,hd,rfl⟩ := ih _ h
        refine ⟨_,hd.cons (.request body more) (by simp [Event.last, hm]),?_⟩
        simp [chunk]
    | disconnect =>
      obtain ⟨rfl,rfl⟩ := Prod.mk.inj (Option.some.inj h)
      exact ⟨_,.single _ _ rfl,by simp [chunk]⟩
    | other =>
      obtain ⟨seen,hd,rfl⟩ := ih _ h
      exact ⟨_,hd.cons .other rfl,by rw [List.filterMap_cons_none rfl]⟩

theorem drain_bufferBody (chunks : List Bytes) (events : List Event) :
    (drain chunks true events).map (fun p => (p.1.flatten,p.2)) =
      (bufferBody events).map fun p => (chunks.flatten ++ p.1,p.2) := by
  induction events generalizing chunks with
  | nil => rfl
  | cons e events ih =>
    cases e with
    | request body more =>
      rw [drain, bufferBody]
      cases more.getD false with
      | false => simp [drain]
      | true =>
        rw [ih, if_pos rfl, Option.map_map]
        congr 1
        funext p
        simp
    | disconnect => simp [drain, bufferBody]
    | other => exact ih chunks

theorem bufferBody_ok (events : List Event) (body : Bytes) (rest : List Event)
    (h : bufferBody events = some (body,rest)) :
    ∃ seen, Drained events seen rest ∧ body = content seen := by
  have hloop := drain_bufferBody [] events
  rw [h] at hloop
  obtain ⟨⟨out,rest'⟩,hd,he⟩ := Option.map_eq_some_iff.1 hloop
  simp only [List.flatten_nil, List.nil_append, Prod.mk.injEq] at he
  obtain ⟨rfl,rfl⟩ := he
  obtain ⟨seen,hs,rfl⟩ := drain_ok [] events out rest' hd
  exact ⟨seen,hs,rfl⟩

/-- The closure the app receives from: the body, whether it was given back, and
what the server still sends. -/
structure Replay where
  body : Bytes
  replayed : Bool := false
  events : List Event

/-- One `await receive()`; with nothing to come it waits. -/
def Replay.receive (p : Replay) : Option (Event × Replay) :=
  if p.replayed = false then some (.request (some p.body) (some false),{p with replayed := true})
  else match p.events with
    | [] => none
    | e::events => some (e,{p with events := events})

/-- The events of `n` calls, fewer if one of them waits. -/
def Replay.reads : ℕ → Replay → List Event
  | 0, _ => []
  | n+1, p => match p.receive with
    | none => []
    | some (e,p') => e :: reads n p'

theorem reads_replayed (n : ℕ) (body : Bytes) (events : List Event) :
    (Replay.mk body true events).reads n = events.take n := by
  induction n generalizing events with
  | zero => rfl
  | succ n ih =>
    cases events with
    | nil => rfl
    | cons e events =>
      rw [List.take_succ_cons, ← ih events]
      rfl

theorem reads_replay (n : ℕ) (body : Bytes) (events : List Event) :
    (Replay.mk body false events).reads n =
      (.request (some body) (some false) :: events).take n := by
  cases n with
  | zero => rfl
  | succ n =>
    rw [List.take_succ_cons, ← reads_replayed n body events]
    rfl

section Model
variable [Platform] {σ : Type}

theorem reject_no_app {β : Type} (status : ℕ) (message : Str) (extra : List (Bytes × Bytes))
    (c : β) (stream : List Event) : Action.app c stream ∉ (reject status message extra).2 := by
  unfold reject
  cases encode message <;> simp

/-- The app is called once, with the claims of a verification of the body. -/
theorem sigMiddleware_app (r : Receiver) (cache : Option (ChainCache σ)) (scope : Scope)
    (events : List Event) (t₁ t₂ : DateTime) (s : σ) (c : MessageClaims) (stream : List Event)
    (h : Action.app c stream ∈ (sigMiddleware r cache scope events t₁ t₂ s).1.2) :
    (sigMiddleware r cache scope events t₁ t₂ s).1 = (.returned,[.app c stream]) ∧
    ∃ body rest u, bufferBody events = some (body,rest) ∧
      stream = .request (some body) (some false) :: rest ∧
      (authenticateMessage r cache (delivery (headersOf scope.headers) scope.path body) t₁ t₂).run s =
        (.ok (.claims c),u) := by
  unfold sigMiddleware at h ⊢
  dsimp only at h ⊢
  split_ifs at h ⊢
  · exact absurd h (reject_no_app _ _ _ _ _)
  · cases hb : bufferBody events with
    | none =>
      rw [hb] at h
      cases h
    | some p =>
      obtain ⟨body,rest⟩ := p
      rw [hb] at h
      dsimp only at h ⊢
      rcases ha : (authenticateMessage r cache (delivery (headersOf scope.headers) scope.path body)
        t₁ t₂).run s with ⟨e | (c' | x),u⟩
      · rw [ha] at h
        cases h
      · rw [ha] at h
        obtain ⟨rfl,rfl⟩ := (Action.app.injEq ..).mp (List.mem_singleton.1 h)
        exact ⟨rfl,body,rest,u,rfl,rfl,ha⟩
      · rw [ha] at h
        exact absurd h (reject_no_app _ _ _ _ _)

/-- If the app is called it is called once, and what it first receives is the
whole body, which is what its claims were verified for. -/
theorem app_reads_verified (r : Receiver) (cache : Option (ChainCache σ)) (scope : Scope)
    (events : List Event) (t₁ t₂ : DateTime) (s : σ) (c : MessageClaims) (stream : List Event)
    (h : Action.app c stream ∈ (sigMiddleware r cache scope events t₁ t₂ s).1.2) :
    (sigMiddleware r cache scope events t₁ t₂ s).1 = (.returned,[.app c stream]) ∧
    ∃ seen rest, Drained events seen rest ∧
      stream = .request (some (content seen)) (some false) :: rest ∧
      (∀ n, (Replay.mk (content seen) false rest).reads n = stream.take n) ∧
      ∃ o, verifyUnder r.anchor (header (headersOf scope.headers) "valiss-message-token") o = .ok c ∧
        o.payload = some (content seen) ∧ o.audience = some (audience scope.host scope.path) := by
  obtain ⟨hcall,body,rest,u,hb,rfl,ha⟩ := sigMiddleware_app r cache scope events t₁ t₂ s c stream h
  obtain ⟨seen,hd,rfl⟩ := bufferBody_ok events body rest hb
  obtain ⟨key,w,_,hs,_⟩ := (authenticateMessage_ok _ _ _ _ _ _ _ _).1 ha
  obtain ⟨t,chain,hv⟩ := settle_claims _ _ _ _ _ _ _ _ _ hs
  exact ⟨hcall,seen,rest,hd,rfl,fun n => reads_replay n _ _,_,hv,rfl,rfl⟩

theorem app_called (r : Receiver) (cache : Option (ChainCache σ)) (scope : Scope)
    (events : List Event) (body : Bytes) (rest : List Event) (t₁ t₂ : DateTime) (s u : σ)
    (c : MessageClaims) (ht : header (headersOf scope.headers) "valiss-message-token" ≠ [])
    (hb : bufferBody events = some (body,rest))
    (ha : (authenticateMessage r cache (delivery (headersOf scope.headers) scope.path body)
      t₁ t₂).run s = (.ok (.claims c),u)) :
    (sigMiddleware r cache scope events t₁ t₂ s).1 =
      (.returned,[.app c (.request (some body) (some false) :: rest)]) := by
  simp only [sigMiddleware, if_neg ht, hb, ha]

end Model

section Domain
local instance : Platform := domain.ideal

def chunked : List Event :=
  [.request (some (bodyBytes.take 5)) (some true),.request none (some true),
   .request (some (bodyBytes.drop 5)) none,.disconnect]

theorem chunked_read : bufferBody chunked = some (bodyBytes,[.disconnect]) := by
  simp [chunked, bufferBody]

theorem app_reads_widgets : ∃ scope c t₁ t₂,
    (sigMiddleware widgetReceiver (none : Option (ChainCache Unit)) scope chunked t₁ t₂ ()).1 =
      (.returned,[.app c [.request (some bodyBytes) (some false),.disconnect]]) ∧
    ∃ o, verifyUnder widgetReceiver.anchor messageSample.token o = .ok c ∧
      o.payload = some bodyBytes ∧ o.audience = some (lit "api.example.com/v1/widgets") := by
  obtain ⟨headers,_,u,t₁,t₂,c,htok,hhost,hm⟩ := widget_accepted
  obtain ⟨hne,ha⟩ := (middleware_claims _ _ _ _ _ _ _ _ _ _).1 hm
  have hcall := app_called widgetReceiver none ⟨headers,lit "POST",lit "/v1/widgets"⟩ chunked
    bodyBytes [.disconnect] t₁ t₂ () u c hne chunked_read ha
  obtain ⟨_,seen,rest,_,hstream,_,o,ho,hp,haud⟩ := app_reads_verified widgetReceiver none
    ⟨headers,lit "POST",lit "/v1/widgets"⟩ chunked t₁ t₂ () c _
    (by rw [hcall]; exact List.mem_singleton_self _)
  have hbody : bodyBytes = content seen := by
    simp only [List.cons.injEq, Event.request.injEq, Option.some.injEq] at hstream
    exact hstream.1.1
  refine ⟨_,c,t₁,t₂,hcall,o,?_,hbody ▸ hp,?_⟩
  · rw [← htok]
    exact ho
  · rw [haud, Scope.host, hhost]
    rfl

end Domain

end Valiss.BodyReplay
