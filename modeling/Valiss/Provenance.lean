import Valiss.ChainRuns
import Valiss.Destination
import Valiss.KeyringRefinement
import Valiss.MessageSoundness

/-!
# Provenance

What an acceptance rests on under any anchor, a keyring as well as a pinned
key. A receiver reaches its verdict after whatever its cache gave back, so the
provenance of an answered message is shown for every cache and every run.
-/

set_option autoImplicit false

namespace Valiss.Provenance
open Lib.Unicode Lib.Json Lib.Calendar Lib.Fallible Lib.Runs Valiss.Errors Valiss.TokenClaims
open Valiss.Decode Valiss.Verify Valiss.Message Valiss.Chains Valiss.MsgTransport
open Valiss.SigningHistory Valiss.RequestSoundness Valiss.MessageSoundness
open Valiss.KeyringRefinement Valiss.ChainRuns Valiss.Recorded

section Model
variable [Platform]

def Current (c : Claims) (now : DateTime) (skew : TimeDelta) : Prop :=
  c.expired now skew = .ok false ∧ c.notYetValid now skew = .ok false

def Trusted (a : Anchor) (key : Str) (epoch : ℤ) (operator : Option OperatorClaims) : Prop :=
  match a with
  | .pinned k policy => key = k ∧ operator = policy
  | .poisoned _ => False
  | .keyring k => operator = k.get key epoch ∧ operator.isSome = true

theorem anchored_trusted (a : Anchor) (tok : Str) (account : AccountClaims)
    (operator : Option OperatorClaims) (h : anchored a tok = .ok (account,operator)) :
    ∃ key, verifyAccount tok key = .ok account ∧ Trusted a key account.epoch operator := by
  cases a with
  | pinned key policy =>
    simp only [anchored, bind_ok, pure_ok, Prod.mk.injEq] at h
    obtain ⟨_,hv,rfl,rfl⟩ := h
    exact ⟨key,hv,rfl,rfl⟩
  | poisoned e => cases h
  | keyring k =>
    obtain ⟨key,c,hv,hget,rfl⟩ := (anchored_keyring _ _ _ _).1 h
    exact ⟨key,hv,hget.symm,rfl⟩

variable {σ : Type}

/-- Everything an accepted request rests on. -/
structure Entitled (history : List SigningHistory.Call) (v : Verifier σ) (now : DateTime)
    (r : Request) (i : Identity) : Prop where
  account : ∃ key, Trusted v.anchor key i.account.epoch i.operator ∧
    AccountMinted history key i.account
  listed : v.allowlist i.account.id = true
  user : ∀ u ∈ i.user, UserMinted history i.account.subject u
  epochs : ∀ c ∈ i.operator, i.account.epoch = c.epoch ∧ ∀ u ∈ i.user, u.epoch = c.epoch
  current : Current i.account.toClaims now v.skew ∧
    (∀ u ∈ i.user, Current u.toClaims now v.skew) ∧ ∀ c ∈ i.operator, Current c.toClaims now v.skew
  request : (i.bearer = true ∧ r.timestamp = [] ∧ r.signature = []) ∨
    Requested history i.subject r.timestamp r.context

theorem checked_entitled (inj : Function.Injective Platform.sha256)
    (history : List SigningHistory.Call) (ideal : IdealSignatures history) (v : Verifier σ)
    (now : DateTime) (r : Request) (i : Identity) (e : Option (Str × DateTime))
    (h : checked v now r = .ok (i,e)) : Entitled history v now r i := by
  obtain ⟨tok,_,account,operator,ha,hchain,hpos⟩ := (checked_ok _ _ _ _).1 h
  obtain ⟨rfl,rfl,hpolicy,hacc,huser⟩ := (checkChain_ok _ _ _ _ _ _).1 hchain
  obtain ⟨key,hv,htrust⟩ := anchored_trusted _ _ _ _ ha
  obtain ⟨hlate,hearly,hlisted⟩ := (checkAccount_ok _ _ _ _).1 hacc
  have husers : ∀ x ∈ i.user, UserOk v.toOptions now r i.account i.operator x := by
    intro x hx
    rcases (checkUser_ok _ _ _ _ _ _).1 huser with ⟨_,hn⟩ | ⟨_,y,hy,hok⟩
    · rw [hn] at hx
      cases hx
    · rw [hy] at hx
      obtain rfl := Option.mem_some.1 hx
      exact hok
  constructor
  · exact ⟨key,htrust,verifyAccount_minted history ideal _ _ _ hv⟩
  · exact hlisted
  · exact fun x hx => verifyUser_minted history ideal _ _ _ (husers x hx).1
  · exact fun c hc' => ⟨(hpolicy c hc').2.2,fun x hx => (husers x hx).2.1 c hc'⟩
  · exact ⟨⟨hlate,hearly⟩,fun x hx => (husers x hx).2.2,
      fun c hc' => ⟨(hpolicy c hc').1,(hpolicy c hc').2.1⟩⟩
  · rcases possession_ok _ _ _ _ _ hpos with ⟨ht,hs,hb,_⟩ | ⟨hsig,_⟩
    · exact Or.inl ⟨hb,ht,hs⟩
    · exact Or.inr (verifySignature_signed_by inj history ideal _ _ _ _ _ _ hsig)

theorem verify_entitled (inj : Function.Injective Platform.sha256)
    (history : List SigningHistory.Call) (ideal : IdealSignatures history) (v : Verifier σ)
    (now : DateTime) (r : Request) (s u : σ) (i : Identity)
    (h : (verify v now r).run s = (.ok i,u)) : Entitled history v now r i := by
  obtain ⟨e,hc,_⟩ := (verify_ok _ _ _ _ _ _).1 h
  exact checked_entitled inj history ideal v now r i e hc

def TrustedFor (a : TrustAnchor) (operatorToken : Option Str) (key : Str) (epoch : ℤ)
    (operator : Option OperatorClaims) : Prop :=
  match a with
  | .pinned k => key = k ∧ ∀ t ∈ operatorToken, ∃ c, verifyOperator t k = .ok c ∧ operator = some c
  | .keyring k => operator = k.get key epoch ∧ operator.isSome = true

theorem messageAnchor_trusted (a : TrustAnchor) (operatorToken : Option Str) (part : Json)
    (account : AccountClaims) (operator : Option OperatorClaims)
    (h : messageAnchor a operatorToken part = .ok (account,operator)) :
    ∃ tok key, verifyAccount tok key = .ok account ∧
      TrustedFor a operatorToken key account.epoch operator := by
  cases a with
  | pinned key =>
    obtain ⟨⟨tok,_,hv⟩,hop⟩ := pinnedAnchor_ok _ _ _ _ _ h
    exact ⟨tok,key,hv,rfl,hop⟩
  | keyring k =>
    have hnone : operatorToken = none := by
      simp only [messageAnchor, bind_ok, raiseIf_ok] at h
      obtain ⟨_,hn,_⟩ := h
      simpa using hn
    rw [hnone] at h
    obtain ⟨tok,key,c,_,hv,hget,rfl⟩ := (messageAnchor_keyring _ _ _ _).1 h
    exact ⟨tok,key,hv,hget.symm,rfl⟩

/-- Everything an answered message rests on. -/
structure Authentic (history : List SigningHistory.Call) (r : Receiver) (m : Delivery)
    (now : DateTime) (c : MessageClaims) : Prop where
  message : ∃ chain, MessageMinted history m.audience (checksum m.body) chain c
  subject : c.user.subject = c.subject
  user : UserMinted history c.account.subject c.user
  account : ∃ key, TrustedFor r.anchor r.options.operatorToken key c.account.epoch c.operator ∧
    AccountMinted history key c.account
  epochs : c.epoch = c.account.epoch ∧ c.epoch = c.user.epoch ∧ ∀ p ∈ c.operator, c.epoch = p.epoch
  current : Current c.toClaims now r.options.skew ∧
    Current c.account.toClaims now r.options.skew ∧ Current c.user.toClaims now r.options.skew ∧
      ∀ p ∈ c.operator, Current p.toClaims now r.options.skew

/-- Whatever chain is supplied, claims come of a verification that goes back to
the calls of the key holders. -/
theorem runVerify_authentic (history : List SigningHistory.Call) (ideal : IdealSignatures history)
    (r : Receiver) (m : Delivery) (hne : m.audience ≠ []) (t : DateTime) (chain : Option Chain)
    (c : MessageClaims) (h : runVerify r m t chain = .ok c) :
    Authentic history r m (r.options.now.getD t) c := by
  obtain ⟨d,hd,hchain,hw,hbind⟩ := (verifyUnder_ok _ _ _ _).1 h
  obtain ⟨ca,ut,account,operator,user,_,hanchor,huser,hsub,hep,rfl⟩ :=
    (messageChain_ok _ _ _ _).1 hchain
  obtain ⟨tok,key,hacc,htrust⟩ := messageAnchor_trusted _ _ _ _ _ hanchor
  obtain ⟨hpol,hea,heu⟩ := (messageEpochs_ok _ _ _ _ _ _ _).1 hep
  obtain ⟨hwa,hwu,hwm⟩ := (messageWindows_ok _ _ _ _).1 hw
  obtain ⟨haud,hsum,_⟩ := (messageBindings_ok _ _ _).1 hbind
  obtain ⟨kp,a,s,ch,o,made,hmem,hkey,hrun,hc,rfl,rfl,_⟩ := messageToken_minted history ideal _ d hd
  have hself := ((messageToken_ok _ _).1 hd).2.2.1
  have hda : d.audience = m.audience := haud.resolve_left hne
  have hds : d.checksum = checksum m.body := (hsum m.body rfl).2
  constructor
  · rw [hda, hds] at hmem hrun
    exact ⟨ch,kp,o,made,d,hmem,hkey.trans hself,hrun,hc,rfl,hda,hds,rfl⟩
  · exact hsub.trans hself
  · exact verifyUser_minted history ideal _ _ _ huser
  · exact ⟨key,htrust,verifyAccount_minted history ideal _ _ _ hacc⟩
  · exact ⟨hea,heu,fun p hp => (hpol p hp).2.2⟩
  · exact ⟨hwm,hwa,hwu,fun p hp => ⟨(hpol p hp).1,(hpol p hp).2.1⟩⟩

variable {cache : Option (ChainCache σ)}

/-- The readings a call has taken lie between two instants, and so does that of
the verification its claims come of. -/
def Between (start stop : ℤ) : Phase → Prop
  | .waiting _ | .looked _ | .failed _ _ | .answered _ _ _ (.reject _) => True
  | .timed _ t => start ≤ t.micros ∧ t.micros ≤ stop
  | .ready _ t₁ t₂ => (start ≤ t₁.micros ∧ t₁.micros ≤ stop) ∧
      start ≤ t₂.micros ∧ t₂.micros ≤ stop
  | .answered l _ _ (.claims c) => ∃ t chain, (start ≤ t.micros ∧ t.micros ≤ stop) ∧
      runVerify l.call.receiver l.call.delivery t chain = .ok c

theorem Between.later {start stop stop' : ℤ} {p : Phase} (h : Between start stop p)
    (hs : stop ≤ stop') : Between start stop' p := by
  cases p with
  | waiting q => trivial
  | looked l => trivial
  | failed q e => trivial
  | timed l t => exact ⟨h.1,h.2.trans hs⟩
  | ready l t₁ t₂ => exact ⟨⟨h.1.1,h.1.2.trans hs⟩,h.2.1,h.2.2.trans hs⟩
  | answered l t₁ t₂ out =>
    cases out with
    | reject x => trivial
    | claims c =>
      obtain ⟨t,chain,ht,hv⟩ := h
      exact ⟨t,chain,⟨ht.1,ht.2.trans hs⟩,hv⟩

/-- The clock has not gone back, and the call has read it only since. -/
def Since (start : ℤ) (k : ℕ) (q : ChainRuns.Call) (w : World σ) : Prop :=
  start ≤ w.clock.micros ∧
    ∃ p, w.calls k = some p ∧ p.call = q ∧ Between start w.clock.micros p

theorem since_move (start : ℤ) (k j : ℕ) (q : ChainRuns.Call) (w : World σ) (p : Phase)
    (h : Since start k q w) (hp : ∀ x, w.calls j = some x → p.call = x.call ∧
      (Between start w.clock.micros x → Between start w.clock.micros p)) :
    Since start k q (w.move j p) := by
  obtain ⟨hle,x,hx,hq,hb⟩ := h
  refine ⟨hle,?_⟩
  by_cases hj : k = j
  · subst hj
    obtain ⟨hcall,hbetween⟩ := hp x hx
    exact ⟨p,by simp [World.move],hcall.trans hq,hbetween hb⟩
  · exact ⟨x,by simpa [World.move, hj] using hx,hq,hb⟩

theorem settle_between (start stop : ℤ) (l : Looked) (t₁ t₂ : DateTime) (hasCache : Bool)
    (out : Outcome) (write : Write) (h : Between start stop (.ready l t₁ t₂))
    (hs : settle l.call.receiver hasCache l.call.delivery l.key l.found t₁ t₂ = .ok (out,write)) :
    Between start stop (.answered l t₁ t₂ out) := by
  cases out with
  | reject x => trivial
  | claims c =>
    obtain ⟨t,chain,ht,hv⟩ := settle_verified _ _ _ _ _ _ _ _ _ hs
    rcases ht with rfl | rfl
    · exact ⟨t,chain,h.1,hv⟩
    · exact ⟨t,chain,h.2,hv⟩

theorem since_step (start : ℤ) (k : ℕ) (q : ChainRuns.Call) (w : World σ) (e : Event)
    (u : World σ) (_ : True) (h : step cache w e = some u) (hw : Since start k q w) :
    Since start k q u := by
  cases e with
  | tick t =>
    obtain ⟨hle,rfl⟩ := (step_tick _ _ _).1 h
    obtain ⟨hs,p,hp,hq,hb⟩ := hw
    exact ⟨hs.trans hle,p,hp,hq,hb.later hle⟩
  | arrive j r =>
    obtain ⟨hn,rfl⟩ := (step_arrive _ _ _ _).1 h
    exact since_move start k j q w _ hw (by simp [hn])
  | look j =>
    obtain ⟨r,hj,rfl⟩ := (step_look _ _ _).1 h
    unfold World.look
    split
    next => exact since_move start k j q w _ hw (by simp [hj, Phase.call, Between])
    next =>
      apply since_move start k j q
      · exact hw
      simp [hj, Phase.call, Between]
  | readFirst j =>
    obtain ⟨l,hj,rfl⟩ := (step_readFirst _ _ _).1 h
    apply since_move start k j q w _ hw
    simp [hj, Phase.call, Between, hw.1]
  | readSecond j =>
    obtain ⟨l,t,hj,rfl⟩ := (step_readSecond _ _ _).1 h
    apply since_move start k j q w _ hw
    simp [hj, Phase.call, Between, hw.1]
  | finish j =>
    obtain ⟨l,t₁,t₂,hj,rfl⟩ := (step_finish _ _ _).1 h
    unfold World.finish
    split
    next => exact since_move start k j q w _ hw (by simp [hj, Phase.call, Between])
    next out write hs =>
      apply since_move start k j q
      · exact hw
      intro x hx
      rw [show w.calls j = some x from hx, Option.some.injEq] at hj
      subst hj
      exact ⟨rfl,fun hb => settle_between _ _ l t₁ t₂ _ out write hb hs⟩

/-- However the cache behaves and whatever it held, claims answered to a call with a
destination are authentic at the pinned instant, or else at one between its arrival and
the present. -/
theorem answers_authentic (history : List SigningHistory.Call) (ideal : IdealSignatures history)
    (cache : Option (ChainCache σ)) (w u : World σ) (es : List Event) (k : ℕ) (q : ChainRuns.Call)
    (hk : w.calls k = some (.waiting q)) (h : run (step cache) w es = some u) (l : Looked)
    (t₁ t₂ : DateTime) (c : MessageClaims)
    (ha : u.calls k = some (.answered l t₁ t₂ (.claims c))) (hne : q.delivery.audience ≠ []) :
    ∃ t, w.clock.micros ≤ t.micros ∧ t.micros ≤ u.clock.micros ∧
      Authentic history q.receiver q.delivery (q.receiver.options.now.getD t) c := by
  have hstart : Since w.clock.micros k q w := ⟨le_refl _,_,hk,rfl,trivial⟩
  obtain ⟨_,p,hp,rfl,hb⟩ := run_invariant (step cache) (fun _ _ => True)
    (Since w.clock.micros k q) (since_step w.clock.micros k q) w u es
    (meets_of_forall _ _ _ (fun _ _ _ => trivial) _) h hstart
  rw [ha, Option.some.injEq] at hp
  subst hp
  obtain ⟨t,chain,ht,hv⟩ := hb
  exact ⟨t,ht.1,ht.2,runVerify_authentic history ideal _ _ hne t chain c hv⟩

end Model

section Widgets
local instance : Platform := domain.ideal

/-- A cache that gives everyone the same wrong chain and keeps nothing. -/
def hostileCache : ChainCache Unit where
  get _ s := (some (lit "a",lit "b"),s)
  put _ _ s := s
  delete _ s := s

def widgetCall : ChainRuns.Call := ⟨Destination.widgetReceiver,Widgets.bundled⟩

def widgetArrived : World Unit := (World.start requestedAt ()).move 0 (.waiting widgetCall)

theorem answers_authentic_widgets : ∃ es u l c, run (step (some hostileCache)) widgetArrived es =
      some u ∧ u.calls 0 = some (.answered l requestedAt requestedAt (.claims c)) ∧
    ∃ t, widgetArrived.clock.micros ≤ t.micros ∧ t.micros ≤ u.clock.micros ∧
      Authentic domainHistory widgetCall.receiver widgetCall.delivery
        (widgetCall.receiver.options.now.getD t) c := by
  have hrun := Widgets.widget_run Destination.widgetReceiver.options Widgets.bundled requestedAt _ _
    rfl rfl rfl rfl Widgets.widget_operatorPolicy (Or.inr rfl) (by decide) (by decide) (by decide)
  have hmessage := authenticateMessage_detached Destination.widgetReceiver (some hostileCache) _
    requestedAt requestedAt () _ Widgets.bundled_detached hrun
  obtain ⟨u,l,hu,ha,_⟩ := authenticate_alone (World.start requestedAt ()) 0 widgetCall requestedAt
    requestedAt _ _ rfl (le_refl _) (le_refl _) hmessage
  obtain ⟨x,hx,hu⟩ := (run_cons _ _ _ _ _).1 hu
  obtain rfl : widgetArrived = x := ((step_arrive _ _ _ _).1 hx).2
  have hne : widgetCall.delivery.audience ≠ [] := by
    rw [show widgetCall.delivery.audience = destination from rfl]
    decide
  exact ⟨_,u,l,_,hu,ha,answers_authentic domainHistory domain_ideal (some hostileCache)
    widgetArrived u _ 0 widgetCall rfl hu l requestedAt requestedAt _ ha hne⟩

end Widgets

end Valiss.Provenance
