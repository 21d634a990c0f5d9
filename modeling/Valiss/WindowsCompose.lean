import Mathlib.Data.Int.ConditionallyCompleteOrder
import Valiss.Lib.Windows
import Valiss.Recorded

/-!
# Validity windows compose

Of everything a verification checks only the windows and the timestamp look at
the instant. What was accepted once is accepted at exactly the instants that
all the windows have in common, each widened by the skew.
-/

set_option autoImplicit false

namespace Valiss.WindowsCompose
open Lib.Unicode Lib.Json Lib.Calendar Lib.IsoTime Lib.Fallible Lib.Windows
open Valiss.Errors Valiss.TokenClaims Valiss.Decode Valiss.Operators Valiss.RequestSignature
open Valiss.Verify Valiss.Message Valiss.Recorded Recorded.Widgets

/-- The microseconds at which a token is inside its window, widened by the skew. -/
def window (skew : TimeDelta) (c : Claims) : Set ℤ :=
  widened skew (c.notBefore.map DateTime.micros) (c.expiresAt.map DateTime.micros)

def common (skew : TimeDelta) (levels : List Claims) : Set ℤ := ⋂ c ∈ levels, window skew c

section Model
variable [Platform]

def Passes (skew : TimeDelta) (now : DateTime) (c : Claims) : Prop :=
  c.expired now skew = .ok false ∧ c.notYetValid now skew = .ok false

theorem passes_iff (skew : TimeDelta) (hs : (0 : ℤ) ≤ skew) (now : DateTime)
    (hlow : minMicros ≤ now.micros-skew) (hhigh : now.micros+skew ≤ maxMicros) (c : Claims) :
    Passes skew now c ↔ now.micros ∈ window skew c := by
  have hl := now.low
  have hh := now.high
  have hearly : ∀ x : ℤ, (∃ t : DateTime, t.micros = now.micros-skew ∧ t.micros ≤ x) ↔
      now.micros-skew ≤ x := by
    intro x
    constructor
    · rintro ⟨t,ht,hle⟩
      exact ht ▸ hle
    · intro hle
      exact ⟨⟨now.micros-skew,hlow,by omega⟩,rfl,hle⟩
  have hlate : ∀ x : ℤ, (∃ t : DateTime, t.micros = now.micros+skew ∧ x ≤ t.micros) ↔
      x ≤ now.micros+skew := by
    intro x
    constructor
    · rintro ⟨t,ht,hle⟩
      exact ht ▸ hle
    · intro hle
      exact ⟨⟨now.micros+skew,by omega,hhigh⟩,rfl,hle⟩
  simp only [Passes, expired_false, notYetValid_false, hearly, hlate, window, mem_widened,
    Option.mem_map, forall_exists_index, and_imp, forall_apply_eq_imp_iff₂]

theorem common_iff (skew : TimeDelta) (hs : (0 : ℤ) ≤ skew) (now : DateTime)
    (hlow : minMicros ≤ now.micros-skew) (hhigh : now.micros+skew ≤ maxMicros)
    (levels : List Claims) :
    (∀ c ∈ levels, Passes skew now c) ↔ now.micros ∈ common skew levels := by
  simp only [common, Set.mem_iInter, passes_iff skew hs now hlow hhigh]

def requestLevels (i : Identity) : List Claims :=
  i.operator.toList.map OperatorClaims.toClaims ++ i.account.toClaims ::
    i.user.toList.map UserClaims.toClaims

variable {σ : Type}

theorem requestLevels_iff (P : Claims → Prop) (i : Identity) : (∀ c ∈ requestLevels i, P c) ↔
    (∀ c ∈ i.operator, P c.toClaims) ∧ P i.account.toClaims ∧ ∀ c ∈ i.user, P c.toClaims := by
  simp only [requestLevels, List.forall_mem_append, List.forall_mem_cons, List.forall_mem_map,
    Option.mem_toList, Option.mem_def]

theorem user_again (o : Options σ) (before now : DateTime) (r : Request) (account : AccountClaims)
    (operator : Option OperatorClaims) (user : Option UserClaims)
    (h : checkUser o before r account operator = .ok user) (again : Option UserClaims) :
    checkUser o now r account operator = .ok again ↔
      again = user ∧ ∀ c ∈ user, Passes o.skew now c.toClaims := by
  rw [checkUser_ok] at h ⊢
  rcases h with ⟨hr,rfl⟩ | ⟨hr,c,rfl,hv,he,_⟩
  · simp [hr]
  · constructor
    · rintro (⟨hn,_⟩ | ⟨_,c',rfl,hv',_,hw⟩)
      · exact absurd hn hr
      · rw [hv, Except.ok.injEq] at hv'
        subst hv'
        refine ⟨rfl,fun x hx => ?_⟩
        obtain rfl := Option.mem_some.1 hx
        exact hw
    · rintro ⟨rfl,hw⟩
      exact Or.inr ⟨hr,c,rfl,hv,he,hw c rfl⟩

/-- A chain that passed once passes whenever all of its windows do. -/
theorem chain_again (o : Options σ) (before now : DateTime) (r : Request) (account : AccountClaims)
    (operator : Option OperatorClaims) (i : Identity)
    (h : checkChain o before r account operator = .ok i) (j : Identity) :
    checkChain o now r account operator = .ok j ↔
      j = i ∧ ∀ c ∈ requestLevels i, Passes o.skew now c := by
  obtain ⟨rfl,rfl,hp,hacc,hu⟩ := (checkChain_ok _ _ _ _ _ _).1 h
  have hallow := ((checkAccount_ok _ _ _ _).1 hacc).2.2
  rw [checkChain_ok, user_again o before now r _ _ _ hu, checkAccount_ok, requestLevels_iff]
  constructor
  · rintro ⟨ha,ho,hp',⟨hx,hn,_⟩,huser,hw⟩
    refine ⟨?_,fun c hc => ⟨(hp' c hc).1,(hp' c hc).2.1⟩,⟨hx,hn⟩,hw⟩
    cases i
    cases j
    simp only at ha ho huser
    subst ha ho huser
    rfl
  · rintro ⟨rfl,hop,⟨hx,hn⟩,hw⟩
    exact ⟨rfl,rfl,fun c hc => ⟨(hop c hc).1,(hop c hc).2,(hp c hc).2.2⟩,⟨hx,hn,hallow⟩,rfl,hw⟩

theorem signature_again (key ts sig : Str) (context : Bytes) (before now : DateTime)
    (skew : TimeDelta) (h : verifySignature key ts sig context before skew = .ok ()) :
    ∃ t, fromIso ts = some t ∧ (verifySignature key ts sig context now skew = .ok () ↔
      now.micros ∈ Set.Icc (t-skew) (t+skew)) := by
  obtain ⟨hshape,⟨t,ht,_⟩,hsig⟩ := (verifySignature_ok _ _ _ _ _ _ _).1 h
  refine ⟨t,ht,?_⟩
  rw [verifySignature_ok, mem_around]
  constructor
  · rintro ⟨_,⟨t',ht',hd⟩,_⟩
    rw [ht, Option.some.injEq] at ht'
    exact ht' ▸ hd
  · intro hd
    exact ⟨hshape,⟨t,ht,hd⟩,hsig⟩

theorem possession_signed (o : Options σ) (now : DateTime) (r : Request) (i : Identity)
    (hr : ¬ (r.timestamp = [] ∧ r.signature = [])) (hc : o.replayCache = none)
    (e : Option (Str × DateTime)) : possession o now r i = .ok e ↔
      e = none ∧ verifySignature i.subject r.timestamp r.signature r.context now o.skew = .ok () := by
  rw [possession, if_neg hr, hc]
  simp only [Option.isSome_none, Bool.false_eq_true, if_false, bind_ok, pure_ok]
  constructor
  · rintro ⟨_,hv,rfl⟩
    exact ⟨rfl,hv⟩
  · rintro ⟨rfl,hv⟩
    exact ⟨(),hv,rfl⟩

theorem checked_again (v : Verifier σ) (before now : DateTime) (r : Request) (i : Identity)
    (e : Option (Str × DateTime)) (hr : ¬ (r.timestamp = [] ∧ r.signature = []))
    (hc : v.replayCache = none) (h : checked v before r = .ok (i,e)) :
    ∃ t, fromIso r.timestamp = some t ∧ ∀ p, checked v now r = .ok p ↔ p = (i,e) ∧
      (∀ c ∈ requestLevels i, Passes v.skew now c) ∧
      now.micros ∈ Set.Icc (t-v.skew) (t+v.skew) := by
  obtain ⟨token,htoken,account,operator,ha,hchain,hpos⟩ := (checked_ok _ _ _ _).1 h
  obtain ⟨rfl,hv⟩ := (possession_signed _ _ _ _ hr hc _).1 hpos
  obtain ⟨t,ht,hsig⟩ := signature_again _ _ _ _ before now _ hv
  refine ⟨t,ht,fun p => ?_⟩
  rw [checked_ok]
  constructor
  · rintro ⟨token',htoken',account',operator',ha',hchain',hpos'⟩
    rw [htoken, Except.ok.injEq] at htoken'
    subst htoken'
    rw [ha, Except.ok.injEq, Prod.mk.injEq] at ha'
    obtain ⟨rfl,rfl⟩ := ha'
    obtain ⟨hi,hw⟩ := (chain_again _ before now _ _ _ _ hchain _).1 hchain'
    obtain ⟨he,hv'⟩ := (possession_signed _ _ _ _ hr hc _).1 hpos'
    rw [hi] at hv'
    exact ⟨Prod.ext hi he,hw,hsig.1 hv'⟩
  · rintro ⟨rfl,hw,hd⟩
    exact ⟨token,htoken,account,operator,ha,(chain_again _ before now _ _ _ _ hchain _).2 ⟨rfl,hw⟩,
      (possession_signed _ _ _ _ hr hc _).2 ⟨rfl,hsig.2 hd⟩⟩

theorem verify_again (v : Verifier σ) (before now : DateTime) (r : Request) (s u : σ)
    (i : Identity) (hr : ¬ (r.timestamp = [] ∧ r.signature = [])) (hc : v.replayCache = none)
    (h : (verify v before r).run s = (.ok i,u)) : ∃ t, fromIso r.timestamp = some t ∧
      ((∃ j w, (verify v now r).run s = (.ok j,w)) ↔
        (∀ c ∈ requestLevels i, Passes v.skew now c) ∧
        now.micros ∈ Set.Icc (t-v.skew) (t+v.skew)) := by
  obtain ⟨e,hk,w,hs,hh⟩ := (verify_ok _ _ _ _ _ _).1 h
  obtain ⟨t,ht,hagain⟩ := checked_again v before now r i e hr hc hk
  refine ⟨t,ht,?_⟩
  constructor
  · rintro ⟨j,x,hx⟩
    obtain ⟨e',hk',_⟩ := (verify_ok _ _ _ _ _ _).1 hx
    exact ((hagain _).1 hk').2
  · intro hw
    exact ⟨i,u,(verify_ok _ _ _ _ _ _).2 ⟨e,(hagain _).2 ⟨rfl,hw⟩,w,hs,hh⟩⟩

def messageLevels (c : MessageClaims) : List Claims :=
  c.operator.toList.map OperatorClaims.toClaims ++
    [c.account.toClaims,c.user.toClaims,c.toClaims]

theorem messageLevels_iff (P : Claims → Prop) (c : MessageClaims) :
    (∀ x ∈ messageLevels c, P x) ↔ (∀ x ∈ c.operator, P x.toClaims) ∧ P c.account.toClaims ∧
      P c.user.toClaims ∧ P c.toClaims := by
  simp only [messageLevels, List.forall_mem_append, List.forall_mem_cons, List.forall_mem_map,
    Option.mem_toList, Option.mem_def, List.not_mem_nil, false_implies, implies_true, and_true]

theorem messageChain_again (a : TrustAnchor) (o : MessageOptions) (now : DateTime) (d : Decoded)
    (c : MessageClaims) (h : messageChain a o d = .ok c) (c' : MessageClaims) :
    messageChain a {o with now := now} d = .ok c' ↔
      c' = c ∧ ∀ x ∈ c.operator, Passes o.skew now x.toClaims := by
  obtain ⟨part,tok,account,operator,user,hsel,ha,hu,hi,he,rfl⟩ := (messageChain_ok _ _ _ _).1 h
  obtain ⟨hop,hea,heu⟩ := (messageEpochs_ok _ _ _ _ _ _ _).1 he
  rw [messageChain_ok]
  constructor
  · rintro ⟨part',tok',account',operator',user',hsel',ha',hu',_,he',rfl⟩
    rw [hsel, Except.ok.injEq, Prod.mk.injEq, Value.str.injEq] at hsel'
    obtain ⟨rfl,rfl⟩ := hsel'
    rw [ha, Except.ok.injEq, Prod.mk.injEq] at ha'
    obtain ⟨rfl,rfl⟩ := ha'
    rw [hu, Except.ok.injEq] at hu'
    subst hu'
    obtain ⟨hop',_⟩ := (messageEpochs_ok _ _ _ _ _ _ _).1 he'
    exact ⟨rfl,fun x hx => ⟨(hop' x hx).1,(hop' x hx).2.1⟩⟩
  · rintro ⟨rfl,hw⟩
    exact ⟨part,tok,account,operator,user,hsel,ha,hu,hi,(messageEpochs_ok _ _ _ _ _ _ _).2
      ⟨fun x hx => ⟨(hw x hx).1,(hw x hx).2,(hop x hx).2.2⟩,hea,heu⟩,rfl⟩

theorem verifyMessage_again (tok : Str) (operatorPubKey : Option Str) (keyring : Option Keyring)
    (o : MessageOptions) (now : DateTime) (c : MessageClaims)
    (h : verifyMessage tok operatorPubKey keyring o = .ok c) :
    (∃ c', verifyMessage tok operatorPubKey keyring {o with now := now} = .ok c') ↔
      ∀ x ∈ messageLevels c, Passes o.skew now x := by
  obtain ⟨a,ha,hv⟩ := (bind_ok _ _ _).1 h
  obtain ⟨d,hd,hchain,_,hb⟩ := (verifyUnder_ok _ _ _ _).1 hv
  have hrun : ∀ c', verifyMessage tok operatorPubKey keyring {o with now := now} = .ok c' ↔
      verifyUnder a tok {o with now := now} = .ok c' := by
    intro c'
    rw [verifyMessage, ha, ok_bind]
  simp only [hrun, verifyUnder_ok, messageLevels_iff]
  constructor
  · rintro ⟨c',d',hd',hchain',hw,_⟩
    rw [hd, Except.ok.injEq] at hd'
    subst hd'
    obtain ⟨rfl,hop⟩ := (messageChain_again _ _ _ _ _ hchain _).1 hchain'
    obtain ⟨hacc,huser,hown⟩ := (messageWindows_ok _ _ _ _).1 hw
    exact ⟨hop,hacc,huser,hown⟩
  · rintro ⟨hop,hacc,huser,hown⟩
    exact ⟨c,d,hd,(messageChain_again _ _ _ _ _ hchain _).2 ⟨rfl,hop⟩,
      (messageWindows_ok _ _ _ _).2 ⟨hacc,huser,hown⟩,hb⟩

/-- Accepted at one instant, a signed request or a message is accepted at another
exactly when it lies in all the windows widened by the skew, and around the
request's timestamp. -/
theorem windows_compose (skew : TimeDelta) (hs : (0 : ℤ) ≤ skew) (now : DateTime)
    (hlow : minMicros ≤ now.micros-skew) (hhigh : now.micros+skew ≤ maxMicros) :
    (∀ {σ : Type} (v : Verifier σ) (before : DateTime) (r : Request) (s u : σ) (i : Identity),
      v.skew = skew → v.replayCache = none → ¬ (r.timestamp = [] ∧ r.signature = []) →
      (verify v before r).run s = (.ok i,u) → ∃ t, fromIso r.timestamp = some t ∧
        ((∃ j w, (verify v now r).run s = (.ok j,w)) ↔
          now.micros ∈ common skew (requestLevels i) ∩ Set.Icc (t-skew) (t+skew))) ∧
    (∀ (tok : Str) (operatorPubKey : Option Str) (keyring : Option Keyring) (o : MessageOptions)
      (c : MessageClaims), o.skew = skew → verifyMessage tok operatorPubKey keyring o = .ok c →
        ((∃ c', verifyMessage tok operatorPubKey keyring {o with now := now} = .ok c') ↔
          now.micros ∈ common skew (messageLevels c))) := by
  have hcommon := common_iff skew hs now hlow hhigh
  constructor
  · rintro σ v before r s u i rfl hc hr h
    obtain ⟨t,ht,hagain⟩ := verify_again v before now r s u i hr hc h
    refine ⟨t,ht,?_⟩
    rw [hagain, Set.mem_inter_iff, hcommon]
  · rintro tok operatorPubKey keyring o c rfl h
    rw [verifyMessage_again tok operatorPubKey keyring o now c h, hcommon]

end Model

section Widgets
local instance : Platform := domain.ideal

def widgetVerifier : Verifier Unit where
  allowlist _ := true
  skew := 120000000
  resolver := none
  replayCache := none
  validators := []
  extensionTypes := []
  anchor := .pinned operatorKey none

def widgetDelivery : MessageOptions where
  now := requestedAt
  skew := 120000000
  chain := some widgetChain

theorem lastInstant_low : minMicros ≤ requestedAt.micros+120000000 := by decide

theorem lastInstant_high : requestedAt.micros+120000000 ≤ maxMicros := by decide

def lastInstant : DateTime := ⟨requestedAt.micros+120000000,lastInstant_low,lastInstant_high⟩

theorem request_accepted : (verify widgetVerifier requestedAt widgetRequest).run () =
    (.ok (widgetIdentity none),()) := by
  have hk := widget_checked widgetVerifier requestedAt none (widget_pinned none) (Or.inl rfl) rfl
    (by decide)
    (by decide) requestedAt (by decide)
  exact (verify_ok _ _ _ _ _ _).2 ⟨none,hk,(),rfl,rfl⟩

theorem message_accepted : verifyMessage messageSample.token (some operatorKey) none
    widgetDelivery = .ok (widgetMessage none) := by
  rw [verifyMessage_pinned]
  exact widget_delivered widgetDelivery none rfl (Or.inl rfl) rfl (by decide) (by decide)
    (by decide) (widget_bindings _ none (Or.inl rfl) (by simp [widgetDelivery]))

/-- The request and the message are still accepted at the request's last instant. -/
theorem windows_compose_widgets :
    (∃ j w, (verify widgetVerifier lastInstant widgetRequest).run () = (.ok j,w)) ∧
    ∃ c, verifyMessage messageSample.token (some operatorKey) none
      {widgetDelivery with now := lastInstant} = .ok c := by
  obtain ⟨hrequest,hmessage⟩ := windows_compose 120000000 (by decide) lastInstant (by decide)
    (by decide)
  have hlevel : ∀ c : Claims, c.notBefore = none → c.expiresAt = none →
      lastInstant.micros ∈ window 120000000 c := by
    intro c hn he
    simp [window, hn, he, widened, between_none]
  constructor
  · obtain ⟨t,ht,hagain⟩ := hrequest widgetVerifier requestedAt widgetRequest () () _ rfl rfl
      widget_signed request_accepted
    have hstamp : fromIso widgetRequest.timestamp = some requestedAt.micros := by decide +kernel
    rw [hstamp, Option.some.injEq] at ht
    subst ht
    refine hagain.2 ⟨?_,by decide⟩
    simp only [common, Set.mem_iInter, requestLevels_iff]
    refine ⟨by simp [widgetIdentity],hlevel (claimsOf accountRead) rfl rfl,?_⟩
    intro c hc
    obtain rfl := Option.mem_some.1 hc
    exact hlevel (claimsOf userRead) rfl rfl
  · refine (hmessage messageSample.token (some operatorKey) none widgetDelivery _ rfl
      message_accepted).2 ?_
    simp only [common, Set.mem_iInter, messageLevels_iff]
    refine ⟨by simp [widgetMessage, messageClaims],hlevel (claimsOf accountRead) rfl rfl,
      hlevel (claimsOf userRead) rfl rfl,?_⟩
    have hn : (claimsOf messageRead).notBefore = none := rfl
    have hx : (claimsOf messageRead).expiresAt =
        some ⟨1893456060*1000000,by decide,by decide⟩ := rfl
    show lastInstant.micros ∈ window 120000000 (claimsOf messageRead)
    rw [window, hn, hx, mem_widened]
    exact ⟨by simp; decide,by simp⟩

end Widgets

end Valiss.WindowsCompose
