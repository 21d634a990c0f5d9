import Valiss.MsgTransport
import Valiss.Raising
import Valiss.TokenRoundTrip

/-!
# One exchange between emitter and receiver

What the receiver makes of an emitter's message, with and without the detached
chain. A bare message is accepted under the chain that was found, or answered
with the request for the chain; what is found need not be the emitter's.
-/

set_option autoImplicit false

namespace Valiss.Exchange
open Lib.Unicode Lib.Base64 Lib.Json Lib.Calendar Lib.Fallible Valiss.Errors Valiss.Nkeys
open Valiss.TokenClaims Valiss.Mint Valiss.Decode Valiss.Verify Valiss.Message Valiss.Chains
open Valiss.Credentials Valiss.MsgTransport Valiss.Raising Valiss.TokenRoundTrip

variable [Platform]

/-- Credentials that pass `minter`, with the key pair and epoch it returns. -/
structure Emitter where
  creds : Creds
  user : KeyPair
  epoch : ℤ
  minted : minter creds = .ok (user,epoch)

def Emitter.chain (e : Emitter) : Chain := (e.creds.accountToken,e.creds.userToken)

def Emitter.key (e : Emitter) : Str := e.user.publicKey

structure Minted (e : Emitter) where
  audience : Str
  body : Bytes
  ttl : TimeDelta
  now : DateTime
  expiry : DateTime
  token : Str
  addressed : audience ≠ []
  expires : now.plus ttl = some expiry
  issued : issueMessage e.user audience (checksum body) none
    {ttl := some ttl,epoch := e.epoch,now := now} = .ok token
  readable : tsMin ≤ timestampInt now ∧ timestampInt expiry ≤ tsMax ∧
    timestampInt now ≤ tsMax ∧ tsMin ≤ timestampInt expiry

variable {e : Emitter}

def Minted.bare (m : Minted e) : Delivery := ⟨m.token,m.body,m.audience,[],[]⟩

def Minted.full (m : Minted e) : Delivery :=
  ⟨m.token,m.body,m.audience,e.creds.accountToken,e.creds.userToken⟩

theorem minter_ok (c : Creds) (user : KeyPair) (epoch : ℤ) (h : minter c = .ok (user,epoch)) :
    c.accountToken ≠ [] ∧ c.userToken ≠ [] ∧ fromSeed c.seed = .ok user ∧
      ∃ issuer account claims, verifyAccount c.accountToken issuer = .ok account ∧
        verifyUser c.userToken account.subject = .ok claims ∧ account.epoch = epoch ∧
        claims.epoch = epoch := by
  simp only [minter, bind_ok, raiseIf_ok, recast_ok, pure_ok, not_or, not_not,
    Prod.mk.injEq] at h
  obtain ⟨_,⟨ha,hu,_⟩,kp,hkp,account,⟨issuer,_,hacc⟩,claims,hc,_,he,rfl,rfl⟩ := h
  exact ⟨ha,hu,hkp,issuer,account,claims,hacc,hc,he,rfl⟩

theorem minter_made (c : Creds) (user : KeyPair) (issuer : Str) (account : AccountClaims)
    (claims : UserClaims) (hne : c.accountToken ≠ [] ∧ c.userToken ≠ [] ∧ c.seed ≠ [])
    (hs : fromSeed c.seed = .ok user) (hi : issuerOf c.accountToken = .ok issuer)
    (ha : verifyAccount c.accountToken issuer = .ok account)
    (hu : verifyUser c.userToken account.subject = .ok claims)
    (he : account.epoch = claims.epoch) : minter c = .ok (user,claims.epoch) := by
  simp only [minter, bind_ok, raiseIf_ok, recast_ok, pure_ok, not_or, not_not]
  exact ⟨(),hne,user,hs,account,⟨issuer,hi,ha⟩,claims,hu,(),he,rfl⟩

theorem full_detached (m : Minted e) : m.full.detached = true := by
  obtain ⟨ha,hu,_⟩ := minter_ok e.creds e.user e.epoch e.minted
  simp [Delivery.detached, Minted.full, ha, hu]

theorem bare_detached (m : Minted e) : m.bare.detached = false := by
  simp [Delivery.detached, Minted.bare]

theorem issueMessage_ok (user : KeyPair) (audience sum : Str) (ttl : TimeDelta) (epoch : ℤ)
    (now expiry : DateTime) (tok : Str) (hx : now.plus ttl = some expiry)
    (h : issueMessage user audience sum none {ttl := some ttl,epoch := epoch,now := now} =
      .ok tok) : isValidPublicUserKey user.publicKey = true ∧ timestampInt expiry ≠ 0 ∧
        encodeV1 user ⟨⟨messageType,epoch,false,sum,none,[]⟩,[],user.publicKey,audience,
          timestampInt expiry,0,now⟩ = .ok tok := by
  simp only [issueMessage, messageDraft, bind_ok, raiseIf_ok, pure_ok, not_not] at h
  obtain ⟨d,⟨_,hv,_,_,ext,hext,⟨expires,nbf⟩,hval,_,hne,_,_,rfl⟩,htok⟩ := h
  simp only [validity, bind_ok, raiseIf_ok, arith_ok, hx, pure_ok, Prod.mk.injEq,
    Option.some.injEq] at hval
  obtain ⟨_,_,_,_,t,rfl,rfl,rfl⟩ := hval
  simp only [extensionsClaim, collect, ok_bind, pure_ok] at hext
  obtain rfl := hext
  exact ⟨hv,hne,htok⟩

theorem emitter_epoch (e : Emitter) : 0 ≤ e.epoch ∧ e.epoch ≤ uint64Max := by
  obtain ⟨_,_,_,_,_,claims,_,hu,_,he⟩ := minter_ok e.creds e.user e.epoch e.minted
  obtain ⟨d,_,_,_,_,rfl⟩ := (verifyUser_ok _ _ _).1 hu
  rw [← he]
  exact d.epoch.property

theorem message_read (hon : HonestSignatures) (m : Minted e) :
    ∃ d, messageToken m.token = .ok d ∧ d.issuer = e.key ∧ d.subject = e.key ∧
      d.audience = m.audience ∧ d.checksum = checksum m.body ∧ d.chain = none ∧
      d.epoch.val = e.epoch ∧ d.expires.val = timestampInt m.expiry ∧ d.notBefore.val = 0 := by
  obtain ⟨hv,_,htok⟩ := issueMessage_ok _ _ _ _ _ _ _ _ m.expires m.issued
  obtain ⟨h1,h2,h3,h4⟩ := m.readable
  obtain ⟨jti,_,_,hj,_⟩ := encodeV1_ok _ _ _ htok
  have hr : InRange ⟨⟨messageType,e.epoch,false,checksum m.body,none,[]⟩,[],e.user.publicKey,
      m.audience,timestampInt m.expiry,0,m.now⟩ :=
    ⟨⟨h1,h3⟩,⟨h4,h2⟩,ts_zero,emitter_epoch e⟩
  have hd := (decodeToken_minted hon _ _ _ htok (by rfl) _).2 ⟨jti,hj,hr,rfl⟩
  exact ⟨_,(messageToken_ok _ _).2 ⟨hd,rfl,rfl,hv⟩,rfl,rfl,rfl,rfl,rfl,rfl,rfl,rfl⟩

theorem cacheKey_bare (hon : HonestSignatures) (m : Minted e) :
    cacheKey m.bare = .ok (some e.key) := by
  obtain ⟨d,hd,hi,_⟩ := message_read hon m
  rw [← hi]
  exact cacheKey_read m.bare d hd (bare_detached m)

/-- The instant a verification uses: the pinned one, or the clock's. -/
def Receiver.at (r : Receiver) (t : DateTime) : DateTime := r.options.now.getD t

/-- The emitter's chain verifies under the receiver's anchor and policy at `now`. -/
structure Anchored (e : Emitter) (r : Receiver) (now : DateTime) (account : AccountClaims)
    (operator : Option OperatorClaims) (user : UserClaims) : Prop where
  anchor : messageAnchor r.anchor r.options.operatorToken (.str e.creds.accountToken) =
    .ok (account,operator)
  below : verifyUser e.creds.userToken account.subject = .ok user
  subject : user.subject = e.key
  policy : ∀ o ∈ operator, o.epoch = e.epoch ∧ o.expired now r.options.skew = .ok false ∧
    o.notYetValid now r.options.skew = .ok false
  accountWindow : account.expired now r.options.skew = .ok false ∧
    account.notYetValid now r.options.skew = .ok false
  userWindow : user.expired now r.options.skew = .ok false ∧
    user.notYetValid now r.options.skew = .ok false

/-- The message has not run out at `now`, and `now - skew` is representable. -/
def Minted.Current (m : Minted e) (r : Receiver) (now : DateTime) : Prop :=
  ∃ t : DateTime, t.micros = now.micros-r.options.skew ∧
    t.micros ≤ timestampInt m.expiry*1000000

/-- The premises of an exchange at one reading of the clock. -/
structure Due (m : Minted e) (r : Receiver) (t : DateTime) : Prop where
  anchored : ∃ account operator user, Anchored e r (Receiver.at r t) account operator user
  current : m.Current r (Receiver.at r t)

theorem messageAnchor_account (a : TrustAnchor) (policy : Option Str) (tok : Str)
    (account : AccountClaims) (operator : Option OperatorClaims)
    (h : messageAnchor a policy (.str tok) = .ok (account,operator)) :
    ∃ key, verifyAccount tok key = .ok account := by
  cases a with
  | pinned key =>
    obtain ⟨⟨tok',ht,hacc⟩,_⟩ := pinnedAnchor_ok _ _ _ _ _ h
    obtain rfl := Value.str.inj ht
    exact ⟨key,hacc⟩
  | keyring k =>
    simp only [messageAnchor, bind_ok, asToken_ok, pure_ok, Prod.mk.injEq] at h
    obtain ⟨_,_,tok',ht,issuer,_,a,hacc,_,_,rfl,_⟩ := h
    obtain rfl := Value.str.inj ht
    exact ⟨issuer,hacc⟩

theorem anchored_epochs (r : Receiver) (now : DateTime) (account : AccountClaims)
    (operator : Option OperatorClaims) (user : UserClaims)
    (h : Anchored e r now account operator user) :
    account.epoch = e.epoch ∧ user.epoch = e.epoch := by
  obtain ⟨_,_,_,issuer,account',user',hacc',huser',ha,hu⟩ :=
    minter_ok e.creds e.user e.epoch e.minted
  obtain ⟨key,hacc⟩ := messageAnchor_account _ _ _ _ _ h.anchor
  obtain ⟨d,hd,_,_,_,rfl⟩ := (verifyAccount_ok _ _ _).1 hacc
  obtain ⟨d',hd',_,_,_,rfl⟩ := (verifyAccount_ok _ _ _).1 hacc'
  rw [hd, Except.ok.injEq] at hd'
  subst hd'
  obtain ⟨c,hc,_,_,_,rfl⟩ := (verifyUser_ok _ _ _).1 h.below
  obtain ⟨c',hc',_,_,_,rfl⟩ := (verifyUser_ok _ _ _).1 huser'
  rw [hc, Except.ok.injEq] at hc'
  subst hc'
  exact ⟨ha,hu⟩

omit [Platform] in
theorem ts_micros (v : Within tsMin tsMax) (t : DateTime) (h : t ∈ ts v) :
    t.micros = v.val*1000000 := by
  unfold ts at h
  split_ifs at h
  · cases h
  · obtain rfl := Option.some.inj h
    rfl

omit [Platform] in
theorem ts_nonzero (v : Within tsMin tsMax) (h : v.val ≠ 0) :
    ∃ t ∈ ts v, t.micros = v.val*1000000 := by
  rw [ts, if_neg h]
  exact ⟨_,rfl,rfl⟩

theorem checksum_ne_nil (digest : ∀ b, Platform.sha256 b ≠ []) (b : Bytes) : checksum b ≠ [] := by
  intro h
  have hl := hex_length (Platform.sha256 b)
  rw [show hex (Platform.sha256 b) = [] from h] at hl
  exact digest b (List.length_eq_zero_iff.1 (by simpa using hl.symm))

theorem verify_own (hon : HonestSignatures) (digest : ∀ b, Platform.sha256 b ≠ [])
    (m : Minted e) (r : Receiver) (hpin : r.options.chain = none) (t : DateTime)
    (h : Due m r t) : ∃ c, runVerify r m.bare t (some e.chain) = .ok c ∧ c.subject = e.key := by
  obtain ⟨account,operator,user,ha⟩ := h.anchored
  obtain ⟨hea,heu⟩ := anchored_epochs r _ account operator user ha
  obtain ⟨d,hd,hi,hs,haud,hsum,hchain,hep,hexp,hnbf⟩ := message_read hon m
  refine ⟨messageClaims d account user operator,?_,hs⟩
  apply (verifyUnder_ok _ _ _ _).2
  refine ⟨d,hd,?_,?_,?_⟩
  · apply (messageChain_ok _ _ _ _).2
    refine ⟨_,_,account,operator,user,?_,ha.anchor,ha.below,ha.subject.trans hi.symm,?_,rfl⟩
    · simp only [hpin, hchain, Option.getD_none, selectChain, Emitter.chain]
    · apply (messageEpochs_ok _ _ _ _ _ _ _).2
      refine ⟨fun o ho => ?_,hep.trans hea.symm,hep.trans heu.symm⟩
      obtain ⟨he,hw⟩ := ha.policy o ho
      exact ⟨hw.1,hw.2,hep.trans he.symm⟩
  · simp only [messageWindows, bind_ok, checkWindow_ok]
    refine ⟨(),ha.accountWindow,(),ha.userWindow,?_,?_⟩
    · rw [expired_false]
      intro exp hx
      obtain ⟨u,hu,hle⟩ := h.current
      refine ⟨u,hu,?_⟩
      rw [ts_micros d.expires exp hx, hexp]
      exact hle
    · rw [notYetValid_false]
      intro nbf hx
      simp [messageClaims, claimsOf, ts, hnbf] at hx
  · apply (messageBindings_ok _ _ _).2
    refine ⟨Or.inr haud,?_,fun hp => by cases hp⟩
    intro p hp
    obtain rfl := Option.some.inj hp
    refine ⟨?_,hsum⟩
    rw [show (messageClaims d account user operator).checksum = d.checksum from rfl, hsum]
    exact checksum_ne_nil digest _

theorem due_of_verified (hon : HonestSignatures) (m : Minted e) (r : Receiver)
    (hpin : r.options.chain = none) (t : DateTime) (c : MessageClaims)
    (h : runVerify r m.bare t (some e.chain) = .ok c) : Due m r t := by
  obtain ⟨_,hne,_⟩ := issueMessage_ok _ _ _ _ _ _ _ _ m.expires m.issued
  obtain ⟨d,hd,hi,_,_,_,hchain,hep,hexp,_⟩ := message_read hon m
  obtain ⟨d',hd',hmc,hw,_⟩ := (verifyUnder_ok _ _ _ _).1 h
  rw [show m.bare.token = m.token from rfl, hd, Except.ok.injEq] at hd'
  subst hd'
  obtain ⟨_,_,account,operator,user,hsel,hanchor,huser,hsub,he,rfl⟩ := (messageChain_ok _ _ _ _).1 hmc
  simp only [hpin, hchain, Option.getD_none, selectChain, Except.ok.injEq, Prod.mk.injEq,
    Value.str.injEq] at hsel
  obtain ⟨rfl,rfl⟩ := hsel
  obtain ⟨hpol,_,_⟩ := (messageEpochs_ok _ _ _ _ _ _ _).1 he
  simp only [messageWindows, bind_ok, checkWindow_ok] at hw
  obtain ⟨_,hwa,_,hwu,hwm,_⟩ := hw
  constructor
  · refine ⟨account,operator,user,hanchor,huser,hsub.trans hi,?_,hwa,hwu⟩
    intro o ho
    obtain ⟨h1,h2,h3⟩ := hpol o ho
    exact ⟨h3.symm.trans hep,h1,h2⟩
  · obtain ⟨exp,hx,hmicros⟩ := ts_nonzero d.expires (hexp ▸ hne)
    obtain ⟨s,hs,hle⟩ := (expired_false _ _ _).1 hwm exp hx
    rw [hmicros, hexp] at hle
    exact ⟨s,hs,hle⟩

theorem verify_chainless (hon : HonestSignatures) (m : Minted e) (r : Receiver)
    (hpin : r.options.chain = none) (t : DateTime) : runVerify r m.bare t none =
      .error (errFor (lit "valiss: message token carries no chain and none was supplied")
        .noChain) := by
  obtain ⟨d,hd,_,_,_,_,hchain,_⟩ := message_read hon m
  have hm : messageToken m.bare.token = .ok d := hd
  simp only [runVerify, verifyUnder, hm, ok_bind, messageChain, hpin, Option.getD_none, hchain,
    selectChain]
  rfl

/-- Decoding the token raises nothing but `ValissError`. -/
def Decodes (tok : Str) : Prop := OnlyValiss (decodeToken tok)

theorem messageAnchor_onlyValiss (a : TrustAnchor) (policy : Option Str) (own other : Str)
    (x : AccountClaims × Option OperatorClaims)
    (hown : messageAnchor a policy (.str own) = .ok x) (h : Decodes other) :
    OnlyValiss (messageAnchor a policy (.str other)) := by
  apply messageAnchor_raises ordinary_valiss (fun _ => rfl)
  · exact raises_ok _ _
  · intro tok ht
    rw [← Value.str.inj ht]
    exact h
  · intro t ht
    rw [Option.mem_def] at ht
    subst ht
    cases a with
    | pinned key =>
      simp only [messageAnchor, operatorPolicy, bind_ok] at hown
      obtain ⟨_,_,_,_,_,⟨c,hc,_⟩,_⟩ := hown
      obtain ⟨d,hd,_⟩ := (verifyOperator_ok _ _ _).1 hc
      rw [hd]
      exact raises_ok _ _
    | keyring k => simp [messageAnchor] at hown

/-- Either `now + skew` is representable, or the chain, if it is one for the key
under the receiver's anchor, has no activation time to compare it with. -/
def Comparable (e : Emitter) (r : Receiver) (now : DateTime) (c : Chain) : Prop :=
  (now.plus r.options.skew).isSome = true ∨ ∀ account operator user,
    messageAnchor r.anchor r.options.operatorToken (.str c.1) = .ok (account,operator) →
    verifyUser c.2 account.subject = .ok user → user.subject = e.key →
    account.notBefore = none ∧ user.notBefore = none ∧ ∀ o ∈ operator, o.notBefore = none

/-- Under a supplied chain that decodes, a current chainless message verifies or
fails with a `ValissError`. -/
theorem verify_found (hon : HonestSignatures) (m : Minted e) (r : Receiver)
    (hpin : r.options.chain = none) (t : DateTime) (h : Due m r t) (c : Chain)
    (h1 : Decodes c.1) (h2 : Decodes c.2) (hcmp : Comparable e r (Receiver.at r t) c) :
    OnlyValiss (runVerify r m.bare t (some c)) := by
  obtain ⟨_,_,_,ha⟩ := h.anchored
  obtain ⟨s,hs,_⟩ := h.current
  have hminus : ((Receiver.at r t).minus r.options.skew).isSome = true :=
    Option.isSome_iff_exists.2 ⟨s,(minus_some _ _ _).2 hs⟩
  obtain ⟨d,hd,hi,_,_,_,hchain,_,_,hnbf⟩ := message_read hon m
  have hm : messageToken m.bare.token = .ok d := hd
  have hwindow : ∀ account operator user,
      messageAnchor r.anchor r.options.operatorToken (.str c.1) = .ok (account,operator) →
      verifyUser c.2 account.subject = .ok user → user.subject = d.issuer →
      ∀ l : Claims, (l = account.toClaims ∨ l = user.toClaims ∨ ∃ o ∈ operator, l = o.toClaims) →
      Timely (fun x => x.isValiss = true) l (Receiver.at r t) r.options.skew := by
    intro account operator user hanchor huser hsub l hl
    apply timely_of_representable _ _ _ (Or.inl hminus)
    rcases hcmp with hp | hn
    · exact Or.inl hp
    · obtain ⟨na,nu,no⟩ := hn account operator user hanchor huser (hsub.trans hi)
      rcases hl with rfl | rfl | ⟨o,ho,rfl⟩
      · exact Or.inr na
      · exact Or.inr nu
      · exact Or.inr (no o ho)
  unfold runVerify verifyUnder
  simp only [hm, ok_bind, hpin, Option.getD_none]
  apply Raises.bind
  · simp only [messageChain, hchain, selectChain, ok_bind]
    apply Raises.bind (messageAnchor_onlyValiss _ _ _ c.1 _ ha.anchor h1)
    intro x hanchor
    simp only [asToken, ok_bind]
    apply Raises.bind (verifyUser_raises ordinary_valiss _ _ h2)
    intro user huser
    apply Raises.bind (onlyValiss_raiseIf _ _ _)
    intro _ hsub
    rw [raiseIf_ok, not_not] at hsub
    apply Raises.bind
    · apply (messageEpochs_raises ordinary_valiss _ _ _ _ _ _).2
      intro o ho
      exact hwindow x.1 x.2 user hanchor huser hsub _ (Or.inr (Or.inr ⟨o,ho,rfl⟩))
    intro _ _
    exact raises_ok _ _
  intro x hx
  obtain ⟨_,_,account,operator,user,hsel,hanchor,huser,hsub,_,rfl⟩ := (messageChain_ok _ _ _ _).1 hx
  simp only [hchain, selectChain, Except.ok.injEq, Prod.mk.injEq, Value.str.injEq] at hsel
  obtain ⟨rfl,rfl⟩ := hsel
  apply Raises.bind
  · have hwin := fun l hl (late early : String) =>
      (checkWindow_raises ordinary_valiss l _ _ late early).2
        (hwindow account operator user hanchor huser hsub l hl)
    unfold messageWindows
    apply Raises.bind (hwin _ (Or.inl rfl) _ _)
    intro _ _
    apply Raises.bind (hwin _ (Or.inr (Or.inl rfl)) _ _)
    intro _ _
    apply (checkWindow_raises ordinary_valiss _ _ _ _ _).2
    apply timely_of_representable _ _ _ (Or.inl hminus) (Or.inr _)
    simp [messageClaims, claimsOf, ts, hnbf]
  intro _ _
  apply Raises.bind (messageBindings_raises ordinary_valiss _ _)
  intro _ _
  exact raises_ok _ _

/-- What was found fits the message: its tokens decode and its times compare. -/
def Harmless (e : Emitter) (r : Receiver) (t : DateTime) (found : Option Chain) : Prop :=
  ∀ c ∈ found, Decodes c.1 ∧ Decodes c.2 ∧ Comparable e r (Receiver.at r t) c

theorem settle_bare (hon : HonestSignatures) (m : Minted e) (r : Receiver)
    (hpin : r.options.chain = none) (hasCache : Bool) (key : Option Str) (found : Option Chain)
    (hkey : found.isSome = true → key.isSome = true) (t₁ t₂ : DateTime) (h : Due m r t₁)
    (hf : Harmless e r t₁ found) :
    ∃ out w, settle r hasCache m.bare key found t₁ t₂ = .ok (out,w) ∧
      ((∃ c, out = .claims c) ∨ out = .reject chainRequired) := by
  have hnone := verify_chainless hon m r hpin
  unfold settle
  simp only [bare_detached, Bool.false_eq_true, if_false]
  cases found with
  | none =>
    rw [hnone t₁]
    exact ⟨_,_,rfl,Or.inr rfl⟩
  | some c =>
    obtain ⟨k,rfl⟩ := Option.isSome_iff_exists.1 (hkey rfl)
    obtain ⟨h1,h2,hcmp⟩ := hf c rfl
    have hv := verify_found hon m r hpin t₁ h c h1 h2 hcmp
    cases hr : runVerify r m.bare t₁ (some c) with
    | ok claims => exact ⟨_,_,rfl,Or.inl ⟨claims,rfl⟩⟩
    | error x =>
      cases x with
      | valiss text reason =>
        dsimp only
        rw [hnone t₂]
        exact ⟨_,_,rfl,Or.inr rfl⟩
      | builtin kind text => exact absurd (hv _ hr) (by simp [Exc.isValiss])

theorem settle_full (hon : HonestSignatures) (digest : ∀ b, Platform.sha256 b ≠ [])
    (m : Minted e) (r : Receiver) (hpin : r.options.chain = none) (hasCache : Bool)
    (key : Option Str) (found : Option Chain) (t₁ t₂ : DateTime) (h : Due m r t₁) :
    ∃ c, settle r hasCache m.full key found t₁ t₂ =
      .ok (.claims c,if hasCache = true then .put e.key e.chain else .none) := by
  obtain ⟨c,hc,hs⟩ := verify_own hon digest m r hpin t₁ h
  have hv : runVerify r m.full t₁ (some (m.full.chainAccount,m.full.chainUser)) = .ok c := hc
  refine ⟨c,?_⟩
  unfold settle
  simp only [full_detached, if_true, hv, hs, Bool.true_and]
  rfl

theorem settle_known (hon : HonestSignatures) (digest : ∀ b, Platform.sha256 b ≠ [])
    (m : Minted e) (r : Receiver) (hpin : r.options.chain = none) (hasCache : Bool)
    (key : Option Str) (t₁ t₂ : DateTime) (h : Due m r t₁) :
    ∃ c, settle r hasCache m.bare key (some e.chain) t₁ t₂ = .ok (.claims c,.none) := by
  obtain ⟨c,hc,_⟩ := verify_own hon digest m r hpin t₁ h
  refine ⟨c,?_⟩
  unfold settle
  simp only [bare_detached, Bool.false_eq_true, if_false, hc, Bool.false_and]

end Valiss.Exchange
