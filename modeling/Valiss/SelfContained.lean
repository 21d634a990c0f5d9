import Valiss.ChainRuns
import Valiss.HostileTokens

/-!
# Tokens that embed their chain

A cached chain is either the embedded one, and the verification is the same as
without it, or it differs and the second verification, without it, decides. The
missing-chain reason never arises when a chain is embedded, so a cache changes
neither the answer nor its text.
-/

set_option autoImplicit false

namespace Valiss.SelfContained
open Lib.Unicode Lib.Base64 Lib.Json Lib.Calendar Lib.Fallible Valiss.Errors Valiss.Nkeys
open Valiss.Codec Valiss.TokenClaims Valiss.Decode Valiss.Message Valiss.Chains
open Valiss.MsgTransport Valiss.Raising Valiss.HostileTokens Valiss.Mint Valiss.TokenRoundTrip
open Valiss.Printing Valiss.Recorded

section Transparency
variable [Platform]

/-- The token embeds a chain object, if it decodes at all. -/
def Embeds (tok : Str) : Prop := ∀ d, decodeToken tok = .ok d → d.chain ≠ none

def Silent (e : Exc) : Prop := e.reason ≠ some .noChain

omit [Platform] in
theorem ordinary_silent : Ordinary Silent := fun _ _ hr h => hr (Option.some.inj h)

omit [Platform] in
theorem silent_builtin (k : Builtin) (text : Str) : Silent (.builtin k text) := fun h => by cases h

theorem decodeToken_silent (tok : Str) : Raises Silent (decodeToken tok) := by
  intro e he hn
  by_cases h : TooLong tok
  · rw [decodeToken_long tok h] at he
    obtain rfl := Except.error.inj he
    cases hn
  · obtain ⟨r,hr,hreason⟩ := decodeToken_expected tok h e he
    rw [hreason, Option.some.injEq] at hn
    rw [hn] at hr
    exact absurd hr (by decide)

theorem asToken_silent (v : Json) : Raises Silent (asToken v) := by
  cases v with
  | str s => exact raises_ok _ _
  | _ => exact (raises_error _ _).2 (silent_builtin _ _)

theorem timely_silent (c : Claims) (now : DateTime) (skew : TimeDelta) :
    Timely Silent c now skew := by
  have harith : ∀ t : Option DateTime, Raises Silent (arith t) := by
    intro t
    exact (raises_ofOption _ _ _).2 fun _ => silent_builtin _ _
  constructor
  · unfold Claims.expired
    cases c.expiresAt with
    | none => exact raises_ok _ _
    | some exp => exact Raises.bind (harith _) fun _ _ => raises_ok _ _
  · intro _
    unfold Claims.notYetValid
    cases c.notBefore with
    | none => exact raises_ok _ _
    | some nbf => exact Raises.bind (harith _) fun _ _ => raises_ok _ _

theorem selectChain_silent (use : Dict Json) (supplied : Option Chain) :
    Raises Silent (selectChain (some use) supplied) := by
  cases supplied with
  | none => exact raises_ok _ _
  | some c =>
    apply Raises.bind (raises_reason ordinary_silent _ _ _ (by decide))
    intro _ _
    exact raises_ok _ _

theorem verify_silent (a : TrustAnchor) (tok : Str) (o : MessageOptions) (h : Embeds tok) :
    Raises Silent (verifyUnder a tok o) := by
  have hwindow := fun (c : Claims) (late early : String) =>
    (checkWindow_raises ordinary_silent c o.now o.skew late early).2 (timely_silent c o.now o.skew)
  unfold verifyUnder
  apply Raises.bind (messageToken_raises ordinary_silent tok (decodeToken_silent tok))
  intro d hd
  obtain ⟨use,huse⟩ := Option.ne_none_iff_exists'.1 (h d ((messageToken_ok _ _).1 hd).1)
  apply Raises.bind
  · unfold messageChain
    rw [huse]
    apply Raises.bind (selectChain_silent use o.chain)
    intro x _
    apply Raises.bind
    · exact messageAnchor_raises ordinary_silent (fun _ h => by cases h) a _ _ (asToken_silent _)
        (fun _ _ => decodeToken_silent _) fun _ _ => decodeToken_silent _
    intro y _
    apply Raises.bind (asToken_silent _)
    intro ut _
    apply Raises.bind (verifyUser_raises ordinary_silent ut _ (decodeToken_silent ut))
    intro user _
    apply Raises.bind (raises_reason ordinary_silent _ _ _ (by decide))
    intro _ _
    apply Raises.bind
    · exact (messageEpochs_raises ordinary_silent _ _ _ _ _ _).2 fun c _ => timely_silent _ _ _
    intro _ _
    exact raises_ok _ _
  intro c _
  apply Raises.bind
  · unfold messageWindows
    apply Raises.bind (hwindow _ _ _)
    intro _ _
    apply Raises.bind (hwindow _ _ _)
    intro _ _
    exact hwindow _ _ _
  intro _ _
  apply Raises.bind (messageBindings_raises ordinary_silent _ _)
  intro _ _
  exact raises_ok _ _

theorem runVerify_supplied (r : Receiver) (m : Delivery) (t : DateTime) (c : Chain)
    (h : Embeds m.token) : runVerify r m t (some c) = runVerify r m t none ∨
      ∃ text reason, runVerify r m t (some c) = .error (.valiss text reason) := by
  cases hpin : r.options.chain with
  | some pin =>
    left
    simp only [runVerify, hpin, Option.getD_some]
  | none =>
    simp only [runVerify, hpin, Option.getD_none, verifyUnder]
    cases hd : messageToken m.token with
    | error e =>
      left
      rfl
    | ok d =>
      obtain ⟨use,huse⟩ := Option.ne_none_iff_exists'.1 (h d ((messageToken_ok _ _).1 hd).1)
      simp only [ok_bind, messageChain, huse, selectChain]
      by_cases hc : ¬ IsText (some (chainPart use "account")) c.1 ∨
          ¬ IsText (some (chainPart use "user")) c.2
      · right
        rw [raiseIf_pos _ _ hc]
        exact ⟨_,_,rfl⟩
      · left
        rw [raiseIf_neg _ _ hc]
        rfl

def answer (x : Py (Outcome × Write)) : Py Outcome := Prod.fst <$> x

theorem settle_cached (r : Receiver) (hasCache : Bool) (m : Delivery) (key : Option Str)
    (found : Option Chain) (t : DateTime) (hkey : found.isSome = true → key.isSome = true)
    (hd : m.detached = false) (h : Embeds m.token) :
    answer (settle r hasCache m key found t t) = answer (settle r false m none none t t) := by
  have hplain : ∀ text reason, runVerify r m t none = .error (.valiss text reason) →
      reason ≠ some .noChain := by
    intro text reason he
    exact verify_silent _ _ _ h _ he
  have hreject : ∀ text reason, runVerify r m t none = .error (.valiss text reason) →
      rejectOf (.valiss text reason) = ⟨text,false⟩ := fun text reason he =>
    if_neg (hplain text reason he)
  unfold settle
  simp only [hd, Bool.false_eq_true, if_false]
  cases found with
  | none =>
    cases runVerify r m t none with
    | ok c => rfl
    | error e => cases e <;> rfl
  | some c =>
    obtain ⟨k,rfl⟩ := Option.isSome_iff_exists.1 (hkey rfl)
    cases hn : runVerify r m t none with
    | ok claims =>
      rcases runVerify_supplied r m t c h with he | ⟨text,reason,he⟩
      · rw [he, hn]
        rfl
      · rw [he]
        rfl
    | error e =>
      cases e with
      | builtin kind text =>
        rcases runVerify_supplied r m t c h with he | ⟨text',reason,he⟩
        · rw [he, hn]
        · rw [he]
      | valiss text reason =>
        rcases runVerify_supplied r m t c h with he | ⟨text',reason',he⟩
        · rw [he, hn]
          simp only [if_neg (hplain text reason hn), hreject text reason hn]
        · rw [he]
          simp only [if_neg (hplain text reason hn), hreject text reason hn]

theorem uncached {σ : Type} (r : Receiver) (m : Delivery) (t₁ t₂ : DateTime) (s : σ) :
    ((authenticateMessage r none m t₁ t₂).run s).1 = answer (settle r false m none none t₁ t₂) := by
  have hrun : (authenticateMessage r (none : Option (ChainCache σ)) m t₁ t₂).run s =
      authenticateMessage r none m t₁ t₂ s := rfl
  rw [hrun]
  simp only [authenticateMessage, lookupKey, Option.isSome_none, Bool.false_eq_true, if_false,
    lookupChain]
  cases settle r false m none none t₁ t₂ with
  | error e => rfl
  | ok x => rfl

omit [Platform] in
theorem lookupChain_key {σ : Type} (cache : Option (ChainCache σ)) (key : Option Str) (s : σ)
    (h : (lookupChain cache key s).1.isSome = true) : key.isSome = true := by
  cases key with
  | none => cases cache <;> simp [lookupChain] at h
  | some k => rfl

theorem unreadable_key (r : Receiver) (m : Delivery) (t : DateTime) (e : Exc)
    (h : cacheKey m = .error e) : answer (settle r false m none none t t) = .error e := by
  have hdec : decodeToken m.token = .error e ∧ e.isValiss = false := by
    unfold cacheKey at h
    split_ifs at h
    cases hc : decodeToken m.token with
    | ok d => simp [decodeClaims, hc, ok_bind, pure, Except.pure] at h
    | error x =>
      rw [decodeClaims, hc, error_bind] at h
      cases x with
      | valiss text reason => cases h
      | builtin kind text =>
        obtain rfl := Except.error.inj h
        exact ⟨rfl,rfl⟩
  have hv : ∀ c, runVerify r m t c = .error e := by
    intro c
    rw [runVerify, verifyUnder, messageToken, hdec.1]
    rfl
  cases e with
  | valiss text reason => cases hdec.2
  | builtin kind text =>
    simp only [settle, hv]
    rfl

/-- Without a cache, a self-contained token is never asked for its chain. -/
theorem settle_plain (r : Receiver) (m : Delivery) (t : DateTime) (rej : Reject)
    (hd : m.detached = false) (h : Embeds m.token)
    (hs : answer (settle r false m none none t t) = .ok (.reject rej)) :
    rej.chainRequired = false := by
  unfold settle at hs
  simp only [hd, Bool.false_eq_true, if_false] at hs
  cases hn : runVerify r m t none with
  | ok c => simp [hn, answer] at hs
  | error e =>
    cases e with
    | builtin kind text => simp [hn, answer] at hs
    | valiss text reason =>
      have hne : reason ≠ some .noChain := verify_silent _ _ _ h _ hn
      have hr : rejectOf (.valiss text reason) = ⟨text,false⟩ := if_neg hne
      simp only [hn, answer, map_ok, hr, Except.ok.injEq] at hs
      obtain ⟨_,rfl,ho⟩ := hs
      rw [← Outcome.reject.inj ho]

/-- A self-contained token gets the answer it gets without a cache, and that
answer never asks for the chain. -/
theorem cache_transparent {σ : Type} (r : Receiver) (cache : ChainCache σ) (m : Delivery)
    (t : DateTime) (s : σ) (hd : m.detached = false) (h : Embeds m.token) :
    ((authenticateMessage r (some cache) m t t).run s).1 =
      ((authenticateMessage r none m t t).run s).1 ∧
    ∀ rej, ((authenticateMessage r none m t t).run s).1 = .ok (.reject rej) →
      rej.chainRequired = false := by
  rw [uncached]
  constructor
  · have hrun : (authenticateMessage r (some cache) m t t).run s =
        authenticateMessage r (some cache) m t t s := rfl
    rw [hrun]
    unfold authenticateMessage
    cases hkey : lookupKey (some cache) m with
    | error e =>
      rw [unreadable_key r m t e (by simpa [lookupKey] using hkey)]
    | ok key =>
      rw [← settle_cached r true m key (lookupChain (some cache) key s).1 t
        (lookupChain_key _ _ _) hd h]
      dsimp only [Option.isSome_some]
      cases hs : settle r true m key (lookupChain (some cache) key s).1 t t with
      | error e => rfl
      | ok x => rfl
  · intro rej hrej
    exact settle_plain r m t rej hd h hrej

theorem uncached_plain {σ : Type} (r : Receiver) (m : Delivery) (t : DateTime) (s : σ)
    (hd : m.detached = false) : ((authenticateMessage r none m t t).run s).1 =
      match runVerify r m t none with
      | .ok c => .ok (.claims c)
      | .error (.builtin k text) => .error (.builtin k text)
      | .error (.valiss text reason) => .ok (.reject (rejectOf (.valiss text reason))) := by
  rw [uncached]
  unfold settle
  simp only [hd, Bool.false_eq_true, if_false, Bool.false_and]
  cases runVerify r m t none with
  | ok c => rfl
  | error e => cases e <;> rfl

end Transparency

section Widgets
local instance : Platform := domain.honest

def embeddingDraft (c : Chain) : Draft :=
  {Widgets.messageDraft with
    body := {type := messageType,epoch := 7,checksum := hex bodyDigest,chain := some c}}

theorem embedding_inRange (c : Chain) : InRange (embeddingDraft c) := by
  obtain ⟨h1,h2,h3,h4⟩ := Widgets.message_inRange
  exact ⟨h1,h2,h3,h4⟩

theorem embedding_printable (c : Chain) (h : Encodable c.1 ∧ Encodable c.2) :
    Printable (embeddingDraft c) := by
  obtain ⟨h1,h2,h3,h4,h5,_,h7,h8⟩ := Widgets.message_printable
  exact ⟨h1,h2,h3,h4,h5,fun x hx => Option.some.inj hx ▸ h,h7,h8⟩

def embedding (c : Chain) : Delivery :=
  ⟨stampedToken userPair userSeed (embeddingDraft c) (lit "self"),bodyBytes,destination,[],[]⟩

def embeddingRead (c : Chain) : Decoded :=
  decodedDraft (embeddingDraft c) userPair.publicKey (lit "self") (embedding_inRange c)

theorem embedding_decoded (c : Chain) (h : Encodable c.1 ∧ Encodable c.2) :
    decodeToken (embedding c).token = .ok (embeddingRead c) :=
  stampedToken_decodes (honest_signatures domain) userPair userSeed rfl _ _
    (embedding_printable c h) (embedding_inRange c) rfl (by decide)

theorem embedding_embeds (c : Chain) (h : Encodable c.1 ∧ Encodable c.2) :
    Embeds (embedding c).token := by
  intro d hd
  obtain rfl := Except.ok.inj ((embedding_decoded c h).symm.trans hd)
  exact fun hn => by cases hn

theorem embedding_parts (c : Chain) (h : c.1 ≠ [] ∧ c.2 ≠ []) :
    selectChain (embeddingRead c).chain none = .ok (.str c.1,.str c.2) := by
  have hchain : (embeddingRead c).chain = some [(lit "account",.str c.1),(lit "user",.str c.2)] := by
    simp only [embeddingRead, decodedDraft, embeddingDraft, chainOf, strMember, h, Option.map_some,
      if_false]
    rfl
  have hkey : (lit "user" == lit "account") = false := by decide
  simp [hchain, selectChain, chainPart, List.lookup_cons, truthy, h, hkey]

theorem user_public : userPair.publicKey = userKey := by
  have hpub : Platform.publicOf userSeed = userRaw := by decide +kernel
  show encodePublic .user (Platform.publicOf userSeed).val = userKey
  rw [hpub]
  rfl

theorem embedding_read (c : Chain) (h : Encodable c.1 ∧ Encodable c.2) :
    messageToken (embedding c).token = .ok (embeddingRead c) := by
  have hself : (embeddingRead c).issuer = userKey := user_public
  exact (messageToken_ok _ _).2 ⟨embedding_decoded c h,rfl,hself,
    Widgets.valid_public .user userRaw⟩

/-- Another chain is cached for the user. -/
def stale : Lru := [(userKey,lit "b",lit "v")]

def defaults : Receiver := ⟨.pinned operatorKey,{}⟩

def malformedToken : Reject := ⟨lit "valiss: malformed token",false⟩

theorem words_refused : runVerify defaults (embedding (lit "a",lit "u")) requestedAt none =
    .error (malformed (lit "malformed token")) := by
  have hbad : verifyAccount (lit "a") operatorKey = .error (malformed (lit "malformed token")) := rfl
  have hchain : selectChain (embeddingRead (lit "a",lit "u")).chain none =
      .ok (.str (lit "a"),.str (lit "u")) := embedding_parts _ (by decide)
  rw [runVerify, verifyUnder, embedding_read _ (by decide), ok_bind]
  simp only [messageChain, defaults, Option.getD_none, hchain, ok_bind, messageAnchor, asToken, hbad,
    error_bind]

theorem own_encodable : Encodable Widgets.widgetChain.1 ∧ Encodable Widgets.widgetChain.2 :=
  ⟨accountSample.token_ascii.encodable,userSample.token_ascii.encodable⟩

theorem own_accepted : ∃ c, runVerify defaults (embedding Widgets.widgetChain) requestedAt none =
    .ok c := by
  have hanchor : messageAnchor (.pinned operatorKey) none (.str accountSample.token) =
      .ok (accountClaims Widgets.accountRead,none) := by
    rw [messageAnchor, asToken, ok_bind, Widgets.account_verified]
    rfl
  have hsum : hex bodyDigest ≠ [] := by decide
  have hissuer : (userClaims Widgets.userRead).subject =
      (embeddingRead Widgets.widgetChain).issuer := user_public.symm
  have hepochs : messageEpochs (embeddingRead Widgets.widgetChain)
      (accountClaims Widgets.accountRead) (userClaims Widgets.userRead) requestedAt 120000000 none =
      .ok () := (messageEpochs_ok _ _ _ _ _ _ _).2 ⟨fun c hc => (Option.not_mem_none c hc).elim,rfl,rfl⟩
  refine ⟨_,(verifyUnder_ok _ _ _ _).2 ⟨_,embedding_read _ own_encodable,
    (messageChain_ok _ _ _ _).2 ⟨_,userSample.token,_,_,_,?_,hanchor,Widgets.user_verified,hissuer,
      hepochs,rfl⟩,?_,?_⟩⟩
  · exact embedding_parts Widgets.widgetChain
      ⟨accountSample.token_ne_nil,userSample.token_ne_nil⟩
  · have hwindow : minMicros ≤ requestedAt.micros-120000000 ∧ (0 : ℤ) ≤ 120000000 ∧
        requestedAt.micros-120000000 ≤ 1893456060*1000000 := by decide
    exact (messageWindows_ok _ _ _ _).2 ⟨Widgets.account_unbounded _ _,Widgets.user_unbounded _ _,
      Widgets.bounded _ ⟨1893456060*1000000,by decide,by decide⟩ _ _ rfl rfl hwindow.1 hwindow.2.1
        hwindow.2.2⟩
  · refine (messageBindings_ok _ _ _).2 ⟨Or.inr rfl,?_,fun _ _ => hsum⟩
    intro p hp
    obtain rfl := Option.some.inj hp
    refine ⟨hsum,?_⟩
    show hex bodyDigest = checksum bodyBytes
    rw [checksum, Widgets.body_digest]

/-- Over another chain in the cache a message is answered as without a cache,
whether its own chain is refused or verifies. -/
theorem cache_transparent_widgets :
    ((authenticateMessage defaults none (embedding (lit "a",lit "u")) requestedAt
      requestedAt).run stale).1 = .ok (.reject malformedToken) ∧
    ((authenticateMessage defaults (some memoryChainCache) (embedding (lit "a",lit "u")) requestedAt
      requestedAt).run stale).1 = .ok (.reject malformedToken) ∧
    ∃ c, ((authenticateMessage defaults none (embedding Widgets.widgetChain) requestedAt
        requestedAt).run stale).1 = .ok (.claims c) ∧
      ((authenticateMessage defaults (some memoryChainCache) (embedding Widgets.widgetChain)
        requestedAt requestedAt).run stale).1 = .ok (.claims c) := by
  obtain ⟨c,hc⟩ := own_accepted
  have hwords := uncached_plain defaults (embedding (lit "a",lit "u")) requestedAt stale rfl
  have hown := uncached_plain defaults (embedding Widgets.widgetChain) requestedAt stale rfl
  rw [words_refused] at hwords
  rw [hc] at hown
  have hsame := cache_transparent defaults memoryChainCache (embedding (lit "a",lit "u"))
    requestedAt stale rfl (embedding_embeds _ (by decide))
  have hsame' := cache_transparent defaults memoryChainCache (embedding Widgets.widgetChain)
    requestedAt stale rfl (embedding_embeds _ own_encodable)
  exact ⟨hwords,hsame.1.trans hwords,c,hown,hsame'.1.trans hown⟩

end Widgets

end Valiss.SelfContained
