import Valiss.DetachedChains
import Valiss.Lib.Dialogue
import Valiss.Negotiation

/-!
# One message, sent at most twice

The first send embeds the chain, or leaves it to be negotiated. With the chain
embedded it is accepted whatever is found in the cache. Without, while what is
found decodes and compares, it is accepted or the chain is asked for, and the
second send is accepted.
-/

set_option autoImplicit false

namespace Valiss.TwoSends
open Lib.Unicode Lib.Json Lib.Calendar Lib.Fallible Lib.Dialogue Valiss.Errors Valiss.Mint
open Valiss.Decode Valiss.TokenRoundTrip Valiss.SigningHistory Valiss.Message Valiss.Chains
open Valiss.MsgTransport Valiss.Exchange Valiss.DetachedChains Valiss.Recorded Recorded.Widgets
open Valiss.Negotiation

section Sends
variable [Platform]

/-- The token minted for a message, and the message as it is without its chain. -/
structure Emission (e : Emitter) (negotiate : Bool) where
  message : Minted e
  token : Str
  minted : issueMessage e.user message.audience (checksum message.body)
    (if negotiate then none else some e.chain)
    {ttl := some message.ttl,epoch := e.epoch,now := message.now} = .ok token

variable {e : Emitter} {negotiate : Bool}

def Emission.first (x : Emission e negotiate) : Delivery :=
  ⟨x.token,x.message.body,x.message.audience,[],[]⟩

def Emission.again (x : Emission e negotiate) : Delivery :=
  ⟨x.token,x.message.body,x.message.audience,e.creds.accountToken,e.creds.userToken⟩

def Spoken (m : Minted e) (c : MessageClaims) : Prop :=
  c.issuer = e.key ∧ c.subject = e.key ∧ c.audience = m.audience ∧ c.checksum = checksum m.body

theorem first_detached (x : Emission e negotiate) : x.first.detached = false := by
  simp [Delivery.detached, Emission.first]

theorem negotiated_token (x : Emission e true) : x.token = x.message.token := by
  have h := x.minted
  rw [if_pos rfl, x.message.issued, Except.ok.injEq] at h
  exact h.symm

theorem first_bare (x : Emission e true) : x.first = x.message.bare := by
  rw [Emission.first, negotiated_token]
  rfl

theorem again_full (x : Emission e true) : x.again = x.message.full := by
  rw [Emission.again, negotiated_token]
  rfl

theorem embedded_read (hon : HonestSignatures) (x : Emission e false) :
    (∃ id, decodeToken x.message.token = restamped id <$> decodeToken x.token) ∧
      ∀ d, decodeToken x.token = .ok d → d.chain = chainOf (some e.chain) := by
  have h := x.minted
  simp only [Bool.false_eq_true, if_false, issueMessage, bind_ok] at h
  obtain ⟨d,hd,ht⟩ := h
  obtain ⟨hbare,hchain,_⟩ := messageDraft_chained _ _ _ _ _ _ hd
  have hdist := (draft_body e.user (.message x.message.audience _ (some e.chain) _) d hd).2
  have hb : encodeV1 e.user (unchained d) = .ok x.message.token := by
    have hm := x.message.issued
    rwa [issueMessage, hbare, ok_bind] at hm
  refine ⟨decodeToken_unchained hon e.user d _ _ ht hb hdist,?_⟩
  intro y hy
  obtain ⟨jti,_,hr,rfl⟩ := decodeToken_reads e.user d _ ht hdist y hy
  exact congrArg chainOf hchain

theorem first_read (hon : HonestSignatures) (x : Emission e negotiate) :
    ∃ d, messageToken x.token = .ok d ∧ d.issuer = e.key ∧ d.subject = e.key ∧
      d.audience = x.message.audience ∧ d.checksum = checksum x.message.body := by
  obtain ⟨d,hd,hi,hs,ha,hc,_⟩ := message_read hon x.message
  cases negotiate with
  | true =>
    rw [negotiated_token]
    exact ⟨d,hd,hi,hs,ha,hc⟩
  | false =>
    obtain ⟨⟨id,hid⟩,_⟩ := embedded_read hon x
    rw [messageToken_restamped _ _ id hid] at hd
    obtain ⟨y,hy,rfl⟩ := (map_ok _ _ _).1 hd
    exact ⟨y,hy,hi,hs,ha,hc⟩

theorem spoken (hon : HonestSignatures) (x : Emission e negotiate) (r : Receiver) (m : Delivery)
    (hm : m.token = x.token) (t : DateTime) (chain : Option Chain) (c : MessageClaims)
    (h : runVerify r m t chain = .ok c) : Spoken x.message c := by
  obtain ⟨d,hd,hi,hs,ha,hsum⟩ := first_read hon x
  obtain ⟨d',hd',hc,haud,hcheck⟩ := verifyUnder_claims _ _ _ _ h
  rw [hm, hd, Except.ok.injEq] at hd'
  subst hd'
  refine ⟨?_,?_,haud.trans ha,hcheck.trans hsum⟩
  · rw [hc]
    exact hi
  · rw [hc]
    exact hs

theorem verify_embedded (hon : HonestSignatures) (digest : ∀ b, Platform.sha256 b ≠ [])
    (x : Emission e false) (r : Receiver) (hpin : r.options.chain = none) (t : DateTime)
    (h : Due x.message r t) : ∃ c, runVerify r x.first t none = .ok c := by
  obtain ⟨c,hc,_⟩ := verify_own hon digest x.message r hpin t h
  obtain ⟨⟨id,hid⟩,hchain⟩ := embedded_read hon x
  have hv := verifyUnder_detached r.anchor x.token x.message.token id e.chain
    ⟨r.options.now.getD t,r.options.skew,some x.message.audience,r.options.requireChecksum,
      some x.message.body,none,r.options.operatorToken⟩ hid hchain
  have hrun : runVerify r x.message.bare t (some e.chain) =
      (fun c => {c with id := id}) <$> runVerify r x.first t none := by
    simp only [runVerify, hpin, Option.getD_none]
    exact hv
  rw [hrun, map_ok] at hc
  obtain ⟨c',hc',_⟩ := hc
  exact ⟨c',hc'⟩

theorem verify_repeated (hon : HonestSignatures) (digest : ∀ b, Platform.sha256 b ≠ [])
    (x : Emission e false) (r : Receiver) (hpin : r.options.chain = none) (t : DateTime)
    (h : Due x.message r t) : ∃ c, runVerify r x.first t (some e.chain) = .ok c := by
  obtain ⟨_,hchain⟩ := embedded_read hon x
  obtain ⟨c,hc⟩ := verify_embedded hon digest x r hpin t h
  have hsame := verifyUnder_repeated r.anchor x.token e.chain
    ⟨r.options.now.getD t,r.options.skew,some x.message.audience,r.options.requireChecksum,
      some x.message.body,none,r.options.operatorToken⟩ hchain
  simp only [runVerify, hpin, Option.getD_none] at hc ⊢
  exact ⟨c,hsame.trans hc⟩

theorem verify_foreign (hon : HonestSignatures) (x : Emission e false) (r : Receiver)
    (hpin : r.options.chain = none) (t : DateTime) (found : Chain) (hf : found ≠ e.chain) :
    ∃ text, runVerify r x.first t (some found) = .error (.valiss text (some .chainMismatch)) := by
  obtain ⟨d,hd,_⟩ := first_read hon x
  obtain ⟨_,hchain⟩ := embedded_read hon x
  have hread := hchain d ((messageToken_ok _ _).1 hd).1
  simp only [runVerify, hpin, Option.getD_none]
  exact verifyUnder_different r.anchor x.token d e.chain found
    ⟨r.options.now.getD t,r.options.skew,some x.message.audience,r.options.requireChecksum,
      some x.message.body,none,r.options.operatorToken⟩ hd hread hf

theorem settle_embedded (hon : HonestSignatures) (digest : ∀ b, Platform.sha256 b ≠ [])
    (x : Emission e false) (r : Receiver) (hpin : r.options.chain = none) (hasCache : Bool)
    (key : Option Str) (found : Option Chain) (hkey : found.isSome = true → key.isSome = true)
    (t₁ t₂ : DateTime) (h₁ : Due x.message r t₁) (h₂ : Due x.message r t₂) :
    ∃ c w, settle r hasCache x.first key found t₁ t₂ = .ok (.claims c,w) := by
  unfold settle
  simp only [first_detached, Bool.false_eq_true, if_false]
  cases found with
  | none =>
    obtain ⟨c,hc⟩ := verify_embedded hon digest x r hpin t₁ h₁
    rw [hc]
    exact ⟨_,_,rfl⟩
  | some other =>
    obtain ⟨k,rfl⟩ := Option.isSome_iff_exists.1 (hkey rfl)
    by_cases hf : other = e.chain
    · obtain ⟨c,hc⟩ := verify_repeated hon digest x r hpin t₁ h₁
      rw [hf, hc]
      exact ⟨_,_,rfl⟩
    · obtain ⟨text,ht⟩ := verify_foreign hon x r hpin t₁ other hf
      obtain ⟨c,hc⟩ := verify_embedded hon digest x r hpin t₂ h₂
      rw [ht]
      dsimp only
      rw [hc]
      exact ⟨_,_,rfl⟩

theorem settle_unknown (hon : HonestSignatures) (x : Emission e true) (r : Receiver)
    (hpin : r.options.chain = none) (hasCache : Bool) (key : Option Str) (t₁ t₂ : DateTime) :
    settle r hasCache x.first key none t₁ t₂ = .ok (.reject chainRequired,.none) := by
  rw [first_bare]
  unfold settle
  simp only [bare_detached, Bool.false_eq_true, if_false,
    verify_chainless hon x.message r hpin t₁]
  rfl

theorem settle_first (hon : HonestSignatures) (digest : ∀ b, Platform.sha256 b ≠ [])
    (x : Emission e negotiate) (r : Receiver) (hpin : r.options.chain = none) (hasCache : Bool)
    (key : Option Str) (found : Option Chain) (hf : found = some e.chain ∨ found = none)
    (t₁ t₂ : DateTime) (h : Due x.message r t₁) :
    (∃ c, settle r hasCache x.first key found t₁ t₂ = .ok (.claims c,.none)) ∨
      negotiate = true ∧ found = none ∧
        settle r hasCache x.first key found t₁ t₂ = .ok (.reject chainRequired,.none) := by
  have hverified : ∀ chain c, runVerify r x.first t₁ chain = .ok c → found = chain →
      settle r hasCache x.first key found t₁ t₂ = .ok (.claims c,.none) := by
    rintro chain c hc rfl
    unfold settle
    simp only [first_detached, Bool.false_eq_true, if_false, hc, Bool.false_and]
  cases negotiate with
  | true =>
    rcases hf with rfl | rfl
    · rw [first_bare]
      exact Or.inl (settle_known hon digest x.message r hpin hasCache key t₁ t₂ h)
    · exact Or.inr ⟨rfl,rfl,settle_unknown hon x r hpin hasCache key t₁ t₂⟩
  | false =>
    left
    rcases hf with rfl | rfl
    · obtain ⟨c,hc⟩ := verify_repeated hon digest x r hpin t₁ h
      exact ⟨c,hverified _ c hc rfl⟩
    · obtain ⟨c,hc⟩ := verify_embedded hon digest x r hpin t₁ h
      exact ⟨c,hverified _ c hc rfl⟩

variable {σ : Type}

theorem lookupKey_first (hon : HonestSignatures) (x : Emission e negotiate)
    (cache : Option (ChainCache σ)) :
    lookupKey cache x.first = .ok (if cache.isSome then some e.key else none) := by
  obtain ⟨d,hd,hi,_⟩ := first_read hon x
  rw [lookupKey, cacheKey_read x.first d hd (first_detached x), hi]
  split_ifs <;> rfl

def cached (cache : Option (ChainCache σ)) (e : Emitter) (s : σ) : Option Chain :=
  (lookupChain cache (some e.key) s).1

theorem lookup_first (cache : Option (ChainCache σ)) (s : σ) :
    (lookupChain cache (if cache.isSome then some e.key else none) s).1 = cached cache e s := by
  cases cache <;> rfl

/-- The emitter's messages are current where they are verified, and what a first
send without the chain finds does it no harm. -/
structure Timely (x : Emission e negotiate) (r : Receiver) (t₁ t₂ : DateTime)
    (found : Option Chain) : Prop where
  unpinned : r.options.chain = none
  due : Due x.message r t₁
  again : Due x.message r t₂
  harmless : negotiate = true → Harmless e r t₁ found

theorem first_answer (hon : HonestSignatures) (digest : ∀ b, Platform.sha256 b ≠ [])
    (x : Emission e negotiate) (r : Receiver) (cache : Option (ChainCache σ)) (t₁ t₂ : DateTime)
    (s : σ) (h : Timely x r t₁ t₂ (cached cache e s)) :
    ∃ out u, (authenticateMessage r cache x.first t₁ t₂).run s = (.ok out,u) ∧
      ((∃ c, out = .claims c ∧ Spoken x.message c) ∨
        negotiate = true ∧ out = .reject chainRequired) := by
  have hkey := lookupKey_first hon x cache
  set key := if cache.isSome then some e.key else none with hk
  have hfound : (lookupChain cache key s).1 = cached cache e s := lookup_first cache s
  have hproper : (cached cache e s).isSome = true → key.isSome = true := by
    intro hf
    cases cache with
    | none => cases hf
    | some c => rw [hk]; rfl
  have hanswer : ∃ out w, settle r cache.isSome x.first key (cached cache e s) t₁ t₂ =
      .ok (out,w) ∧ ((∃ c, out = .claims c) ∨ negotiate = true ∧ out = .reject chainRequired) := by
    cases negotiate with
    | true =>
      rw [first_bare]
      obtain ⟨out,w,hs,hout⟩ := settle_bare hon x.message r h.unpinned cache.isSome key _ hproper
        t₁ t₂ h.due (h.harmless rfl)
      exact ⟨out,w,hs,hout.imp_right fun ho => ⟨rfl,ho⟩⟩
    | false =>
      obtain ⟨c,w,hs⟩ := settle_embedded hon digest x r h.unpinned cache.isSome key _ hproper
        t₁ t₂ h.due h.again
      exact ⟨_,w,hs,Or.inl ⟨c,rfl⟩⟩
  obtain ⟨out,w,hs,hout⟩ := hanswer
  refine ⟨out,_,(authenticateMessage_ok _ _ _ _ _ _ _ _).2 ⟨key,w,hkey,?_,rfl⟩,?_⟩
  · rw [hfound]
    exact hs
  · refine hout.imp_left ?_
    rintro ⟨c,rfl⟩
    obtain ⟨t,chain,hv⟩ := settle_claims _ _ _ _ _ _ _ _ _ hs
    exact ⟨c,rfl,spoken hon x r x.first rfl t chain c hv⟩

theorem first_found (hon : HonestSignatures) (digest : ∀ b, Platform.sha256 b ≠ [])
    (x : Emission e negotiate) (r : Receiver) (hpin : r.options.chain = none)
    (cache : Option (ChainCache σ)) (t₁ t₂ : DateTime) (s u : σ) (out : Outcome)
    (h : Due x.message r t₁)
    (hrun : (authenticateMessage r cache x.first t₁ t₂).run s = (.ok out,u)) :
    (cached cache e s = some e.chain → ∃ c, out = .claims c) ∧
      (negotiate = true → cached cache e s = none → out = .reject chainRequired) := by
  obtain ⟨key,w,hkey,hs,_⟩ := (authenticateMessage_ok _ _ _ _ _ _ _ _).1 hrun
  rw [lookupKey_first hon x cache, Except.ok.injEq] at hkey
  subst hkey
  rw [lookup_first] at hs
  constructor
  · intro hfound
    rcases settle_first hon digest x r hpin cache.isSome
      (if cache.isSome then some e.key else none) _ (Or.inl hfound) t₁ t₂ h with
        ⟨c,hc⟩ | ⟨_,hnone,_⟩
    · rw [hc] at hs
      exact ⟨c,(Prod.mk.inj (Except.ok.inj hs)).1.symm⟩
    · rw [hfound] at hnone
      cases hnone
  · rintro rfl hfound
    rw [hfound, settle_unknown hon x r hpin] at hs
    exact (Prod.mk.inj (Except.ok.inj hs)).1.symm

theorem again_answer (hon : HonestSignatures) (digest : ∀ b, Platform.sha256 b ≠ [])
    (x : Emission e true) (r : Receiver) (cache : Option (ChainCache σ)) (t₁ t₂ : DateTime)
    (s : σ) (hpin : r.options.chain = none) (h : Due x.message r t₁) :
    ∃ c u, (authenticateMessage r cache x.again t₁ t₂).run s = (.ok (.claims c),u) ∧
      Spoken x.message c := by
  obtain ⟨c,hc,_⟩ := verify_own hon digest x.message r hpin t₁ h
  have hv : runVerify r x.message.full t₁ (some (x.message.full.chainAccount,
      x.message.full.chainUser)) = .ok c := hc
  rw [again_full]
  refine ⟨c,_,authenticateMessage_detached r cache _ t₁ t₂ s c (full_detached _) hv,?_⟩
  exact spoken hon x r x.message.bare (negotiated_token x).symm t₁ _ c hc

/-- A receiving site: for each send the clock readings of its verification and what
other calls have done to the cache before it. -/
structure Site (σ : Type) where
  receiver : Receiver
  cache : Option (ChainCache σ)
  others : ℕ → σ → σ
  first : ℕ → DateTime
  second : ℕ → DateTime

def Site.authenticate (w : Site σ) (n : ℕ) (d : Delivery) (s : σ) : Except Exc Outcome × σ :=
  (authenticateMessage w.receiver w.cache d (w.first n) (w.second n)).run (w.others n s)

def Site.found (w : Site σ) (e : Emitter) (s : σ) : Option Chain :=
  cached w.cache e (w.others 0 s)

/-- The premises of an emission at a site. -/
structure Site.Ready (w : Site σ) (x : Emission e negotiate) (s : σ) : Prop where
  timely : Timely x w.receiver (w.first 0) (w.second 0) (w.found e s)
  again : Due x.message w.receiver (w.first 1)

variable {Q A B : Type}

/-- A run that ends accepted and was asked for the chain once at most, by a site that
does not know it: one send for a known chain, two for an unknown one. -/
structure Delivered (x : Emission e negotiate) (found : Option Chain) (accepted asked : B → Prop)
    (view : B → A) (run : List (Q × B) × A) : Prop where
  ends : Ends accepted (fun b => negotiate = true ∧ asked b) view run
  known : found = some e.chain → run.1.length = 1
  unknown : negotiate = true → found = none → run.1.length = 2

/-- A transport whose calls show what their verification answers delivers. -/
theorem delivers (hon : HonestSignatures) (digest : ∀ b, Platform.sha256 b ≠ [])
    (x : Emission e negotiate) (w : Site σ) (s : σ) (hw : w.Ready x s)
    (serve : ℕ → Q → σ → B × σ) (first again : Q) (accepted asked : B → Prop) (view : B → A)
    (asks : A → Bool) (quiet : ∀ b, accepted b → asks (view b) = false)
    (loud : ∀ b, negotiate = true ∧ asked b → asks (view b) = true)
    (hfirst : ∀ out u, w.authenticate 0 x.first s = (.ok out,u) →
      (∀ c, out = .claims c → Spoken x.message c → accepted (serve 0 first s).1) ∧
      (out = .reject chainRequired → asked (serve 0 first s).1))
    (hagain : negotiate = true → ∀ t c u, w.authenticate 1 x.again t = (.ok (.claims c),u) →
      Spoken x.message c → accepted (serve 1 again t).1) :
    Delivered x (w.found e s) accepted asked view
      ((onceMore first again asks).run view serve 0 s).1 := by
  obtain ⟨htimely,hdue⟩ := hw
  obtain ⟨out,u,hrun,hout⟩ := first_answer hon digest x w.receiver w.cache _ _ _ htimely
  obtain ⟨hclaims,hreject⟩ := hfirst out u hrun
  have hfound := first_found hon digest x w.receiver htimely.unpinned w.cache _ _ _ u out
    htimely.due hrun
  have hanswer : accepted (serve 0 first s).1 ∨
      (negotiate = true ∧ asked (serve 0 first s).1) ∧ out = .reject chainRequired := by
    rcases hout with ⟨c,rfl,hc⟩ | ⟨hn,rfl⟩
    · exact Or.inl (hclaims c rfl hc)
    · exact Or.inr ⟨⟨hn,hreject rfl⟩,rfl⟩
  constructor
  · apply onceMore_ends _ _ _ _ _ _ _ _ _ quiet loud (hanswer.imp_right And.left)
    rintro ⟨rfl,_⟩
    obtain ⟨c,u,hrun,hc⟩ := again_answer hon digest x w.receiver w.cache (w.first 1) (w.second 1)
      (w.others 1 (serve 0 first s).2) htimely.unpinned hdue
    exact hagain rfl _ c u hrun hc
  · intro hknown
    obtain ⟨c,rfl⟩ := hfound.1 hknown
    rw [onceMore_length, quiet _ (hanswer.resolve_right fun h => by cases h.2)]
    rfl
  · intro hn hunknown
    rw [onceMore_length, loud _ ⟨hn,hreject (hfound.2 hn hunknown)⟩]
    rfl

end Sends

section Widgets
local instance : Platform := lateDomain.honest

theorem widget_emission (audience : Str) (ha : Encodable audience) (hne : audience ≠ []) :
    ∃ x : Emission emitter true, x.message.audience = audience ∧
    x.message.body = Recorded.bodyBytes ∧ x.message.ttl = 60000000 ∧ x.message.now = requestedAt ∧
    Due x.message negotiating requestedAt := by
  have hr : tsMin ≤ timestampInt requestedAt ∧
      timestampInt ⟨1893456060000000,by decide,by decide⟩ ≤ tsMax ∧
      timestampInt requestedAt ≤ tsMax ∧
      tsMin ≤ timestampInt ⟨1893456060000000,by decide,by decide⟩ := by decide
  have hcurrent : 1893455880000000 ≤
      timestampInt ⟨1893456060000000,by decide,by decide⟩*1000000 := by decide
  obtain ⟨tok,ht⟩ := emitter_issues audience ha requestedAt
    ⟨1893456060000000,by decide,by decide⟩ 60000000 (by decide) (by decide) (by decide) hr
  refine ⟨⟨⟨audience,Recorded.bodyBytes,60000000,requestedAt,_,tok,hne,by decide,ht,hr⟩,tok,ht⟩,
    rfl,rfl,rfl,rfl,?_⟩
  exact emitter_due _ requestedAt ⟨⟨1893455880000000,by decide,by decide⟩,by decide,hcurrent⟩

theorem widget_digests : ∀ b, Platform.sha256 b ≠ [] :=
  sha256_ne_nil lateDomain (fun k m sig => decide (sig = lateDomain.signature k m))
    (by decide +kernel)

end Widgets

end Valiss.TwoSends
