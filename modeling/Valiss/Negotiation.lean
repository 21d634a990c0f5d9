import Valiss.ChainRuns
import Valiss.Exchange
import Valiss.KeyText
import Valiss.Recorded

/-!
# Chain negotiation

Whatever other calls do in between, an emitter's bare message is accepted or
answered with the request for the chain, as long as the chain found for it decodes
and its times compare. The retransmit is accepted and leaves the emitter's chain
in the cache.
-/

set_option autoImplicit false

namespace Valiss.Negotiation
open Lib.Unicode Lib.Base64 Lib.Base32 Lib.Json Lib.Calendar Lib.Fallible Lib.Runs
open Valiss.Errors Valiss.Nkeys Valiss.Codec Valiss.TokenClaims Valiss.Mint Valiss.Decode
open Valiss.Verify Valiss.TokenRoundTrip Valiss.KeyText Valiss.Printing Valiss.Message Valiss.Chains
open Valiss.MsgTransport Valiss.ChainRuns Valiss.Exchange Valiss.Recorded Recorded.Widgets

section Runs
variable [Platform] {σ : Type}

def Bare (e : Emitter) (q : Call) : Prop :=
  q.receiver.options.chain = none ∧ ∃ m : Minted e, q.delivery = m.bare

def Full (e : Emitter) (q : Call) : Prop :=
  q.receiver.options.chain = none ∧ ∃ m : Minted e, q.delivery = m.full

/-- The emitter's messages are current and its chain holds where they are verified,
and what a first send finds in the cache does it no harm. -/
def Fair (e : Emitter) (w : World σ) : Event → Prop
  | .finish k => ∀ l t₁ t₂, w.calls k = some (.ready l t₁ t₂) →
      l.call.receiver.options.chain = none → ∀ m : Minted e,
        (l.call.delivery = m.bare → Due m l.call.receiver t₁ ∧
          Harmless e l.call.receiver t₁ l.found) ∧
        (l.call.delivery = m.full → Due m l.call.receiver t₁)
  | _ => True

variable (cache : Option (ChainCache σ))

/-- The key looked up is the delivery's, and nothing is found without a key. -/
def Proper (l : Looked) : Prop :=
  lookupKey cache l.call.delivery = .ok l.key ∧ (l.found.isSome = true → l.key.isSome = true)

/-- The answers an emitter may get: claims or the request for the chain to a first
send, claims to a retransmit or when its own chain was found, and no exception. -/
def Right (e : Emitter) : Phase → Prop
  | .waiting _ => True
  | .looked l | .timed l _ | .ready l _ _ => Proper cache l
  | .answered l _ _ out =>
    (Bare e l.call → (∃ c, out = .claims c) ∨ out = .reject chainRequired) ∧
    (Full e l.call → ∃ c, out = .claims c) ∧
    (Bare e l.call → l.found = some e.chain → ∃ c, out = .claims c)
  | .failed q _ => ¬ Bare e q ∧ ¬ Full e q

def AllRight (e : Emitter) (w : World σ) : Prop := ∀ k p, w.calls k = some p → Right cache e p

variable {cache} {e : Emitter}

theorem allRight_move (w : World σ) (k : ℕ) (p : Phase) (h : AllRight cache e w)
    (hp : Right cache e p) : AllRight cache e (w.move k p) := by
  intro j q hj
  by_cases he : j = k
  · simp only [World.move, he, if_true, Option.some.injEq] at hj
    exact hj ▸ hp
  · simp only [World.move, if_neg he] at hj
    exact h j q hj

theorem lookupKey_emitter (hon : HonestSignatures) (q : Call) (x : Exc)
    (h : lookupKey cache q.delivery = .error x) : ¬ Bare e q ∧ ¬ Full e q := by
  constructor
  · rintro ⟨_,m,hm⟩
    rw [hm, lookupKey, cacheKey_bare hon m] at h
    split_ifs at h
  · rintro ⟨_,m,hm⟩
    rw [hm, lookupKey, cacheKey, if_pos (full_detached m)] at h
    split_ifs at h

theorem allRight_look (hon : HonestSignatures) (w : World σ) (k : ℕ) (q : Call)
    (h : AllRight cache e w) : AllRight cache e (w.look cache k q) := by
  unfold World.look
  split
  next x hx => exact allRight_move w k _ h (lookupKey_emitter hon q x hx)
  next key hkey =>
    apply allRight_move
    · exact h
    refine ⟨hkey,?_⟩
    intro hf
    cases key with
    | none =>
      cases cache <;> cases hf
    | some k => rfl

theorem right_answered (hon : HonestSignatures) (digest : ∀ b, Platform.sha256 b ≠ [])
    (w : World σ) (k : ℕ) (l : Looked) (t₁ t₂ : DateTime)
    (hk : w.calls k = some (.ready l t₁ t₂)) (hl : Proper cache l) (hf : Fair e w (.finish k))
    (out : Outcome) (write : Write)
    (hs : settle l.call.receiver cache.isSome l.call.delivery l.key l.found t₁ t₂ =
      .ok (out,write)) : Right cache e (.answered l t₁ t₂ out) := by
  refine ⟨?_,?_,?_⟩
  · rintro ⟨hpin,m,hm⟩
    obtain ⟨hdue,hharm⟩ := (hf l t₁ t₂ hk hpin m).1 hm
    obtain ⟨out',w',hs',hout⟩ := settle_bare hon m _ hpin cache.isSome l.key l.found hl.2 t₁ t₂
      hdue hharm
    rw [hm, hs'] at hs
    obtain ⟨rfl,_⟩ := Prod.mk.inj (Except.ok.inj hs)
    exact hout
  · rintro ⟨hpin,m,hm⟩
    obtain ⟨c,hs'⟩ := settle_full hon digest m _ hpin cache.isSome l.key l.found t₁ t₂
      ((hf l t₁ t₂ hk hpin m).2 hm)
    rw [hm, hs'] at hs
    exact ⟨c,(Prod.mk.inj (Except.ok.inj hs)).1.symm⟩
  · rintro ⟨hpin,m,hm⟩ hfound
    obtain ⟨hdue,_⟩ := (hf l t₁ t₂ hk hpin m).1 hm
    obtain ⟨c,hs'⟩ := settle_known hon digest m _ hpin cache.isSome l.key t₁ t₂ hdue
    rw [hm, hfound, hs'] at hs
    exact ⟨c,(Prod.mk.inj (Except.ok.inj hs)).1.symm⟩

theorem right_failed (hon : HonestSignatures) (digest : ∀ b, Platform.sha256 b ≠ [])
    (w : World σ) (k : ℕ) (l : Looked) (t₁ t₂ : DateTime)
    (hk : w.calls k = some (.ready l t₁ t₂)) (hl : Proper cache l) (hf : Fair e w (.finish k))
    (x : Exc) (hs : settle l.call.receiver cache.isSome l.call.delivery l.key l.found t₁ t₂ =
      .error x) : Right cache e (.failed l.call x) := by
  constructor
  · rintro ⟨hpin,m,hm⟩
    obtain ⟨hdue,hharm⟩ := (hf l t₁ t₂ hk hpin m).1 hm
    obtain ⟨_,_,hs',_⟩ := settle_bare hon m _ hpin cache.isSome l.key l.found hl.2 t₁ t₂
      hdue hharm
    rw [hm, hs'] at hs
    cases hs
  · rintro ⟨hpin,m,hm⟩
    obtain ⟨_,hs'⟩ := settle_full hon digest m _ hpin cache.isSome l.key l.found t₁ t₂
      ((hf l t₁ t₂ hk hpin m).2 hm)
    rw [hm, hs'] at hs
    cases hs

theorem allRight_step (hon : HonestSignatures) (digest : ∀ b, Platform.sha256 b ≠ [])
    (w : World σ) (ev : Event) (u : World σ) (hf : Fair e w ev) (h : step cache w ev = some u)
    (hw : AllRight cache e w) : AllRight cache e u := by
  cases ev with
  | tick t =>
    obtain ⟨_,rfl⟩ := (step_tick _ _ _).1 h
    exact hw
  | arrive k q =>
    obtain ⟨_,rfl⟩ := (step_arrive _ _ _ _).1 h
    exact allRight_move w k _ hw trivial
  | look k =>
    obtain ⟨q,_,rfl⟩ := (step_look _ _ _).1 h
    exact allRight_look hon w k q hw
  | readFirst k =>
    obtain ⟨l,hk,rfl⟩ := (step_readFirst _ _ _).1 h
    exact allRight_move w k _ hw (hw k (.looked l) hk)
  | readSecond k =>
    obtain ⟨l,t₁,hk,rfl⟩ := (step_readSecond _ _ _).1 h
    exact allRight_move w k _ hw (hw k (.timed l t₁) hk)
  | finish k =>
    obtain ⟨l,t₁,t₂,hk,rfl⟩ := (step_finish _ _ _).1 h
    have hl : Proper cache l := hw k (.ready l t₁ t₂) hk
    unfold World.finish
    split
    next x hs =>
      exact allRight_move w k _ hw (right_failed hon digest w k l t₁ t₂ hk hl hf x hs)
    next out write hs =>
      apply allRight_move
      · exact hw
      · exact right_answered hon digest w k l t₁ t₂ hk hl hf out write hs

def entry (cache : Option (ChainCache σ)) (e : Emitter) (w : World σ) : Option Chain :=
  (lookupChain cache (some e.key) w.store).1

/-- A retransmit that ends leaves the emitter's chain in the cache. -/
theorem finish_caches (hon : HonestSignatures) (digest : ∀ b, Platform.sha256 b ≠ [])
    (lawful : ∀ c ∈ cache, c.Lawful) (w u : World σ) (k : ℕ) (l : Looked) (t₁ t₂ : DateTime)
    (hk : w.calls k = some (.ready l t₁ t₂)) (hfull : Full e l.call)
    (hf : Fair e w (.finish k)) (h : step cache w (.finish k) = some u) :
    entry cache e u = cache.map fun _ => e.chain := by
  obtain ⟨hpin,m,hm⟩ := hfull
  obtain ⟨c,hs⟩ := settle_full hon digest m _ hpin cache.isSome l.key l.found t₁ t₂
    ((hf l t₁ t₂ hk hpin m).2 hm)
  obtain ⟨l',t₁',t₂',hk',rfl⟩ := (step_finish _ _ _).1 h
  rw [hk, Option.some.injEq, Phase.ready.injEq] at hk'
  obtain ⟨rfl,rfl,rfl⟩ := hk'
  rw [World.finish, hm, hs]
  cases cache with
  | none => rfl
  | some cc => exact (lawful cc rfl).get_put e.key e.chain w.store

theorem look_finds (hon : HonestSignatures) (w u : World σ) (k : ℕ) (q : Call)
    (hk : w.calls k = some (.waiting q)) (hq : Bare e q) (h : step cache w (.look k) = some u) :
    ∃ l, Tracked k l u ∧ l.call = q ∧ l.found = entry cache e w := by
  obtain ⟨q',hk',rfl⟩ := (step_look _ _ _).1 h
  rw [hk, Option.some.injEq, Phase.waiting.injEq] at hk'
  subst hk'
  have hkey : lookupKey cache q.delivery = .ok (if cache.isSome then some e.key else none) := by
    obtain ⟨_,m,hm⟩ := hq
    rw [hm, lookupKey, cacheKey_bare hon m]
    split_ifs <;> rfl
  rw [World.look, hkey]
  refine ⟨_,⟨_,if_pos rfl,Or.inl rfl⟩,rfl,?_⟩
  cases cache <;> rfl

/-- In every fair run the emitter gets the right answers, a retransmit leaves its
chain in the cache, and a later first send that finds it there is accepted. -/
theorem negotiation_converges (hon : HonestSignatures) (digest : ∀ b, Platform.sha256 b ≠ [])
    (e : Emitter) (cache : Option (ChainCache σ)) (lawful : ∀ c ∈ cache, c.Lawful)
    (clock : DateTime) (store : σ) (es : List Event) (w : World σ)
    (hm : Meets (step cache) (Fair e) (World.start clock store) es)
    (h : run (step cache) (World.start clock store) es = some w) :
    AllRight cache e w ∧
    (∀ k u l t₁ t₂, w.calls k = some (.ready l t₁ t₂) → Full e l.call → Fair e w (.finish k) →
      step cache w (.finish k) = some u → entry cache e u = cache.map fun _ => e.chain) ∧
    ∀ k q u ds v l t₁ t₂ out, w.calls k = some (.waiting q) → Bare e q →
      entry cache e w = some e.chain → step cache w (.look k) = some u →
      Meets (step cache) (Fair e) u ds → run (step cache) u ds = some v →
      v.calls k = some (.answered l t₁ t₂ out) → ∃ c, out = .claims c := by
  have hstart : AllRight cache e (World.start clock store) := by
    intro k p hp
    cases hp
  have hw : AllRight cache e w :=
    run_invariant _ (Fair e) (AllRight cache e) (allRight_step hon digest) _ w es hm h hstart
  refine ⟨hw,?_,?_⟩
  · intro k u l t₁ t₂ hk hfull hf hu
    exact finish_caches hon digest lawful w u k l t₁ t₂ hk hfull hf hu
  · intro k q u ds v l t₁ t₂ out hk hq hentry hu hds hv hanswer
    have hright : AllRight cache e v := run_invariant _ (Fair e) (AllRight cache e)
      (allRight_step hon digest) u v ds hds hv (allRight_step hon digest w (.look k) u trivial hu hw)
    obtain ⟨l',ht,hcall,hfound⟩ := look_finds hon w u k q hk hq hu
    obtain ⟨p,hp,hl⟩ := run_invariant _ (fun _ _ => True) (Tracked k l')
      (fun w ev u _ hs => tracked_step k l' w ev u hs) u v ds
      (meets_of_forall _ _ ds (fun _ _ _ => trivial) u) hv ht
    rw [hanswer, Option.some.injEq] at hp
    subst hp
    rcases hl with hl | ⟨_,_,hl⟩
    · obtain rfl := Option.some.inj hl
      obtain ⟨_,_,hknown⟩ := hright k _ hanswer
      exact hknown (hcall ▸ hq) (hfound.trans hentry)
    · cases hl

end Runs

def activeSample : Sample where
  issuer := operatorRaw
  text id := lit "\x7b" ++ (id ++ (lit "\"iat\":1784133873,\"iss\":\"" ++ (operatorKey ++
    (lit "\",\"name\":\"acme\",\"sub\":\"" ++ (accountKey ++
      (lit "\",\"nbf\":1784133873," ++
        lit "\"valiss\":\x7b\"type\":\"account\",\"epoch\":7\x7d\x7d"))))))
  digest := bytesOf 32 0x9fa7fe394f5f594ed845996c1e6d674bdeb59edfd21cad3734f101e21c628fc8
  signature := bytesOf 32 0x9c659a34151893144b0124cf731a91da39cfec9f6a3b9553705577829b27d1a5 ++
    bytesOf 32 0x5725ac8af2f82b2585014384f5d07e9a1619648bd7c2923d4171e9090c72a708

def lateSample : Sample where
  issuer := userRaw
  text id := lit "\x7b" ++ (id ++ (lit "\"iat\":253402300740,\"iss\":\"" ++ (userKey ++
    (lit "\",\"sub\":\"" ++ (userKey ++ (lit "\",\"aud\":\"" ++ (destination ++
      (lit "\",\"exp\":253402300770,\"valiss\":\x7b\"type\":\"message\"," ++
        (lit "\"epoch\":7,\"checksum\":\"" ++ (hex bodyDigest ++ lit "\"\x7d\x7d"))))))))))
  digest := bytesOf 32 0x84c7a6034f31f2ac26358d0fb32056f4b911f47f73a37675becadaee82c607a2
  signature := bytesOf 32 0x2157d7ccaed1ae2fe3451f7b0dbad871bded053e3a5720e77a0e81b912a9c945 ++
    bytesOf 32 0x5942c32eaa9b7ec897072ce10eda07f5ae43bc0005e154cb9c7b2bab46b1a003

def lateDomain : Recording where
  digests := lateSample.hashed::domain.digests
  keys := domain.keys
  signatures := lateSample.signed::activeSample.signed::domain.signatures

section Active
variable [Platform]

def activeDraft : Draft := {levelDraft accountType "acme" accountKey with notBefore := 1784133873}

theorem active_text (jti : Str) (hj : Plain jti) :
    goText (.obj (payloadOf activeDraft operatorKey jti)) =
      activeSample.text (lit "\"jti\":\"" ++ jti ++ lit "\",") := by
  have ho : Plain operatorKey := b32encode_plain _
  have ha : Plain accountKey := b32encode_plain _
  have hn : Plain (lit "acme") := by decide
  have hane : accountKey ≠ [] := encodePublic_ne_nil .account accountRaw
  have hnne : lit "acme" ≠ [] := by decide
  unfold Plain at hj ho ha hn
  have hnow : intText (timestampInt issuedAt) = lit "1784133873" := by decide +kernel
  rw [goText_eq]
  simp only [dumpsWith, dumpsMembers, quoted, payloadOf, Draft.claims, activeDraft, levelDraft,
    Body.members, strMember, intMember, chainMember, activeSample, hane, hnne, hj, ho, ha, hn, hnow,
    show (7:ℤ) ≠ 0 by decide, show (1784133873:ℤ) ≠ 0 by decide, if_true, if_false,
    Bool.false_eq_true, List.nil_append, List.cons_append, List.append_assoc]
  generalize operatorKey = issuer
  generalize accountKey = subject
  rfl

theorem active_inRange : InRange activeDraft := by
  obtain ⟨hnow,hexp,_,hepoch⟩ := level_inRange accountType "acme" accountKey
  exact ⟨hnow,hexp,show tsMin ≤ 1784133873 ∧ (1784133873 : ℤ) ≤ tsMax by decide,hepoch⟩

theorem active_printable : Printable activeDraft := by
  obtain ⟨h1,h2,h3,h4,h5,h6,h7,h8⟩ := level_printable accountType "acme" accountKey (by decide)
    (by decide) (b32encode_encodable _)
  exact ⟨h1,h2,h3,h4,h5,h6,h7,h8⟩

def activeRead : Decoded :=
  decodedDraft activeDraft operatorKey (b32encode activeSample.digest) active_inRange

end Active

section Widgets
local instance : Platform := lateDomain.honest

def lastMinute : DateTime := ⟨253402300740000000,by decide,by decide⟩

def bundle : Valiss.Credentials.Creds :=
  ⟨accountSample.token,userSample.token,encodeSeed .user userSeed.val⟩

def negotiating : Receiver := ⟨.pinned operatorKey,{}⟩

instance : @Recording.Honoured lateDomain lateDomain.honest :=
  honest_honoured lateDomain (by decide +kernel) (by decide +kernel)

instance : @Recording.Honoured domain lateDomain.honest :=
  honoured_part domain lateDomain (List.subset_cons_self _ _)
    (List.subset_cons_of_subset _ (List.subset_cons_self _ _))

theorem bundle_minted : minter bundle = .ok (userPair,7) := by
  have hissuer : issuerOf bundle.accountToken = .ok operatorKey :=
    (issuerOf_ok _ _).2 ⟨accountRead,account_decoded,rfl⟩
  have hseed : bundle.seed ≠ [] := by
    show encodeSeed .user userSeed.val ≠ []
    rw [encodeSeed, sealed]
    exact b32encode_ne_nil _ (by simp)
  exact minter_made bundle userPair operatorKey _ _
    ⟨accountSample.token_ne_nil,userSample.token_ne_nil,hseed⟩ (fromSeed_encode .user userSeed)
    hissuer account_verified user_verified rfl

def emitter : Emitter := ⟨bundle,userPair,7,bundle_minted⟩

theorem emitter_key : emitter.key = userKey := by
  have hpub : Platform.publicOf userSeed = userRaw := by decide +kernel
  show encodePublic .user (Platform.publicOf userSeed).val = userKey
  rw [hpub]
  rfl

theorem body_checksum : checksum bodyBytes = hex bodyDigest := by
  rw [checksum, body_digest]

theorem emitter_issues (audience : Str) (ha : Encodable audience) (now expiry : DateTime)
    (ttl : TimeDelta) (hpos : (0 : ℤ) < ttl) (hx : now.plus ttl = some expiry)
    (hne : timestampInt expiry ≠ 0)
    (hr : tsMin ≤ timestampInt now ∧ timestampInt expiry ≤ tsMax ∧ timestampInt now ≤ tsMax ∧
      tsMin ≤ timestampInt expiry) : ∃ tok, issueMessage userPair audience
        (checksum bodyBytes) none {ttl := some ttl,epoch := 7,now := now} = .ok tok := by
  have hv : isValidPublicUserKey userPair.publicKey = true :=
    (isValidPublic_publicKey userPair .user).2 rfl
  have hsum : ¬ (hex bodyDigest ≠ [] ∧ isHexSha256 (hex bodyDigest) = false) := by decide
  have hval : validity {ttl := some ttl,epoch := 7,now := now} = .ok (timestampInt expiry,0) := by
    simp [validity, hx, arith, hpos]
  have hext : extensionsClaim [] = (.ok [] : Py (Dict Json)) := rfl
  have hd : Message.messageDraft userPair audience (hex bodyDigest) none
      {ttl := some ttl,epoch := 7,now := now} = .ok ⟨⟨messageType,7,false,hex bodyDigest,none,[]⟩,[],
        userPair.publicKey,audience,timestampInt expiry,0,now⟩ := by
    rw [Message.messageDraft, raiseIf_neg _ _ (not_not.2 hv), raiseIf_neg _ _ hsum, hext, hval]
    simp only [ok_bind, raiseIf_neg _ _ hne]
    rfl
  rw [body_checksum, issueMessage, hd, ok_bind]
  apply encodeV1_printable userPair userSeed rfl
  · have ht : Encodable messageType := by decide
    have hc : Encodable (hex bodyDigest) := by decide
    exact ⟨encodable_nil,b32encode_encodable _,ha,ht,hc,by simp,trivial,rfl⟩
  · exact inRange_brief _ ⟨⟨hr.1,hr.2.2.1⟩,⟨hr.2.2.2,hr.2.1⟩,ts_zero,
      show (0 : ℤ) ≤ 7 ∧ (7 : ℤ) ≤ uint64Max by decide⟩

theorem emitter_mints (now expiry : DateTime) (ttl : TimeDelta) (hpos : (0 : ℤ) < ttl)
    (hx : now.plus ttl = some expiry) (hne : timestampInt expiry ≠ 0)
    (hr : tsMin ≤ timestampInt now ∧ timestampInt expiry ≤ tsMax ∧ timestampInt now ≤ tsMax ∧
      tsMin ≤ timestampInt expiry) : ∃ m : Minted emitter, m.expiry = expiry := by
  obtain ⟨tok,ht⟩ := emitter_issues destination (by decide) now expiry ttl hpos hx hne hr
  exact ⟨⟨destination,bodyBytes,ttl,now,expiry,tok,by decide,hx,ht,hr⟩,rfl⟩

theorem emitter_due (m : Minted emitter) (t : DateTime) (h : m.Current negotiating t) :
    Due m negotiating t := by
  refine ⟨⟨accountClaims accountRead,none,userClaims userRead,?_⟩,h⟩
  constructor
  · show messageAnchor (.pinned operatorKey) none (.str accountSample.token) = _
    rw [messageAnchor, asToken, ok_bind, account_verified]
    rfl
  · exact user_verified
  · exact emitter_key.symm
  · intro o ho
    cases ho
  · dsimp only [accountClaims]
    exact account_unbounded _ _
  · dsimp only [userClaims]
    exact user_unbounded _ _

theorem active_decoded : decodeToken activeSample.token = .ok activeRead :=
  sample_decoded activeSample .operator _ active_inRange active_printable rfl
    (active_text _ (b32encode_plain _))
    (Recording.Honoured.verifies (r := lateDomain) activeSample.signed (by simp [lateDomain]))

/-- Another chain of the user: its account has an activation time. -/
def foreign : Lru := [(userKey,activeSample.token,userSample.token)]

theorem foreign_decodes (x : Str × Chain) (hx : x ∈ foreign) : Decodes x.2.1 ∧ Decodes x.2.2 := by
  obtain rfl := List.mem_singleton.1 hx
  constructor
  · rw [Decodes, active_decoded]
    exact raises_ok _ _
  · rw [Decodes, user_decoded]
    exact raises_ok _ _

theorem foreign_overflows (m : Minted emitter) :
    runVerify negotiating m.bare lastMinute (some (activeSample.token,userSample.token)) =
      .error (.builtin .overflowError (Platform.builtinText .overflowError)) := by
  obtain ⟨d,hd,hissuer,_,_,_,hchain,hepoch,_⟩ := Exchange.message_read (honest_signatures _) m
  have hm : messageToken m.bare.token = .ok d := hd
  have haccount : verifyAccount activeSample.token operatorKey = .ok (accountClaims activeRead) :=
    (verifyAccount_ok _ _ _).2 ⟨activeRead,active_decoded,rfl,rfl,
      valid_public .account accountRaw,rfl⟩
  have hanchor : messageAnchor (.pinned operatorKey) none (.str activeSample.token) =
      .ok (accountClaims activeRead,none) := by
    rw [messageAnchor, asToken, ok_bind, haccount]
    rfl
  have hunder : messageChain (.pinned operatorKey) ⟨lastMinute,120000000,some m.bare.audience,false,
      some m.bare.body,some (activeSample.token,userSample.token),none⟩ d =
      .ok (messageClaims d (accountClaims activeRead) (userClaims userRead) none) := by
    refine (messageChain_ok _ _ _ _).2 ⟨_,userSample.token,_,_,_,?_,hanchor,user_verified,
      (hissuer.trans emitter_key).symm,
      (messageEpochs_ok _ _ _ _ _ _ _).2
        ⟨fun c hc => (Option.not_mem_none c hc).elim,hepoch,hepoch⟩,rfl⟩
    rw [hchain]
    rfl
  have hnever : lastMinute.plus 120000000 = none := by decide
  have hearly : (claimsOf activeRead).notYetValid lastMinute 120000000 =
      .error (.builtin .overflowError (Platform.builtinText .overflowError)) := by
    have hnbf : (claimsOf activeRead).notBefore = some ⟨1784133873*1000000,by decide,by decide⟩ := rfl
    rw [Claims.notYetValid, hnbf]
    dsimp only
    rw [arith, hnever]
    rfl
  have hlate : (claimsOf activeRead).expired lastMinute 120000000 = .ok false := rfl
  have hrun : runVerify negotiating m.bare lastMinute (some (activeSample.token,userSample.token)) =
      verifyUnder (.pinned operatorKey) m.bare.token ⟨lastMinute,120000000,some m.bare.audience,false,
        some m.bare.body,some (activeSample.token,userSample.token),none⟩ := rfl
  have hwindow : messageWindows
      (messageClaims d (accountClaims activeRead) (userClaims userRead) none) lastMinute 120000000 =
      .error (.builtin .overflowError (Platform.builtinText .overflowError)) := by
    have hactive : (messageClaims d (accountClaims activeRead) (userClaims userRead)
        none).account.toClaims = claimsOf activeRead := rfl
    rw [messageWindows, hactive, checkWindow, hlate, ok_bind, raiseIf_neg _ _ (by decide), ok_bind,
      hearly]
    rfl
  rw [hrun, verifyUnder, hm, ok_bind, hunder, ok_bind, hwindow]
  rfl

/-- Comparing the activation time of the chain that was found leaves the calendar,
and the first send ends in an `OverflowError`. -/
theorem first_send_overflows : ∃ (e : Emitter) (m : Minted e) (text : Str),
    Due m negotiating lastMinute ∧ (∀ x ∈ foreign, Decodes x.2.1 ∧ Decodes x.2.2) ∧
    ((authenticateMessage negotiating (some memoryChainCache) m.bare lastMinute lastMinute).run
      foreign).1 = .error (.builtin .overflowError text) := by
  obtain ⟨m,hm⟩ := emitter_mints lastMinute ⟨253402300770000000,by decide,by decide⟩ 30000000
    (by decide) (by decide) (by decide) (by decide)
  have hcurrent : m.Current negotiating lastMinute := by
    rw [Minted.Current, hm]
    exact ⟨⟨253402300620000000,by decide,by decide⟩,by decide,by decide⟩
  refine ⟨emitter,m,Platform.builtinText .overflowError,emitter_due m lastMinute hcurrent,
    foreign_decodes,?_⟩
  have hkey : lookupKey (some memoryChainCache) m.bare = .ok (some userKey) := by
    rw [lookupKey, cacheKey_bare (honest_signatures _) m, emitter_key]
    rfl
  have hfound : (lookupChain (some memoryChainCache) (some userKey) foreign).1 =
      some (activeSample.token,userSample.token) := by
    simp [lookupChain, memoryChainCache, lruGet, foreign]
  apply authenticateMessage_fails _ _ _ _ _ _ _ _ hkey
  rw [hfound, settle, bare_detached]
  dsimp only
  rw [if_neg (by decide), foreign_overflows m]

def retransmit (m : Delivery) : Call :=
  ⟨negotiating,{m with chainAccount := bundle.accountToken,chainUser := bundle.userToken}⟩

def retransmitEvents (m : Delivery) : List Event :=
  [.arrive 0 (retransmit m),.look 0,.readFirst 0,.readSecond 0]

theorem negotiation_converges_widgets : ∃ (e : Emitter) (m : Minted e) (w u : World Lru),
    run (step (some memoryChainCache)) (World.start requestedAt foreign)
      (retransmitEvents m.bare) = some w ∧ step (some memoryChainCache) w (.finish 0) = some u ∧
    entry (some memoryChainCache) e u = some e.chain := by
  obtain ⟨m,hm⟩ := emitter_mints requestedAt ⟨1893456060000000,by decide,by decide⟩ 60000000
    (by decide) (by decide) (by decide) (by decide)
  have hcurrent : m.Current negotiating requestedAt := by
    rw [Minted.Current, hm]
    exact ⟨⟨1893455880000000,by decide,by decide⟩,by decide,by decide⟩
  have hdigest := sha256_ne_nil lateDomain (fun k m sig => decide (sig = lateDomain.signature k m))
    (by decide +kernel)
  obtain ⟨c,hv,_⟩ := verify_own (honest_signatures _) hdigest m negotiating rfl requestedAt
    (emitter_due m requestedAt hcurrent)
  have hcreds : emitter.creds = bundle := rfl
  have hfull : (retransmit m.bare).delivery = m.full := by
    simp only [retransmit, Minted.bare, Minted.full, hcreds]
  have hkey : lookupKey (some memoryChainCache) (retransmit m.bare).delivery = .ok none := by
    rw [hfull, lookupKey, cacheKey, if_pos (full_detached m)]
    rfl
  obtain ⟨w,hw,hready⟩ : ∃ w, run (step (some memoryChainCache)) (World.start requestedAt foreign)
      (retransmitEvents m.bare) = some w ∧
      w.calls 0 = some (.ready ⟨retransmit m.bare,none,none⟩ requestedAt requestedAt) := by
    simp [run, step, retransmitEvents, World.start, World.move, World.look, hkey, lookupChain]
  have hfair : Fair emitter w (.finish 0) := by
    intro l t₁ t₂ hk hpin m'
    rw [hready, Option.some.injEq, Phase.ready.injEq] at hk
    obtain ⟨rfl,rfl,rfl⟩ := hk
    constructor
    · intro hm
      have hd : m.full.detached = m'.bare.detached := congrArg Delivery.detached (hfull.symm.trans hm)
      rw [full_detached, bare_detached] at hd
      cases hd
    · intro hm
      have hm' : m'.bare = m.bare := by
        rw [hfull] at hm
        simp only [Minted.full, Delivery.mk.injEq] at hm
        simp only [Minted.bare, hm]
      exact due_of_verified (honest_signatures _) m' negotiating rfl requestedAt c (hm' ▸ hv)
  obtain ⟨u,hu⟩ : ∃ u, step (some memoryChainCache) w (.finish 0) = some u :=
    ⟨_,(step_finish _ _ _).2 ⟨_,_,_,hready,rfl⟩⟩
  have hmeets : Meets (step (some memoryChainCache)) (Fair emitter) (World.start requestedAt foreign)
      (retransmitEvents m.bare) := by
    apply meets_of_forall
    intro ev hev w
    simp only [retransmitEvents, List.mem_cons, List.not_mem_nil, or_false] at hev
    rcases hev with rfl | rfl | rfl | rfl <;> trivial
  have hstores := (negotiation_converges (honest_signatures _) hdigest emitter (some memoryChainCache)
    (fun c hc => Option.some.inj hc ▸ memoryChainCache_lawful) requestedAt foreign
    (retransmitEvents m.bare) w hmeets hw).2.1
  exact ⟨emitter,m,w,u,hw,hu,hstores 0 u _ _ _ hready ⟨rfl,m,hfull⟩ hfair hu⟩

end Widgets

end Valiss.Negotiation
