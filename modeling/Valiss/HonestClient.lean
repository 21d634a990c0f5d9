import Valiss.HttpAuth
import Valiss.IssuedTokens
import Valiss.KeyText

/-!
# Honest clients

A client with the tokens and the seed it was given attaches headers that the
server of the same trust domain accepts. Only instants at the ends of what a
datetime or a token can hold stand in the way.
-/

set_option autoImplicit false

namespace Valiss.HonestClient
open Lib.Unicode Lib.Base64 Lib.Json Lib.Calendar Lib.Timestamps Lib.Fallible Valiss.Errors
open Valiss.Nkeys Valiss.TokenClaims Valiss.Mint Valiss.Decode Valiss.TokenRoundTrip
open Valiss.RequestSignature Valiss.Verify Valiss.Printing Valiss.Replay Valiss.Credentials
open Valiss.TransportExt Valiss.HttpAuth Valiss.IssuedTokens Valiss.Recorded Valiss.KeyText

section Tokens
variable [Platform]

structure Readable (o : MintOptions) : Prop where
  issued : timestampInt o.now ≤ tsMax
  expires : written (requestedExpiry o) ≤ tsMax
  activates : written o.notBefore ≤ tsMax

omit [Platform] in
theorem written_low (t : Option DateTime) : tsMin ≤ written t := by
  cases t with
  | none => exact ts_zero.1
  | some x => exact timestampInt_low x

section Issued
variable {kp : KeyPair} {o : MintOptions} {l : Level} {tok : Str} (h : l.issue kp o = .ok tok)
include h

theorem issued_decodes (hon : HonestSignatures) (he : 0 ≤ o.epoch ∧ o.epoch ≤ uint64Max) :
    (∃ x, decodeToken tok = .ok x) ↔ Readable o := by
  obtain ⟨expires,nbf,ext,hv,hext,_,ht⟩ := l.issue_ok kp o tok h
  obtain ⟨rfl,rfl⟩ := validity_written o expires nbf hv
  have hdist := extensionsClaim_distinct _ _ hext
  constructor
  · rintro ⟨x,hx⟩
    obtain ⟨_,_,hr,_⟩ := decodeToken_reads kp _ tok ht hdist x hx
    exact ⟨hr.issuedAt.2,hr.expires.2,hr.notBefore.2⟩
  · intro hr
    obtain ⟨jti,hx⟩ := draft_decoded h hon _ _ ext hv hext
      ⟨⟨timestampInt_low _,hr.issued⟩,⟨written_low _,hr.expires⟩,⟨written_low _,hr.activates⟩,he⟩
    exact ⟨_,hx⟩

end Issued

def Inside (expires activates : Option ℤ) (now : DateTime) (skew : TimeDelta) : Prop :=
  (∀ x ∈ expires, now.micros-skew ≤ x) ∧ ∀ x ∈ activates, x ≤ now.micros+skew

def Tested (expires activates : Prop) (now : DateTime) (skew : TimeDelta) : Prop :=
  (expires → minMicros ≤ now.micros-skew) ∧ (activates → now.micros+skew ≤ maxMicros)

def windowOf (c : Claims) : Option ℤ × Option ℤ :=
  (c.expiresAt.map DateTime.micros,c.notBefore.map DateTime.micros)

def microsOf (seconds : ℤ) : Option ℤ := if seconds = 0 then none else some (seconds*1000000)

def mintedWindow (o : MintOptions) : Option ℤ × Option ℤ :=
  (microsOf (written (requestedExpiry o)),microsOf (written o.notBefore))

omit [Platform] in
theorem ts_micros (v : Within tsMin tsMax) : (ts v).map DateTime.micros = microsOf v.val := by
  unfold ts microsOf
  split_ifs <;> rfl

theorem issued_window {kp : KeyPair} {o : MintOptions} {l : Level} {tok : Str}
    (h : l.issue kp o = .ok tok) (x : Decoded) (hx : decodeToken tok = .ok x) :
    windowOf (claimsOf x) = mintedWindow o := by
  obtain ⟨_,_,_,he,hn⟩ := issued_values h x hx
  simp only [windowOf, claimsOf, ts_micros, he, hn, mintedWindow]

theorem window_passed (c : Claims) (now : DateTime) (skew : TimeDelta) (hs : (0 : ℤ) ≤ skew)
    (w : Option ℤ × Option ℤ) (hw : windowOf c = w) (h : Inside w.1 w.2 now skew) :
    (c.expired now skew = .ok false ∧ c.notYetValid now skew = .ok false) ↔
      Tested (w.1 ≠ none) (w.2 ≠ none) now skew := by
  subst hw
  have hl := now.low
  have hh := now.high
  simp only [windowOf, Inside, Option.mem_map, forall_exists_index, and_imp,
    forall_apply_eq_imp_iff₂] at h
  rw [expired_false, notYetValid_false, Tested, windowOf]
  refine and_congr ?_ ?_
  · cases hx : c.expiresAt with
    | none => simp
    | some x =>
      have hi := h.1 x hx
      simp only [Option.map_some, ne_eq, reduceCtorEq, not_false_eq_true, true_implies,
        Option.mem_some_iff, forall_eq']
      constructor
      · rintro ⟨t,ht,_⟩
        have := t.low
        omega
      · intro hm
        exact ⟨⟨now.micros-skew,hm,by omega⟩,rfl,hi⟩
  · cases hx : c.notBefore with
    | none => simp
    | some x =>
      have hi := h.2 x hx
      simp only [Option.map_some, ne_eq, reduceCtorEq, not_false_eq_true, true_implies,
        Option.mem_some_iff, forall_eq']
      constructor
      · rintro ⟨t,ht,_⟩
        have := t.high
        omega
      · intro hm
        exact ⟨⟨now.micros+skew,by omega,hm⟩,rfl,hi⟩

end Tokens

section Requests
variable [Platform]

structure Account where
  operator : KeyPair
  keys : KeyPair
  name : Str
  options : MintOptions
  token : Str
  issued : issueAccount operator name keys.publicKey options = .ok token
  epoch : 0 ≤ options.epoch ∧ options.epoch ≤ uint64Max

structure User (a : Account) where
  keys : KeyPair
  name : Str
  bearer : Bool
  options : MintOptions
  token : Str
  issued : issueUser a.keys name keys.publicKey bearer options = .ok token
  epoch : 0 ≤ options.epoch ∧ options.epoch ≤ uint64Max

def Account.level (a : Account) : Level := .account a.name a.keys.publicKey

def User.level {a : Account} (u : User a) : Level := .user u.name u.keys.publicKey u.bearer

theorem Account.made (a : Account) : a.level.issue a.operator a.options = .ok a.token := a.issued

theorem User.made {a : Account} (u : User a) : u.level.issue a.keys u.options = .ok u.token :=
  u.issued

theorem Account.verified (a : Account) (c : AccountClaims) :
    verifyAccount a.token a.operator.publicKey = .ok c ↔
      ∃ x, decodeToken a.token = .ok x ∧ c = accountClaims x := by
  obtain ⟨_,_,_,_,_,hrole,_⟩ := a.level.issue_ok _ _ _ a.made
  rw [verifyAccount_ok]
  constructor
  · rintro ⟨x,hx,_,_,_,rfl⟩
    exact ⟨x,hx,rfl⟩
  · rintro ⟨x,hx,rfl⟩
    obtain ⟨ht,hi,hs,_⟩ := issued_fields a.made x hx
    exact ⟨x,hx,ht,hi,by rw [hs]; exact hrole,rfl⟩

theorem User.verified {a : Account} (u : User a) (c : UserClaims) :
    verifyUser u.token a.keys.publicKey = .ok c ↔
      ∃ x, decodeToken u.token = .ok x ∧ c = userClaims x := by
  obtain ⟨_,_,_,_,_,hrole,_⟩ := u.level.issue_ok _ _ _ u.made
  rw [verifyUser_ok]
  constructor
  · rintro ⟨x,hx,_,_,_,rfl⟩
    exact ⟨x,hx,rfl⟩
  · rintro ⟨x,hx,rfl⟩
    obtain ⟨ht,hi,hs,_⟩ := issued_fields u.made x hx
    exact ⟨x,hx,ht,hi,by rw [hs]; exact hrole,rfl⟩

/-- Credentials over an account token, a user token if any, and the seed of the
key that has to sign, or no seed under a bearer token. -/
structure Client where
  account : Account
  user : Option (User account)
  creds : Creds
  holdsAccount : creds.accountToken = account.token
  holdsUser : creds.userToken = (user.map User.token).getD []
  holdsSeed : (creds.seed = [] ∧ ∃ u ∈ user, u.bearer = true) ∨
    (creds.seed ≠ [] ∧ ∃ kp, fromSeed creds.seed = .ok kp ∧
      kp.publicKey = (user.map fun u => u.keys.publicKey).getD account.keys.publicKey)

def Client.exts (c : Client) : Py (List (Dict Json)) := do
  let account ← extensionsClaim c.account.options.extensions
  match c.user with
  | none => return [account]
  | some u => do
    let user ← extensionsClaim u.options.extensions
    return [account,user]

def Trusted (a : Anchor) (key : Str) (epoch : ℤ) (operator : Option OperatorClaims) : Prop :=
  match a with
  | .pinned pinnedKey o => pinnedKey = key ∧ o = operator
  | .keyring k => ∃ c, k.get key epoch = some c ∧ operator = some c
  | .poisoned _ => False

theorem fromSeed_signs (seed : Str) (kp : KeyPair) (h : fromSeed seed = .ok kp) (b : Bytes) :
    ∃ sig, kp.sign b = .ok sig := by
  simp only [fromSeed, bind_ok, pure_ok, Prod.exists] at h
  obtain ⟨r,raw,_,s,_,rfl⟩ := h
  exact ⟨_,rfl⟩

omit [Platform] in
theorem header_other (k name : String) (s : Str) (rest : Headers) (h : lit name ≠ lit k) :
    header (headerMember k s ++ rest) name = header rest name := by
  unfold headerMember
  split_ifs
  · rfl
  · rw [header, List.cons_append, List.lookup_cons, beq_false_of_ne h]
    rfl

omit [Platform] in
theorem header_same (k : String) (s : Str) (rest : Headers) (h : s = [] → header rest k = []) :
    header (headerMember k s ++ rest) k = s := by
  unfold headerMember
  split_ifs with hs
  · rw [hs, List.nil_append, h hs]
  · rw [header, List.cons_append, List.lookup_cons, beq_self_eq_true]
    rfl

def attached (account user nonce : Str) (proof : Headers) : Headers :=
  headerMember "valiss-account-token" account ++ headerMember "valiss-user-token" user ++
    (headerMember "valiss-nonce" nonce ++ proof)

omit [Platform] in
theorem headers_read (a u n : Str) (proof : Headers)
    (ht : ∀ k ∈ ["valiss-account-token","valiss-user-token","valiss-nonce"],
      header proof k = []) :
    header (attached a u n proof) "valiss-account-token" = a ∧
      header (attached a u n proof) "valiss-user-token" = u ∧
      header (attached a u n proof) "valiss-nonce" = n ∧
      header (attached a u n proof) "valiss-timestamp" = header proof "valiss-timestamp" ∧
      header (attached a u n proof) "valiss-signature" = header proof "valiss-signature" := by
  have h := fun k hk => ht k (List.mem_of_elem_eq_true hk)
  simp only [attached, List.append_assoc]
  refine ⟨header_same _ _ _ fun _ => ?_,?_,?_,?_,?_⟩
  · simp (disch := decide) only [header_other]
    exact h _ rfl
  · rw [header_other _ _ _ _ (by decide)]
    refine header_same _ _ _ fun _ => ?_
    rw [header_other _ _ _ _ (by decide)]
    exact h _ rfl
  · simp (disch := decide) only [header_other]
    exact header_same _ _ _ fun _ => h _ rfl
  · simp (disch := decide) only [header_other]
  · simp (disch := decide) only [header_other]

def signedWith (timestamp signature : Str) : Headers :=
  [(lit "valiss-timestamp",timestamp),(lit "valiss-signature",signature)]

omit [Platform] in
theorem signedWith_read (t s : Str) :
    (∀ k ∈ ["valiss-account-token","valiss-user-token","valiss-nonce"],
      header (signedWith t s) k = []) ∧
      header (signedWith t s) "valiss-timestamp" = t ∧
      header (signedWith t s) "valiss-signature" = s := by
  have hne : ∀ k ∈ ["valiss-account-token","valiss-user-token","valiss-nonce"],
      (lit k == lit "valiss-timestamp") = false ∧ (lit k == lit "valiss-signature") = false := by
    decide
  refine ⟨fun k hk => ?_,?_,?_⟩
  · rw [header, signedWith, List.lookup_cons, (hne k hk).1, List.lookup_cons, (hne k hk).2]
    rfl
  · rw [header, signedWith, List.lookup_cons, beq_self_eq_true]
    rfl
  · have hapart : (lit "valiss-signature" == lit "valiss-timestamp") = false := by decide
    rw [header, signedWith, List.lookup_cons, hapart, List.lookup_cons, beq_self_eq_true]
    rfl

/-- A request of a client and the server that has to accept it. -/
structure Meeting (σ : Type) extends Client where
  method : Str
  host : Str
  path : Str
  nonce : Str
  encodable : Encodable method ∧ Encodable host ∧ Encodable path ∧ Encodable nonce
  sent : DateTime
  year : 1000 ≤ sent.fields.year
  server : Verifier σ
  allowMissing : Bool
  received : DateTime
  drift : received.micros-sent.micros ≤ server.skew ∧ -server.skew ≤ received.micros-sent.micros
  operator : Option OperatorClaims
  trusted : Trusted server.anchor account.operator.publicKey account.options.epoch operator
  epochs : ∀ c ∈ operator, account.options.epoch = c.epoch ∧
    ∀ u ∈ user, u.options.epoch = c.epoch
  operatorInside : ∀ c ∈ operator,
    Inside (windowOf c.toClaims).1 (windowOf c.toClaims).2 received server.skew
  accountInside : Inside (mintedWindow account.options).1 (mintedWindow account.options).2
    received server.skew
  userInside : ∀ u ∈ user, Inside (mintedWindow u.options).1 (mintedWindow u.options).2
    received server.skew
  recognized : ∀ x, decodeToken account.token = .ok x → server.allowlist x.id = true
  permitted : ∀ exts, toClient.exts = .ok exts → ∀ i : Identity, extsOf i = exts →
    authorizeExt i method host path allowMissing = .ok ()
  plain : server.extensionTypes = [] ∧ server.validators = []
  before : σ
  fresh : creds.seed ≠ [] → ∀ seenBefore ∈ server.replayCache, nonce ≠ [] ∧
    ∀ expiry, ∃ after, (seenBefore nonce expiry).run before = (.ok false,after)

variable {σ : Type}

namespace Meeting
variable (m : Meeting σ)

/-- The server's identity of the client: names and keys as they were issued. -/
def Recognizes (i : Identity) : Prop :=
  (i.account.name,i.account.subject) =
    (nameOf m.account.name m.account.keys.publicKey,m.account.keys.publicKey) ∧
  i.user.map (fun u => (u.name,u.subject)) =
    m.user.map fun u => (nameOf u.name u.keys.publicKey,u.keys.publicKey)

/-- The client attaches its headers and the server answers with its identity. -/
def Accepted : Prop :=
  ∃ headers, credentialHeaders m.creds m.method m.host m.path m.nonce m.sent = .ok headers ∧
    ∃ i after, (authenticateHeaders m.server m.received headers m.method m.host m.path
      m.allowMissing).run m.before = (.ok (.identity i),after) ∧ m.Recognizes i

def Expires : Prop := (∃ c ∈ m.operator, (windowOf c.toClaims).1 ≠ none) ∨
  (mintedWindow m.account.options).1 ≠ none ∨ ∃ u ∈ m.user, (mintedWindow u.options).1 ≠ none

def Activates : Prop := (∃ c ∈ m.operator, (windowOf c.toClaims).2 ≠ none) ∨
  (mintedWindow m.account.options).2 ≠ none ∨ ∃ u ∈ m.user, (mintedWindow u.options).2 ≠ none

/-- No second is too late for a decoder and no instant the server computes too
early or too late for a datetime. -/
structure Representable : Prop where
  account : Readable m.account.options
  user : ∀ u ∈ m.user, Readable u.options
  tested : Tested m.Expires m.Activates m.received m.server.skew
  recorded : m.creds.seed ≠ [] → m.server.replayCache.isSome = true →
    m.received.micros+2*m.server.skew ≤ maxMicros

structure Sent (r : Request) : Prop where
  account : r.accountToken = m.account.token
  user : r.userToken = (m.user.map User.token).getD []
  proof : (m.creds.seed = [] ∧ r.timestamp = [] ∧ r.signature = [] ∧
      ∃ u ∈ m.user, u.bearer = true) ∨
    (m.creds.seed ≠ [] ∧ r.nonce = m.nonce ∧ ∃ kp : KeyPair,
      kp.publicKey = (m.user.map fun u => u.keys.publicKey).getD m.account.keys.publicKey ∧
      signRequest kp r.context m.sent = .ok (r.timestamp,r.signature))

theorem requestContext_made (nonce : Str) (h : Encodable nonce) :
    ∃ context, requestContext m.method m.host m.path nonce = .ok context := by
  obtain ⟨hm,hh,hp,_⟩ := m.encodable
  refine ⟨_,(encode_ok _ _).2 ⟨?_,rfl⟩⟩
  simp only [contextText, encodable_append, encodable_cons]
  exact ⟨by decide,hm,by decide,hh,by decide,hp,by decide,h⟩

theorem headers_sent : ∃ headers,
    credentialHeaders m.creds m.method m.host m.path m.nonce m.sent = .ok headers ∧
    ∃ r, m.Sent r ∧ requestContext m.method m.host m.path r.nonce = .ok r.context ∧
      r = ⟨header headers "valiss-account-token",header headers "valiss-user-token",
        header headers "valiss-timestamp",header headers "valiss-signature",r.context,
        header headers "valiss-nonce"⟩ := by
  rcases m.holdsSeed with ⟨hseed,hbearer⟩ | ⟨hseed,kp,hkp,hkey⟩
  · obtain ⟨context,hcontext⟩ := m.requestContext_made [] encodable_nil
    obtain ⟨ha,hu,hn,ht,hs⟩ := headers_read m.creds.accountToken m.creds.userToken [] []
      (fun _ _ => rfl)
    refine ⟨attached m.creds.accountToken m.creds.userToken [] [],?_,
      ⟨m.creds.accountToken,m.creds.userToken,[],[],context,[]⟩,
      ⟨m.holdsAccount,m.holdsUser,Or.inl ⟨hseed,rfl,rfl,hbearer⟩⟩,hcontext,?_⟩
    · rw [credentialHeaders, Creds.signer, if_pos hseed, attached,
        show headerMember "valiss-nonce" [] ++ [] = ([] : Headers) from rfl, List.append_nil]
      rfl
    · rw [ha, hu, hn, ht, hs]
      rfl
  · obtain ⟨context,hcontext⟩ := m.requestContext_made m.nonce m.encodable.2.2.2
    obtain ⟨sig,hsig⟩ := fromSeed_signs _ _ hkp (encodePass (signedText (rfc3339nano m.sent) context))
    have hsign := (signRequest_ok kp context m.sent _ _).2 ⟨rfl,sig,hsig,rfl⟩
    have hsigner : m.creds.signer = .ok (some kp) := by
      rw [Creds.signer, if_neg hseed, hkp]
      rfl
    let proof := signedWith (rfc3339nano m.sent) (b64encode sig)
    obtain ⟨hempty,hts,hsg⟩ := signedWith_read (rfc3339nano m.sent) (b64encode sig)
    obtain ⟨ha,hu,hn,ht,hs⟩ := headers_read m.creds.accountToken m.creds.userToken m.nonce proof hempty
    refine ⟨attached m.creds.accountToken m.creds.userToken m.nonce proof,?_,
      ⟨m.creds.accountToken,m.creds.userToken,rfc3339nano m.sent,b64encode sig,context,m.nonce⟩,
      ⟨m.holdsAccount,m.holdsUser,Or.inr ⟨hseed,rfl,kp,hkey,hsign⟩⟩,hcontext,?_⟩
    · rw [credentialHeaders, hsigner, ok_bind]
      dsimp only
      rw [hcontext, ok_bind, hsign, ok_bind]
      rfl
    · rw [ha, hu, hn, ht, hs, hts, hsg]

theorem anchored_issued (p : AccountClaims × Option OperatorClaims) :
    anchored m.server.anchor m.account.token = .ok p ↔
      ∃ x, decodeToken m.account.token = .ok x ∧ p = (accountClaims x,m.operator) := by
  have ht := m.trusted
  cases ha : m.server.anchor with
  | poisoned e =>
    rw [ha] at ht
    exact ht.elim
  | pinned key operator =>
    rw [ha] at ht
    obtain ⟨rfl,rfl⟩ := ht
    simp only [anchored, bind_ok, pure_ok, m.account.verified]
    constructor
    · rintro ⟨c,⟨x,hx,rfl⟩,rfl⟩
      exact ⟨x,hx,rfl⟩
    · rintro ⟨x,hx,rfl⟩
      exact ⟨_,⟨x,hx,rfl⟩,rfl⟩
  | keyring k =>
    rw [ha] at ht
    obtain ⟨c,hc,hop⟩ := ht
    simp only [anchored, bind_ok, pure_ok, issuerOf_ok, ofOption_ok]
    constructor
    · rintro ⟨key,⟨x,hx,rfl⟩,account,hv,c',hc',rfl⟩
      obtain ⟨_,hi,_,_⟩ := issued_fields m.account.made x hx
      obtain ⟨_,he,_⟩ := issued_values m.account.made x hx
      rw [hi] at hv
      obtain ⟨x',hx',rfl⟩ := (m.account.verified _).1 hv
      rw [hx, Except.ok.injEq] at hx'
      subst hx'
      have hcc : some c = some c' := by
        rw [← hc, ← hc', hi]
        exact congrArg _ he.symm
      exact ⟨x,hx,by rw [hop, hcc]⟩
    · rintro ⟨x,hx,rfl⟩
      obtain ⟨_,hi,_,_⟩ := issued_fields m.account.made x hx
      obtain ⟨_,he,_⟩ := issued_values m.account.made x hx
      refine ⟨x.issuer,⟨x,hx,rfl⟩,_,by rw [hi]; exact (m.account.verified _).2 ⟨x,hx,rfl⟩,c,?_,
        by rw [hop]⟩
      rw [hi, ← hc]
      exact congrArg _ he

theorem skew_nonneg : (0 : ℤ) ≤ m.server.skew := by
  obtain ⟨h1,h2⟩ := m.drift
  exact neg_le_self_iff.1 (h2.trans h1)

def Testable (w : Option ℤ × Option ℤ) : Prop :=
  Tested (w.1 ≠ none) (w.2 ≠ none) m.received m.server.skew

theorem policy_issued (x : Decoded) (hx : decodeToken m.account.token = .ok x) :
    PolicyOk m.received m.server.skew (accountClaims x) m.operator ↔
      ∀ c ∈ m.operator, m.Testable (windowOf c.toClaims) := by
  refine forall₂_congr fun c hc => ?_
  have hepoch : (accountClaims x).epoch = c.epoch :=
    (issued_values m.account.made x hx).2.1.trans (m.epochs c hc).1
  have hw := window_passed c.toClaims m.received m.server.skew m.skew_nonneg _ rfl
    (m.operatorInside c hc)
  rw [← and_assoc, hw]
  exact and_iff_left hepoch

theorem account_issued (x : Decoded) (hx : decodeToken m.account.token = .ok x) :
    checkAccount m.server.toOptions m.received (accountClaims x) = .ok () ↔
      m.Testable (mintedWindow m.account.options) := by
  have hw := window_passed (claimsOf x) m.received m.server.skew m.skew_nonneg _
    (issued_window m.account.made x hx) m.accountInside
  rw [checkAccount_ok, ← and_assoc]
  exact (and_iff_left (m.recognized x hx)).trans hw

theorem user_issued (r : Request) (hr : m.Sent r) (x : Decoded)
    (hx : decodeToken m.account.token = .ok x) (user : Option UserClaims) :
    checkUser m.server.toOptions m.received r (accountClaims x) m.operator = .ok user ↔
      (m.user = none ∧ user = none) ∨ ∃ u, m.user = some u ∧ ∃ y, decodeToken u.token = .ok y ∧
        user = some (userClaims y) ∧ m.Testable (mintedWindow u.options) := by
  rw [checkUser_ok, hr.user]
  cases hu : m.user with
  | none => simp
  | some u =>
    have hne : u.token ≠ [] := issued_ne_nil u.made
    have hsub : (accountClaims x).subject = m.account.keys.publicKey :=
      (issued_fields m.account.made x hx).2.2.1
    simp only [Option.map_some, Option.getD_some, hne, false_and, false_or, ne_eq,
      not_false_eq_true, true_and, reduceCtorEq, Option.some.injEq, exists_eq_left']
    constructor
    · rintro ⟨c,rfl,hv,_,hw⟩
      rw [hr.user, hu, hsub] at hv
      obtain ⟨y,hy,rfl⟩ := (u.verified _).1 hv
      exact ⟨y,hy,rfl,(window_passed (claimsOf y) _ _ m.skew_nonneg _
        (issued_window u.made y hy) (m.userInside u hu)).1 hw⟩
    · rintro ⟨y,hy,rfl,hw⟩
      refine ⟨_,rfl,?_,?_,(window_passed (claimsOf y) _ _ m.skew_nonneg _
        (issued_window u.made y hy) (m.userInside u hu)).2 hw⟩
      · rw [hr.user, hu, hsub]
        exact (u.verified _).2 ⟨y,hy,rfl⟩
      · intro c hc
        exact (issued_values u.made y hy).2.1.trans ((m.epochs c hc).2 u hu)

structure Made (i : Identity) : Prop where
  account : ∃ x, decodeToken m.account.token = .ok x ∧ i.account = accountClaims x
  operator : i.operator = m.operator
  user : (m.user = none ∧ i.user = none) ∨ ∃ u, m.user = some u ∧ ∃ y,
    decodeToken u.token = .ok y ∧ i.user = some (userClaims y)

theorem made_recognized (i : Identity) (h : m.Made i) : m.Recognizes i := by
  obtain ⟨x,hx,ha⟩ := h.account
  constructor
  · have hs := (issued_fields m.account.made x hx).2.2.1
    have hn := (issued_values m.account.made x hx).1
    rw [ha]
    exact Prod.ext (by simp only [accountClaims, hn, hs]; rfl) hs
  · rcases h.user with ⟨hu,hi⟩ | ⟨u,hu,y,hy,hi⟩
    · rw [hu, hi]
      rfl
    · have hs := (issued_fields u.made y hy).2.2.1
      have hn := (issued_values u.made y hy).1
      rw [hu, hi]
      exact congrArg some (Prod.ext (by simp only [userClaims, hn, hs]; rfl) hs)

theorem made_subject (i : Identity) (h : m.Made i) : i.subject =
    (m.user.map fun u => u.keys.publicKey).getD m.account.keys.publicKey := by
  obtain ⟨ha,hu⟩ := m.made_recognized i h
  rw [Identity.subject]
  cases hi : i.user with
  | none =>
    rw [hi, Option.map_none, eq_comm, Option.map_eq_none_iff] at hu
    rw [hu]
    exact congrArg Prod.snd ha
  | some c =>
    have hs := congrArg (Option.map Prod.snd) hu
    rw [hi, Option.map_map, Option.map_map] at hs
    have hm : m.user.map (fun u => u.keys.publicKey) = some c.subject := hs.symm
    rw [hm]
    rfl

theorem possession_issued (hon : HonestSignatures) (r : Request) (hr : m.Sent r) (i : Identity)
    (hi : m.Made i) (e : Option (Str × DateTime)) :
    possession m.server.toOptions m.received r i = .ok e ↔
      (m.creds.seed = [] ∧ e = none) ∨ (m.creds.seed ≠ [] ∧
        ((m.server.replayCache = none ∧ e = none) ∨ (m.server.replayCache.isSome = true ∧
          ∃ expiry : DateTime, expiry.micros = m.received.micros+2*m.server.skew ∧
            e = some (m.nonce,expiry)))) := by
  rcases hr.proof with ⟨hseed,ht,hs,u,hu,hb⟩ | ⟨hseed,hnonce,kp,hkey,hsign⟩
  · have hbearer : i.bearer = true := by
      rcases hi.user with ⟨hn,_⟩ | ⟨u',hu',y,hy,hiu⟩
      · rw [hn] at hu
        cases hu
      · rw [hu', Option.mem_some_iff] at hu
        subst hu
        rw [Identity.bearer, hiu]
        exact (issued_fields u'.made y hy).2.2.2.trans hb
    simp only [possession, ht, hs, hbearer, hseed, and_self, if_true, bind_ok, raiseIf_ok, pure_ok,
      ne_eq, not_true_eq_false, false_and, or_false, true_and, Bool.true_eq_false,
      not_false_eq_true, exists_const]
    exact eq_comm
  · have hsubject : kp.publicKey = i.subject := hkey.trans (m.made_subject i hi).symm
    have hverified := verify_signRequest hon kp r.context m.sent m.received m.server.skew _ _ hsign
      m.year m.drift.1 m.drift.2
    have hts : r.timestamp ≠ [] := by
      rw [((signRequest_ok _ _ _ _ _).1 hsign).1, rfc3339nano]
      simp
    rw [hsubject] at hverified
    have hnonempty : ∀ seenBefore ∈ m.server.replayCache, m.nonce ≠ [] :=
      fun c hc => (m.fresh hseed c hc).1
    rw [possession, if_neg (fun h => hts h.1), hverified, ok_bind, hnonce]
    cases hc : m.server.replayCache with
    | none =>
      simp only [Option.isSome_none, Bool.false_eq_true, if_false, pure_ok, ne_eq, hseed,
        not_false_eq_true, false_and, false_or, true_and, or_false]
      exact eq_comm
    | some seenBefore =>
      have hn := hnonempty seenBefore hc
      simp only [Option.isSome_some, if_true, bind_ok, raiseIf_ok, arith_ok, plus_some, pure_ok, hn,
        not_false_eq_true, true_and, hseed, ne_eq, false_and, false_or, reduceCtorEq, exists_const]
      constructor
      · rintro ⟨expiry,hx,rfl⟩
        exact ⟨expiry,hx,rfl⟩
      · rintro ⟨expiry,hx,rfl⟩
        exact ⟨expiry,hx,rfl⟩

theorem suppressed (e : Option (Str × DateTime))
    (h : ∀ p ∈ e, m.creds.seed ≠ [] ∧ p.1 = m.nonce) :
    ∃ after, (suppress m.server.toOptions e).run m.before = (.ok (),after) := by
  cases e with
  | none => exact ⟨m.before,rfl⟩
  | some p =>
    obtain ⟨hseed,hp⟩ := h p rfl
    obtain ⟨nonce,expiry⟩ := p
    simp only at hp
    subst hp
    cases hc : m.server.replayCache with
    | none => exact ⟨m.before,by simp only [suppress, hc]; rfl⟩
    | some seenBefore =>
      obtain ⟨after,ha⟩ := (m.fresh hseed seenBefore hc).2 expiry
      simp only [suppress, hc]
      exact ⟨after,(Act.bind_ok _ _ _ _ _).2 ⟨false,after,ha,rfl⟩⟩

theorem tested_each : Tested m.Expires m.Activates m.received m.server.skew ↔
    (∀ c ∈ m.operator, m.Testable (windowOf c.toClaims)) ∧
      m.Testable (mintedWindow m.account.options) ∧
      ∀ u ∈ m.user, m.Testable (mintedWindow u.options) := by
  simp only [Tested, Expires, Activates, Testable, or_imp, forall_exists_index, and_imp]
  constructor
  · rintro ⟨⟨h1,h2,h3⟩,h4,h5,h6⟩
    exact ⟨fun c hc => ⟨h1 c hc,h4 c hc⟩,⟨h2,h5⟩,fun u hu => ⟨h3 u hu,h6 u hu⟩⟩
  · rintro ⟨h1,h2,h3⟩
    exact ⟨⟨fun c hc => (h1 c hc).1,h2.1,fun u hu => (h3 u hu).1⟩,fun c hc => (h1 c hc).2,h2.2,
      fun u hu => (h3 u hu).2⟩

theorem chain_issued (r : Request) (hr : m.Sent r) (x : Decoded)
    (hx : decodeToken m.account.token = .ok x) (i : Identity) :
    checkChain m.server.toOptions m.received r (accountClaims x) m.operator = .ok i ↔
      i.account = accountClaims x ∧ m.Made i ∧
        Tested m.Expires m.Activates m.received m.server.skew := by
  rw [checkChain_ok, m.policy_issued x hx, m.account_issued x hx, m.user_issued r hr x hx,
    m.tested_each]
  constructor
  · rintro ⟨ha,ho,hp,hw,hu⟩
    refine ⟨ha,⟨⟨x,hx,ha⟩,ho,?_⟩,hp,hw,?_⟩
    · exact hu.imp id fun ⟨u,hu,y,hy,hi,_⟩ => ⟨u,hu,y,hy,hi⟩
    · intro v hv
      rcases hu with ⟨hn,_⟩ | ⟨u,hu,y,_,_,hw'⟩
      · rw [hn] at hv
        cases hv
      · rw [hu, Option.mem_some_iff] at hv
        exact hv ▸ hw'
  · rintro ⟨ha,hm,hp,hw,hu⟩
    exact ⟨ha,hm.operator,hp,hw,hm.user.imp id fun ⟨u,hu',y,hy,hi⟩ =>
      ⟨u,hu',y,hy,hi,hu u hu'⟩⟩

theorem checked_issued (r : Request) (hr : m.Sent r) (i : Identity)
    (e : Option (Str × DateTime)) : checked m.server m.received r = .ok (i,e) ↔
      m.Made i ∧ Tested m.Expires m.Activates m.received m.server.skew ∧
        possession m.server.toOptions m.received r i = .ok e := by
  have htoken : r.accountToken ≠ [] := by
    rw [hr.account]
    exact issued_ne_nil m.account.made
  rw [checked_ok]
  constructor
  · rintro ⟨token,ht,account,operator,ha,hc,hp⟩
    rw [accountTokenOf, if_pos htoken, Except.ok.injEq, hr.account] at ht
    subst ht
    obtain ⟨x,hx,hpair⟩ := (m.anchored_issued _).1 ha
    obtain ⟨rfl,rfl⟩ := Prod.mk.inj hpair
    obtain ⟨_,hm,hw⟩ := (m.chain_issued r hr x hx i).1 hc
    exact ⟨hm,hw,hp⟩
  · rintro ⟨hm,hw,hp⟩
    obtain ⟨x,hx,ha⟩ := hm.account
    refine ⟨m.account.token,?_,_,_,(m.anchored_issued _).2 ⟨x,hx,rfl⟩,
      (m.chain_issued r hr x hx i).2 ⟨ha,hm,hw⟩,hp⟩
    rw [accountTokenOf, if_pos htoken, hr.account]

theorem hooks_plain (r : Request) (i : Identity) (s : σ) :
    (hooks m.server.toOptions r i).run s = (.ok (),s) := by
  rw [hooks, m.plain.1, m.plain.2]
  rfl

/-- The server accepts the request exactly when nothing it computes is out of range. -/
theorem verify_issued (hon : HonestSignatures) (r : Request) (hr : m.Sent r) :
    (∃ i after, (verify m.server m.received r).run m.before = (.ok i,after) ∧ m.Made i) ↔
      m.Representable := by
  constructor
  · rintro ⟨i,after,hv,_⟩
    obtain ⟨e,hc,_⟩ := (verify_ok _ _ _ _ _ _).1 hv
    obtain ⟨hm,hw,hp⟩ := (m.checked_issued r hr i e).1 hc
    refine ⟨?_,?_,hw,?_⟩
    · obtain ⟨x,hx,_⟩ := hm.account
      exact (issued_decodes m.account.made hon m.account.epoch).1 ⟨x,hx⟩
    · intro u hu
      rcases hm.user with ⟨hn,_⟩ | ⟨u',hu',y,hy,_⟩
      · rw [hn] at hu
        cases hu
      · rw [hu', Option.mem_some_iff] at hu
        exact hu ▸ (issued_decodes u'.made hon u'.epoch).1 ⟨y,hy⟩
    · intro hseed hcache
      rcases (m.possession_issued hon r hr i hm e).1 hp with ⟨h,_⟩ | ⟨_,⟨hn,_⟩ | ⟨_,expiry,hx,_⟩⟩
      · exact absurd h hseed
      · rw [hn] at hcache
        cases hcache
      · exact hx ▸ expiry.high
  · intro h
    obtain ⟨x,hx⟩ := (issued_decodes m.account.made hon m.account.epoch).2 h.account
    obtain ⟨i,hm⟩ : ∃ i, m.Made i := by
      cases hu : m.user with
      | none => exact ⟨⟨accountClaims x,none,m.operator⟩,⟨x,hx,rfl⟩,rfl,Or.inl ⟨hu,rfl⟩⟩
      | some u =>
        obtain ⟨y,hy⟩ := (issued_decodes u.made hon u.epoch).2 (h.user u hu)
        exact ⟨⟨accountClaims x,some (userClaims y),m.operator⟩,⟨x,hx,rfl⟩,rfl,
          Or.inr ⟨u,hu,y,hy,rfl⟩⟩
    obtain ⟨e,he,hp⟩ : ∃ e, (∀ p ∈ e, m.creds.seed ≠ [] ∧ p.1 = m.nonce) ∧
        possession m.server.toOptions m.received r i = .ok e := by
      by_cases hseed : m.creds.seed = []
      · exact ⟨none,by simp,(m.possession_issued hon r hr i hm none).2 (Or.inl ⟨hseed,rfl⟩)⟩
      cases hc : m.server.replayCache with
      | none =>
        exact ⟨none,by simp,(m.possession_issued hon r hr i hm none).2
          (Or.inr ⟨hseed,Or.inl ⟨hc,rfl⟩⟩)⟩
      | some seenBefore =>
        have hs : m.server.replayCache.isSome = true := by rw [hc]; rfl
        have hhigh := h.recorded hseed hs
        have hlow := m.received.low
        have hskew := m.skew_nonneg
        have hlow' : minMicros ≤ m.received.micros+2*m.server.skew := by
          linarith
        refine ⟨some (m.nonce,⟨m.received.micros+2*m.server.skew,hlow',hhigh⟩),?_,
          (m.possession_issued hon r hr i hm _).2 (Or.inr ⟨hseed,Or.inr ⟨hs,_,rfl,rfl⟩⟩)⟩
        rintro p hp
        rw [Option.mem_some_iff] at hp
        exact ⟨hseed,by rw [← hp]⟩
    obtain ⟨after,ha⟩ := m.suppressed e he
    exact ⟨i,after,(verify_ok _ _ _ _ _ _).2 ⟨e,(m.checked_issued r hr i e).2 ⟨hm,h.tested,hp⟩,
      after,ha,m.hooks_plain r i after⟩,hm⟩

theorem made_exts (i : Identity) (h : m.Made i) : m.exts = .ok (extsOf i) := by
  obtain ⟨x,hx,ha⟩ := h.account
  have hext := (issued_values m.account.made x hx).2.2.1
  rw [Client.exts, hext, ok_bind]
  rcases h.user with ⟨hu,hi⟩ | ⟨u,hu,y,hy,hi⟩
  · rw [hu, extsOf, ha, hi]
    rfl
  · rw [hu, extsOf, ha, hi]
    dsimp only
    rw [(issued_values u.made y hy).2.2.1, ok_bind]
    rfl

theorem accepted_verified (h : m.Accepted) : ∃ r, m.Sent r ∧
    ∃ i after, (verify m.server m.received r).run m.before = (.ok i,after) ∧ m.Made i := by
  obtain ⟨headers,hh,r,hr,hc,hreq⟩ := m.headers_sent
  obtain ⟨headers',hh',i,after,ha,_⟩ := h
  rw [hh, Except.ok.injEq] at hh'
  subst hh'
  have hnonce : r.nonce = header headers "valiss-nonce" := by rw [hreq]
  obtain ⟨_,context,hc',hv,_⟩ := (authenticate_ok _ _ _ _ _ _ _ _ _ _ _ _ _ _).1 ha
  rw [← hnonce, hc, Except.ok.injEq] at hc'
  subst hc'
  rw [← hreq] at hv
  obtain ⟨e,hch,_⟩ := (verify_ok _ _ _ _ _ _).1 hv
  exact ⟨r,hr,i,after,hv,((m.checked_issued r hr i e).1 hch).1⟩

end Meeting

/-- An honest client is accepted exactly when no instant is out of range. -/
theorem honest_accepted (hon : HonestSignatures) (m : Meeting σ) :
    m.Accepted ↔ m.Representable := by
  constructor
  · intro h
    obtain ⟨r,hr,hv⟩ := m.accepted_verified h
    exact (m.verify_issued hon r hr).1 hv
  · intro h
    obtain ⟨headers,hh,r,hr,hc,hreq⟩ := m.headers_sent
    obtain ⟨i,after,hv,hm⟩ := (m.verify_issued hon r hr).2 h
    have htoken : header headers "valiss-account-token" ≠ [] := by
      rw [show header headers "valiss-account-token" = r.accountToken by rw [hreq], hr.account]
      exact issued_ne_nil m.account.made
    have hnonce : r.nonce = header headers "valiss-nonce" := by rw [hreq]
    refine ⟨headers,hh,i,after,(authenticate_ok _ _ _ _ _ _ _ _ _ _ _ _ _ _).2
      ⟨fun h => htoken h.1,r.context,hnonce ▸ hc,hreq ▸ hv,?_⟩,m.made_recognized i hm⟩
    exact m.permitted _ (m.made_exts i hm) i rfl

end Requests

section Domain
local instance : Platform := domain.honest

def undated : MintOptions := {epoch := 7,now := issuedAt}

def widgetServer : Verifier Seen :=
  ⟨⟨fun _ => true,120000000,none,some (memoryReplayCache requestedAt),[],[]⟩,
    .pinned operatorPair.publicKey none⟩

theorem userSeed_held : encodeSeed .user userSeed.val ≠ [] ∧
    ∃ kp, fromSeed (encodeSeed .user userSeed.val) = .ok kp ∧
      kp.publicKey = userPair.publicKey := by
  refine ⟨?_,userPair,fromSeed_encode .user userSeed,rfl⟩
  rw [encodeSeed, sealed]
  exact Lib.Base32.b32encode_ne_nil _ (by simp)

section Widgets
variable (o : MintOptions) (a u : Str)
  (ha : issueAccount operatorPair (lit "acme") accountPair.publicKey o = .ok a)
  (hu : issueUser accountPair (lit "alice") userPair.publicKey false undated = .ok u)
  (he : 0 ≤ o.epoch ∧ o.epoch ≤ uint64Max)

def alice : Client where
  account := ⟨operatorPair,accountPair,lit "acme",o,a,ha,he⟩
  user := some ⟨userPair,lit "alice",false,undated,u,hu,by decide⟩
  creds := ⟨a,u,encodeSeed .user userSeed.val⟩
  holdsAccount := rfl
  holdsUser := rfl
  holdsSeed := Or.inr userSeed_held

theorem alice_user (v : User (alice o a u ha hu he).account)
    (hv : v ∈ (alice o a u ha hu he).user) : v.options = undated := by
  cases hv
  rfl

theorem alice_inside (v : User (alice o a u ha hu he).account)
    (hv : v ∈ (alice o a u ha hu he).user) :
    Inside (mintedWindow v.options).1 (mintedWindow v.options).2 requestedAt 120000000 := by
  rw [alice_user o a u ha hu he v hv]
  exact ⟨fun x hx => (by cases hx),fun x hx => by cases hx⟩

theorem alice_permitted (hext : o.extensions = []) (exts : List (Dict Json))
    (h : (alice o a u ha hu he).exts = .ok exts) (i : Identity) (hi : extsOf i = exts) :
    authorizeExt i (lit "GET") (lit "api.example.com") (lit "/v1/widgets") true = .ok () := by
  have hexts : (alice o a u ha hu he).exts = .ok [[],[]] := by
    simp only [alice, Client.exts, hext]
    rfl
  rw [hexts, Except.ok.injEq] at h
  rw [authorizeExt, hi, ← h]
  rfl

theorem nonce_fresh (nonce : Str) (expiry : DateTime) :
    ∃ after, ((memoryReplayCache requestedAt) nonce expiry).run [] = (.ok false,after) := ⟨_,rfl⟩

theorem server_fresh (seenBefore : ReplayCache Seen) (h : seenBefore ∈ widgetServer.replayCache) :
    lit "n-1" ≠ [] ∧ ∀ expiry, ∃ after, (seenBefore (lit "n-1") expiry).run [] = (.ok false,after) := by
  rw [widgetServer, Option.mem_some_iff] at h
  rw [← h]
  exact ⟨by decide,nonce_fresh _⟩

def widgetMeeting (hext : o.extensions = [])
    (hw : Inside (mintedWindow o).1 (mintedWindow o).2 requestedAt 120000000) : Meeting Seen where
  toClient := alice o a u ha hu he
  method := lit "GET"
  host := lit "api.example.com"
  path := lit "/v1/widgets"
  nonce := lit "n-1"
  encodable := by decide
  sent := requestedAt
  year := by decide +kernel
  server := widgetServer
  allowMissing := true
  received := requestedAt
  drift := by decide
  operator := none
  trusted := ⟨rfl,rfl⟩
  epochs := fun c hc => (Option.not_mem_none c hc).elim
  operatorInside := fun c hc => (Option.not_mem_none c hc).elim
  accountInside := hw
  userInside := alice_inside o a u ha hu he
  recognized := fun _ _ => rfl
  permitted := alice_permitted o a u ha hu he hext
  plain := ⟨rfl,rfl⟩
  before := []
  fresh := fun _ => server_fresh

end Widgets

theorem undated_inside : Inside (mintedWindow undated).1 (mintedWindow undated).2
    requestedAt 120000000 :=
  ⟨fun x hx => (by cases hx),fun x hx => by cases hx⟩

theorem undated_readable : Readable undated := ⟨by decide,by decide,by decide⟩

theorem undated_tested : Tested ((mintedWindow undated).1 ≠ none) ((mintedWindow undated).2 ≠ none)
    requestedAt 120000000 := ⟨fun h => absurd rfl h,fun h => absurd rfl h⟩

theorem expiry_recorded : requestedAt.micros+2*120000000 ≤ maxMicros := by decide

theorem acme_issued (o : MintOptions) (hext : o.extensions = []) (hv : (validity o).isOk = true)
    (he : 0 ≤ o.epoch ∧ o.epoch ≤ uint64Max) :
    ∃ a, issueAccount operatorPair (lit "acme") accountPair.publicKey o = .ok a :=
  issue_printable operatorPair operatorSeed rfl o (.account (lit "acme") accountPair.publicKey) rfl
    ((isValidPublic_publicKey _ _).2 rfl) hv he (by decide) (b32encode_encodable _) []
    (by rw [hext]; rfl) trivial rfl

theorem alice_issued : ∃ u,
    issueUser accountPair (lit "alice") userPair.publicKey false undated = .ok u :=
  issue_printable accountPair accountSeed rfl undated
    (.user (lit "alice") userPair.publicKey false) rfl ((isValidPublic_publicKey _ _).2 rfl) rfl
    (by decide) (by decide) (b32encode_encodable _) [] rfl trivial rfl

theorem honest_accepted_widgets : ∃ a u ha hu, (widgetMeeting undated a u ha hu (by decide)
    rfl undated_inside).Accepted := by
  obtain ⟨a,ha⟩ := acme_issued undated rfl rfl (by decide)
  obtain ⟨u,hu⟩ := alice_issued
  refine ⟨a,u,ha,hu,(honest_accepted (honest_signatures domain) _).2
    ⟨undated_readable,?_,?_,fun _ _ => expiry_recorded⟩⟩
  · intro v hv
    rw [alice_user _ _ _ _ _ _ v hv]
    exact undated_readable
  · refine (Meeting.tested_each _).2 ⟨fun c hc => (Option.not_mem_none c hc).elim,undated_tested,?_⟩
    intro v hv
    rw [alice_user _ _ _ _ _ _ v hv]
    exact undated_tested

def untilTheLast : MintOptions := {epoch := 7,expiry := some lastInstant,now := issuedAt}

theorem last_inside : Inside (mintedWindow untilTheLast).1 (mintedWindow untilTheLast).2
    requestedAt 120000000 := by
  constructor
  · intro x hx
    cases hx
    decide
  · intro x hx
    cases hx

/-- The account token that expires in the last microsecond is minted, and its holder refused. -/
theorem last_instant_refused : ¬ ∀ m : Meeting Seen, m.Accepted := by
  intro hall
  obtain ⟨a,ha⟩ := acme_issued untilTheLast rfl rfl (by decide)
  obtain ⟨u,hu⟩ := alice_issued
  obtain ⟨r,_,i,_,_,hm⟩ := Meeting.accepted_verified _
    (hall (widgetMeeting untilTheLast a u ha hu (by decide) rfl last_inside))
  obtain ⟨x,hx,_⟩ := hm.account
  have hexp : x.expires.val = 253402300800 :=
    (issued_values (l := .account (lit "acme") accountPair.publicKey) ha x hx).2.2.2.1.trans
      (by decide)
  have hmax : x.expires.val ≤ 253402300799 := x.expires.property.2
  omega

end Domain

end Valiss.HonestClient
