import Valiss.HonestClient
import Valiss.HostileTokens
import Valiss.SigningHistory

/-!
# Embedded and detached chains

A message token that embeds its chain and the one minted without it, verified
with the chain supplied, are judged alike. Their claims are the same but for
the identifier and the chain, and past the selection of the chain nothing reads
either of the two.
-/

set_option autoImplicit false

namespace Valiss.DetachedChains
open Lib.Unicode Lib.Json Lib.Fallible Valiss.Errors Valiss.Nkeys Valiss.Codec Valiss.TokenClaims
open Valiss.Mint Valiss.Decode Valiss.TokenRoundTrip Valiss.Operators Valiss.Message
open Valiss.SigningHistory Valiss.Printing Valiss.IssuedTokens Valiss.HonestClient Valiss.Recorded

section Equivalence
variable [Platform]

/-- One exception, or claims that are equal in every field but the identifier. -/
def SameVerdict (x y : Py MessageClaims) : Prop := ∃ id, y = (fun c => {c with id := id}) <$> x

def RejectedAs (r : Reason) (x : Py MessageClaims) : Prop :=
  ∃ text, x = .error (.valiss text (some r))

/-- `tok`, which embeds `chain`, and `bare`, which embeds none, are two forms of
one message; with another chain than its own `tok` is rejected as `other`. -/
structure Equivalent (tok bare : Str) (chain : Chain) (other : Reason) : Prop where
  detached : ∀ (anchor : Option Str) (keyring : Option Keyring) (m : MessageOptions),
    SameVerdict (verifyMessage tok anchor keyring {m with chain := none})
      (verifyMessage bare anchor keyring {m with chain := some chain})
  repeated : ∀ (anchor : Option Str) (keyring : Option Keyring) (m : MessageOptions),
    verifyMessage tok anchor keyring {m with chain := some chain} =
      verifyMessage tok anchor keyring {m with chain := none}
  different : ∀ (anchor : Option Str) (keyring : Option Keyring) (m : MessageOptions)
    (a : TrustAnchor) (c : Chain), trustAnchor anchor keyring = .ok a → c ≠ chain →
    RejectedAs other (verifyMessage tok anchor keyring {m with chain := some c})

def unchained (d : Draft) : Draft := {d with body := {d.body with chain := none}}

def restamped (id : Str) (x : Decoded) : Decoded := {x with id := id,chain := none}

theorem unchained_within (d : Draft) (issuer : Str)
    (h : membersWithin intDigits (d.claims issuer) = true) :
    membersWithin intDigits ((unchained d).claims issuer) = true := by
  simp only [Draft.claims, Body.members, membersWithin, membersWithin_append, intsWithin,
    Bool.and_eq_true, unchained, chainMember] at h ⊢
  tauto

theorem unchained_texts (d : Draft) (issuer : Str)
    (h : TextsMembers Encodable (d.claims issuer)) :
    TextsMembers Encodable ((unchained d).claims issuer) := by
  simp only [Draft.claims, Body.members, TextsMembers, textsMembers_append, Texts, unchained,
    chainMember] at h ⊢
  tauto

theorem unchained_signed (kp : KeyPair) (d : Draft) (tok : Str) (h : encodeV1 kp d = .ok tok) :
    ∃ bare, encodeV1 kp (unchained d) = .ok bare := by
  obtain ⟨hs,hi,ht⟩ := (encodeV1_signs kp d).1 ⟨tok,h⟩
  exact (encodeV1_signs kp _).2 ⟨hs,unchained_within d _ hi,unchained_texts d _ ht⟩

theorem wireInt_congr (p q : Dict Json) (k : String) (lo hi : ℤ) (h : lo ≤ 0 ∧ 0 ≤ hi)
    (hk : p.lookup (lit k) = q.lookup (lit k)) : wireInt p k lo hi h = wireInt q k lo hi h := by
  simp only [wireInt, hk]

theorem decodedOf_unchained (d : Draft) (issuer jti id : Str) :
    decodedOf (payloadOf (unchained d) issuer id) =
      restamped id <$> decodedOf (payloadOf d issuer jti) := by
  obtain ⟨hjti,hiat,hiss,hname,hsub,haud,hexp,hnbf,hval⟩ := lookup_payload d issuer jti
  obtain ⟨htype,hepoch,hbearer,hcheck,hchain,hext⟩ := lookup_body d.body
  obtain ⟨gjti,giat,giss,gname,gsub,gaud,gexp,gnbf,gval⟩ := lookup_payload (unchained d) issuer id
  obtain ⟨gtype,gepoch,gbearer,gcheck,gchain,gext⟩ := lookup_body (unchained d).body
  have hobj : ∀ o : Dict Json, (if o = [] then none else some (.obj o : Json)) =
      (if o = [] then none else some o).map .obj := by
    intro o
    split_ifs <;> rfl
  simp only [decodedOf, wireObj_member _ _ (some _) hval, wireObj_member _ _ (some _) gval,
    ok_bind, Option.getD_some,
    wireStr_some _ _ _ hjti, wireStr_some _ _ _ hiss, wireStr_member _ _ _ hname,
    wireStr_member _ _ _ hsub, wireStr_member _ _ _ haud, wireStr_some _ _ _ htype,
    wireBool_member _ _ _ hbearer, wireStr_member _ _ _ hcheck, wireObj_member _ _ _ hchain,
    wireObj_member _ _ _ (hext.trans (hobj _)),
    wireStr_some _ _ _ gjti, wireStr_some _ _ _ giss, wireStr_member _ _ _ gname,
    wireStr_member _ _ _ gsub, wireStr_member _ _ _ gaud, wireStr_some _ _ _ gtype,
    wireBool_member _ _ _ gbearer, wireStr_member _ _ _ gcheck, wireObj_member _ _ _ gchain,
    wireObj_member _ _ _ (gext.trans (hobj _)),
    wireInt_congr _ _ "iat" tsMin tsMax ts_zero (giat.trans hiat.symm),
    wireInt_congr _ _ "exp" tsMin tsMax ts_zero (gexp.trans hexp.symm),
    wireInt_congr _ _ "nbf" tsMin tsMax ts_zero (gnbf.trans hnbf.symm),
    wireInt_congr _ _ "epoch" 0 uint64Max epoch_zero (gepoch.trans hepoch.symm),
    map_bind, map_pure]
  rfl

theorem decodeToken_unchained (hon : HonestSignatures) (kp : KeyPair) (d : Draft) (tok bare : Str)
    (h : encodeV1 kp d = .ok tok) (hb : encodeV1 kp (unchained d) = .ok bare)
    (hd : distinct (.obj d.body.ext) = true) :
    ∃ id, decodeToken bare = restamped id <$> decodeToken tok := by
  obtain ⟨jti,_,ht⟩ := decodeToken_issued hon kp d tok h hd
  obtain ⟨id,_,hb⟩ := decodeToken_issued hon kp (unchained d) bare hb hd
  exact ⟨id,by rw [hb, ht, decodedOf_unchained d kp.publicKey jti id]⟩

theorem messageToken_restamped (tok bare id : Str)
    (h : decodeToken bare = restamped id <$> decodeToken tok) :
    messageToken bare = restamped id <$> messageToken tok := by
  unfold messageToken
  rw [h]
  cases decodeToken tok with
  | error e => rfl
  | ok x =>
    simp only [ok_bind, map_bind, map_pure]
    rfl

/-- `verify_message` after it has chosen the account and user parts. -/
def judge (a : TrustAnchor) (o : MessageOptions) (d : Decoded) (parts : Json × Json) :
    Py MessageClaims := do
  let (account,operator) ← messageAnchor a o.operatorToken parts.1
  let userToken ← asToken parts.2
  let user ← verifyUser userToken account.subject
  raiseIf (user.subject ≠ d.issuer) (errFor
    (lit "valiss: message token not signed by the chain's user key") .chainUserMismatch)
  messageEpochs d account user o.now o.skew operator
  let c := messageClaims d account user operator
  messageWindows c o.now o.skew
  messageBindings c o
  return c

theorem verifyUnder_judge (a : TrustAnchor) (tok : Str) (o : MessageOptions) :
    verifyUnder a tok o =
      messageToken tok >>= fun d => selectChain d.chain o.chain >>= judge a o d := by
  simp only [verifyUnder, messageChain, bind_assoc, pure_bind]
  rfl

theorem judge_restamped (a : TrustAnchor) (o : MessageOptions) (d : Decoded) (parts : Json × Json)
    (id : Str) :
    judge a o (restamped id d) parts = (fun c => {c with id := id}) <$> judge a o d parts := by
  simp only [judge, map_bind, map_pure]
  rfl

theorem selectChain_embedded (c : Chain) :
    selectChain (chainOf (some c)) none = .ok (.str c.1,.str c.2) := by
  obtain ⟨ha,hu⟩ := chainPart_embedded c
  simp only [chainOf, Option.map_some, selectChain, ha, hu]

theorem selectChain_repeated (c : Chain) :
    selectChain (chainOf (some c)) (some c) = .ok (.str c.1,.str c.2) := by
  obtain ⟨ha,hu⟩ := chainPart_embedded c
  rw [chainOf, Option.map_some, selectChain_both, ha, hu]
  exact ⟨rfl,rfl,rfl⟩

theorem selectChain_different (c other : Chain) (h : other ≠ c) : ∃ text,
    selectChain (chainOf (some c)) (some other) = .error (.valiss text (some .chainMismatch)) := by
  obtain ⟨ha,hu⟩ := chainPart_embedded c
  have hne : ¬ IsText (some (.str c.1)) other.1 ∨ ¬ IsText (some (.str c.2)) other.2 := by
    rw [isText_iff, isText_iff, Value.str.injEq, Value.str.injEq, ← not_and_or]
    rintro ⟨h1,h2⟩
    exact h (Prod.ext h1.symm h2.symm)
  rw [chainOf, Option.map_some, selectChain, ha, hu, raiseIf_pos _ _ hne]
  exact ⟨_,rfl⟩

theorem verifyUnder_detached (a : TrustAnchor) (tok bare id : Str) (chain : Chain)
    (m : MessageOptions) (h : decodeToken bare = restamped id <$> decodeToken tok)
    (hc : ∀ x, decodeToken tok = .ok x → x.chain = chainOf (some chain)) :
    verifyUnder a bare {m with chain := some chain} =
      (fun c => {c with id := id}) <$> verifyUnder a tok {m with chain := none} := by
  rw [verifyUnder_judge, verifyUnder_judge, messageToken_restamped tok bare id h]
  cases hx : messageToken tok with
  | error e => rfl
  | ok x =>
    rw [ok_bind, hc x ((messageToken_ok _ _).1 hx).1, selectChain_embedded, ok_bind]
    exact judge_restamped a {m with chain := some chain} x _ id

theorem verifyUnder_repeated (a : TrustAnchor) (tok : Str) (chain : Chain) (m : MessageOptions)
    (hc : ∀ x, decodeToken tok = .ok x → x.chain = chainOf (some chain)) :
    verifyUnder a tok {m with chain := some chain} = verifyUnder a tok {m with chain := none} := by
  rw [verifyUnder_judge, verifyUnder_judge]
  cases hx : messageToken tok with
  | error e => rfl
  | ok x =>
    rw [ok_bind, ok_bind, hc x ((messageToken_ok _ _).1 hx).1, selectChain_embedded,
      selectChain_repeated]
    rfl

theorem verifyUnder_different (a : TrustAnchor) (tok : Str) (x : Decoded) (chain other : Chain)
    (m : MessageOptions) (h : messageToken tok = .ok x) (hc : x.chain = chainOf (some chain))
    (hne : other ≠ chain) :
    RejectedAs .chainMismatch (verifyUnder a tok {m with chain := some other}) := by
  obtain ⟨text,ht⟩ := selectChain_different chain other hne
  rw [verifyUnder_judge, h, ok_bind, hc, ht]
  exact ⟨text,rfl⟩

theorem verifyMessage_under (tok : Str) (anchor : Option Str) (keyring : Option Keyring)
    (m : MessageOptions) (a : TrustAnchor) (h : trustAnchor anchor keyring = .ok a) :
    verifyMessage tok anchor keyring m = verifyUnder a tok m := by
  rw [verifyMessage, h, ok_bind]

theorem equivalent_under (tok bare id : Str) (chain : Chain) (r : Reason)
    (h : decodeToken bare = restamped id <$> decodeToken tok)
    (hc : ∀ x, decodeToken tok = .ok x → x.chain = chainOf (some chain))
    (hr : ∀ (a : TrustAnchor) (c : Chain) (m : MessageOptions), c ≠ chain →
      RejectedAs r (verifyUnder a tok {m with chain := some c})) :
    Equivalent tok bare chain r := by
  constructor
  · intro anchor keyring m
    cases ha : trustAnchor anchor keyring with
    | error e =>
      refine ⟨[],?_⟩
      simp only [verifyMessage, ha]
      rfl
    | ok a =>
      rw [verifyMessage_under _ _ _ _ a ha, verifyMessage_under _ _ _ _ a ha]
      exact ⟨id,verifyUnder_detached a tok bare id chain m h hc⟩
  · intro anchor keyring m
    cases ha : trustAnchor anchor keyring with
    | error e =>
      simp only [verifyMessage, ha]
      rfl
    | ok a =>
      rw [verifyMessage_under _ _ _ _ a ha, verifyMessage_under _ _ _ _ a ha]
      exact verifyUnder_repeated a tok chain m hc
  · intro anchor keyring m a c ha hne
    rw [verifyMessage_under _ _ _ _ a ha]
    exact hr a c m hne

/-- The arguments a message is minted with that a decoder takes back. -/
structure Legible (o : MintOptions) : Prop extends Readable o where
  epoch : 0 ≤ o.epoch ∧ o.epoch ≤ uint64Max

theorem messageDraft_chained (user : KeyPair) (audience sum : Str) (chain : Chain)
    (o : MintOptions) (d : Draft) (h : messageDraft user audience sum (some chain) o = .ok d) :
    messageDraft user audience sum none o = .ok (unchained d) ∧ d.body.chain = some chain ∧
      d.body.type = messageType ∧ d.subject = user.publicKey ∧
      isValidPublicUserKey user.publicKey = true ∧ (InRange d ↔ Legible o) := by
  simp only [messageDraft, bind_ok, raiseIf_ok, pure_ok, not_not] at h
  obtain ⟨_,hv,_,hsum,ext,he,⟨expires,nbf⟩,hval,_,hx,_,hchain,rfl⟩ := h
  obtain ⟨rfl,rfl⟩ := validity_written o expires nbf hval
  refine ⟨?_,rfl,rfl,rfl,hv,?_⟩
  · rw [messageDraft, raiseIf_neg _ _ (not_not.2 hv), raiseIf_neg _ _ hsum, he, hval]
    simp only [ok_bind, raiseIf_neg _ _ hx]
    rfl
  · constructor
    · rintro ⟨h1,h2,h3,h4⟩
      exact ⟨⟨h1.2,h2.2,h3.2⟩,h4⟩
    · rintro ⟨⟨h1,h2,h3⟩,h4⟩
      exact ⟨⟨written_low (some o.now),h1⟩,⟨written_low _,h2⟩,⟨written_low _,h3⟩,h4⟩

theorem unread_malformed (d : Draft) (issuer jti : Str) (h : ¬ InRange d) :
    ∃ text, decodedOf (payloadOf d issuer jti) = .error (.valiss text (some .malformed)) := by
  cases hx : decodedOf (payloadOf d issuer jti) with
  | error e =>
    obtain ⟨text,rfl⟩ := HostileTokens.decodedOf_raises
      (P := fun e => ∃ text, e = .valiss text (some .malformed)) (fun _ _ => ⟨_,rfl⟩) _ e hx
    exact ⟨text,rfl⟩
  | ok x =>
    obtain ⟨hr,_⟩ := (decodedOf_payload d issuer jti x).1 hx
    exact absurd hr h

/-- Both forms of a message are judged alike. With another chain than its own the
one that embeds it is refused for that, or as malformed if it cannot be read. -/
theorem detached_chains (hon : HonestSignatures) (user : KeyPair) (audience sum : Str)
    (chain : Chain) (o : MintOptions) (tok : Str)
    (h : issueMessage user audience sum (some chain) o = .ok tok) :
    ∃ bare, issueMessage user audience sum none o = .ok bare ∧
      (Legible o → Equivalent tok bare chain .chainMismatch) ∧
      (¬ Legible o → Equivalent tok bare chain .malformed) := by
  simp only [issueMessage, bind_ok] at h
  obtain ⟨d,hd,ht⟩ := h
  obtain ⟨hbare,hchain,htype,hsub,hv,hrange⟩ := messageDraft_chained user audience sum chain o d hd
  have hdist := (draft_body user (.message audience sum (some chain) o) d hd).2
  obtain ⟨bare,hb⟩ := unchained_signed user d tok ht
  obtain ⟨id,hdec⟩ := decodeToken_unchained hon user d tok bare ht hb hdist
  have hread : ∀ x, decodeToken tok = .ok x →
      ∃ jti hr, x = decodedDraft d user.publicKey jti hr := by
    intro x hx
    obtain ⟨jti,_,hr,rfl⟩ := decodeToken_reads user d tok ht hdist x hx
    exact ⟨jti,hr,rfl⟩
  have hembeds : ∀ x, decodeToken tok = .ok x → x.chain = chainOf (some chain) := by
    intro x hx
    obtain ⟨jti,hr,rfl⟩ := hread x hx
    exact congrArg chainOf hchain
  obtain ⟨jti,_,hissued⟩ := decodeToken_issued hon user d tok ht hdist
  refine ⟨bare,by rw [issueMessage, hbare, ok_bind, hb],?_,?_⟩
  · intro hl
    apply equivalent_under tok bare id chain _ hdec hembeds
    intro a c m hne
    have hx := hissued.trans ((decodedOf_payload d _ jti _).2 ⟨hrange.2 hl,rfl⟩)
    have hm := (messageToken_ok tok _).2 ⟨hx,htype,hsub.symm,by rw [← hv, ← hsub]; rfl⟩
    exact verifyUnder_different a tok _ chain c m hm (hembeds _ hx) hne
  · intro hl
    apply equivalent_under tok bare id chain _ hdec hembeds
    intro a c m _
    obtain ⟨text,hx⟩ := unread_malformed d user.publicKey jti (fun hr => hl (hrange.1 hr))
    rw [verifyUnder_judge, messageToken, hissued, hx]
    exact ⟨text,rfl⟩

end Equivalence

section Domain
local instance : Platform := domain.honest

def until2030 (epoch : ℤ) : MintOptions :=
  {epoch := epoch,expiry := some requestedAt,now := issuedAt}

theorem token_encodable (kp : KeyPair) (o : MintOptions) (l : Level) (tok : Str)
    (h : l.issue kp o = .ok tok) : Encodable tok := by
  obtain ⟨_,_,_,_,_,_,ht⟩ := l.issue_ok kp o tok h
  obtain ⟨_,text,sig,_,_,_,rfl⟩ := encodeV1_ok _ _ _ ht
  apply Ascii.encodable
  rw [ascii_append, ascii_cons, ascii_append, ascii_cons]
  exact ⟨b64url_ascii _,by decide,b64url_ascii _,by decide,b64url_ascii _⟩

section Chain
variable (a u : Str)
  (ha : issueAccount operatorPair (lit "acme") accountPair.publicKey undated = .ok a)
  (hu : issueUser accountPair (lit "alice") userPair.publicKey false undated = .ok u)
include ha hu

theorem chain_checked : checkEmbedded (a,u) userPair.publicKey = .ok () := by
  let acct : Account := ⟨operatorPair,accountPair,lit "acme",undated,a,ha,by decide⟩
  let holder : User acct := ⟨userPair,lit "alice",false,undated,u,hu,by decide⟩
  have hon := honest_signatures domain
  obtain ⟨x,hx⟩ := (issued_decodes acct.made hon acct.epoch).2 undated_readable
  obtain ⟨y,hy⟩ := (issued_decodes holder.made hon holder.epoch).2 undated_readable
  obtain ⟨_,hissuer,hsubject,_⟩ := issued_fields acct.made x hx
  obtain ⟨_,_,huser,_⟩ := issued_fields holder.made y hy
  have hkey : issuerOf a = .ok operatorPair.publicKey := (issuerOf_ok _ _).2 ⟨x,hx,hissuer⟩
  have haccount := (acct.verified _).2 ⟨x,hx,rfl⟩
  have hverified : verifyUser u (accountClaims x).subject = .ok (userClaims y) := by
    show verifyUser u x.subject = _
    rw [hsubject]
    exact (holder.verified _).2 ⟨y,hy,rfl⟩
  have hsame : (userClaims y).subject = userPair.publicKey := huser
  rw [checkEmbedded, hkey, ok_bind, haccount, ok_bind, hverified, ok_bind,
    raiseIf_neg _ _ (not_not.2 hsame)]

theorem message_issued (epoch : ℤ) (he : epoch.natAbs < 10^20) : ∃ tok,
    issueMessage userPair destination [] (some (a,u)) (until2030 epoch) = .ok tok := by
  have hv : isValidPublicUserKey userPair.publicKey = true :=
    (isValidPublic_publicKey userPair .user).2 rfl
  have hval : validity (until2030 epoch) = .ok (written (some requestedAt),0) := rfl
  have hx : written (some requestedAt) ≠ 0 := by decide
  have hext : extensionsClaim (until2030 epoch).extensions = .ok [] := rfl
  have hsum : ¬ (([] : Str) ≠ [] ∧ isHexSha256 [] = false) := fun h => h.1 rfl
  have hd : messageDraft userPair destination [] (some (a,u)) (until2030 epoch) =
      .ok ⟨⟨messageType,epoch,false,[],some (a,u),[]⟩,[],userPair.publicKey,destination,
        written (some requestedAt),0,issuedAt⟩ := by
    rw [messageDraft, raiseIf_neg _ _ (not_not.2 hv), raiseIf_neg _ _ hsum, hext, hval]
    simp only [ok_bind, raiseIf_neg _ _ hx, checkOptionalChain, chain_checked a u ha hu]
    rfl
  rw [issueMessage, hd, ok_bind]
  apply encodeV1_printable userPair userSeed rfl
  · have haud : Lib.Unicode.Encodable destination := by decide
    have htype : Lib.Unicode.Encodable messageType := by decide
    refine ⟨encodable_nil,b32encode_encodable _,haud,htype,encodable_nil,?_,trivial,rfl⟩
    intro c hc
    obtain rfl := Option.some.inj hc
    exact ⟨token_encodable operatorPair undated (.account (lit "acme") accountPair.publicKey) a ha,
      token_encodable accountPair undated (.user (lit "alice") userPair.publicKey false) u hu⟩
  · exact ⟨written_brief (some issuedAt),written_brief (some requestedAt),
      brief_number 0 (by decide),brief_number epoch he⟩

end Chain

theorem detached_chains_alice : ∃ chain tok bare,
    issueMessage userPair destination [] (some chain) (until2030 7) = .ok tok ∧
    issueMessage userPair destination [] none (until2030 7) = .ok bare ∧
    Equivalent tok bare chain .chainMismatch := by
  obtain ⟨a,ha⟩ := acme_issued undated rfl rfl (by decide)
  obtain ⟨u,hu⟩ := alice_issued
  obtain ⟨tok,ht⟩ := message_issued a u ha hu 7 (by decide)
  obtain ⟨bare,hb,hequivalent,_⟩ := detached_chains (honest_signatures domain) userPair destination []
    (a,u) (until2030 7) tok ht
  have hl : Legible (until2030 7) := ⟨⟨by decide,by decide,by decide⟩,by decide⟩
  exact ⟨(a,u),tok,bare,ht,hb,hequivalent hl⟩

/-- A negative epoch is minted, and what comes back under another chain is that
the token is malformed. -/
theorem other_chain_malformed : ¬ ∀ (user : KeyPair) (audience sum : Str) (chain : Chain)
    (o : MintOptions) (tok : Str), issueMessage user audience sum (some chain) o = .ok tok →
    ∃ bare, issueMessage user audience sum none o = .ok bare ∧
      Equivalent tok bare chain .chainMismatch := by
  intro hall
  obtain ⟨a,ha⟩ := acme_issued undated rfl rfl (by decide)
  obtain ⟨u,hu⟩ := alice_issued
  obtain ⟨tok,ht⟩ := message_issued a u ha hu (-1) (by decide)
  obtain ⟨_,_,hequivalent⟩ := hall userPair destination [] (a,u) (until2030 (-1)) tok ht
  let m : MessageOptions := {now := requestedAt,skew := 120000000}
  have hne : ([],[]) ≠ (a,u) := fun h => issued_ne_nil
    (l := .account (lit "acme") accountPair.publicKey) ha (congrArg Prod.fst h).symm
  obtain ⟨text,hr⟩ := hequivalent.different (some operatorPair.publicKey) none m
    (.pinned operatorPair.publicKey) ([],[]) rfl hne
  simp only [issueMessage, bind_ok] at ht
  obtain ⟨d,hd,ht⟩ := ht
  obtain ⟨_,_,_,_,_,hrange⟩ := messageDraft_chained userPair destination [] (a,u) _ d hd
  have hdist := (draft_body userPair (.message destination [] (some (a,u)) _) d hd).2
  obtain ⟨jti,_,hx⟩ := decodeToken_issued (honest_signatures domain) userPair d tok ht hdist
  have hout : ¬ InRange d := by
    intro hin
    have hl : (0 : ℤ) ≤ -1 := (hrange.1 hin).epoch.1
    omega
  obtain ⟨text',he⟩ := unread_malformed d userPair.publicKey jti hout
  rw [verifyMessage_under _ _ _ _ (.pinned operatorPair.publicKey) rfl, verifyUnder_judge,
    messageToken, hx, he, error_bind, error_bind] at hr
  simp at hr

end Domain

end Valiss.DetachedChains
