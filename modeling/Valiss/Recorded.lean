import Valiss.MsgTransport
import Valiss.Printing
import Valiss.SigningHistory

/-!
# Recorded primitives

A platform made of finite tables of digests, key pairs and signatures. Outside
its table a hash returns something longer than any digest, so it stays
injective. A signature verifies when it is recorded, or, for keys that sign
whatever they are asked to, when it is the one such a key returns.
-/

set_option autoImplicit false

namespace Valiss.Recorded
open Lib.Unicode Lib.Base64 Lib.Base32 Lib.Json Lib.Calendar Lib.Assoc Lib.Fallible Valiss.Errors
open Valiss.Nkeys Valiss.Codec Valiss.TokenClaims Valiss.Mint Valiss.Decode Valiss.TokenRoundTrip
open Valiss.RequestSignature Valiss.Verify Valiss.Message Valiss.Printing Valiss.MsgTransport
open Valiss.SigningHistory

section Overlay
variable {α β : Type} [DecidableEq α]

def overlay (table : List (α × β)) (g : α → β) (a : α) : β := (table.lookup a).getD (g a)

theorem overlay_cases (table : List (α × β)) (g : α → β) (a : α) :
    (a,overlay table g a) ∈ table ∨ overlay table g a = g a := by
  unfold overlay
  cases h : table.lookup a with
  | none => exact Or.inr rfl
  | some b => exact Or.inl (mem_of_lookup h)

theorem overlay_mem (table : List (α × β)) (g : α → β) (hk : (table.map Prod.fst).Nodup)
    (e : α × β) (he : e ∈ table) : overlay table g e.1 = e.2 := by
  rw [overlay, lookup_of_mem hk he]
  rfl

theorem overlay_injective (table : List (α × β)) (g : α → β)
    (hv : (table.map Prod.snd).Nodup) (hg : Function.Injective g)
    (hd : ∀ e ∈ table, ∀ a, g a ≠ e.2) : Function.Injective (overlay table g) := by
  intro a b h
  rcases overlay_cases table g a with ha | ha
  · rcases overlay_cases table g b with hb | hb
    · have := List.inj_on_of_nodup_map hv ha hb h
      exact congrArg Prod.fst this
    · exact absurd (hb.symm.trans h.symm) (hd _ ha b)
  · rcases overlay_cases table g b with hb | hb
    · exact absurd (ha.symm.trans h) (hd _ hb a)
    · apply hg
      rw [← ha, ← hb, h]

end Overlay

structure Recording where
  digests : List (Bytes × Bytes)
  keys : List (Key × Key)
  signatures : List ((Key × Bytes) × Bytes)

def unlisted (m : Bytes) : Bytes := List.replicate 65 0 ++ m

theorem unlisted_injective : Function.Injective unlisted := fun _ _ h => List.append_cancel_left h

theorem unlisted_length (m : Bytes) : 65 ≤ (unlisted m).length := by simp [unlisted]

abbrev TextFloat := {s : Str // FloatShape s}

instance : FloatText TextFloat where
  read s := if h : FloatShape s then ⟨s,h⟩ else ⟨nanText,Or.inr (Or.inl rfl)⟩
  write x := x.val
  isZero _ := false
  write_shape x := x.property
  read_write x := by rw [dif_pos x.property]

def Recording.signature (r : Recording) (k : Key) (m : Bytes) : Bytes :=
  overlay r.signatures (fun p => unlisted (p.1.val ++ p.2)) (k,m)

def Recording.publicOf (r : Recording) (seed : Key) : Key := overlay r.keys id seed

@[reducible] def Recording.platform (r : Recording) (accepts : Key → Bytes → Bytes → Bool) :
    Platform where
  Flt := TextFloat
  floatText := inferInstance
  sha256 := overlay r.digests unlisted
  publicOf := r.publicOf
  edSign seed := r.signature (r.publicOf seed)
  edVerify := accepts
  repr s := 39 :: s ++ [39]
  containerText _ := []
  base32Text _ := []
  jsonText _ := []
  isoText _ := []
  base64Text _ := []
  skewText _ := []
  builtinText _ := []

/-- Only recorded signatures verify. -/
@[reducible] def Recording.ideal (r : Recording) : Platform :=
  r.platform fun k m sig => decide (((k,m),sig) ∈ r.signatures)

/-- Whatever a key returns for a message verifies. -/
@[reducible] def Recording.honest (r : Recording) : Platform :=
  r.platform fun k m sig => decide (sig = r.signature k m)

theorem honest_signatures (r : Recording) : @HonestSignatures r.honest := by
  intro seed m
  exact decide_eq_true rfl

theorem sha256_injective (r : Recording) (accepts : Key → Bytes → Bytes → Bool)
    (hv : (r.digests.map Prod.snd).Nodup) (hl : ∀ e ∈ r.digests, e.2.length = 32) :
    Function.Injective (r.platform accepts).sha256 := by
  apply overlay_injective r.digests unlisted hv unlisted_injective
  intro e he a h
  have := unlisted_length a
  rw [h, hl e he] at this
  omega

theorem sha256_ne_nil (r : Recording) (accepts : Key → Bytes → Bytes → Bool)
    (hl : ∀ e ∈ r.digests, e.2.length = 32) (b : Bytes) : (r.platform accepts).sha256 b ≠ [] := by
  intro h
  rcases overlay_cases r.digests unlisted b with ho | ho
  · rw [show overlay r.digests unlisted b = [] from h] at ho
    exact absurd (hl _ ho) (by simp)
  · have := unlisted_length b
    rw [← ho, show overlay r.digests unlisted b = [] from h] at this
    simp at this

/-- The platform has the recorded digests, and the recorded signatures verify. -/
class Recording.Honoured (r : Recording) [Platform] : Prop where
  hashes : ∀ e ∈ r.digests, Platform.sha256 e.1 = e.2
  verifies : ∀ e ∈ r.signatures, Platform.edVerify e.1.1 e.1.2 e.2 = true

theorem ideal_honoured (r : Recording) (hd : (r.digests.map Prod.fst).Nodup) :
    @Recording.Honoured r r.ideal := by
  let _ := r.ideal
  exact ⟨fun e he => overlay_mem r.digests unlisted hd e he,fun e he => decide_eq_true he⟩

theorem honest_honoured (r : Recording) (hd : (r.digests.map Prod.fst).Nodup)
    (hs : (r.signatures.map Prod.fst).Nodup) : @Recording.Honoured r r.honest := by
  let _ := r.honest
  refine ⟨fun e he => overlay_mem r.digests unlisted hd e he,fun e he => decide_eq_true ?_⟩
  exact (overlay_mem r.signatures _ hs e he).symm

theorem honoured_part (r s : Recording) [Platform] [s.Honoured] (hd : r.digests ⊆ s.digests)
    (hs : r.signatures ⊆ s.signatures) : r.Honoured :=
  ⟨fun e he => Recording.Honoured.hashes e (hd he),
    fun e he => Recording.Honoured.verifies e (hs he)⟩

def Recording.Explained (r : Recording) [Platform] (history : List Call) : Prop :=
  ∀ e ∈ r.signatures, ∃ c ∈ history, c.key.publicRaw = e.1.1 ∧ c.signed = .ok e.1.2

theorem ideal_signatures (r : Recording) (history : List (@Call r.ideal))
    (h : @Recording.Explained r r.ideal history) : @IdealSignatures r.ideal history := by
  let _ := r.ideal
  intro key named m sig hn hv
  obtain ⟨c,hc,hk,hs⟩ := h _ (of_decide_eq_true hv)
  exact ⟨c,hc,⟨named,hn,hk.symm⟩,hs⟩

def bytesOf : ℕ → ℕ → Bytes
  | 0, _ => []
  | n+1, k => bytesOf n (k/256) ++ [byte k]

theorem bytesOf_length (n k : ℕ) : (bytesOf n k).length = n := by
  induction n generalizing k with
  | zero => rfl
  | succ n ih => rw [bytesOf, List.length_append, ih, List.length_singleton]

def keyOf (k : ℕ) : Key := ⟨bytesOf 32 k,bytesOf_length 32 k⟩

/-- A token by its parts: the text of its claims after a given identifier
member, the digest the identifier is made of, and the signature. -/
structure Sample where
  issuer : Key
  text : Str → Str
  digest : Bytes
  signature : Bytes

namespace Sample

def claims (s : Sample) : Str :=
  s.text (lit "\"jti\":\"" ++ b32encode s.digest ++ lit "\",")

def input (s : Sample) : Str := headerSegment ++ 46 :: b64url (encodePass s.claims)

def token (s : Sample) : Str := s.input ++ 46 :: b64url s.signature

theorem token_ascii (s : Sample) : Ascii s.token := by
  rw [token, input, ascii_append, ascii_cons, ascii_append, ascii_cons]
  exact ⟨⟨b64url_ascii _,by decide,b64url_ascii _⟩,by decide,b64url_ascii _⟩

theorem token_ne_nil (s : Sample) : s.token ≠ [] := by simp [token]

def hashed (s : Sample) : Bytes × Bytes := (encodePass (s.text []),s.digest)

def signed (s : Sample) : (Key × Bytes) × Bytes := ((s.issuer,encodePass s.input),s.signature)

end Sample

def operatorSeed : Key :=
  keyOf 0xd65c43abd2da21377dea21e57e0748c589787d3041b8f7b5bb4e965c4856d0e5
def operatorRaw : Key :=
  keyOf 0xa900371cd959248fe4eeaa986cc09b878a83584b7cd99906df8ea93b5040e108
def accountSeed : Key :=
  keyOf 0xe83f75f59e93bd7dec738330b5ef22b8cc7cb6e6b26781719e4320d4a0811208
def accountRaw : Key :=
  keyOf 0x8b219b7967da6ee9f24fa038e2fe8e24b12875ed079b1e431107e82ec5c64fc2
def userSeed : Key :=
  keyOf 0xd7ab56448f17e9111208863ced541d7269331bcf9ddaa70e24d5a3fa07906add
def userRaw : Key :=
  keyOf 0xe3c2ba945908318072d0ccfe0ff3b366c171e5cdb2023bbfeb18f2b46aa8d9a9

def operatorKey : Str := encodePublic .operator operatorRaw.val
def accountKey : Str := encodePublic .account accountRaw.val
def userKey : Str := encodePublic .user userRaw.val

def levelText (type name : String) (issuer subject id : Str) : Str :=
  lit "\x7b" ++ (id ++ (lit "\"iat\":1784133873,\"iss\":\"" ++ (issuer ++
    (lit "\",\"name\":\"" ++ (lit name ++ (lit "\",\"sub\":\"" ++ (subject ++
      (lit "\",\"valiss\":\x7b\"type\":\"" ++ (lit type ++
        lit "\",\"epoch\":7\x7d\x7d")))))))))

def operatorSample : Sample where
  issuer := operatorRaw
  text := levelText "operator" "acme-trust" operatorKey operatorKey
  digest := bytesOf 32 0x0008c6cddbf75fb937f7e1f0a773df09321370083fbba6d0c1f0fa00faf6e022
  signature := bytesOf 32 0xaac60e46a92f63f484efee3ba5c514aa88bde8be995d41d02328b8ba98121b0d ++
    bytesOf 32 0x65c9aab42caa29fa4437596675cfff938435ea3f4babba39915a7738d5779a05

def accountSample : Sample where
  issuer := operatorRaw
  text := levelText "account" "acme" operatorKey accountKey
  digest := bytesOf 32 0x4955405e8cf9d39736b84218f8bb35fc7306aedf64aa39a23e2c406220405f01
  signature := bytesOf 32 0x117a024b8d9da165d0a624cfcfc5f522f47287319d9734cb62164cd6173eff95 ++
    bytesOf 32 0xdfc55beded7561c7394a704dedd0f68d42009e92eeb6ef08b2c8536e40f75003

def userSample : Sample where
  issuer := accountRaw
  text := levelText "user" "alice" accountKey userKey
  digest := bytesOf 32 0x7aa755acf8eca8ed3eb3158403a016246b94ba8c8dd9ae6889ada8194aff53fa
  signature := bytesOf 32 0x35fa2a670163defb432a645ef79f6e1986a7c0783ce516d4ff7136e28605a527 ++
    bytesOf 32 0x6b2d3181f67ae15575056c0f8174227a1aedb58dc724a1143054d4edb6518c01

def bodyBytes : Bytes := encodePass (lit "hello world")

def bodyDigest : Bytes :=
  bytesOf 32 0xb94d27b9934d3e08a52e52d7da7dabfac484efe37a5380ee9088f7ace2efcde9

def destination : Str := lit "api.example.com/v1/widgets"

def messageSample : Sample where
  issuer := userRaw
  text id := lit "\x7b" ++ (id ++ (lit "\"iat\":1893456000,\"iss\":\"" ++ (userKey ++
    (lit "\",\"sub\":\"" ++ (userKey ++ (lit "\",\"aud\":\"" ++ (destination ++
      (lit "\",\"exp\":1893456060,\"valiss\":\x7b\"type\":\"message\"," ++
        (lit "\"epoch\":7,\"checksum\":\"" ++ (hex bodyDigest ++ lit "\"\x7d\x7d"))))))))))
  digest := bytesOf 32 0xcdfbd634593b3b7c5d35b733054f61a8bea9cc31ccc84fd660fe4e857ad17e4e
  signature := bytesOf 32 0xde199ed21b9dd5e146e760d2a14e89a7de68eec1c4bee30b027e29fa21cda1c8 ++
    bytesOf 32 0x058c75b9bf62a9641fe9902ef06ac04845ffaf76cb78e6ef6edaa766164e4207

def widgetContext : Bytes := encodePass (lit "http\nGET\napi.example.com\n/v1/widgets\nn-1")

def widgetDigest : Bytes :=
  bytesOf 32 0xbc9694dc22d49a3ebee14f6281ffad5fb6488bb6e6e91c601bb4c1ebf52087a2

def widgetSignature : Bytes :=
  bytesOf 32 0x9cf19cc032a9d19de8faaab335227ec283c19de890471cbad4d51f66f43d32ae ++
    bytesOf 32 0x1aa69dd09f2579b45a7ad145381ab5de9e62b67d1f5ae89a1141decb20fabd0c

def issuedAt : DateTime := ⟨1784133873000000,by decide,by decide⟩

def requestedAt : DateTime := ⟨1893456000000000,by decide,by decide⟩

def requestStamp : Str := lit "2030-01-01T00:00:00Z"

def domain : Recording where
  digests := [operatorSample.hashed,accountSample.hashed,userSample.hashed,messageSample.hashed,
    (bodyBytes,bodyDigest),(widgetContext,widgetDigest)]
  keys := [(operatorSeed,operatorRaw),(accountSeed,accountRaw),(userSeed,userRaw)]
  signatures := [operatorSample.signed,accountSample.signed,userSample.signed,messageSample.signed,
    ((userRaw,encodePass (requestTag ++ (requestStamp ++ 10 :: hex widgetDigest))),
      widgetSignature)]

def widgetRequest : Request where
  accountToken := accountSample.token
  userToken := userSample.token
  timestamp := requestStamp
  signature := b64encode widgetSignature
  context := widgetContext
  nonce := lit "n-1"

section Calls
variable [Platform]

def operatorPair : KeyPair := KeyPair.ofSeed .operator operatorSeed
def accountPair : KeyPair := KeyPair.ofSeed .account accountSeed
def userPair : KeyPair := KeyPair.ofSeed .user userSeed

/-- The calls all tokens and signatures of the domain come from. -/
def domainHistory : List Call :=
  [.issue operatorPair (.operator (lit "acme-trust") {epoch := 7,now := issuedAt}),
   .issue operatorPair (.account (lit "acme") accountKey {epoch := 7,now := issuedAt}),
   .issue accountPair (.user (lit "alice") userKey false {epoch := 7,now := issuedAt}),
   .issue userPair (.message destination (hex bodyDigest) none
     {ttl := some 60000000,epoch := 7,now := requestedAt}),
   .request userPair widgetContext requestedAt]

end Calls

section Ideal
local instance : Platform := domain.ideal

theorem domain_ideal : IdealSignatures domainHistory := by
  apply ideal_signatures
  intro e he
  simp only [domain, List.mem_cons, List.not_mem_nil, or_false] at he
  rcases he with rfl | rfl | rfl | rfl | rfl
  · exact ⟨domainHistory[0],List.getElem_mem _,by decide +kernel,by decide +kernel⟩
  · exact ⟨domainHistory[1],List.getElem_mem _,by decide +kernel,by decide +kernel⟩
  · exact ⟨domainHistory[2],List.getElem_mem _,by decide +kernel,by decide +kernel⟩
  · exact ⟨domainHistory[3],List.getElem_mem _,by decide +kernel,by decide +kernel⟩
  · exact ⟨domainHistory[4],List.getElem_mem _,by decide +kernel,by decide +kernel⟩

end Ideal

theorem domain_digests : (domain.digests.map Prod.fst).Nodup := by decide +kernel

instance : @Recording.Honoured domain domain.ideal := ideal_honoured domain domain_digests

instance : @Recording.Honoured domain domain.honest :=
  honest_honoured domain domain_digests (by decide +kernel)

theorem domain_injective (accepts : Key → Bytes → Bytes → Bool) :
    Function.Injective (domain.platform accepts).sha256 :=
  sha256_injective domain accepts (by decide +kernel) (by decide +kernel)

namespace Widgets

section Drafts
variable [Platform]

def levelDraft (type : Str) (name : String) (subject : Str) : Draft where
  body := {type := type,epoch := 7}
  name := lit name
  subject := subject
  now := issuedAt

def messageDraft : Draft where
  body := {type := messageType,epoch := 7,checksum := hex bodyDigest}
  subject := userKey
  audience := destination
  expires := 1893456060
  now := requestedAt

theorem level_inRange (type : Str) (name : String) (subject : Str) :
    InRange (levelDraft type name subject) := by
  constructor
  · exact show tsMin ≤ timestampInt issuedAt ∧ timestampInt issuedAt ≤ tsMax by decide
  · exact ts_zero
  · exact ts_zero
  · exact show (0 : ℤ) ≤ 7 ∧ (7 : ℤ) ≤ uint64Max by decide

theorem message_inRange : InRange messageDraft := by
  constructor
  · exact show tsMin ≤ timestampInt requestedAt ∧ timestampInt requestedAt ≤ tsMax by decide
  · exact show tsMin ≤ 1893456060 ∧ (1893456060 : ℤ) ≤ tsMax by decide
  · exact ts_zero
  · exact show (0 : ℤ) ≤ 7 ∧ (7 : ℤ) ≤ uint64Max by decide

theorem level_printable (type : Str) (name : String) (subject : Str) (ht : Encodable type)
    (hn : Encodable (lit name)) (hs : Encodable subject) :
    Printable (levelDraft type name subject) :=
  ⟨hn,hs,encodable_nil,ht,encodable_nil,by simp [levelDraft],trivial,rfl⟩

theorem message_printable : Printable messageDraft := by
  have ha : Encodable destination := by decide
  have ht : Encodable messageType := by decide
  have hc : Encodable (hex bodyDigest) := by decide
  exact ⟨encodable_nil,b32encode_encodable _,ha,ht,hc,by simp [messageDraft],trivial,rfl⟩

omit [Platform] in
theorem encodePublic_ne_nil (r : Role) (raw : Key) : encodePublic r raw.val ≠ [] := by
  rw [encodePublic, sealed]
  exact b32encode_ne_nil _ (by simp)

theorem valid_public (role : Role) (raw : Key) :
    isValidPublic (encodePublic role raw.val) role = true :=
  (isValidPublic_publicKey ⟨role,raw,none,nofun⟩ role).2 rfl

theorem level_text (type name : String) (issuer subject jti : Str) (ht : Plain (lit type))
    (hn : Plain (lit name)) (hi : Plain issuer) (hs : Plain subject) (hj : Plain jti)
    (hname : lit name ≠ []) (hsubject : subject ≠ []) :
    goText (.obj (payloadOf (levelDraft (lit type) name subject) issuer jti)) =
      levelText type name issuer subject (lit "\"jti\":\"" ++ jti ++ lit "\",") := by
  unfold Plain at ht hn hi hs hj
  have hnow : intText (timestampInt issuedAt) = lit "1784133873" := by decide +kernel
  rw [goText_eq]
  simp only [dumpsWith, dumpsMembers, quoted, payloadOf, Draft.claims, levelDraft, Body.members,
    strMember, intMember, chainMember, hname, hsubject, ht, hn, hi, hs, hj, hnow, levelText,
    show (7:ℤ) ≠ 0 by decide, if_true, if_false, Bool.false_eq_true, List.nil_append,
    List.cons_append, List.append_assoc]
  rfl

theorem message_text (jti : Str) (hj : Plain jti) :
    goText (.obj (payloadOf messageDraft userKey jti)) =
      messageSample.text (lit "\"jti\":\"" ++ jti ++ lit "\",") := by
  have hu : Plain userKey := b32encode_plain _
  have hd : Plain destination := by decide
  have hc : Plain (hex bodyDigest) := by decide
  have hne : userKey ≠ [] := encodePublic_ne_nil .user userRaw
  have hde : destination ≠ [] := by decide
  have hce : hex bodyDigest ≠ [] := by decide
  unfold Plain at hj hu hd hc
  have hnow : intText (timestampInt requestedAt) = lit "1893456000" := by decide +kernel
  rw [goText_eq]
  simp only [dumpsWith, dumpsMembers, quoted, payloadOf, Draft.claims, messageDraft, Body.members,
    strMember, intMember, chainMember, messageSample, hne, hde, hce, hj, hu, hd, hc, hnow,
    show (7:ℤ) ≠ 0 by decide, show (1893456060:ℤ) ≠ 0 by decide, if_true, if_false,
    Bool.false_eq_true, List.nil_append, List.cons_append, List.append_assoc]
  generalize userKey = issuer
  generalize destination = audience
  generalize hex bodyDigest = sum
  rfl

theorem sample_decoded (s : Sample) (role : Role) (d : Draft) (hr : InRange d)
    (hp : Printable d) (hd : distinct (.obj d.body.ext) = true)
    (ht : goText (.obj (payloadOf d (encodePublic role s.issuer.val) (b32encode s.digest))) =
      s.claims)
    (hv : Platform.edVerify s.issuer (encodePass s.input) s.signature = true) :
    decodeToken s.token =
      .ok (decodedDraft d (encodePublic role s.issuer.val) (b32encode s.digest) hr) := by
  have hkp : ∀ x ∈ (none : Option Key), Platform.publicOf x = s.issuer := nofun
  have hprint := payload_printed ⟨role,s.issuer,none,hkp⟩ d _ hp (inRange_brief d hr)
    (b32encode_encodable s.digest)
  rw [KeyPair.publicKey, ht] at hprint
  have h := decodeToken_payload ⟨role,s.issuer,none,hkp⟩ d _ _ s.signature hr hd hprint hv
  rw [Sample.token, Sample.input, List.append_assoc, List.cons_append]
  exact h

theorem level_decoded (s : Sample) (role : Role) (type name : String) (r : Role) (raw : Key)
    (htext : s.text =
      levelText type name (encodePublic role s.issuer.val) (encodePublic r raw.val))
    (ht : Plain (lit type) ∧ Encodable (lit type))
    (hn : Plain (lit name) ∧ Encodable (lit name) ∧ lit name ≠ [])
    (hv : Platform.edVerify s.issuer (encodePass s.input) s.signature = true) :
    decodeToken s.token =
      .ok (decodedDraft (levelDraft (lit type) name (encodePublic r raw.val))
        (encodePublic role s.issuer.val) (b32encode s.digest) (level_inRange _ _ _)) := by
  apply sample_decoded s role _ _ (level_printable _ _ _ ht.2 hn.2.1 (b32encode_encodable _)) rfl _ hv
  rw [Sample.claims, htext]
  exact level_text type name _ _ _ ht.1 hn.1 (b32encode_plain _) (b32encode_plain _)
    (b32encode_plain _) hn.2.2 (encodePublic_ne_nil r raw)

def operatorRead : Decoded :=
  decodedDraft (levelDraft operatorType "acme-trust" operatorKey) operatorKey
    (b32encode operatorSample.digest) (level_inRange _ _ _)

def accountRead : Decoded :=
  decodedDraft (levelDraft accountType "acme" accountKey) operatorKey
    (b32encode accountSample.digest) (level_inRange _ _ _)

def userRead : Decoded :=
  decodedDraft (levelDraft userType "alice" userKey) accountKey
    (b32encode userSample.digest) (level_inRange _ _ _)

def messageRead : Decoded :=
  decodedDraft messageDraft userKey (b32encode messageSample.digest) message_inRange

theorem unbounded (c : Claims) (now : DateTime) (skew : TimeDelta) (he : c.expiresAt = none)
    (hn : c.notBefore = none) :
    c.expired now skew = .ok false ∧ c.notYetValid now skew = .ok false := by
  rw [expired_false, notYetValid_false, he, hn]
  simp

theorem account_unbounded (now : DateTime) (skew : TimeDelta) :
    (claimsOf accountRead).expired now skew = .ok false ∧
      (claimsOf accountRead).notYetValid now skew = .ok false :=
  unbounded _ now skew rfl rfl

theorem user_unbounded (now : DateTime) (skew : TimeDelta) :
    (claimsOf userRead).expired now skew = .ok false ∧
      (claimsOf userRead).notYetValid now skew = .ok false :=
  unbounded _ now skew rfl rfl

def Policy (operator : Option OperatorClaims) : Prop :=
  operator = none ∨ operator = some (operatorClaims operatorRead)

def widgetIdentity (operator : Option OperatorClaims) : Identity :=
  ⟨accountClaims accountRead,some (userClaims userRead),operator⟩

theorem widget_policy (now : DateTime) (skew : TimeDelta) (operator : Option OperatorClaims)
    (h : Policy operator) : ∀ c ∈ operator, c.expired now skew = .ok false ∧
      c.notYetValid now skew = .ok false ∧ 7 = c.epoch := by
  rcases h with rfl | rfl
  · simp
  · intro c hc
    obtain rfl := Option.mem_some.1 hc
    have hw := unbounded (claimsOf operatorRead) now skew rfl rfl
    exact ⟨hw.1,hw.2,rfl⟩

def widgetChain : Chain := (accountSample.token,userSample.token)

def widgetMessage (operator : Option OperatorClaims) : MessageClaims :=
  messageClaims messageRead (accountClaims accountRead) (userClaims userRead) operator

theorem bounded (c : Claims) (exp now : DateTime) (skew : TimeDelta)
    (he : c.expiresAt = some exp) (hn : c.notBefore = none) (hlow : minMicros ≤ now.micros-skew)
    (hs : (0 : ℤ) ≤ skew) (h : now.micros-skew ≤ exp.micros) :
    c.expired now skew = .ok false ∧ c.notYetValid now skew = .ok false := by
  have hhigh := now.high
  rw [expired_false, notYetValid_false, he, hn]
  refine ⟨?_,by simp⟩
  intro x hx
  obtain rfl := Option.mem_some.1 hx
  exact ⟨⟨now.micros-skew,hlow,by omega⟩,rfl,h⟩

theorem widget_window (now : DateTime) (skew : TimeDelta) (hlow : minMicros ≤ now.micros-skew)
    (hs : (0 : ℤ) ≤ skew) (h : now.micros-skew ≤ requestedAt.micros+60000000) :
    (claimsOf messageRead).expired now skew = .ok false ∧
      (claimsOf messageRead).notYetValid now skew = .ok false :=
  bounded _ ⟨1893456060*1000000,by decide,by decide⟩ now skew rfl rfl hlow hs h

theorem verifyMessage_pinned (tok key : Str) (o : MessageOptions) :
    verifyMessage tok (some key) none o = verifyUnder (.pinned key) tok o := rfl

theorem widget_epochs (operator : Option OperatorClaims) (ho : Policy operator) (now : DateTime)
    (skew : TimeDelta) : messageEpochs messageRead (accountClaims accountRead)
      (userClaims userRead) now skew operator = .ok () :=
  (messageEpochs_ok _ _ _ _ _ _ _).2 ⟨widget_policy now skew operator ho,rfl,rfl⟩

end Drafts

theorem widget_signed : ¬ (widgetRequest.timestamp = [] ∧ widgetRequest.signature = []) := by
  rintro ⟨h,_⟩
  cases h

def bundled : Delivery :=
  ⟨messageSample.token,bodyBytes,destination,accountSample.token,userSample.token⟩

theorem bundled_detached : bundled.detached = true := by
  simp [Delivery.detached, bundled, Sample.token_ne_nil]

section Honoured
variable [Platform] [domain.Honoured]

theorem recorded_digest (e : Bytes × Bytes) (h : e ∈ domain.digests) :
    Platform.sha256 e.1 = e.2 := Recording.Honoured.hashes e h

theorem recorded_signature (e : (Key × Bytes) × Bytes) (h : e ∈ domain.signatures) :
    Platform.edVerify e.1.1 e.1.2 e.2 = true := Recording.Honoured.verifies e h

theorem operator_decoded : decodeToken operatorSample.token = .ok operatorRead :=
  level_decoded operatorSample .operator "operator" "acme-trust" .operator operatorRaw rfl
    (by decide) (by decide) (recorded_signature operatorSample.signed (by simp [domain]))

theorem account_decoded : decodeToken accountSample.token = .ok accountRead :=
  level_decoded accountSample .operator "account" "acme" .account accountRaw rfl
    (by decide) (by decide) (recorded_signature accountSample.signed (by simp [domain]))

theorem user_decoded : decodeToken userSample.token = .ok userRead :=
  level_decoded userSample .account "user" "alice" .user userRaw rfl
    (by decide) (by decide) (recorded_signature userSample.signed (by simp [domain]))

theorem message_decoded : decodeToken messageSample.token = .ok messageRead :=
  sample_decoded messageSample .user _ _ message_printable rfl
    (message_text _ (b32encode_plain _))
    (recorded_signature messageSample.signed (by simp [domain]))

theorem operator_verified : verifyOperator operatorSample.token operatorKey =
    .ok (operatorClaims operatorRead) :=
  (verifyOperator_ok _ _ _).2 ⟨operatorRead,operator_decoded,rfl,rfl,rfl,
    valid_public .operator operatorRaw,rfl⟩

theorem account_verified : verifyAccount accountSample.token operatorKey =
    .ok (accountClaims accountRead) :=
  (verifyAccount_ok _ _ _).2 ⟨accountRead,account_decoded,rfl,rfl,
    valid_public .account accountRaw,rfl⟩

theorem user_verified : verifyUser userSample.token accountKey = .ok (userClaims userRead) :=
  (verifyUser_ok _ _ _).2 ⟨userRead,user_decoded,rfl,rfl,valid_public .user userRaw,rfl⟩

theorem message_read : messageToken messageSample.token = .ok messageRead :=
  (messageToken_ok _ _).2 ⟨message_decoded,rfl,rfl,valid_public .user userRaw⟩

theorem context_digest : Platform.sha256 widgetContext = widgetDigest :=
  recorded_digest (widgetContext,widgetDigest) (by simp [domain])

theorem body_digest : Platform.sha256 bodyBytes = bodyDigest :=
  recorded_digest (bodyBytes,bodyDigest) (by simp [domain])

theorem request_signed (now : DateTime) (skew : TimeDelta)
    (h : now.micros-requestedAt.micros ≤ skew) (h' : -skew ≤ now.micros-requestedAt.micros) :
    verifySignature userKey requestStamp (b64encode widgetSignature) widgetContext now skew =
      .ok () := by
  have hver : Platform.edVerify userRaw
      (encodePass (RequestSignature.signedText requestStamp widgetContext)) widgetSignature = true := by
    rw [RequestSignature.signedText, context_digest]
    have hmem : ((userRaw,encodePass (requestTag ++ (requestStamp ++ 10 :: hex widgetDigest))),
        widgetSignature) ∈ domain.signatures := by
      simp only [domain, List.mem_cons, or_true, true_or]
    exact recorded_signature _ hmem
  have hkey := fromPublicKey_publicKey ⟨.user,userRaw,none,nofun⟩
  exact (verifySignature_ok _ _ _ _ _ _ _).2 ⟨by decide,⟨requestedAt.micros,by decide +kernel,h,h'⟩,
    widgetSignature,_,decode_encode true _,hkey,hver⟩

section Request
variable {σ : Type}

theorem widget_chain (o : Options σ) (now : DateTime) (operator : Option OperatorClaims)
    (ho : Policy operator) (ha : o.allowlist accountRead.id = true) :
    checkChain o now widgetRequest (accountClaims accountRead) operator =
      .ok (widgetIdentity operator) := by
  have hpolicy := widget_policy now o.skew operator ho
  have hacc := account_unbounded now o.skew
  have huser := user_unbounded now o.skew
  refine (checkChain_ok _ _ _ _ _ _).2 ⟨rfl,rfl,hpolicy,
    (checkAccount_ok _ _ _ _).2 ⟨hacc.1,hacc.2,ha⟩,(checkUser_ok _ _ _ _ _ _).2 (Or.inr ?_)⟩
  exact ⟨userSample.token_ne_nil,_,rfl,user_verified,fun c hc => (hpolicy c hc).2.2,huser⟩

theorem widget_possession (o : Options σ) (now : DateTime) (operator : Option OperatorClaims)
    (h : now.micros-requestedAt.micros ≤ o.skew) (h' : -o.skew ≤ now.micros-requestedAt.micros)
    (expiry : DateTime) (hx : o.replayCache.isSome = true → now.plus (2*o.skew) = some expiry) :
    possession o now widgetRequest (widgetIdentity operator) =
      .ok (if o.replayCache.isSome then some (lit "n-1",expiry) else none) := by
  have hs : verifySignature (widgetIdentity operator).subject widgetRequest.timestamp
      widgetRequest.signature widgetRequest.context now o.skew = .ok () := request_signed now _ h h'
  rw [possession, if_neg widget_signed, hs, ok_bind]
  by_cases hc : o.replayCache.isSome = true
  · have hn : widgetRequest.nonce ≠ [] := by decide
    rw [if_pos hc, if_pos hc, raiseIf_neg _ _ hn, ok_bind, hx hc]
    rfl
  · rw [if_neg hc, if_neg hc]
    rfl

theorem widget_pinned (operator : Option OperatorClaims) :
    anchored (.pinned operatorKey operator) accountSample.token =
      .ok (accountClaims accountRead,operator) := by
  rw [anchored, account_verified]
  rfl

theorem widget_checked (v : Verifier σ) (now : DateTime) (operator : Option OperatorClaims)
    (hv : anchored v.anchor accountSample.token = .ok (accountClaims accountRead,operator))
    (ho : Policy operator)
    (ha : v.allowlist accountRead.id = true) (h : now.micros-requestedAt.micros ≤ v.skew)
    (h' : -v.skew ≤ now.micros-requestedAt.micros) (expiry : DateTime)
    (hx : v.replayCache.isSome = true → now.plus (2*v.skew) = some expiry) :
    checked v now widgetRequest = .ok (widgetIdentity operator,
      if v.replayCache.isSome then some (lit "n-1",expiry) else none) := by
  have htoken : accountTokenOf v.toOptions widgetRequest = .ok accountSample.token :=
    if_pos accountSample.token_ne_nil
  exact (checked_ok _ _ _ _).2 ⟨_,htoken,_,_,hv,
    widget_chain v.toOptions now operator ho ha,
    widget_possession v.toOptions now operator h h' expiry hx⟩

end Request

theorem widget_delivered (o : MessageOptions) (operator : Option OperatorClaims)
    (ho : operatorPolicy operatorKey o.operatorToken = .ok operator) (hp : Policy operator)
    (hc : o.chain = some widgetChain) (hlow : minMicros ≤ o.now.micros-o.skew)
    (hs : (0 : ℤ) ≤ o.skew) (h : o.now.micros-o.skew ≤ requestedAt.micros+60000000)
    (hb : messageBindings (widgetMessage operator) o = .ok ()) :
    verifyUnder (.pinned operatorKey) messageSample.token o = .ok (widgetMessage operator) := by
  have hanchor : messageAnchor (.pinned operatorKey) o.operatorToken (.str accountSample.token) =
      .ok (accountClaims accountRead,operator) := by
    rw [messageAnchor, asToken, ok_bind, account_verified, ok_bind, ho]
    rfl
  refine (verifyUnder_ok _ _ _ _).2 ⟨messageRead,message_read,?_,?_,hb⟩
  · refine (messageChain_ok _ _ _ _).2 ⟨_,userSample.token,_,_,_,?_,hanchor,user_verified,rfl,
      widget_epochs operator hp o.now o.skew,rfl⟩
    rw [hc]
    rfl
  · exact (messageWindows_ok _ _ _ _).2 ⟨account_unbounded _ _,user_unbounded _ _,
      widget_window o.now o.skew hlow hs h⟩

theorem widget_bindings (o : MessageOptions) (operator : Option OperatorClaims)
    (ha : o.audience.getD [] = [] ∨ o.audience = some destination)
    (hp : ∀ p ∈ o.payload, p = bodyBytes) :
    messageBindings (widgetMessage operator) o = .ok () := by
  have hsum : hex bodyDigest ≠ [] := by decide
  refine (messageBindings_ok _ _ _).2 ⟨?_,?_,fun _ _ => hsum⟩
  · rcases ha with ha | ha
    · exact Or.inl ha
    · rw [ha]
      exact Or.inr rfl
  · intro p hmem
    rw [hp p hmem, checksum, body_digest]
    exact ⟨hsum,rfl⟩

theorem widget_run (options : VerifyOptions) (m : Delivery) (t : DateTime) (chain : Option Chain)
    (operator : Option OperatorClaims) (ht : m.token = messageSample.token)
    (ha : m.audience = destination) (hb : m.body = bodyBytes)
    (hc : options.chain.getD chain = some widgetChain)
    (ho : operatorPolicy operatorKey options.operatorToken = .ok operator) (hp : Policy operator)
    (hlow : minMicros ≤ (options.now.getD t).micros-options.skew) (hs : (0 : ℤ) ≤ options.skew)
    (h : (options.now.getD t).micros-options.skew ≤ requestedAt.micros+60000000) :
    runVerify ⟨.pinned operatorKey,options⟩ m t chain = .ok (widgetMessage operator) := by
  rw [runVerify, ht, ha, hb, hc]
  exact widget_delivered _ operator ho hp rfl hlow hs h (widget_bindings _ operator (Or.inr rfl)
    fun p hp => (Option.mem_some_iff.1 hp).symm)

theorem widget_operatorPolicy : operatorPolicy operatorKey (some operatorSample.token) =
    .ok (some (operatorClaims operatorRead)) := by
  rw [operatorPolicy, operator_verified]
  rfl

end Honoured

end Widgets

end Valiss.Recorded
