import Valiss.GrpcAuth
import Valiss.Recorded

/-!
# One signature, one operation

The context of a request joins its fields by newlines and escapes nothing. Only
the path of an HTTP request may itself hold newlines, and it stands between
fields that hold none, so the context determines the transport and the fields.
-/

set_option autoImplicit false

namespace Valiss.ContextBinding
open Lib.Unicode Lib.Calendar Lib.Fallible Valiss.Errors Valiss.Nkeys Valiss.RequestSignature
open Valiss.Verify Valiss.Recorded

inductive Operation where
  | http (method host path nonce : Str)
  | grpc (fullMethod nonce : Str)

namespace Operation

def text : Operation → Str
  | .http method host path nonce => HttpAuth.contextText method host path nonce
  | .grpc fullMethod nonce => GrpcAuth.contextText fullMethod nonce

/-- Values of request lines, headers and metadata are single lines; the path is
any text. -/
def SingleLine : Operation → Prop
  | .http method host _ nonce =>
    (10 : CodePoint) ∉ method ∧ (10 : CodePoint) ∉ host ∧ (10 : CodePoint) ∉ nonce
  | .grpc fullMethod nonce => (10 : CodePoint) ∉ fullMethod ∧ (10 : CodePoint) ∉ nonce

end Operation

theorem text_injective (a b : Operation) (ha : a.SingleLine) (hb : b.SingleLine)
    (h : a.text = b.text) : a = b := by
  have hne : lit "http\n" ≠ lit "grpc\n" := by decide
  cases a with
  | http m₁ h₁ p₁ n₁ =>
    cases b with
    | http m₂ h₂ p₂ n₂ =>
      simp only [Operation.text, HttpAuth.contextText, List.append_cancel_left_eq] at h
      obtain ⟨hm,hhost⟩ := split_first 10 _ _ _ _ ha.1 hb.1 h
      obtain ⟨hh,hpath⟩ := split_first 10 _ _ _ _ ha.2.1 hb.2.1 hhost
      obtain ⟨hp,hn⟩ := split_last 10 _ _ _ _ ha.2.2 hb.2.2 hpath
      rw [hm, hh, hp, hn]
    | grpc f₂ n₂ => exact absurd (List.append_inj h rfl).1 hne
  | grpc f₁ n₁ =>
    cases b with
    | http m₂ h₂ p₂ n₂ => exact absurd (List.append_inj h rfl).1.symm hne
    | grpc f₂ n₂ =>
      simp only [Operation.text, GrpcAuth.contextText, List.append_cancel_left_eq] at h
      obtain ⟨hf,hn⟩ := split_first 10 _ _ _ _ ha.1 hb.1 h
      rw [hf, hn]

section Binding
variable [Platform]

def Operation.context (a : Operation) : Py Bytes :=
  match a with
  | .http method host path nonce => HttpAuth.requestContext method host path nonce
  | .grpc fullMethod nonce => GrpcAuth.methodContext fullMethod nonce

theorem Operation.context_eq (a : Operation) : a.context = encode a.text := by
  cases a <;> rfl

/-- A signature belongs to one byte string. -/
def BindingSignatures : Prop :=
  ∀ (k : Key) (m m' sig : Bytes), Platform.edVerify k m sig = true →
    Platform.edVerify k m' sig = true → m = m'

def Passes (key timestamp signature : Str) (a : Operation) : Prop :=
  ∃ context now skew, a.context = .ok context ∧
    verifySignature key timestamp signature context now skew = .ok ()

theorem passes_unique (inj : Function.Injective Platform.sha256) (binding : BindingSignatures)
    (key timestamp signature : Str) (a b : Operation) (ha : a.SingleLine) (hb : b.SingleLine)
    (pa : Passes key timestamp signature a) (pb : Passes key timestamp signature b) : a = b := by
  obtain ⟨c,now,skew,hc,hv⟩ := pa
  obtain ⟨c',now',skew',hc',hv'⟩ := pb
  obtain ⟨hshape,_,raw,kp,hraw,hkp,hver⟩ := (verifySignature_ok _ _ _ _ _ _ _).1 hv
  obtain ⟨_,_,raw',kp',hraw',hkp',hver'⟩ := (verifySignature_ok _ _ _ _ _ _ _).1 hv'
  rw [hraw, Option.some.injEq] at hraw'
  rw [hkp, Except.ok.injEq] at hkp'
  subst hraw' hkp'
  have hstamp := shape_stamp timestamp hshape
  have hmsg := encodePass_injective (binding _ _ _ _ hver hver')
  obtain rfl := inj (signedText_inj _ _ _ _ hstamp hstamp hmsg).2
  rw [Operation.context_eq] at hc hc'
  exact text_injective a b ha hb (encode_inj _ _ _ hc hc')

def Signed (timestamp signature : Str) : Prop := ¬ (timestamp = [] ∧ signature = [])

theorem verify_passes {σ : Type} (v : Verifier σ) (now : DateTime) (r : Request) (s u : σ)
    (i : Identity) (h : (verify v now r).run s = (.ok i,u))
    (hr : Signed r.timestamp r.signature) (a : Operation) (ha : a.context = .ok r.context) :
    Passes i.subject r.timestamp r.signature a := by
  obtain ⟨e,he,_⟩ := (verify_ok _ _ _ _ _ _).1 h
  obtain ⟨_,_,_,_,_,_,hp⟩ := (checked_ok _ _ _ _).1 he
  rcases possession_ok _ _ _ _ _ hp with ⟨ht,hs,_⟩ | ⟨hv,_⟩
  · exact absurd ⟨ht,hs⟩ hr
  · exact ⟨r.context,now,v.skew,ha,hv⟩

/-- A server accepted the operation for the subject that holds the key. -/
def Accepted (key timestamp signature : Str) : Operation → Prop
  | .http method host path nonce => ∃ (σ : Type) (v : Verifier σ) (now : DateTime)
      (accountToken userToken : Str) (allowMissing : Bool) (s u : σ) (i : Identity),
      (HttpAuth.authenticate v now accountToken userToken timestamp signature nonce method host path
        allowMissing).run s = (.ok (.identity i),u) ∧ i.subject = key
  | .grpc fullMethod nonce => ∃ (σ : Type) (v : Verifier σ) (now : DateTime)
      (metadata : List (Str × Str)) (allowMissing : Bool) (s u : σ) (i : Identity),
      GrpcAuth.incoming metadata "valiss-nonce" = nonce ∧
      GrpcAuth.incoming metadata "valiss-timestamp" = timestamp ∧
      GrpcAuth.incoming metadata "valiss-signature" = signature ∧
      (GrpcAuth.authenticate v now metadata fullMethod allowMissing).run s =
        (.ok (.identity i),u) ∧ i.subject = key

theorem accepted_passes (key timestamp signature : Str) (hs : Signed timestamp signature)
    (a : Operation) (h : Accepted key timestamp signature a) :
    Passes key timestamp signature a := by
  cases a with
  | http method host path nonce =>
    obtain ⟨σ,v,now,_,_,_,s,u,i,h,rfl⟩ := h
    obtain ⟨_,context,hc,hv,_⟩ := (HttpAuth.authenticate_ok _ _ _ _ _ _ _ _ _ _ _ _ _ _).1 h
    exact verify_passes v now _ s u i hv hs (.http method host path nonce) hc
  | grpc fullMethod nonce =>
    obtain ⟨σ,v,now,metadata,_,s,u,i,rfl,rfl,rfl,h,rfl⟩ := h
    obtain ⟨context,hc,hv,_⟩ := GrpcAuth.authenticate_ok _ _ _ _ _ _ _ _ h
    exact verify_passes v now _ s u i hv hs (.grpc fullMethod _) hc

/-- One timestamp and signature of a key pass for one operation, and whatever a
server accepts with them has passed. -/
theorem captured_signature (inj : Function.Injective Platform.sha256)
    (binding : BindingSignatures) (key timestamp signature : Str)
    (hs : Signed timestamp signature) :
    (∀ a b : Operation, a.SingleLine → b.SingleLine → Passes key timestamp signature a →
      Passes key timestamp signature b → a = b) ∧
    ∀ a, Accepted key timestamp signature a → Passes key timestamp signature a :=
  ⟨passes_unique inj binding key timestamp signature,
    accepted_passes key timestamp signature hs⟩

end Binding

theorem ideal_binding (r : Recording) (h : (r.signatures.map Prod.snd).Nodup) :
    @BindingSignatures r.ideal := by
  intro k m m' sig hv hv'
  have he := List.inj_on_of_nodup_map h (of_decide_eq_true hv) (of_decide_eq_true hv') rfl
  exact congrArg (fun e => e.1.2) he

section Widgets
local instance : Platform := domain.ideal

def widgetOperation : Operation :=
  .http (lit "GET") (lit "api.example.com") (lit "/v1/widgets") (lit "n-1")

/-- The user's signature passes for the request it was made for and no other. -/
theorem captured_signature_widgets :
    Passes userKey widgetRequest.timestamp widgetRequest.signature widgetOperation ∧
    ∀ b : Operation, b.SingleLine →
      Passes userKey widgetRequest.timestamp widgetRequest.signature b → b = widgetOperation := by
  have hpass : Passes userKey widgetRequest.timestamp widgetRequest.signature widgetOperation :=
    ⟨widgetContext,requestedAt,0,by decide +kernel,by decide +kernel⟩
  have hunique := (captured_signature (domain_injective _) (ideal_binding domain (by decide +kernel))
    userKey widgetRequest.timestamp widgetRequest.signature (by
      rw [Signed]
      decide +kernel)).1
  exact ⟨hpass,fun b hb pb => hunique b widgetOperation hb
    (by
      simp only [widgetOperation, Operation.SingleLine]
      decide +kernel) pb hpass⟩

end Widgets

end Valiss.ContextBinding
