import Valiss.Recorded

/-!
# Authentication soundness

Whatever strings a request is made of, an accepted one goes back to calls of
the key holders: the operator minted the account token, the account minted the
user token, and the effective subject signed this very request, unless a bearer
token waives the signature.
-/

set_option autoImplicit false

namespace Valiss.RequestSoundness
open Lib.Unicode Lib.Calendar Lib.Fallible Valiss.Errors Valiss.Nkeys Valiss.TokenClaims
open Valiss.Mint Valiss.Decode Valiss.RequestSignature Valiss.Verify Valiss.SigningHistory
open Valiss.Recorded

section Soundness
variable [Platform]

/-- These are the claims of a token the operator key minted with `issue_account`. -/
def AccountMinted (history : List Call) (operatorKey : Str) (c : AccountClaims) : Prop :=
  ∃ kp name pub o tok d, Call.issue kp (.account name pub o) ∈ history ∧
    kp.publicKey = operatorKey ∧ issueAccount kp name pub o = .ok tok ∧ Carries tok d ∧
    c = accountClaims d

/-- These are the claims of a token the account key minted with `issue_user`. -/
def UserMinted (history : List Call) (accountKey : Str) (c : UserClaims) : Prop :=
  ∃ kp name pub bearer o tok d, Call.issue kp (.user name pub bearer o) ∈ history ∧
    kp.publicKey = accountKey ∧ issueUser kp name pub bearer o = .ok tok ∧ Carries tok d ∧
    c = userClaims d

/-- The key's holder had `sign_request` sign this context at this timestamp. -/
def Requested (history : List Call) (key timestamp : Str) (context : Bytes) : Prop :=
  ∃ kp t sig, Call.request kp context t ∈ history ∧ Holds kp key ∧
    signRequest kp context t = .ok (timestamp,sig)

theorem verifyAccount_minted (history : List Call) (ideal : IdealSignatures history)
    (tok key : Str) (c : AccountClaims) (h : verifyAccount tok key = .ok c) :
    AccountMinted history key c := by
  obtain ⟨d,hd,ht,hi,_,rfl⟩ := (verifyAccount_ok _ _ _).1 h
  obtain ⟨kp,call,t,hmem,hkey,hrun,hc,hdraft⟩ := decodeToken_minted_by history ideal tok d hd
  obtain ⟨name,pub,o,rfl⟩ := type_account call (hdraft.type.symm.trans ht)
  exact ⟨kp,name,pub,o,t,d,hmem,hkey.trans hi,hrun,hc,rfl⟩

theorem verifyUser_minted (history : List Call) (ideal : IdealSignatures history)
    (tok key : Str) (c : UserClaims) (h : verifyUser tok key = .ok c) :
    UserMinted history key c := by
  obtain ⟨d,hd,ht,hi,_,rfl⟩ := (verifyUser_ok _ _ _).1 h
  obtain ⟨kp,call,t,hmem,hkey,hrun,hc,hdraft⟩ := decodeToken_minted_by history ideal tok d hd
  obtain ⟨name,pub,b,o,rfl⟩ := type_user call (hdraft.type.symm.trans ht)
  exact ⟨kp,name,pub,b,o,t,d,hmem,hkey.trans hi,hrun,hc,rfl⟩

variable {σ : Type}

theorem pinned_anchor (o : Options σ) (key : Str) (operatorToken : Option Str) (v : Verifier σ)
    (hv : Verifier.pinned o key operatorToken = .ok v) :
    v.toOptions = o ∧ ((operatorToken = none ∧ v.anchor = .pinned key none) ∨
      (∃ e, v.anchor = .poisoned e) ∨
      ∃ t c, operatorToken = some t ∧ verifyOperator t key = .ok c ∧
        v.anchor = .pinned key (some c)) := by
  unfold Verifier.pinned at hv
  split at hv
  · obtain rfl := Except.ok.inj hv
    exact ⟨rfl,Or.inl ⟨rfl,rfl⟩⟩
  next t =>
    split at hv
    next c hc =>
      obtain rfl := Except.ok.inj hv
      exact ⟨rfl,Or.inr (Or.inr ⟨t,c,rfl,hc,rfl⟩)⟩
    next m r _ =>
      obtain rfl := Except.ok.inj hv
      exact ⟨rfl,Or.inr (Or.inl ⟨_,rfl⟩)⟩
    next => cases hv

/-- Everything an accepted request rests on, under a pinned operator key. -/
structure Sound (history : List Call) (operatorKey : Str) (operatorToken : Option Str)
    (o : Options σ) (r : Request) (i : Identity) : Prop where
  account : AccountMinted history operatorKey i.account
  allowed : o.allowlist i.account.id = true
  user : ∀ u ∈ i.user, UserMinted history i.account.subject u
  policy : ∀ t ∈ operatorToken, ∃ c, verifyOperator t operatorKey = .ok c ∧
    i.account.epoch = c.epoch ∧ ∀ u ∈ i.user, u.epoch = c.epoch
  request : (i.bearer = true ∧ r.timestamp = [] ∧ r.signature = []) ∨
    Requested history i.subject r.timestamp r.context

theorem verify_sound (inj : Function.Injective Platform.sha256) (history : List Call)
    (ideal : IdealSignatures history) (o : Options σ) (operatorKey : Str)
    (operatorToken : Option Str) (v : Verifier σ)
    (hv : Verifier.pinned o operatorKey operatorToken = .ok v) (now : DateTime) (r : Request)
    (s u : σ) (i : Identity) (h : (verify v now r).run s = (.ok i,u)) :
    Sound history operatorKey operatorToken o r i := by
  obtain ⟨hopt,hanchor⟩ := pinned_anchor o operatorKey operatorToken v hv
  obtain ⟨e,hc,_⟩ := (verify_ok _ _ _ _ _ _).1 h
  obtain ⟨tok,_,account,operator,ha,hchain,hpos⟩ := (checked_ok _ _ _ _).1 hc
  rw [hopt] at hchain hpos
  obtain ⟨rfl,rfl,hpolicy,hacc,huser⟩ := (checkChain_ok _ _ _ _ _ _).1 hchain
  have hminted : AccountMinted history operatorKey i.account ∧
      ∀ t ∈ operatorToken, ∃ c, verifyOperator t operatorKey = .ok c ∧ i.operator = some c := by
    rcases hanchor with ⟨rfl,hn⟩ | ⟨x,hx⟩ | ⟨t,c,rfl,hop,hn⟩
    · rw [hn, anchored] at ha
      simp only [bind_ok, pure_ok, Prod.mk.injEq] at ha
      obtain ⟨a,hva,rfl,_⟩ := ha
      exact ⟨verifyAccount_minted history ideal _ _ _ hva,by simp⟩
    · rw [hx, anchored] at ha
      cases ha
    · rw [hn, anchored] at ha
      simp only [bind_ok, pure_ok, Prod.mk.injEq] at ha
      obtain ⟨a,hva,rfl,hc'⟩ := ha
      refine ⟨verifyAccount_minted history ideal _ _ _ hva,?_⟩
      rintro t' ht'
      obtain rfl := Option.mem_some.1 ht'
      exact ⟨c,hop,hc'.symm⟩
  have husers : ∀ x ∈ i.user, UserOk o now r i.account i.operator x := by
    intro x hx
    rcases (checkUser_ok _ _ _ _ _ _).1 huser with ⟨_,hn⟩ | ⟨_,y,hy,hok⟩
    · rw [hn] at hx
      cases hx
    · rw [hy] at hx
      obtain rfl := Option.mem_some.1 hx
      exact hok
  constructor
  · exact hminted.1
  · exact ((checkAccount_ok _ _ _ _).1 hacc).2.2
  · exact fun x hx => verifyUser_minted history ideal _ _ _ (husers x hx).1
  · intro t ht
    obtain ⟨c,hop,hc'⟩ := hminted.2 t ht
    exact ⟨c,hop,(hpolicy c hc').2.2,fun x hx => (husers x hx).2.1 c hc'⟩
  · rcases possession_ok _ _ _ _ _ hpos with ⟨ht,hs,hb,_⟩ | ⟨hsig,_⟩
    · exact Or.inl ⟨hb,ht,hs⟩
    · exact Or.inr (verifySignature_signed_by inj history ideal _ _ _ _ _ _ hsig)

end Soundness

section Widgets
local instance : Platform := domain.ideal

def widgetOptions : Options Unit where
  allowlist id := decide (id = Lib.Base32.b32encode accountSample.digest)
  skew := 120000000
  resolver := none
  replayCache := none
  validators := []
  extensionTypes := []

theorem verify_sound_widgets : ∃ v i,
    Verifier.pinned widgetOptions operatorKey (some operatorSample.token) = .ok v ∧
    (verify v requestedAt widgetRequest).run () = (.ok i,()) ∧
    Sound domainHistory operatorKey (some operatorSample.token) widgetOptions widgetRequest i := by
  have hv : Verifier.pinned widgetOptions operatorKey (some operatorSample.token) =
      .ok ⟨widgetOptions,.pinned operatorKey (some (operatorClaims Widgets.operatorRead))⟩ := by
    rw [Verifier.pinned, Widgets.operator_verified]
  have hlisted : widgetOptions.allowlist Widgets.accountRead.id = true := by
    show decide (Widgets.accountRead.id = Lib.Base32.b32encode accountSample.digest) = true
    exact decide_eq_true rfl
  have hk := Widgets.widget_checked
    ⟨widgetOptions,.pinned operatorKey (some (operatorClaims Widgets.operatorRead))⟩ requestedAt _
    (Widgets.widget_pinned _) (Or.inr rfl) hlisted (by decide) (by decide) requestedAt (by decide)
  have hrun := (verify_ok _ _ widgetRequest () () _).2 ⟨none,hk,(),rfl,rfl⟩
  exact ⟨_,_,hv,hrun,verify_sound (domain_injective _) domainHistory domain_ideal widgetOptions
    operatorKey _ _ hv requestedAt widgetRequest () () _ hrun⟩

end Widgets

end Valiss.RequestSoundness
