import Valiss.Message

/-!
# What verification can raise

Each stage raises only errors of its own reasons, what the token decoder raises,
and what the datetime arithmetic of a window test raises. The lemmas hold for
any property of exceptions, so one pass over the code serves every question
about its failures.
-/

set_option autoImplicit false

namespace Valiss.Raising
open Lib.Unicode Lib.Json Lib.Calendar Lib.Fallible
open Valiss.Errors Valiss.Nkeys Valiss.TokenClaims Valiss.Decode Valiss.Operators Valiss.Verify
open Valiss.Message

def Ordinary (P : Exc → Prop) : Prop := ∀ m r, r ≠ Reason.noChain → P (errFor m r)

theorem ordinary_valiss : Ordinary fun e => e.isValiss = true := fun _ _ _ => rfl

variable {P : Exc → Prop}

theorem raises_reason (hP : Ordinary P) (c : Prop) [Decidable c] (m : Str) (r : Reason)
    (hr : r ≠ .noChain) : Raises P (raiseIf c (errFor m r)) :=
  (raises_raiseIf _ _ _).2 fun _ => hP m r hr

theorem raises_absent (hP : Ordinary P) {α : Type} (x : Option α) (m : Str) (r : Reason)
    (hr : r ≠ .noChain) : Raises P (ofOption (errFor m r) x) :=
  (raises_ofOption _ _ _).2 fun _ => hP m r hr

variable [Platform]

theorem level_raises {α : Type} (hP : Ordinary P) (tok : Str) (f : Decoded → α)
    (a b c : Decoded → Prop) [DecidablePred a] [DecidablePred b] [DecidablePred c]
    (m : Decoded → Str) (n k : Str) (h : Raises P (decodeToken tok)) : Raises P (do
      let d ← decodeToken tok
      raiseIf (a d) (errFor (m d) .wrongType)
      raiseIf (b d) (errFor n .wrongIssuer)
      raiseIf (c d) (errFor k .wrongSubjectRole)
      return f d) := by
  apply Raises.bind h
  intro d _
  apply Raises.bind (raises_reason hP _ _ _ (by decide))
  intro _ _
  apply Raises.bind (raises_reason hP _ _ _ (by decide))
  intro _ _
  apply Raises.bind (raises_reason hP _ _ _ (by decide))
  intro _ _
  exact raises_ok _ _

theorem verifyOperator_raises (hP : Ordinary P) (tok key : Str) (h : Raises P (decodeToken tok)) :
    Raises P (verifyOperator tok key) :=
  level_raises hP tok _ _ _ (fun d => ¬ isValidPublicOperatorKey d.subject) _ _ _ h

theorem verifyAccount_raises (hP : Ordinary P) (tok key : Str) (h : Raises P (decodeToken tok)) :
    Raises P (verifyAccount tok key) :=
  level_raises hP tok _ _ _ (fun d => ¬ isValidPublicAccountKey d.subject) _ _ _ h

theorem verifyUser_raises (hP : Ordinary P) (tok key : Str) (h : Raises P (decodeToken tok)) :
    Raises P (verifyUser tok key) :=
  level_raises hP tok _ _ _ (fun d => ¬ isValidPublicUserKey d.subject) _ _ _ h

theorem messageToken_raises (hP : Ordinary P) (tok : Str) (h : Raises P (decodeToken tok)) :
    Raises P (messageToken tok) :=
  level_raises hP tok _ _ _ (fun d => ¬ isValidPublicUserKey d.subject) _ _ _ h

theorem issuerOf_raises (tok : Str) (h : Raises P (decodeToken tok)) :
    Raises P (issuerOf tok) := Raises.bind h fun _ _ => raises_ok _ _

theorem decodeClaims_raises (tok : Str) (h : Raises P (decodeToken tok)) :
    Raises P (decodeClaims tok) := Raises.bind h fun _ _ => raises_ok _ _

theorem operatorPolicy_raises (hP : Ordinary P) (key : Str) (policy : Option Str)
    (h : ∀ t ∈ policy, Raises P (decodeToken t)) : Raises P (operatorPolicy key policy) := by
  cases policy with
  | none => exact raises_ok _ _
  | some t => exact Raises.bind (verifyOperator_raises hP t key (h t rfl)) fun _ _ => raises_ok _ _

theorem keyringAccount_raises (hP : Ordinary P) (k : Keyring) (tok : Str)
    (h : Raises P (decodeToken tok)) : Raises P (do
      let issuer ← issuerOf tok
      let account ← verifyAccount tok issuer
      let operator ← ofOption (errFor (lit "valiss: no trusted operator " ++ issuer ++
        lit " at epoch " ++ intText account.epoch) .unknownOperator) (k.get issuer account.epoch)
      return (account,some operator)) := by
  apply Raises.bind (issuerOf_raises tok h)
  intro issuer _
  apply Raises.bind (verifyAccount_raises hP tok issuer h)
  intro account _
  apply Raises.bind (raises_absent hP _ _ _ (by decide))
  intro _ _
  exact raises_ok _ _

theorem messageAnchor_raises (hP : Ordinary P) (hplain : ∀ m, P (err m)) (a : TrustAnchor)
    (policy : Option Str) (v : Json) (htext : Raises P (asToken v))
    (hv : ∀ tok, v = .str tok → Raises P (decodeToken tok))
    (hp : ∀ t ∈ policy, Raises P (decodeToken t)) : Raises P (messageAnchor a policy v) := by
  cases a with
  | pinned key =>
    apply Raises.bind htext
    intro tok ht
    apply Raises.bind (verifyAccount_raises hP tok key (hv tok ((asToken_ok _ _).1 ht)))
    intro account _
    apply Raises.bind (operatorPolicy_raises hP key policy hp)
    intro _ _
    exact raises_ok _ _
  | keyring k =>
    apply Raises.bind ((raises_raiseIf _ _ _).2 fun _ => hplain _)
    intro _ _
    apply Raises.bind htext
    intro tok ht
    exact keyringAccount_raises hP k tok (hv tok ((asToken_ok _ _).1 ht))

def Timely (P : Exc → Prop) (c : Claims) (now : DateTime) (skew : TimeDelta) : Prop :=
  Raises P (c.expired now skew) ∧
    (c.expired now skew = .ok false → Raises P (c.notYetValid now skew))

theorem checkWindow_raises (hP : Ordinary P) (c : Claims) (now : DateTime) (skew : TimeDelta)
    (late early : String) :
    Raises P (checkWindow c now skew late early) ↔ Timely P c now skew := by
  simp only [checkWindow, raises_bind, raises_reason hP _ _ .expired (by decide),
    raises_reason hP _ _ .notYetValid (by decide), raiseIf_ok, true_and, implies_true, and_true,
    Bool.not_eq_true, Timely]
  constructor
  · rintro ⟨h,hn⟩
    exact ⟨h,fun he => hn false he () rfl⟩
  · rintro ⟨h,hn⟩
    refine ⟨h,?_⟩
    rintro _ he _ rfl
    exact hn he

theorem timely_of_arith (c : Claims) (now : DateTime) (skew : TimeDelta)
    (hminus : c.expiresAt ≠ none → Raises P (arith (now.minus skew)))
    (hplus : c.notBefore ≠ none → Raises P (arith (now.plus skew))) : Timely P c now skew := by
  constructor
  · unfold Claims.expired
    cases hc : c.expiresAt with
    | none => exact raises_ok _ _
    | some exp =>
      apply Raises.bind (hminus (by simp [hc]))
      intro _ _
      exact raises_ok _ _
  · intro _
    unfold Claims.notYetValid
    cases hc : c.notBefore with
    | none => exact raises_ok _ _
    | some nbf =>
      apply Raises.bind (hplus (by simp [hc]))
      intro _ _
      exact raises_ok _ _

theorem timely_of_representable (c : Claims) (now : DateTime) (skew : TimeDelta)
    (hminus : (now.minus skew).isSome = true ∨ c.expiresAt = none)
    (hplus : (now.plus skew).isSome = true ∨ c.notBefore = none) : Timely P c now skew := by
  have harith : ∀ t : Option DateTime, t.isSome = true → Raises P (arith t) := by
    intro t ht
    exact (raises_ofOption _ _ _).2 fun hn => by simp [hn] at ht
  exact timely_of_arith c now skew (fun h => harith _ (hminus.resolve_right h))
    fun h => harith _ (hplus.resolve_right h)

theorem messageEpochs_raises (hP : Ordinary P) (d : Decoded) (account : AccountClaims)
    (user : UserClaims) (now : DateTime) (skew : TimeDelta) (operator : Option OperatorClaims) :
    Raises P (messageEpochs d account user now skew operator) ↔
      ∀ o ∈ operator, Timely P o.toClaims now skew := by
  cases operator with
  | none =>
    simp [messageEpochs, ok_bind, raises_bind, raises_reason hP _ _ .epochMismatch (by decide)]
  | some o =>
    simp [messageEpochs, raises_bind, raises_reason hP _ _ .epochMismatch (by decide),
      checkWindow_raises hP]

theorem messageBindings_raises (hP : Ordinary P) (c : MessageClaims) (o : MessageOptions) :
    Raises P (messageBindings c o) := by
  unfold messageBindings
  apply Raises.bind (raises_reason hP _ _ _ (by decide))
  intro _ _
  cases o.payload with
  | none => exact raises_reason hP _ _ _ (by decide)
  | some p =>
    apply Raises.bind (raises_reason hP _ _ _ (by decide))
    intro _ _
    exact raises_reason hP _ _ _ (by decide)

end Valiss.Raising
