import Valiss.IssuedTokens

/-!
# A requested expiry

The expiry of a token is a whole second, and 0 stands for none. A requested
expiry is thus lost when it lies within a second of 1970, comes late when its
second is written as the next one, and can only be tested against instants that
are datetimes.
-/

set_option autoImplicit false

namespace Valiss.ExpiryKept
open Lib.Unicode Lib.Calendar Lib.Timestamps Lib.Fallible
open Valiss.Errors Valiss.Nkeys Valiss.TokenClaims Valiss.Mint Valiss.Decode Valiss.TokenRoundTrip
open Valiss.Recorded Valiss.IssuedTokens

section Calls
variable [Platform]

def Verified (tok : Str) (c : Claims) : Level → Prop
  | .operator _ => ∃ key x, verifyOperator tok key = .ok x ∧ c = x.toClaims
  | .account _ _ => ∃ key x, verifyAccount tok key = .ok x ∧ c = x.toClaims
  | .user _ _ _ => ∃ key x, verifyUser tok key = .ok x ∧ c = x.toClaims

theorem verified_read (tok : Str) (c : Claims) (l : Level) (h : Verified tok c l) :
    ∃ d, decodeToken tok = .ok d ∧ c = claimsOf d := by
  cases l with
  | operator name =>
    obtain ⟨key,x,hx,rfl⟩ := h
    obtain ⟨d,hd,_,_,_,_,rfl⟩ := (verifyOperator_ok _ _ _).1 hx
    exact ⟨d,hd,rfl⟩
  | account name pub =>
    obtain ⟨key,x,hx,rfl⟩ := h
    obtain ⟨d,hd,_,_,_,rfl⟩ := (verifyAccount_ok _ _ _).1 hx
    exact ⟨d,hd,rfl⟩
  | user name pub bearer =>
    obtain ⟨key,x,hx,rfl⟩ := h
    obtain ⟨d,hd,_,_,_,rfl⟩ := (verifyUser_ok _ _ _).1 hx
    exact ⟨d,hd,rfl⟩

theorem requestedExpiry_given (o : MintOptions) (v : ℤ × ℤ) (h : validity o = .ok v)
    (hx : o.ttl.isSome ∨ o.expiry.isSome) : ∃ e, requestedExpiry o = some e := by
  unfold requestedExpiry
  cases ht : o.ttl with
  | some ttl =>
    simp only [validity, ht, bind_ok, arith_ok] at h
    obtain ⟨_,_,_,_,e,he,_⟩ := h
    exact ⟨e,he⟩
  | none =>
    rw [ht] at hx
    exact Option.isSome_iff_exists.1 (hx.resolve_left (by decide))

theorem verified_expiry (kp : KeyPair) (o : MintOptions) (l : Level) (tok : Str) (c : Claims)
    (e : DateTime) (h : l.issue kp o = .ok tok) (he : requestedExpiry o = some e)
    (hc : Verified tok c l) :
    (timestampInt e = 0 ∧ c.expiresAt = none) ∨
      (timestampInt e ≠ 0 ∧ ∃ x, c.expiresAt = some x ∧ x.micros = timestampInt e*1000000) := by
  obtain ⟨d,hd,rfl⟩ := verified_read tok c l hc
  obtain ⟨expires,nbf,ext,jti,hv,hr,rfl⟩ := issued_read h d hd
  have hw : expires = timestampInt e := by
    rw [(validity_written _ _ _ hv).1, he]
    rfl
  subst hw
  by_cases hz : timestampInt e = 0
  · exact Or.inl ⟨hz,if_pos hz⟩
  · exact Or.inr ⟨hz,_,if_neg hz,rfl⟩

/-- When the test against a requested expiry comes out as it was asked for. -/
def Kept (e now : DateTime) (skew : TimeDelta) : Prop :=
  wholeSeconds e ≠ 0 ∧ (e.micros+skew < now.micros →
    now.micros-skew ≤ maxMicros ∧ (Deferred e → nextSecond e < now.micros-skew))

/-- Whether a token reads as expired once its requested expiry is past. -/
theorem requested_expiry (kp : KeyPair) (o : MintOptions) (l : Level) (tok : Str)
    (h : l.issue kp o = .ok tok) (hx : o.ttl.isSome ∨ o.expiry.isSome) :
    ∃ e, requestedExpiry o = some e ∧ ∀ c, Verified tok c l → ∀ now skew,
      (c.expiresAt.isSome ∧ (e.micros+skew < now.micros → c.expired now skew = .ok true) ↔
        Kept e now skew) := by
  obtain ⟨_,_,_,hv,_⟩ := l.issue_ok kp o tok h
  obtain ⟨e,he⟩ := requestedExpiry_given o _ hv hx
  refine ⟨e,he,fun c hc now skew => ?_⟩
  rw [Kept, Ne, ← timestampInt_zero e]
  rcases verified_expiry kp o l tok c e h he hc with ⟨hz,hn⟩ | ⟨hz,x,hx,hm⟩
  · rw [hn]
    simp [hz]
  · rw [hx]
    refine and_congr (iff_of_true rfl hz) (imp_congr_right fun hpast => ?_)
    have hlow := e.low
    rw [expired_true, hx]
    simp only [Option.mem_some_iff, exists_eq_left']
    constructor
    · rintro ⟨t,ht,hlt⟩
      refine ⟨ht ▸ t.high,fun hd => ?_⟩
      rw [← written_deferred e hd, ← hm, ← ht]
      exact hlt
    · rintro ⟨hmax,hnext⟩
      refine ⟨⟨now.micros-skew,by omega,hmax⟩,rfl,?_⟩
      rw [hm]
      by_cases hd : Deferred e
      · rw [written_deferred e hd]
        exact hnext hd
      · have hle := written_not_later e hd
        have hlt : e.micros < now.micros-skew := by omega
        exact lt_of_le_of_lt hle hlt

end Calls

section Domain
local instance : Platform := domain.honest

/-- A token that runs out at the start of 2030 reads as expired three minutes later. -/
theorem requested_expiry_domain :
    ∃ tok, (Level.operator (lit "acme-trust")).issue operatorPair fewYears = .ok tok ∧
      ∀ c, Verified tok c (.operator (lit "acme-trust")) →
        c.expired ⟨1893456180000000,by decide,by decide⟩ 120000000 = .ok true := by
  obtain ⟨tok,ht⟩ := operator_issued fewYears (lit "acme-trust") rfl rfl (by decide) (by decide)
  refine ⟨tok,ht,fun c hc => ?_⟩
  obtain ⟨e,he,hkept⟩ := requested_expiry operatorPair fewYears _ tok ht (Or.inr rfl)
  obtain rfl : requestedAt = e := Option.some.inj he
  exact ((hkept c hc _ 120000000).2 ⟨by decide,fun _ => ⟨by decide,by decide⟩⟩).2 (by decide)

def halfSecond : MintOptions := {expiry := some ⟨500000,by decide,by decide⟩,now := issuedAt}

/-- A token asked to expire in 1970 that never does. -/
theorem early_expiry_lost :
    ¬ ∀ (kp : KeyPair) (o : MintOptions) (l : Level) (tok : Str), l.issue kp o = .ok tok →
      (o.ttl.isSome ∨ o.expiry.isSome) → ∀ c, Verified tok c l → c.expiresAt.isSome := by
  intro hall
  obtain ⟨tok,ht⟩ := operator_issued halfSecond [] rfl rfl (by decide) encodable_nil
  have hr : InRange ((Level.operator []).draft operatorPair halfSecond 0 0 []) :=
    ⟨by decide,ts_zero,ts_zero,by decide⟩
  obtain ⟨jti,hx⟩ := draft_decoded ht (honest_signatures domain) 0 0 [] rfl rfl hr
  have hc := (verifyOperator_ok _ operatorPair.publicKey _).2
    ⟨_,hx,rfl,rfl,rfl,operator_valid,rfl⟩
  have hsome := hall operatorPair halfSecond (.operator []) tok ht (Or.inr rfl) _ ⟨_,_,hc,rfl⟩
  cases hsome

end Domain

end Valiss.ExpiryKept
