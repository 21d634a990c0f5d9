import Valiss.Lib.Assoc
import Valiss.TokenClaims

/-!
# Replay suppression

A replay cache records a nonce with the instant it may be forgotten. The memory
cache drops what has run out, then looks the nonce up, all under its lock.
-/

set_option autoImplicit false

namespace Valiss.Replay
open Lib.Unicode Lib.Json Lib.Calendar Lib.Fallible Lib.Assoc Valiss.Errors

/-- `seen_before(nonce, expiry)` over a cache whose state is `σ`. -/
abbrev ReplayCache (σ : Type) := Str → DateTime → Act Exc σ Bool

abbrev Seen := Dict DateTime

def prune (now : DateTime) (seen : Seen) : Seen :=
  seen.filter fun e => decide (now.micros < e.2.micros)

/-- The locked section, at the clock reading `now`. -/
def seenAt (now : DateTime) (nonce : Str) (expiry : DateTime) (seen : Seen) : Bool × Seen :=
  let kept := prune now seen
  match kept.lookup nonce with
  | some exp => if now.micros < exp.micros then (true,kept) else (false,put kept nonce expiry)
  | none => (false,put kept nonce expiry)

/-- `MemoryReplayCache` whose clock reads `now`. -/
def memoryReplayCache (now : DateTime) : ReplayCache Seen := fun nonce expiry seen =>
  (.ok (seenAt now nonce expiry seen).1,(seenAt now nonce expiry seen).2)

theorem mem_prune (now : DateTime) (seen : Seen) (e : Str × DateTime) :
    e ∈ prune now seen ↔ e ∈ seen ∧ now.micros < e.2.micros := by
  simp [prune]

theorem lookup_prune (now : DateTime) (seen : Seen) (nonce : Str) (exp : DateTime)
    (h : (prune now seen).lookup nonce = some exp) : now.micros < exp.micros :=
  ((mem_prune _ _ _).1 (mem_of_lookup h)).2

theorem seenAt_eq (now : DateTime) (nonce : Str) (expiry : DateTime) (seen : Seen) :
    seenAt now nonce expiry seen = match (prune now seen).lookup nonce with
      | some _ => (true,prune now seen)
      | none => (false,prune now seen ++ [(nonce,expiry)]) := by
  unfold seenAt
  dsimp only
  split
  next exp h => rw [if_pos (lookup_prune now seen nonce exp h)]
  next h =>
    rw [put_new]
    intro hm
    obtain ⟨e,he,rfl⟩ := List.mem_map.mp hm
    rw [List.lookup_eq_none_iff] at h
    simpa using h e he

theorem seenAt_true (now : DateTime) (nonce : Str) (expiry : DateTime) (seen : Seen) :
    (seenAt now nonce expiry seen).1 = true ↔
      ∃ exp, (nonce,exp) ∈ seen ∧ now.micros < exp.micros := by
  rw [seenAt_eq]
  cases h : (prune now seen).lookup nonce with
  | some exp =>
    simpa using ⟨exp,(mem_prune _ _ _).1 (mem_of_lookup h)⟩
  | none =>
    rw [List.lookup_eq_none_iff] at h
    simp only [Bool.false_eq_true, false_iff, not_exists, not_and]
    intro exp hm hlt
    have := h (nonce,exp) ((mem_prune _ _ _).2 ⟨hm,hlt⟩)
    simp at this

theorem mem_seenAt (now : DateTime) (nonce : Str) (expiry : DateTime) (seen : Seen)
    (e : Str × DateTime) :
    e ∈ (seenAt now nonce expiry seen).2 ↔ (e ∈ seen ∧ now.micros < e.2.micros) ∨
      ((seenAt now nonce expiry seen).1 = false ∧ e = (nonce,expiry)) := by
  rw [seenAt_eq]
  cases h : (prune now seen).lookup nonce <;> simp [mem_prune]

end Valiss.Replay
