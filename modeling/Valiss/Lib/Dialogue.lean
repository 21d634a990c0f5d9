import Mathlib.Tactic.Common

/-!
# Dialogues

A client is a flow: it ends with a result, or sends something and goes on with
the answer. It is run against a server that keeps a state, which others may
change between two sends, and sees no more than a view of what happens there.
-/

set_option autoImplicit false

namespace Lib.Dialogue

inductive Flow (Q A R : Type) where
  | done (r : R)
  | send (q : Q) (next : A → Flow Q A R)

namespace Flow
variable {Q A B R S : Type}

def sent : Flow Q A R → List A → List Q
  | .done _, _ => []
  | .send q _, [] => [q]
  | .send q next, a::as => q :: (next a).sent as

def Sends : Flow Q A R → Q → Prop
  | .done _, _ => False
  | .send q next, p => p = q ∨ ∃ a, (next a).Sends p

/-- The `n`-th send and those after it: what happens to each, and what it is seen as. -/
def run (view : B → A) (serve : ℕ → Q → S → B × S) : Flow Q A R → ℕ → S → (List (Q × B) × R) × S
  | .done r, _, s => (([],r),s)
  | .send q next, n, s =>
    let (b,t) := serve n q s
    let ((es,r),u) := run view serve (next (view b)) (n+1) t
    (((q,b)::es,r),u)

end Flow

variable {Q A B S : Type}

/-- Send, and once more something else if the answer asks for it. -/
def onceMore (first again : Q) (asks : A → Bool) : Flow Q A A :=
  .send first fun a => if asks a then .send again .done else .done a

theorem onceMore_sends (first again : Q) (asks : A → Bool) (q : Q) :
    (onceMore first again asks).Sends q ↔ q = first ∨ (∃ a, asks a = true) ∧ q = again := by
  have hnext : ∀ a, (if asks a = true then Flow.send again Flow.done else .done a :
      Flow Q A A).Sends q ↔ asks a = true ∧ q = again := by
    intro a
    split
    next h => simp [Flow.Sends, h]
    next h => simp [Flow.Sends, h]
  simp only [onceMore, Flow.Sends, hnext, exists_and_right]

theorem onceMore_sent (first again : Q) (asks : A → Bool) (as : List A) :
    (onceMore first again asks).sent as =
      first :: if ∃ a ∈ as.head?, asks a = true then [again] else [] := by
  cases as with
  | nil => simp [onceMore, Flow.sent]
  | cons a as =>
    cases ha : asks a with
    | true => cases as <;> simp [onceMore, Flow.sent, ha]
    | false => simp [onceMore, Flow.sent, ha]

/-- A run ends in something good, behind at most one answer that asks. -/
def Ends (good bad : B → Prop) (view : B → A) (run : List (Q × B) × A) : Prop :=
  ∃ earlier last, run.1.map Prod.snd = earlier ++ [last] ∧ earlier.length ≤ 1 ∧
    (∀ b ∈ earlier, bad b) ∧ good last ∧ run.2 = view last

theorem onceMore_run (view : B → A) (serve : ℕ → Q → S → B × S) (first again : Q)
    (asks : A → Bool) (n : ℕ) (s : S) : (onceMore first again asks).run view serve n s =
      if asks (view (serve n first s).1) then
        (([(first,(serve n first s).1),(again,(serve (n+1) again (serve n first s).2).1)],
          view (serve (n+1) again (serve n first s).2).1),
          (serve (n+1) again (serve n first s).2).2)
      else (([(first,(serve n first s).1)],view (serve n first s).1),(serve n first s).2) := by
  simp only [onceMore, Flow.run]
  cases asks (view (serve n first s).1) with
  | true => rfl
  | false => rfl

theorem onceMore_ends (good bad : B → Prop) (view : B → A) (serve : ℕ → Q → S → B × S)
    (first again : Q) (asks : A → Bool) (n : ℕ) (s : S)
    (quiet : ∀ b, good b → asks (view b) = false) (loud : ∀ b, bad b → asks (view b) = true)
    (h₁ : good (serve n first s).1 ∨ bad (serve n first s).1)
    (h₂ : bad (serve n first s).1 → good (serve (n+1) again (serve n first s).2).1) :
    Ends good bad view ((onceMore first again asks).run view serve n s).1 := by
  rw [onceMore_run]
  rcases h₁ with hg | hb
  · rw [quiet _ hg]
    exact ⟨[],_,rfl,Nat.zero_le 1,by simp,hg,rfl⟩
  · rw [loud _ hb]
    exact ⟨[_],_,rfl,Nat.le_refl 1,by simpa using hb,h₂ hb,rfl⟩

theorem onceMore_length (view : B → A) (serve : ℕ → Q → S → B × S) (first again : Q)
    (asks : A → Bool) (n : ℕ) (s : S) :
    ((onceMore first again asks).run view serve n s).1.1.length =
      if asks (view (serve n first s).1) then 2 else 1 := by
  rw [onceMore_run]
  split <;> rfl

end Lib.Dialogue
