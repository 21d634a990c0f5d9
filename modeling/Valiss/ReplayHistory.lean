import Valiss.Replay

/-!
# The memory replay cache over its history

The cache is run beside the calls it let through. With a clock that never goes
back, what the cache answers and what it holds are told from those calls alone.
-/

set_option autoImplicit false

namespace Valiss.ReplayHistory
open Lib.Unicode Lib.Calendar Valiss.TokenClaims Valiss.Replay

/-- `seen_before(nonce, expiry)` at the clock reading `now`. -/
structure Call where
  now : DateTime
  nonce : Str
  expiry : DateTime

def Call.reply (c : Call) (seen : Seen) : Bool × Seen := seenAt c.now c.nonce c.expiry seen

structure History where
  seen : Seen
  fresh : List Call

def History.next (h : History) (c : Call) : History :=
  ⟨(c.reply h.seen).2,if (c.reply h.seen).1 then h.fresh else h.fresh++[c]⟩

def after (calls : List Call) : History := calls.foldl History.next ⟨[],[]⟩

def Ordered (calls : List Call) : Prop := calls.Pairwise fun a b => a.now.micros ≤ b.now.micros

def Call.Covers (c : Call) (now : DateTime) (nonce : Str) : Prop :=
  c.nonce = nonce ∧ now.micros < c.expiry.micros

theorem after_snoc (calls : List Call) (c : Call) :
    after (calls++[c]) = (after calls).next c := by
  rw [after, List.foldl_concat]
  rfl

theorem mem_fresh (h : History) (c e : Call) :
    e ∈ (h.next c).fresh ↔ e ∈ h.fresh ∨ ((c.reply h.seen).1 = false ∧ e = c) := by
  rw [History.next]
  cases (c.reply h.seen).1 <;> simp

/-- From an instant on, the live entries are those of the calls let through. -/
def Tells (now : DateTime) (h : History) : Prop :=
  ∀ nonce exp, now.micros < exp.micros →
    ((nonce,exp) ∈ h.seen ↔ ∃ e ∈ h.fresh, e.nonce = nonce ∧ e.expiry = exp)

theorem tells_next (now : DateTime) (h : History) (c : Call) (hn : c.now.micros ≤ now.micros)
    (ht : Tells now h) : Tells now (h.next c) := by
  intro nonce exp hlive
  have hseen : (nonce,exp) ∈ (h.next c).seen ↔
      (nonce,exp) ∈ h.seen ∨ ((c.reply h.seen).1 = false ∧ (nonce,exp) = (c.nonce,c.expiry)) := by
    rw [History.next, Call.reply, mem_seenAt]
    simp only [and_iff_left (lt_of_le_of_lt hn hlive)]
  rw [hseen, ht nonce exp hlive]
  constructor
  · rintro (⟨e,he,hen⟩ | ⟨hr,hp⟩)
    · exact ⟨e,(mem_fresh h c e).2 (Or.inl he),hen⟩
    · obtain ⟨rfl,rfl⟩ := Prod.mk.inj hp
      exact ⟨c,(mem_fresh h c c).2 (Or.inr ⟨hr,rfl⟩),rfl,rfl⟩
  · rintro ⟨e,he,rfl,rfl⟩
    rcases (mem_fresh h c e).1 he with he | ⟨hr,rfl⟩
    · exact Or.inl ⟨e,he,rfl,rfl⟩
    · exact Or.inr ⟨hr,rfl⟩

theorem tells_after (now : DateTime) (calls : List Call)
    (hn : ∀ c ∈ calls, c.now.micros ≤ now.micros) : Tells now (after calls) := by
  induction calls using List.reverseRecOn with
  | nil =>
    intro nonce exp _
    simp [after]
  | append_singleton calls c ih =>
    rw [after_snoc]
    apply tells_next now (after calls) c (hn c (by simp))
    exact ih fun e he => hn e (by simp [he])

theorem single_next (h : History) (c : Call) (hs : (h.seen.map Prod.fst).Nodup) :
    ((h.next c).seen.map Prod.fst).Nodup := by
  have hp : ((prune c.now h.seen).map Prod.fst).Nodup :=
    hs.sublist ((List.filter_sublist).map _)
  rw [History.next, Call.reply, seenAt_eq]
  cases hl : (prune c.now h.seen).lookup c.nonce with
  | some exp => exact hp
  | none =>
    rw [lookup_none_iff] at hl
    rw [List.map_append]
    refine List.nodup_append.2 ⟨hp,List.nodup_singleton _,?_⟩
    rintro a ha b hb rfl
    obtain rfl : a = c.nonce := List.mem_singleton.1 hb
    exact hl ha

theorem single_after (calls : List Call) : ((after calls).seen.map Prod.fst).Nodup := by
  induction calls using List.reverseRecOn with
  | nil => exact List.nodup_nil
  | append_singleton calls c ih =>
    rw [after_snoc]
    exact single_next (after calls) c ih

theorem replay_live_duplicates (calls : List Call) (c : Call) (h : Ordered (calls++[c])) :
    ((c.reply (after calls).seen).1 = true ↔ ∃ e ∈ (after calls).fresh, e.Covers c.now c.nonce) ∧
    ((c.reply (after calls).seen).1 = true →
      ∀ nonce exp, (nonce,exp) ∈ (c.reply (after calls).seen).2 ↔
        (nonce,exp) ∈ (after calls).seen ∧ c.now.micros < exp.micros) ∧
    (((c.reply (after calls).seen).2).map Prod.fst).Nodup ∧
    ∀ nonce exp, (nonce,exp) ∈ (c.reply (after calls).seen).2 ↔
      (∃ e ∈ (after calls).fresh, e.Covers c.now nonce ∧ e.expiry = exp) ∨
        ((c.reply (after calls).seen).1 = false ∧ nonce = c.nonce ∧ exp = c.expiry) := by
  have hn : ∀ e ∈ calls, e.now.micros ≤ c.now.micros := fun e he =>
    (List.pairwise_append.1 h).2.2 e he c (List.mem_singleton.2 rfl)
  have ht := tells_after c.now calls hn
  have hlive : ∀ nonce exp, (nonce,exp) ∈ (after calls).seen ∧ c.now.micros < exp.micros ↔
      ∃ e ∈ (after calls).fresh, e.Covers c.now nonce ∧ e.expiry = exp := by
    intro nonce exp
    constructor
    · rintro ⟨hm,hlt⟩
      obtain ⟨e,he,hen,rfl⟩ := (ht nonce exp hlt).1 hm
      exact ⟨e,he,⟨hen,hlt⟩,rfl⟩
    · rintro ⟨e,he,⟨hen,hlt⟩,rfl⟩
      exact ⟨(ht nonce e.expiry hlt).2 ⟨e,he,hen,rfl⟩,hlt⟩
  refine ⟨?_,?_,?_,?_⟩
  · rw [Call.reply, seenAt_true]
    simp only [hlive]
    constructor
    · rintro ⟨exp,e,he,hc,_⟩
      exact ⟨e,he,hc⟩
    · rintro ⟨e,he,hc⟩
      exact ⟨e.expiry,e,he,hc,rfl⟩
  · intro hr nonce exp
    rw [Call.reply] at hr ⊢
    rw [mem_seenAt, hr]
    simp
  · exact single_next (after calls) c (single_after calls)
  · intro nonce exp
    rw [Call.reply, mem_seenAt, hlive, Prod.mk.injEq]

def firstCall : Call := ⟨⟨0,by decide,by decide⟩,[110],⟨5,by decide,by decide⟩⟩

def secondCall : Call := ⟨⟨3,by decide,by decide⟩,[110],⟨9,by decide,by decide⟩⟩

theorem replay_live_duplicates_twice : (secondCall.reply (after [firstCall]).seen).1 = true := by
  have h : Ordered ([firstCall]++[secondCall]) := by
    rw [Ordered, List.singleton_append, List.pairwise_pair]
    decide
  exact (replay_live_duplicates [firstCall] secondCall h).1.2
    ⟨firstCall,List.mem_singleton.2 rfl,rfl,by decide⟩

end Valiss.ReplayHistory
