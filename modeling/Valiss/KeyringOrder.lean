import Mathlib.Data.Option.Defs
import Valiss.Lib.Firsts
import Valiss.Recorded

/-!
# Which tokens a keyring keeps

The constructor keeps the first token of each identifier and wants the kept ones
not to clash. An identifier is what a token says of itself: two tokens that
claim one identifier are taken for one token.
-/

set_option autoImplicit false

namespace Valiss.KeyringOrder
open Lib.Unicode Lib.Json Lib.Calendar Lib.Fallible Lib.Firsts Valiss.Errors Valiss.Nkeys
open Valiss.TokenClaims Valiss.Decode Valiss.Operators Valiss.Mint Valiss.TokenRoundTrip
open Valiss.Printing Valiss.Recorded

section Order
variable [Platform]

def Accepted (token : Str) (c : OperatorClaims) : Prop := verifyOperator token c.subject = .ok c

/-- What the constructor refuses in two entries. -/
def Clash (c d : OperatorClaims) : Prop :=
  (c.subject = d.subject ∧ c.epoch = d.epoch) ∨ (c.name = d.name ∧ c.subject ≠ d.subject) ∨
    (c.subject = d.subject ∧ c.name ≠ d.name)

def Compatible (kept : List OperatorClaims) : Prop := kept.Pairwise fun c d => ¬ Clash c d

def file (c : OperatorClaims) : Entry := ((c.subject,c.epoch),c)

def jti (c : OperatorClaims) : Str := c.id

theorem clash_symm (c d : OperatorClaims) (h : Clash c d) : Clash d c := by
  rcases h with ⟨hs,he⟩ | ⟨hn,hs⟩ | ⟨hs,hn⟩
  · exact Or.inl ⟨hs.symm,he.symm⟩
  · exact Or.inr (Or.inl ⟨hn.symm,hs.symm⟩)
  · exact Or.inr (Or.inr ⟨hs.symm,hn.symm⟩)

/-- The three tables of the loop hold the kept claims. -/
structure Reflects (s : State) (kept : List OperatorClaims) : Prop where
  items : s.entries.items = kept.map file
  names : ∀ n sub, s.names.lookup n = some sub ↔ ∃ c ∈ kept, c.name = n ∧ c.subject = sub
  compatible : Compatible kept

theorem reflects_empty : Reflects State.empty [] := by
  constructor
  · rfl
  · simp [State.empty]
  · exact List.Pairwise.nil

theorem add_unseen (s s' : State) (kept : List OperatorClaims) (c : OperatorClaims)
    (h : Reflects s kept) (hid : c.id ∉ s.jtis) (hok : s.add c = .ok s') :
    (∀ d ∈ kept, ¬ Clash d c) ∧ Reflects s' (kept++[c]) ∧ s'.jtis = c.id::s.jtis := by
  have hitem : ∀ d ∈ kept, file d ∈ s.entries.items := by
    intro d hd
    rw [h.items]
    exact List.mem_map_of_mem hd
  obtain ⟨_,⟨hnew,rfl⟩,hown,hagree⟩ := ((add_ok s s' c).1 hok).resolve_left fun hs => hid hs.1
  have hclash : ∀ d ∈ kept, ¬ Clash d c := by
    rintro d hd (⟨hs,he⟩ | ⟨hn,hs⟩ | ⟨hs,hn⟩)
    · rw [List.lookup_eq_none_iff] at hnew
      have := hnew (file d) (hitem d hd)
      simp [file, hs, he] at this
    · exact hs (hown d.subject ((h.names _ _).2 ⟨d,hd,hn,rfl⟩))
    · exact hn (hagree (file d) (hitem d hd) hs)
  refine ⟨hclash,⟨?_,?_,?_⟩,rfl⟩
  · change s.entries.items ++ [file c] = _
    rw [h.items, List.map_append, List.map_singleton]
  · intro n sub
    rw [lookup_put]
    split_ifs with hn
    · rw [Option.some.injEq]
      constructor
      · rintro rfl
        exact ⟨c,by simp,hn.symm,rfl⟩
      · rintro ⟨d,hd,hdn,rfl⟩
        rcases List.mem_append.1 hd with hd | hd
        · exact (hown d.subject ((h.names _ _).2 ⟨d,hd,hdn.trans hn,rfl⟩)).symm
        · rw [List.mem_singleton.1 hd]
    · rw [h.names]
      constructor
      · rintro ⟨d,hd,hdn,hds⟩
        exact ⟨d,List.mem_append_left _ hd,hdn,hds⟩
      · rintro ⟨d,hd,hdn,hds⟩
        rcases List.mem_append.1 hd with hd | hd
        · exact ⟨d,hd,hdn,hds⟩
        · rw [List.mem_singleton.1 hd] at hdn
          exact absurd hdn.symm hn
  · refine List.pairwise_append.2 ⟨h.compatible,List.pairwise_singleton _ _,?_⟩
    intro d hd e he
    rw [List.mem_singleton.1 he]
    exact hclash d hd

theorem add_compatible (s : State) (kept : List OperatorClaims) (c : OperatorClaims)
    (h : Reflects s kept) (hid : c.id ∉ s.jtis) (hc : ∀ d ∈ kept, ¬ Clash d c) :
    ∃ s', s.add c = .ok s' := by
  have hnew : s.entries.items.lookup (c.subject,c.epoch) = none := by
    rw [List.lookup_eq_none_iff, h.items]
    intro p hp
    obtain ⟨d,hd,rfl⟩ := List.mem_map.1 hp
    apply bne_iff_ne.2
    intro he
    obtain ⟨hs,hep⟩ := Prod.mk.inj he
    exact hc d hd (Or.inl ⟨hs.symm,hep.symm⟩)
  refine ⟨_,(add_ok s _ c).2 (Or.inr ⟨hid,⟨hnew,rfl⟩,?_,?_⟩)⟩
  · intro owner ho
    obtain ⟨d,hd,hn,rfl⟩ := (h.names _ _).1 ho
    by_contra hs
    exact hc d hd (Or.inr (Or.inl ⟨hn,hs⟩))
  · intro p hp hs
    rw [h.items] at hp
    obtain ⟨d,hd,rfl⟩ := List.mem_map.1 hp
    by_contra hn
    exact hc d hd (Or.inr (Or.inr ⟨hs,hn⟩))

theorem addAll_ok (tokens : List Str) (cs kept : List OperatorClaims) (index : ℕ) (s : State)
    (hv : List.Forall₂ Accepted tokens cs) (h : Reflects s kept) :
    ((∃ s', addAll index tokens s = .ok s') ↔ Compatible (kept ++ firsts jti s.jtis cs)) ∧
      ∀ s', addAll index tokens s = .ok s' → Reflects s' (kept ++ firsts jti s.jtis cs) := by
  induction hv generalizing kept index s with
  | nil =>
    rw [firsts, List.append_nil]
    refine ⟨⟨fun _ => h.compatible,fun _ => ⟨s,rfl⟩⟩,?_⟩
    intro s' hs
    obtain rfl := Except.ok.inj hs
    exact h
  | @cons token c tokens cs hc _ ih =>
    have hat := (operatorAt_ok index token c).2 hc
    have hstep : addAll index (token::tokens) s = s.add c >>= addAll (index+1) tokens := by
      rw [addAll, hat, ok_bind]
    rw [hstep]
    by_cases hid : c.id ∈ s.jtis
    · have hadd : s.add c = .ok s := (add_ok s s c).2 (Or.inl ⟨hid,rfl⟩)
      rw [hadd, ok_bind, firsts, if_pos (show jti c ∈ s.jtis from hid)]
      exact ih kept (index+1) s h
    · rw [firsts, if_neg (show jti c ∉ s.jtis from hid), ← List.singleton_append,
        ← List.append_assoc]
      by_cases hclash : ∀ d ∈ kept, ¬ Clash d c
      · obtain ⟨t,ht⟩ := add_compatible s kept c h hid hclash
        obtain ⟨_,hr,hj⟩ := add_unseen s t kept c h hid ht
        rw [ht, ok_bind]
        have := ih (kept++[c]) (index+1) t hr
        rwa [hj] at this
      · have hno : ∀ s', (s.add c >>= addAll (index+1) tokens) ≠ .ok s' := by
          intro s' hok
          obtain ⟨t,ht,_⟩ := (bind_ok _ _ _).1 hok
          exact hclash (add_unseen s t kept c h hid ht).1
        refine ⟨⟨?_,?_⟩,fun s' hs => absurd hs (hno s')⟩
        · rintro ⟨s',hs⟩
          exact absurd hs (hno s')
        intro hcomp
        refine absurd ?_ hclash
        intro d hd
        exact (List.pairwise_append.1 (List.pairwise_append.1 hcomp).1).2.2 d hd c (by simp)

theorem build_ok (tokens : List Str) (cs : List OperatorClaims)
    (hv : List.Forall₂ Accepted tokens cs) :
    ((∃ k, Keyring.build tokens = .ok k) ↔ Compatible (firsts jti [] cs) ∧ cs ≠ []) ∧
      ∀ k, Keyring.build tokens = .ok k → k.entries.items = (firsts jti [] cs).map file := by
  obtain ⟨hiff,hall⟩ := addAll_ok tokens cs [] 0 State.empty hv reflects_empty
  have hempty : (State.empty : State).jtis = [] := rfl
  simp only [List.nil_append, hempty] at hiff hall
  have hne : firsts jti [] cs ≠ [] ↔ cs ≠ [] := by
    cases cs with
    | nil => simp [firsts]
    | cons c cs => simp [firsts]
  have hitems : ∀ k, Keyring.build tokens = .ok k → ∃ s, addAll 0 tokens State.empty = .ok s ∧
      k.entries = s.entries ∧ s.entries.items ≠ [] := by
    intro k hk
    simp only [Keyring.build, bind_ok] at hk
    obtain ⟨s,hs,hk⟩ := hk
    split_ifs at hk with hn
    obtain rfl := (pure_ok _ _).1 hk
    exact ⟨s,hs,rfl,hn⟩
  refine ⟨⟨?_,?_⟩,?_⟩
  · rintro ⟨k,hk⟩
    obtain ⟨s,hs,_,hn⟩ := hitems k hk
    refine ⟨hiff.1 ⟨s,hs⟩,hne.1 ?_⟩
    rw [(hall s hs).items] at hn
    exact fun he => hn (he ▸ rfl)
  · rintro ⟨hc,hcs⟩
    obtain ⟨s,hs⟩ := hiff.2 hc
    have hn : s.entries.items ≠ [] := by
      rw [(hall s hs).items]
      simpa using hne.2 hcs
    refine ⟨⟨s.entries,hn⟩,?_⟩
    rw [Keyring.build, hs, ok_bind, dif_pos hn]
    rfl
  · intro k hk
    obtain ⟨s,hs,he,_⟩ := hitems k hk
    rw [he]
    exact (hall s hs).items

theorem build_distinct (tokens : List Str) (cs : List OperatorClaims)
    (hv : List.Forall₂ Accepted tokens cs) (hs : (cs.map jti).Nodup) (hc : Compatible cs)
    (hne : cs ≠ []) : ∃ k, Keyring.build tokens = .ok k ∧ k.entries.items = cs.map file := by
  have hfirsts : firsts jti [] cs = cs := by
    have := firsts_front jti [] cs [] hs (by simp) (by simp)
    rwa [List.append_nil] at this
  obtain ⟨hiff,hitems⟩ := build_ok tokens cs hv
  rw [hfirsts] at hiff hitems
  obtain ⟨k,hk⟩ := hiff.2 ⟨hc,hne⟩
  exact ⟨k,hk,hitems k hk⟩

theorem get_kept (tokens : List Str) (cs : List OperatorClaims)
    (hv : List.Forall₂ Accepted tokens cs) (k : Keyring) (hk : Keyring.build tokens = .ok k)
    (key : Str) (epoch : ℤ) (c : OperatorClaims) :
    k.get key epoch = some c ↔ c ∈ firsts jti [] cs ∧ c.subject = key ∧ c.epoch = epoch := by
  rw [get_some, (build_ok tokens cs hv).2 k hk]
  simp only [List.mem_map, file, Prod.mk.injEq]
  constructor
  · rintro ⟨d,hd,⟨hs,he⟩,rfl⟩
    exact ⟨hd,hs,he⟩
  · rintro ⟨hc,hs,he⟩
    exact ⟨c,hc,⟨hs,he⟩,rfl⟩

/-- Equal claims, where `e` says which extension mappings are equal. -/
def Same (e : Setoid (Dict Json)) (c d : OperatorClaims) : Prop :=
  c.toClaims = d.toClaims ∧ c.name = d.name ∧ c.epoch = d.epoch ∧ e.r c.ext d.ext

def asWritten : Setoid (Dict Json) := ⟨Eq,eq_equivalence⟩

theorem same_asWritten (c d : OperatorClaims) : Same asWritten c d ↔ c = d := by
  constructor
  · rintro ⟨hc,hn,he,hx⟩
    cases c
    cases d
    simp only [OperatorClaims.mk.injEq]
    exact ⟨hc,hn,he,hx⟩
  · rintro rfl
    exact ⟨rfl,rfl,rfl,rfl⟩

section Equality
variable {e : Setoid (Dict Json)} {c d f : OperatorClaims}

theorem Same.symm (h : Same e c d) : Same e d c :=
  ⟨h.1.symm,h.2.1.symm,h.2.2.1.symm,e.symm h.2.2.2⟩

theorem Same.trans (h : Same e c d) (h' : Same e d f) : Same e c f :=
  ⟨h.1.trans h'.1,h.2.1.trans h'.2.1,h.2.2.1.trans h'.2.2.1,e.trans h.2.2.2 h'.2.2.2⟩

theorem Same.subject (h : Same e c d) : c.subject = d.subject := congrArg Claims.subject h.1

theorem Same.jti (h : Same e c d) : jti c = jti d := congrArg Claims.id h.1

theorem Same.clash {c' d' : OperatorClaims} (h : Same e c c') (h' : Same e d d') :
    Clash c d ↔ Clash c' d' := by
  rw [Clash, Clash, h.subject, h'.subject, h.2.1, h'.2.1, h.2.2.1, h'.2.2.1]

end Equality

variable (e : Setoid (Dict Json))

/-- Every token's claims are found under its own key and epoch. -/
def Lossless (tokens : List Str) (cs : List OperatorClaims) : Prop :=
  ∀ k, Keyring.build tokens = .ok k → ∀ c ∈ cs,
    ∃ d, k.get c.subject c.epoch = some d ∧ Same e d c

/-- Every order of the tokens makes the same keyring, or none does. -/
def OrderFree (tokens : List Str) : Prop :=
  ∀ tokens', tokens'.Perm tokens →
    ((∃ k, Keyring.build tokens' = .ok k) ↔ ∃ k, Keyring.build tokens = .ok k) ∧
    ∀ k k', Keyring.build tokens = .ok k → Keyring.build tokens' = .ok k' →
      ∀ key epoch, Option.Rel (Same e) (k'.get key epoch) (k.get key epoch)

/-- Two tokens that claim one identifier make the same claims. -/
def Told (cs : List OperatorClaims) : Prop := ∀ c ∈ cs, ∀ d ∈ cs, c.id = d.id → Same e c d

theorem told_lossless (tokens : List Str) (cs : List OperatorClaims)
    (hv : List.Forall₂ Accepted tokens cs) (h : Told e cs) : Lossless e tokens cs := by
  intro k hk c hc
  obtain ⟨d,hd,hid⟩ := (firsts_selects jti cs).covers c hc
  have hsame := h d ((firsts_selects jti cs).sub d hd) c hc hid
  exact ⟨d,(get_kept tokens cs hv k hk _ _ d).2 ⟨hd,hsame.subject,hsame.2.2.1⟩,hsame⟩

theorem accepted_perm (tokens tokens' : List Str) (cs : List OperatorClaims)
    (hp : tokens'.Perm tokens) (hv : List.Forall₂ Accepted tokens cs) :
    ∃ cs', cs'.Perm cs ∧ List.Forall₂ Accepted tokens' cs' := by
  obtain ⟨cs',hv',hp'⟩ := List.perm_comp_forall₂ hp hv
  exact ⟨cs',hp',hv'⟩

section Choices
variable {e}
variable {cs kept kept' : List OperatorClaims}

theorem Told.meets (h : Told e cs) (hs : Selects jti cs kept) (hs' : Selects jti cs kept')
    (c : OperatorClaims) (hc : c ∈ kept) : ∃ d ∈ kept', Same e d c := by
  obtain ⟨d,hd,hid⟩ := hs.meets hs' c hc
  exact ⟨d,hd,h d (hs'.sub d hd) c (hs.sub c hc) hid⟩

theorem Told.compatible (h : Told e cs) (hs : Selects jti cs kept) (hs' : Selects jti cs kept')
    (hc : Compatible kept) : Compatible kept' := by
  have hsymm : ∀ c d, ¬ Clash c d → ¬ Clash d c := fun c d hn hc => hn (clash_symm d c hc)
  unfold Compatible at hc ⊢
  rw [hs.pairwise_iff _ hsymm] at hc
  rw [hs'.pairwise_iff _ hsymm]
  intro c' hc' d' hd' hid hclash
  obtain ⟨c,hck,hcs⟩ := h.meets hs' hs c' hc'
  obtain ⟨d,hdk,hds⟩ := h.meets hs' hs d' hd'
  refine hc c hck d hdk ?_ ((hcs.clash hds).2 hclash)
  rw [hcs.jti, hds.jti]
  exact hid

end Choices

theorem told_orderFree (tokens : List Str) (cs : List OperatorClaims)
    (hv : List.Forall₂ Accepted tokens cs) (h : Told e cs) : OrderFree e tokens := by
  intro tokens' hp
  obtain ⟨cs',hp',hv'⟩ := accepted_perm tokens tokens' cs hp hv
  have hs := firsts_selects jti cs
  have hs' : Selects jti cs (firsts jti [] cs') := (firsts_selects jti cs').perm hp'
  have hne : cs' ≠ [] ↔ cs ≠ [] := by
    rw [← List.length_pos_iff, ← List.length_pos_iff, hp'.length_eq]
  constructor
  · rw [(build_ok tokens' cs' hv').1, (build_ok tokens cs hv).1, hne]
    exact and_congr_left fun _ => ⟨h.compatible hs' hs,h.compatible hs hs'⟩
  · intro k k' hk hk' key epoch
    have hget := get_kept tokens cs hv k hk key epoch
    have hget' := get_kept tokens' cs' hv' k' hk' key epoch
    -- what one of the keyrings finds, the other finds equal
    cases hf : k.get key epoch with
    | some c =>
      obtain ⟨hc,rfl,rfl⟩ := (hget c).1 hf
      obtain ⟨d,hd,hsame⟩ := h.meets hs hs' c hc
      rw [(hget' d).2 ⟨hd,hsame.subject,hsame.2.2.1⟩]
      exact .some hsame
    | none =>
      cases hf' : k'.get key epoch with
      | none => exact .none
      | some d =>
        obtain ⟨hd,rfl,rfl⟩ := (hget' d).1 hf'
        obtain ⟨c,hc,hsame⟩ := h.meets hs' hs d hd
        rw [(hget c).2 ⟨hc,hsame.subject,hsame.2.2.1⟩] at hf
        cases hf

theorem hopeless_build (tokens : List Str) (cs : List OperatorClaims)
    (hv : List.Forall₂ Accepted tokens cs)
    (h : ∀ kept, Selects jti cs kept → ¬ Compatible kept) (tokens' : List Str)
    (hp : tokens'.Perm tokens) (k : Keyring) : Keyring.build tokens' ≠ .ok k := by
  intro hk
  obtain ⟨cs',hp',hv'⟩ := accepted_perm tokens tokens' cs hp hv
  exact h _ ((firsts_selects jti cs').perm hp') ((build_ok tokens' cs' hv').1.1 ⟨k,hk⟩).1

/-- Whatever counts as equal extension mappings: every token is found, in any order, if
and only if one identifier makes one set of claims, or whichever tokens are kept clash. -/
theorem keyring_lossless_iff (tokens : List Str) (cs : List OperatorClaims)
    (hv : List.Forall₂ Accepted tokens cs) :
    (Lossless e tokens cs ∧ OrderFree e tokens) ↔
      (Told e cs ∨ ∀ kept, Selects jti cs kept → ¬ Compatible kept) := by
  constructor
  · rintro ⟨hloss,hfree⟩
    by_contra hno
    obtain ⟨htold,hsel⟩ := not_or.1 hno
    simp only [not_forall, not_not] at hsel
    obtain ⟨kept,hkept,hcomp⟩ := hsel
    -- some order keeps this choice, so this order succeeds too and keeps every token
    obtain ⟨cs',hp',hfirst⟩ := hkept.ordered
    obtain ⟨tokens',hp,hv'⟩ : ∃ tokens', tokens'.Perm tokens ∧
        List.Forall₂ Accepted tokens' cs' := by
      obtain ⟨tokens',hf,hp⟩ := List.perm_comp_forall₂ hp' hv.flip
      exact ⟨tokens',hp,hf.flip⟩
    have hne : cs' ≠ [] := by
      rintro rfl
      apply htold
      rw [List.nil_perm.1 hp']
      simp [Told]
    obtain ⟨k,hk⟩ := (hfree tokens' hp).1.1
      ((build_ok tokens' cs' hv').1.2 ⟨hfirst.symm ▸ hcomp,hne⟩)
    apply htold
    intro c hc d hd hid
    obtain ⟨c',hgc,hsc⟩ := hloss k hk c hc
    obtain ⟨d',hgd,hsd⟩ := hloss k hk d hd
    have hck := ((get_kept tokens cs hv k hk _ _ c').1 hgc).1
    have hdk := ((get_kept tokens cs hv k hk _ _ d').1 hgd).1
    have hkeys : jti c' = jti d' := (hsc.jti.trans hid).trans hsd.jti.symm
    obtain rfl := List.inj_on_of_nodup_map (firsts_single jti [] cs) hck hdk hkeys
    exact hsc.symm.trans hsd
  · rintro (h | h)
    · exact ⟨told_lossless e tokens cs hv h,told_orderFree e tokens cs hv h⟩
    · have hno := hopeless_build tokens cs hv h
      refine ⟨fun k hk => absurd hk (hno tokens (List.Perm.refl _) k),?_⟩
      intro tokens' hp
      refine ⟨⟨fun ⟨k,hk⟩ => absurd hk (hno tokens' hp k),
        fun ⟨k,hk⟩ => absurd hk (hno tokens (List.Perm.refl _) k)⟩,?_⟩
      exact fun k _ hk => absurd hk (hno tokens (List.Perm.refl _) k)

end Order

section Widgets
local instance : Platform := domain.honest

def operatorOf (seed : Key) : KeyPair := KeyPair.ofSeed .operator seed

def epochDraft (seed : Key) (name : String) (epoch : ℤ) : Draft where
  body := {type := operatorType,epoch := epoch}
  name := lit name
  subject := (operatorOf seed).publicKey
  now := issuedAt

def epochToken (seed : Key) (name : String) (epoch : ℤ) (id : String) : Str :=
  stampedToken (operatorOf seed) seed (epochDraft seed name epoch) (lit id)

theorem epoch_range (seed : Key) (name : String) (epoch : ℤ) (h : 0 ≤ epoch ∧ epoch ≤ 8) :
    InRange (epochDraft seed name epoch) := by
  constructor
  · change tsMin ≤ timestampInt issuedAt ∧ timestampInt issuedAt ≤ tsMax
    decide +kernel
  · exact ts_zero
  · exact ts_zero
  · exact ⟨h.1,h.2.trans (by decide)⟩

def epochClaims (seed : Key) (name : String) (epoch : ℤ) (id : String)
    (h : 0 ≤ epoch ∧ epoch ≤ 8) : OperatorClaims :=
  operatorClaims (decodedDraft (epochDraft seed name epoch) (operatorOf seed).publicKey (lit id)
    (epoch_range seed name epoch h))

theorem epoch_accepted (seed : Key) (name : String) (epoch : ℤ) (id : String)
    (h : 0 ≤ epoch ∧ epoch ≤ 8) (hn : Encodable (lit name)) (hj : Encodable (lit id)) :
    Accepted (epochToken seed name epoch id) (epochClaims seed name epoch id h) := by
  have hprint : Printable (epochDraft seed name epoch) := by
    constructor
    · exact hn
    · exact b32encode_encodable _
    · exact encodable_nil
    · exact (by decide : Encodable operatorType)
    · exact encodable_nil
    · intro c hc
      cases hc
    · trivial
    · rfl
  apply (verifyOperator_ok _ _ _).2
  refine ⟨_,stampedToken_decodes (honest_signatures domain) (operatorOf seed) seed rfl
    (epochDraft seed name epoch) (lit id) hprint (epoch_range seed name epoch h) rfl hj,
    rfl,rfl,rfl,?_,rfl⟩
  exact (isValidPublic_publicKey (operatorOf seed) .operator).2 rfl

def twinToken (epoch : ℤ) : Str := epochToken operatorSeed "" epoch "x"

def twinClaims (epoch : ℤ) (h : 0 ≤ epoch ∧ epoch ≤ 8) : OperatorClaims :=
  epochClaims operatorSeed "" epoch "x" h

def rotation : List OperatorClaims := [twinClaims 0 (by decide),twinClaims 1 (by decide)]

theorem rotation_accepted : List.Forall₂ Accepted [twinToken 0,twinToken 1] rotation :=
  .cons (epoch_accepted _ _ _ _ _ encodable_nil (by decide))
    (.cons (epoch_accepted _ _ _ _ _ encodable_nil (by decide)) .nil)

/-- Two epochs of one operator under one identifier: the keyring is built and
knows nothing of the second. -/
theorem twin_lost : List.Forall₂ Accepted [twinToken 0,twinToken 1] rotation ∧
    (∃ k, Keyring.build [twinToken 0,twinToken 1] = .ok k ∧
      k.get operatorPair.publicKey 0 = some (twinClaims 0 (by decide)) ∧
      k.get operatorPair.publicKey 1 = none) ∧
    ∀ e, ¬ (Lossless e [twinToken 0,twinToken 1] rotation ∧
      OrderFree e [twinToken 0,twinToken 1]) := by
  have hfirsts : firsts jti [] rotation = [twinClaims 0 (by decide)] := rfl
  obtain ⟨k,hk⟩ := (build_ok _ _ rotation_accepted).1.2
    ⟨hfirsts ▸ List.pairwise_singleton _ _,List.cons_ne_nil _ _⟩
  have hget := get_kept _ _ rotation_accepted k hk
  have hnone : k.get operatorPair.publicKey 1 = none := by
    rw [Option.eq_none_iff_forall_ne_some]
    intro c hc
    obtain ⟨hm,_,he⟩ := (hget _ _ c).1 hc
    rw [hfirsts, List.mem_singleton] at hm
    rw [hm] at he
    exact absurd he (by decide)
  refine ⟨rotation_accepted,⟨k,hk,?_,hnone⟩,?_⟩
  · exact (hget _ _ _).2 ⟨hfirsts ▸ List.mem_singleton.2 rfl,rfl,rfl⟩
  · rintro e ⟨hloss,_⟩
    obtain ⟨d,hd,_⟩ := hloss k hk (twinClaims 1 (by decide)) (by simp [rotation])
    rw [show (twinClaims 1 (by decide)).subject = operatorPair.publicKey from rfl,
      show (twinClaims 1 (by decide)).epoch = 1 from rfl, hnone] at hd
    cases hd

def acmeClaims : OperatorClaims := operatorClaims Widgets.operatorRead

def nextClaims : OperatorClaims := epochClaims operatorSeed "acme-trust" 8 "next" (by decide)

def betaClaims : OperatorClaims := epochClaims accountSeed "beta-trust" 7 "beta" (by decide)

def rolled : List Str :=
  [epochToken operatorSeed "acme-trust" 8 "next",epochToken accountSeed "beta-trust" 7 "beta"]

def loaded : List Str := operatorSample.token :: rolled

def loadedClaims : List OperatorClaims := [acmeClaims,nextClaims,betaClaims]

theorem rolled_accepted : List.Forall₂ Accepted rolled [nextClaims,betaClaims] :=
  .cons (epoch_accepted _ _ _ _ _ (by decide) (by decide))
    (.cons (epoch_accepted _ _ _ _ _ (by decide) (by decide)) .nil)

theorem loaded_accepted : List.Forall₂ Accepted loaded loadedClaims :=
  .cons Widgets.operator_verified rolled_accepted

theorem loaded_single : (loadedClaims.map jti).Nodup := by decide +kernel

theorem beta_subject : betaClaims.subject ≠ operatorKey := by decide +kernel

theorem loaded_compatible : Compatible loadedClaims := by
  have hown : nextClaims.subject = operatorKey := by decide +kernel
  have hname : betaClaims.name ≠ lit "acme-trust" := by decide
  have hepochs : ¬ Clash acmeClaims nextClaims := by
    rintro (⟨_,he⟩ | ⟨_,hs⟩ | ⟨_,hn⟩)
    · cases he
    · exact hs hown.symm
    · exact hn rfl
  have hbeta : ∀ c : OperatorClaims, c.subject = operatorKey → c.name = lit "acme-trust" →
      ¬ Clash c betaClaims := by
    rintro c hc hn (⟨hs,_⟩ | ⟨he,_⟩ | ⟨hs,_⟩)
    · exact beta_subject (hs.symm.trans hc)
    · exact hname (he.symm.trans hn)
    · exact beta_subject (hs.symm.trans hc)
  refine .cons ?_ (.cons ?_ (List.pairwise_singleton _ _))
  · intro d hd
    rcases List.mem_cons.1 hd with rfl | hd
    · exact hepochs
    · rw [List.mem_singleton.1 hd]
      exact hbeta _ rfl rfl
  · intro d hd
    rw [List.mem_singleton.1 hd]
    exact hbeta _ hown rfl

theorem loaded_built : ∃ k, Keyring.build loaded = .ok k ∧
    k.entries.items = loadedClaims.map file :=
  build_distinct loaded loadedClaims loaded_accepted loaded_single loaded_compatible
    (List.cons_ne_nil _ _)

theorem rolled_built : ∃ k, Keyring.build rolled = .ok k ∧
    k.entries.items = [nextClaims,betaClaims].map file :=
  build_distinct rolled _ rolled_accepted loaded_single.tail loaded_compatible.tail
    (List.cons_ne_nil _ _)

theorem loaded_acme (k : Keyring) (h : k.entries.items = loadedClaims.map file) :
    file acmeClaims ∈ k.entries.items := by
  rw [h]
  exact List.mem_cons_self

theorem loaded_told (e : Setoid (Dict Json)) : Told e loadedClaims := by
  intro c hc d hd hid
  obtain rfl := List.inj_on_of_nodup_map loaded_single hc hd hid
  exact ⟨rfl,rfl,rfl,e.refl _⟩

theorem keyring_lossless_widgets : (∃ k, Keyring.build loaded = .ok k ∧
      k.entries.items = loadedClaims.map file) ∧
    Lossless asWritten loaded loadedClaims ∧ OrderFree asWritten loaded :=
  ⟨loaded_built,(keyring_lossless_iff asWritten loaded loadedClaims loaded_accepted).2
    (Or.inl (loaded_told asWritten))⟩

end Widgets

end Valiss.KeyringOrder
