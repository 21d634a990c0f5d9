import Valiss.KeyringOrder
import Valiss.KeyringRefinement

/-!
# Changing the trusted operators

A server rolls an operator's epoch, or takes operators in and out, by verifying
against another keyring. Whoever is named by an entry that both keyrings hold
notices nothing: with any other entries beside it, the verdict, its text and
its effects are those of verification pinned to that entry alone.
-/

set_option autoImplicit false

namespace Valiss.Rotation
open Lib.Unicode Lib.Calendar Lib.Fallible Valiss.Errors Valiss.TokenClaims Valiss.Decode
open Valiss.Operators Valiss.Verify Valiss.Message Valiss.KeyringRefinement Valiss.KeyringOrder
open Valiss.Recorded

section Model
variable [Platform]

/-- Tokens that claim one identifier make the same claims. -/
def ToldApart (tokens : List Str) : Prop :=
  ∀ t ∈ tokens, ∀ t' ∈ tokens, ∀ c c', Accepted t c → Accepted t' c' → c.id = c'.id → c = c'

theorem addAll_accepted (tokens : List Str) (index : ℕ) (s s' : State)
    (h : addAll index tokens s = .ok s') : ∃ cs, List.Forall₂ Accepted tokens cs := by
  induction tokens generalizing index s with
  | nil => exact ⟨[],.nil⟩
  | cons token tokens ih =>
    simp only [addAll, bind_ok] at h
    obtain ⟨c,hc,t,_,h⟩ := h
    obtain ⟨cs,hcs⟩ := ih _ t h
    exact ⟨c::cs,.cons ((operatorAt_ok _ _ _).1 hc) hcs⟩

omit [Platform] in
theorem partner {α β : Type} {R : α → β → Prop} {xs : List α} {ys : List β}
    (h : List.Forall₂ R xs ys) (x : α) (hx : x ∈ xs) : ∃ y ∈ ys, R x y := by
  induction h with
  | nil => cases hx
  | @cons a b xs ys hr _ ih =>
    rcases List.mem_cons.1 hx with rfl | hx
    · exact ⟨b,List.mem_cons_self,hr⟩
    · obtain ⟨y,hy,hxy⟩ := ih hx
      exact ⟨y,List.mem_cons_of_mem _ hy,hxy⟩

theorem accepted_unique (token : Str) (c d : OperatorClaims) (hc : Accepted token c)
    (hd : Accepted token d) : c = d := by
  obtain ⟨x,hx,_,hi,_,_,_⟩ := (verifyOperator_ok _ _ _).1 hc
  obtain ⟨y,hy,_,hi',_,_,_⟩ := (verifyOperator_ok _ _ _).1 hd
  obtain rfl := Except.ok.inj (hx.symm.trans hy)
  have hs : c.subject = d.subject := hi.symm.trans hi'
  unfold Accepted at hc hd
  rw [← hs, hc] at hd
  exact Except.ok.inj hd

theorem accepted_mem (tokens : List Str) (cs : List OperatorClaims)
    (hv : List.Forall₂ Accepted tokens cs) (token : Str) (ht : token ∈ tokens) (c : OperatorClaims)
    (hc : Accepted token c) : c ∈ cs := by
  obtain ⟨d,hd,ha⟩ := partner hv token ht
  rwa [accepted_unique token c d hc ha]

theorem loaded_found (tokens : List Str) (told : ToldApart tokens) (k : Keyring)
    (hk : Keyring.build tokens = .ok k) (token : Str) (ht : token ∈ tokens) (c : OperatorClaims)
    (hc : Accepted token c) : k.get c.subject c.epoch = some c := by
  obtain ⟨s,hs,_⟩ := (bind_ok _ _ _).1 hk
  obtain ⟨cs,hcs⟩ := addAll_accepted tokens 0 _ s hs
  have htold : Told asWritten cs := by
    intro d hd e he hid
    obtain ⟨t,hm,htd⟩ := partner hcs.flip d hd
    obtain ⟨t',hm',hte⟩ := partner hcs.flip e he
    exact (same_asWritten d e).2 (told t hm t' hm' d e htd hte hid)
  obtain ⟨f,hf,hsame⟩ := told_lossless asWritten tokens cs hcs htold k hk c
    (accepted_mem tokens cs hcs token ht c hc)
  rwa [(same_asWritten f c).1 hsame] at hf

theorem accepted_apart (tokens : List Str) (cs : List OperatorClaims)
    (hv : List.Forall₂ Accepted tokens cs) (h : (cs.map jti).Nodup) : ToldApart tokens := by
  intro t ht t' ht' c c' hc hc' hid
  exact List.inj_on_of_nodup_map h (accepted_mem tokens cs hv t ht c hc)
    (accepted_mem tokens cs hv t' ht' c' hc') hid

def Names (token key : Str) (epoch : ℤ) : Prop :=
  issuerOf token = .ok key ∧ ∀ a, verifyAccount token key = .ok a → a.epoch = epoch

theorem anchored_named (k : Keyring) (c : OperatorClaims)
    (hget : k.get c.subject c.epoch = some c) (token : Str) (h : Names token c.subject c.epoch) :
    anchored (.keyring k) token = anchored (.pinned c.subject (some c)) token := by
  obtain ⟨hissuer,hepoch⟩ := h
  simp only [anchored, hissuer, ok_bind]
  apply bind_eq_on
  intro a ha
  rw [hepoch a ha, hget]
  rfl

variable {σ : Type}

theorem checked_named (o : Options σ) (k : Keyring) (c : OperatorClaims)
    (hget : k.get c.subject c.epoch = some c) (now : DateTime) (r : Request)
    (h : ∀ token, accountTokenOf o r = .ok token → Names token c.subject c.epoch) :
    checked (Verifier.withKeyring o k) now r =
      checked ⟨o,.pinned c.subject (some c)⟩ now r := by
  simp only [checked, Verifier.withKeyring]
  apply bind_eq_on
  intro token ht
  rw [anchored_named k c hget token (h token ht)]

def ChainNames (tok : Str) (o : MessageOptions) (key : Str) (epoch : ℤ) : Prop :=
  ∀ d part user, messageToken tok = .ok d → selectChain d.chain o.chain = .ok (part,user) →
    ∀ token, part = .str token → Names token key epoch

theorem messageAnchor_named (k : Keyring) (token : Str) (c : OperatorClaims)
    (hget : k.get c.subject c.epoch = some c) (hc : Accepted token c) (part : Json)
    (h : ∀ t, part = .str t → Names t c.subject c.epoch) :
    messageAnchor (.keyring k) none part = messageAnchor (.pinned c.subject) (some token) part := by
  have hpolicy : operatorPolicy c.subject (some token) = .ok (some c) := by
    rw [operatorPolicy, hc]
    rfl
  simp only [messageAnchor, hpolicy]
  rw [show raiseIf ((none : Option Str).isSome = true) _ = .ok () from rfl, ok_bind]
  apply bind_eq_on
  intro t ht
  obtain ⟨hissuer,hepoch⟩ := h t ((asToken_ok _ _).1 ht)
  rw [hissuer, ok_bind]
  apply bind_eq_on
  intro a ha
  rw [hepoch a ha, hget]
  rfl

theorem message_named (k : Keyring) (token : Str) (c : OperatorClaims)
    (hget : k.get c.subject c.epoch = some c) (hc : Accepted token c) (tok : Str)
    (o : MessageOptions) (h : ChainNames tok o c.subject c.epoch) :
    verifyMessage tok none (some k) (withoutPolicy o) =
      verifyMessage tok (some c.subject) none (withPolicy o token) := by
  have hk : verifyMessage tok none (some k) (withoutPolicy o) =
      verifyUnder (.keyring k) tok (withoutPolicy o) := rfl
  have hp : verifyMessage tok (some c.subject) none (withPolicy o token) =
      verifyUnder (.pinned c.subject) tok (withPolicy o token) := rfl
  rw [hk, hp]
  apply bind_eq_on
  intro d hd
  have hchain : messageChain (.keyring k) (withoutPolicy o) d =
      messageChain (.pinned c.subject) (withPolicy o token) d := by
    apply bind_eq_on
    rintro ⟨part,user⟩ hs
    dsimp only
    rw [show (withoutPolicy o).operatorToken = none from rfl,
      show (withPolicy o token).operatorToken = some token from rfl,
      messageAnchor_named k token c hget hc part (h d part user hd hs)]
    rfl
  rw [hchain]
  rfl

theorem unloaded_refused (k : Keyring) (key : Str) (epoch : ℤ) (hget : k.get key epoch = none)
    (o : Options σ) (now : DateTime) (r : Request) (s : σ) (token : Str) (a : AccountClaims)
    (ht : accountTokenOf o r = .ok token) (ha : verifyAccount token key = .ok a)
    (he : a.epoch = epoch) :
    ∃ text, (verify (Verifier.withKeyring o k) now r).run s =
      (.error (.valiss text (some .unknownOperator)),s) := by
  have hissuer := (verifyAccount_issuer token key a ha).1
  have hchecked : ∃ text, checked (Verifier.withKeyring o k) now r =
      .error (.valiss text (some .unknownOperator)) := by
    simp only [checked, Verifier.withKeyring, ht, ok_bind, anchored, hissuer, ha, he, hget,
      ofOption]
    exact ⟨_,rfl⟩
  obtain ⟨text,hc⟩ := hchecked
  refine ⟨text,?_⟩
  rw [verify, Act.run_lift_bind, hc]

theorem unloaded_message (k : Keyring) (key : Str) (epoch : ℤ) (hget : k.get key epoch = none)
    (o : MessageOptions) (tok : Str) (d : Decoded) (token : Str) (user : Json) (a : AccountClaims)
    (hd : messageToken tok = .ok d) (hs : selectChain d.chain o.chain = .ok (.str token,user))
    (ha : verifyAccount token key = .ok a) (he : a.epoch = epoch) :
    ∃ text, verifyMessage tok none (some k) (withoutPolicy o) =
      .error (.valiss text (some .unknownOperator)) := by
  have hissuer := (verifyAccount_issuer token key a ha).1
  have hanchor : ∃ text, messageAnchor (.keyring k) none (.str token) =
      .error (.valiss text (some .unknownOperator)) := by
    simp only [messageAnchor, asToken, Option.isSome_none, Bool.false_eq_true, not_false_eq_true,
      raiseIf_neg, ok_bind, hissuer, ha, he, hget, ofOption]
    exact ⟨_,rfl⟩
  obtain ⟨text,hc⟩ := hanchor
  have hs' : selectChain d.chain (withoutPolicy o).chain = .ok (.str token,user) := hs
  refine ⟨text,?_⟩
  change verifyUnder (.keyring k) tok (withoutPolicy o) = _
  rw [verifyUnder, hd, ok_bind, messageChain, hs', ok_bind]
  dsimp only
  rw [show (withoutPolicy o).operatorToken = none from rfl, hc]
  rfl

/-- With any tokens loaded that their identifiers tell apart, whoever one of them names is
verified as under that token alone, and whoever none of them names is refused. -/
theorem rotation_transparent (tokens : List Str) (told : ToldApart tokens) (k : Keyring)
    (hk : Keyring.build tokens = .ok k) :
    (∀ token ∈ tokens, ∀ c, Accepted token c →
      (∀ (σ : Type) (o : Options σ) (v : Verifier σ),
        Verifier.pinned o c.subject (some token) = .ok v → ∀ (now : DateTime) (r : Request),
        (∀ t, accountTokenOf o r = .ok t → Names t c.subject c.epoch) →
        verify (Verifier.withKeyring o k) now r = verify v now r) ∧
      ∀ (tok : Str) (o : MessageOptions), ChainNames tok o c.subject c.epoch →
        verifyMessage tok none (some k) (withoutPolicy o) =
          verifyMessage tok (some c.subject) none (withPolicy o token)) ∧
    ∀ (key : Str) (epoch : ℤ),
      (∀ token ∈ tokens, ∀ c, Accepted token c → ¬ (c.subject = key ∧ c.epoch = epoch)) →
      (∀ (σ : Type) (o : Options σ) (now : DateTime) (r : Request) (s : σ) (t : Str)
        (a : AccountClaims), accountTokenOf o r = .ok t → verifyAccount t key = .ok a →
        a.epoch = epoch → ∃ text, (verify (Verifier.withKeyring o k) now r).run s =
          (.error (.valiss text (some .unknownOperator)),s)) ∧
      ∀ (o : MessageOptions) (tok : Str) (d : Decoded) (t : Str) (user : Json) (a : AccountClaims),
        messageToken tok = .ok d → selectChain d.chain o.chain = .ok (.str t,user) →
        verifyAccount t key = .ok a → a.epoch = epoch →
        ∃ text, verifyMessage tok none (some k) (withoutPolicy o) =
          .error (.valiss text (some .unknownOperator)) := by
  refine ⟨?_,?_⟩
  · intro token ht c hc
    have hget := loaded_found tokens told k hk token ht c hc
    refine ⟨?_,fun tok o => message_named k token c hget hc tok o⟩
    intro σ o v hv now r hnames
    rw [Verifier.pinned, hc, Except.ok.injEq] at hv
    subst hv
    rw [verify, checked_named o k c hget now r hnames]
    rfl
  · intro key epoch hnone
    have hget : k.get key epoch = none := by
      rw [Option.eq_none_iff_forall_ne_some]
      intro c hc
      obtain ⟨token,hm,hv⟩ := build_verified tokens k hk key epoch c hc
      obtain ⟨hs,hep⟩ := get_filed k key epoch c hc
      rw [← hs] at hv
      exact hnone token hm c hv ⟨hs,hep⟩
    exact ⟨fun σ o now r s t a => unloaded_refused k key epoch hget o now r s t a,
      fun o tok d t user a => unloaded_message k key epoch hget o tok d t user a⟩

end Model

section Widgets
local instance : Platform := domain.honest

theorem widget_names : Names accountSample.token operatorKey 7 := by
  refine ⟨(verifyAccount_issuer _ _ _ Widgets.account_verified).1,?_⟩
  intro a ha
  obtain rfl := Except.ok.inj (Widgets.account_verified.symm.trans ha)
  rfl

theorem widget_chainNames : ChainNames messageSample.token keyringDelivery operatorKey 7 := by
  intro d part user hd hs t ht
  obtain rfl := Except.ok.inj (Widgets.message_read.symm.trans hd)
  cases hs
  cases ht
  exact widget_names

theorem rolled_unnamed (token : Str) (ht : token ∈ rolled) (c : OperatorClaims)
    (hc : Accepted token c) : ¬ (c.subject = operatorKey ∧ c.epoch = 7) := by
  rintro ⟨hs,he⟩
  rcases List.mem_cons.1 (accepted_mem rolled _ rolled_accepted token ht c hc) with rfl | hm
  · cases he
  · rw [List.mem_singleton.1 hm] at hs
    exact beta_subject hs

/-- The widgets request and message while their operator's token is loaded, and
once the next one has taken its place. -/
theorem rotation_transparent_widgets : ∃ k k' v, Keyring.build loaded = .ok k ∧
    Keyring.build rolled = .ok k' ∧
    Verifier.pinned keyringOptions operatorKey (some operatorSample.token) = .ok v ∧
    verify (Verifier.withKeyring keyringOptions k) requestedAt widgetRequest =
      verify v requestedAt widgetRequest ∧
    verifyMessage messageSample.token none (some k) (withoutPolicy keyringDelivery) =
      verifyMessage messageSample.token (some operatorKey) none
        (withPolicy keyringDelivery operatorSample.token) ∧
    (∃ text, (verify (Verifier.withKeyring keyringOptions k') requestedAt widgetRequest).run () =
      (.error (.valiss text (some .unknownOperator)),())) ∧
    ∃ text, verifyMessage messageSample.token none (some k') (withoutPolicy keyringDelivery) =
      .error (.valiss text (some .unknownOperator)) := by
  obtain ⟨k,hk,_⟩ := loaded_built
  obtain ⟨k',hk',_⟩ := rolled_built
  have haccepted : Accepted operatorSample.token acmeClaims := Widgets.operator_verified
  have hpinned : Verifier.pinned keyringOptions operatorKey (some operatorSample.token) =
      .ok ⟨keyringOptions,.pinned operatorKey (some acmeClaims)⟩ := by
    rw [Verifier.pinned, Widgets.operator_verified]
    rfl
  have htoken : accountTokenOf keyringOptions widgetRequest = .ok accountSample.token :=
    if_pos accountSample.token_ne_nil
  have hnames : ∀ t, accountTokenOf keyringOptions widgetRequest = .ok t →
      Names t operatorKey 7 := by
    intro t ht
    rw [← Except.ok.inj (htoken.symm.trans ht)]
    exact widget_names
  have hkept := (rotation_transparent loaded
    (accepted_apart loaded _ loaded_accepted loaded_single) k hk).1 operatorSample.token
    List.mem_cons_self acmeClaims haccepted
  have hgone := (rotation_transparent rolled
    (accepted_apart rolled _ rolled_accepted loaded_single.tail) k' hk').2 operatorKey 7
    rolled_unnamed
  exact ⟨k,k',_,hk,hk',hpinned,hkept.1 Unit keyringOptions _ hpinned requestedAt _ hnames,
    hkept.2 _ keyringDelivery widget_chainNames,
    hgone.1 Unit _ _ _ _ _ _ htoken Widgets.account_verified rfl,
    hgone.2 keyringDelivery _ _ _ _ _ Widgets.message_read rfl Widgets.account_verified rfl⟩

end Widgets

end Valiss.Rotation
