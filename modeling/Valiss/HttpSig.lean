import Valiss.HttpAuth
import Valiss.MsgTransport

/-!
# HTTP message tokens

A message is bound to the Host it is sent to and its path, written one after
the other, and to the bytes of its body.
-/

set_option autoImplicit false

namespace Valiss.HttpSig
open Lib.Unicode Lib.Calendar Lib.Fallible Valiss.Errors Valiss.Nkeys Valiss.Message Valiss.Chains
open Valiss.MsgTransport Valiss.HttpAuth

def audience (host path : Str) : Str := host ++ path

def latin1 (b : Bytes) : Str := b.map fun x => codePoint x.val

/-- The header pairs of an ASGI scope as a mapping: of equal names the last counts. -/
def headersOf (raw : List (Bytes × Bytes)) : Headers :=
  (raw.map fun e => (latin1 e.1,latin1 e.2)).reverse

def Latin1 (s : Str) : Prop := ∀ c ∈ s, c.val < 256

theorem latin1_narrow (b : Bytes) : Latin1 (latin1 b) := by
  intro c hc
  obtain ⟨x,_,rfl⟩ := List.mem_map.1 hc
  have hx := x.isLt
  rw [codePoint_val _ (by omega)]
  exact hx

theorem latin1_byte (s : Str) (h : Latin1 s) : latin1 (s.map fun c => byte c.val) = s := by
  induction s with
  | nil => rfl
  | cons c s ih =>
    have hs : Latin1 s := fun x hx => h x (List.mem_cons_of_mem _ hx)
    have hc := byte_val c.val (h c List.mem_cons_self)
    simp only [latin1, List.map_cons, hc, codePoint_of_val]
    congr 1
    exact ih hs

theorem header_latin1 (raw : List (Bytes × Bytes)) (name : String) :
    Latin1 (header (headersOf raw) name) := by
  unfold header
  cases h : (headersOf raw).lookup (lit name) with
  | none => intro c hc; cases hc
  | some v =>
    obtain ⟨e,_,he⟩ := List.mem_map.1 (List.mem_reverse.1 (Lib.Assoc.mem_of_lookup h))
    obtain rfl := (Prod.mk.inj he).2
    exact latin1_narrow e.2

variable [Platform]

def delivery (h : Headers) (path : Str) (body : Bytes) : Delivery :=
  ⟨header h "valiss-message-token",body,audience (header h "host") path,
    header h "valiss-chain-account-token",header h "valiss-chain-user-token"⟩

variable {σ : Type}

/-- The middleware: a request without a token is refused, any other is verified
against its Host, path and body. -/
def middleware (r : Receiver) (cache : Option (ChainCache σ)) (raw : List (Bytes × Bytes))
    (path : Str) (body : Bytes) (t₁ t₂ : DateTime) : Act Exc σ Outcome :=
  if header (headersOf raw) "valiss-message-token" = [] then
    pure (.reject ⟨lit "valiss: missing message token",false⟩)
  else authenticateMessage r cache (delivery (headersOf raw) path body) t₁ t₂

def mintMessage (user : KeyPair) (epoch : ℤ) (chain : Option Chain) (ttl : TimeDelta)
    (host path : Str) (body : Bytes) (now : DateTime) : Py Str :=
  issueMessage user (audience host path) (checksum body) chain
    { ttl := some ttl, epoch := epoch, now := now }

end Valiss.HttpSig
