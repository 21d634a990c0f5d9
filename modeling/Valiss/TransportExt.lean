import Valiss.Message

/-!
# Transport extensions

Both transports carry their grants in a named extension whose dimensions are
read with Python's iteration and `str()`. Enforcement walks the tokens of the
chain and stops at the first one that denies.
-/

set_option autoImplicit false

namespace Valiss.TransportExt
open Lib.Unicode Lib.Json Lib.Fallible
open Valiss.Errors Valiss.TokenClaims Valiss.Decode Valiss.Verify Valiss.Message

variable [Platform]

/-- `str(v)`; an integer beyond the digit limit cannot be printed. -/
def pyStr (v : Json) : Py Str :=
  if intsWithin intDigits v = true then .ok (strOf v) else builtin .valueError

def pyStrs : List Json → Py (List Str)
  | [] => .ok []
  | v::vs => do
    let s ← pyStr v
    let ss ← pyStrs vs
    return s::ss

/-- `[str(x) for x in v]`: a string yields its characters, a dict its keys. -/
def strings : Json → Py (List Str)
  | .str s => .ok (s.map fun c => [c])
  | .arr xs => pyStrs xs
  | .obj ms => .ok (ms.map Prod.fst)
  | _ => builtin .typeError

/-- `[str(x) for x in payload.get(k) or ()]` -/
def dimension (payload : Dict Json) (k : String) : Py (List Str) :=
  match payload.lookup (lit k) with
  | none => .ok []
  | some v => if truthy v = true then strings v else .ok []

def dimensionMember (k : String) (ss : List Str) : Dict Json :=
  if ss = [] then [] else [(lit k,.arr (ss.map .str))]

theorem dimensionMember_keys (k : String) (ss : List Str) :
    ((dimensionMember k ss).map Prod.fst).Sublist [lit k] := by
  unfold dimensionMember
  split_ifs <;> simp

theorem distinctItems_strings (ss : List Str) :
    distinctItems (ss.map .str : List Json) = true := by
  induction ss with
  | nil => rfl
  | cons s ss ih => simpa [distinctItems, distinct] using ih

theorem dimensionMember_distinct (k : String) (ss : List Str) :
    distinctMembers (dimensionMember k ss) = true := by
  unfold dimensionMember
  split_ifs
  · rfl
  · simp [distinctMembers, distinct, distinctItems_strings]

theorem lookup_dimensionMember (key : Str) (k : String) (ss : List Str) :
    (dimensionMember k ss).lookup key =
      if key = lit k ∧ ss ≠ [] then some (.arr (ss.map .str)) else none := by
  unfold dimensionMember
  by_cases hs : ss = []
  · simp [hs]
  · by_cases hk : key = lit k
    · simp [hs, hk]
    · have hb : (key == lit k) = false := beq_false_of_ne hk
      simp [hs, hk, List.lookup_cons, hb]

def extsOf (i : Identity) : List (Dict Json) :=
  i.account.ext :: (match i.user with
    | some u => [u.ext]
    | none => [])

/-- `authorize_ext` of a transport: its extension type, what an extension
permits, and the two refusals. -/
def authorizeExts {α : Type} (t : ExtType α) (permits : α → Bool) (missing denied : Str)
    (allowMissing : Bool) : List (Dict Json) → Py Unit
  | [] => .ok ()
  | ext::exts => do
    let decoded ← extOf t ext
    match decoded with
    | none => raiseIf (allowMissing = false) (errFor missing .extensionInvalid)
    | some e => raiseIf (permits e = false) (errFor denied .extensionInvalid)
    authorizeExts t permits missing denied allowMissing exts

end Valiss.TransportExt
