import Mathlib.Tactic.Linarith
import Valiss.Lib.Json

/-!
# Reading JSON text

A recursive-descent reader in the order of the standard library's scanner.
The fuel counts calls; two for each character and one more are enough, which
the round trip shows on everything that is printed. Text that is printed with
any escape the string scanner undoes is read back to the printed value.
-/

set_option autoImplicit false

namespace Lib.Json
open Lib.Unicode

/-- What `json.loads` raises: JSONDecodeError, UnicodeDecodeError, or ValueError
on an integer literal beyond the interpreter's limit on digits. -/
inductive LoadError where
  | decode
  | unicode
  | intLimit
  deriving DecidableEq, Repr

def IsSpace (c : CodePoint) : Prop := c = 32 ∨ c = 9 ∨ c = 10 ∨ c = 13

instance (c : CodePoint) : Decidable (IsSpace c) := inferInstanceAs (Decidable (_ ∨ _))

def skipSpace : Str → Str
  | [] => []
  | c::cs => if IsSpace c then skipSpace cs else c::cs

def hexValue (c : CodePoint) : Option ℕ :=
  if 48 ≤ c.val ∧ c.val < 58 then some (c.val-48)
  else if 97 ≤ c.val ∧ c.val < 103 then some (c.val-87)
  else if 65 ≤ c.val ∧ c.val < 71 then some (c.val-55) else none

def hex4 (a b c d : CodePoint) : Option ℕ := do
  let a ← hexValue a
  let b ← hexValue b
  let c ← hexValue c
  let d ← hexValue d
  some (((a*16+b)*16+c)*16+d)

def simpleEscape (c : CodePoint) : Option CodePoint :=
  if c = 34 then some 34 else if c = 92 then some 92 else if c = 47 then some 47
  else if c = 98 then some 8 else if c = 102 then some 12 else if c = 110 then some 10
  else if c = 114 then some 13 else if c = 116 then some 9 else none

/-- A character of a string, and whether a `\u` escape spelled it. -/
abbrev Piece := Bool × CodePoint

def consPiece (p : Piece) (r : Option (List Piece × Str)) : Option (List Piece × Str) :=
  r.map fun q => (p::q.1,q.2)

def scanPieces : Str → Option (List Piece × Str)
  | [] => none
  | c::cs =>
    if c = quoteChar then some ([],cs)
    else if c ≠ backslash then
      if c.val < 0x20 then none else consPiece (false,c) (scanPieces cs)
    else match cs with
      | [] => none
      | x::xs =>
        if x ≠ 117 then
          match simpleEscape x with
          | none => none
          | some y => consPiece (false,y) (scanPieces xs)
        else match xs with
          | h1::h2::h3::h4::rest =>
            match hex4 h1 h2 h3 h4 with
            | none => none
            | some n => consPiece (true,codePoint n) (scanPieces rest)
          | _ => none

/-- An escaped high surrogate joins the low surrogate escaped right after it. -/
def joinPieces : List Piece → Str
  | [] => []
  | [p] => [p.2]
  | p::q::ps =>
    if p.1 ∧ q.1 ∧ 0xD800 ≤ p.2.val ∧ p.2.val < 0xDC00 ∧ 0xDC00 ≤ q.2.val ∧ q.2.val < 0xE000 then
      codePoint (0x10000+(p.2.val-0xD800)*0x400+(q.2.val-0xDC00)) :: joinPieces ps
    else p.2 :: joinPieces (q::ps)

def scanString (s : Str) : Option (Str × Str) :=
  (scanPieces s).map fun p => (joinPieces p.1,p.2)

def dropWord (w s : Str) : Option Str :=
  if w.isPrefixOf s then some (s.drop w.length) else none

variable {F : Type} [FloatText F]

def readInt (s : Str) : ℤ :=
  match s with
  | c::cs => if c = 45 then -(digitsValue cs : ℤ) else digitsValue s
  | [] => 0

def literalDigits (s : Str) : ℕ := (scanMinus s).2.length

def parseNumber (limit : ℕ) (s : Str) : Except LoadError (Value F × Str) :=
  match scanNumber s with
  | none => .error .decode
  | some (true,t,rest) => .ok (.float (FloatText.read t),rest)
  | some (false,t,rest) =>
    if limit < literalDigits t then .error .intLimit else .ok (.int (readInt t),rest)

def parseAtom (limit : ℕ) (s : Str) : Except LoadError (Value F × Str) :=
  match dropWord (lit "null") s with
  | some rest => .ok (.null,rest)
  | none => match dropWord (lit "true") s with
    | some rest => .ok (.bool true,rest)
    | none => match dropWord (lit "false") s with
      | some rest => .ok (.bool false,rest)
      | none => match dropWord nanText s with
        | some rest => .ok (.float (FloatText.read nanText),rest)
        | none => match dropWord infinityText s with
          | some rest => .ok (.float (FloatText.read infinityText),rest)
          | none => match dropWord (45::infinityText) s with
            | some rest => .ok (.float (FloatText.read (45::infinityText)),rest)
            | none => parseNumber limit s

def parseString (s : Str) : Except LoadError (Str × Str) :=
  match scanString s with
  | none => .error .decode
  | some r => .ok r

mutual
/-- `scan_once`. -/
def parseValue (limit : ℕ) : ℕ → Str → Except LoadError (Value F × Str)
  | 0, _ => .error .decode
  | _+1, [] => .error .decode
  | n+1, c::cs =>
    if c = quoteChar then do
      let (s,rest) ← parseString cs
      .ok (.str s,rest)
    else if c = 123 then
      match skipSpace cs with
      | [] => .error .decode
      | d::ds =>
        if d = 125 then .ok (.obj [],ds)
        else if d = quoteChar then do
          let (ms,rest) ← parseMembers limit n ds
          .ok (.obj (dictOf ms),rest)
        else .error .decode
    else if c = 91 then
      match skipSpace cs with
      | [] => .error .decode
      | d::ds =>
        if d = 93 then .ok (.arr [],ds)
        else do
          let (xs,rest) ← parseItems limit n (d::ds)
          .ok (.arr xs,rest)
    else parseAtom limit (c::cs)
def parseItems (limit : ℕ) : ℕ → Str → Except LoadError (List (Value F) × Str)
  | 0, _ => .error .decode
  | n+1, s => do
    let (x,rest) ← parseValue limit n s
    match skipSpace rest with
    | [] => .error .decode
    | d::ds =>
      if d = 93 then .ok ([x],ds)
      else if d = 44 then do
        let (xs,rest) ← parseItems limit n (skipSpace ds)
        .ok (x::xs,rest)
      else .error .decode
def parseMembers (limit : ℕ) : ℕ → Str → Except LoadError (List (Str × Value F) × Str)
  | 0, _ => .error .decode
  | n+1, s => do
    let (k,rest) ← parseString s
    match skipSpace rest with
    | [] => .error .decode
    | d::ds =>
      if d = 58 then do
        let (v,rest) ← parseValue limit n (skipSpace ds)
        match skipSpace rest with
        | [] => .error .decode
        | d::ds =>
          if d = 125 then .ok ([(k,v)],ds)
          else if d = 44 then
            match skipSpace ds with
            | [] => .error .decode
            | q::qs =>
              if q = quoteChar then do
                let (ms,rest) ← parseMembers limit n qs
                .ok ((k,v)::ms,rest)
              else .error .decode
          else .error .decode
      else .error .decode
end

/-- `json.loads` on decoded text. -/
def loadsText (limit : ℕ) (s : Str) : Except LoadError (Value F) := do
  let (v,rest) ← parseValue limit (2*s.length+1) (skipSpace s)
  if skipSpace rest = [] then .ok v else .error .decode

def ofUnicode {α : Type} : Option α → Except LoadError α
  | some a => .ok a
  | none => .error .unicode

/-- `s.decode(detect_encoding(s), "surrogatepass")`. -/
def decodeDetected (bs : Bytes) : Except LoadError Str :=
  let at' (i : ℕ) : ℕ := (bs.getD i 1).val
  if bs.take 4 = [0,0,0xFE,0xFF] then ofUnicode (decodeUtf32 true (bs.drop 4))
  else if bs.take 4 = [0xFF,0xFE,0,0] then ofUnicode (decodeUtf32 false (bs.drop 4))
  else if bs.take 2 = [0xFE,0xFF] then ofUnicode (decodeUtf16 true (bs.drop 2))
  else if bs.take 2 = [0xFF,0xFE] then ofUnicode (decodeUtf16 false (bs.drop 2))
  else if bs.take 3 = [0xEF,0xBB,0xBF] then ofUnicode (decodePass (bs.drop 3))
  else if 4 ≤ bs.length ∧ at' 0 = 0 then
    if at' 1 ≠ 0 then ofUnicode (decodeUtf16 true bs) else ofUnicode (decodeUtf32 true bs)
  else if 4 ≤ bs.length ∧ at' 1 = 0 then
    if at' 2 ≠ 0 ∨ at' 3 ≠ 0 then ofUnicode (decodeUtf16 false bs)
    else ofUnicode (decodeUtf32 false bs)
  else if bs.length = 2 ∧ at' 0 = 0 then ofUnicode (decodeUtf16 true bs)
  else if bs.length = 2 ∧ at' 1 = 0 then ofUnicode (decodeUtf16 false bs)
  else ofUnicode (decodePass bs)

/-- `json.loads` on bytes. -/
def loads (limit : ℕ) (bs : Bytes) : Except LoadError (Value F) := do
  let s ← decodeDetected bs
  loadsText limit s

end Lib.Json
