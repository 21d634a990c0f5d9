import Valiss.Nkeys

/-!
# Client credentials

The tokens a client presents and the seed that signs its requests; bearer
credentials hold no seed. A creds file holds them in sections between markers,
behind a line that versions the container.
-/

set_option autoImplicit false

namespace Valiss.Credentials
open Lib.Unicode Lib.Json Lib.Fallible Valiss.Errors Valiss.Nkeys

structure Creds where
  accountToken : Str := []
  userToken : Str := []
  seed : Str := []

/-- A section, by its markers; `what` names it in errors. -/
structure Section where
  beginMarker : Str
  endMarker : Str
  what : Str
  apart : beginMarker ≠ endMarker

def accountSection : Section :=
  ⟨lit "-----BEGIN VALISS ACCOUNT TOKEN-----",lit "------END VALISS ACCOUNT TOKEN------",
    lit "creds token",by decide⟩

def userSection : Section :=
  ⟨lit "-----BEGIN VALISS USER TOKEN-----",lit "------END VALISS USER TOKEN------",
    lit "creds user token",by decide⟩

def seedSection : Section :=
  ⟨lit "-----BEGIN VALISS SEED-----",lit "------END VALISS SEED------",lit "creds seed",by decide⟩

def newline : CodePoint := 10

/-- `f"{begin}\n{value.strip()}\n{end}\n"` -/
def Section.format (x : Section) (value : Str) : Str :=
  x.beginMarker ++ newline :: (strip value ++ newline :: (x.endMarker ++ [newline]))

def credsVersion : ℤ := 1

def credsVersionMarker : Str := lit "VALISS-CREDS-VERSION:"

def seedWarning : Str :=
  newline :: (lit "************************* IMPORTANT *************************" ++
    newline :: (lit "Seed lets anyone sign as this identity. Keep it secret." ++ [newline]))

def Creds.format (c : Creds) : Str :=
  credsVersionMarker ++ 32 :: (intText credsVersion ++ [newline,newline]) ++
  (if c.accountToken = [] then [] else accountSection.format c.accountToken) ++
  (if c.userToken = [] then [] else
    (if c.accountToken = [] then [] else [newline]) ++ userSection.format c.userToken) ++
  (if c.seed = [] then [] else newline :: (seedSection.format c.seed ++ seedWarning))

def lines (contents : Str) : List Str := (splitOn newline contents).map strip

def unsigned : Str → Str
  | [] => []
  | c::cs => if c = 43 ∨ c = 45 then cs else c::cs

/-- `[+-]?[0-9]+` matches the whole value. -/
def versionValue (value : Str) : Bool :=
  decide (unsigned value ≠ []) && (unsigned value).all fun c => decide (IsDigit c)

def versionNumber (value : Str) : ℤ :=
  if value.head? = some 45 then -(digitsValue (unsigned value) : ℤ)
  else digitsValue (unsigned value)

def versionLine (contents : Str) : Option Str :=
  (lines contents).find? fun line => credsVersionMarker.isPrefixOf line

def versionText (line : Str) : Str := strip (line.drop credsVersionMarker.length)

variable [Platform]

/-- `int(value)`, of a signed run of ASCII digits. -/
def pyInt (value : Str) : Py ℤ :=
  if intDigits < (unsigned value).length then builtin .valueError else .ok (versionNumber value)

def checkVersion (contents : Str) : Py Unit :=
  match versionLine contents with
  | none => .ok ()
  | some rest => do
    let value := versionText rest
    raiseIf (versionValue value = false)
      (errFor (lit "valiss: creds: malformed version " ++ Platform.repr value) .malformed)
    let version ← pyInt value
    raiseIf (version ≠ credsVersion)
      (errFor (lit "valiss: creds: unsupported version " ++ intText version) .unsupportedVersion)

/-- The loop of `_between` over the stripped lines, from a state of `inside` and `payload`. -/
def Section.scan (x : Section) : List Str → Bool → Str → Py (Str × Bool)
  | [], inside, _ =>
    if inside then
      .error (errFor (lit "valiss: " ++ x.what ++ lit ": marker \"" ++ x.beginMarker ++
        lit "\" not closed") .malformed)
    else .ok ([],false)
  | line::rest, inside, payload =>
    if line = x.beginMarker then x.scan rest true payload
    else if inside = false then x.scan rest false payload
    else if line = x.endMarker then
      if payload = [] then
        .error (errFor (lit "valiss: " ++ x.what ++ lit ": no content before \"" ++ x.endMarker ++
          lit "\"") .malformed)
      else .ok (payload,true)
    else if line = [] then x.scan rest true payload
    else if payload = [] then x.scan rest true line
    else
      .error (errFor (lit "valiss: " ++ x.what ++ lit ": unexpected content in \"" ++
        x.beginMarker ++ lit "\" section") .malformed)

def between (contents : Str) (x : Section) : Py (Str × Bool) := x.scan (lines contents) false []

def parse (contents : Str) : Py Creds := do
  checkVersion contents
  let (accountToken,_) ← between contents accountSection
  let (userToken,_) ← between contents userSection
  raiseIf (accountToken = [] ∧ userToken = [])
    (errFor (lit "valiss: creds: no token markers found") .missing)
  let (seed,_) ← between contents seedSection
  return ⟨accountToken,userToken,seed⟩

def seedError (e : Exc) : Exc := err (lit "valiss: creds seed: " ++ e.text)

def Creds.signer (c : Creds) : Py (Option KeyPair) :=
  if c.seed = [] then .ok none
  else do
    let kp ← recast seedError (fromSeed c.seed)
    return some kp

end Valiss.Credentials
