/-
  Curried.Regex.Reading — taking the source of a regular expression apart into units.

  A unit is a character, or a backslash with the character after it. A backslash at the very end is noticed as soon
  as the unit before it is taken.
-/

import Curried.Regex.Error
import Curried.Regex.Flags

namespace Curried.Regex

/-- Where reading stands, and what it has learnt. -/
structure Reading where
  source : List Char
  rest : List Char
  position : Nat
  flags : Flags := {}
  /-- How many groups have been opened, the whole expression counted as one. -/
  groups : Nat := 1
  names : List (String × Nat) := []
  /-- The widths of the groups that have been closed. -/
  widths : List (Nat × Width) := []
  /-- In a look-behind, the number of groups opened before it. -/
  behindFrom : Option Nat := none
  /-- The groups that conditions ask for by number, each with the place of its first mention. -/
  conditions : List (Nat × Nat) := []

abbrev Reader := StateT Reading (Except Failure)

namespace Reader

/-! ## Units -/

/-- A character, or a backslash with what it escapes. -/
inductive Piece where
  | plain (c : Char)
  | escape (c : Char)
  deriving DecidableEq

namespace Piece

def text : Piece → List Char
  | plain c => [c]
  | escape c => ['\\', c]

def length (u : Piece) : Nat := u.text.length

end Piece

def fail {α : Type} (cause : Cause) (position : Nat) : Reader α :=
  throw (.refused ⟨cause, some position⟩)

def here : Reader Nat := return (← get).position

/-- Fail at `back` characters before the next unit. -/
def failBack {α : Type} (cause : Cause) (back : Nat) : Reader α := do
  fail cause ((← here) - back)

/-- The next unit, which stays. -/
def peek : Reader (Option Piece) := do
  match (← get).rest with
  | [] => return none
  | '\\' :: c :: _ => return some (.escape c)
  | c :: _ => return some (.plain c)

/-- A lone backslash cannot be the next unit. -/
def checkNext : Reader Unit := do
  let r ← get
  if r.rest = ['\\'] then fail .escapeAtEnd (r.source.length - 1)

/-- Take the next unit. -/
def take : Reader (Option Piece) := do
  let u ← peek
  match u with
  | none => return none
  | some u =>
    modify fun r => { r with rest := r.rest.drop u.length, position := r.position + u.length }
    checkNext
    return some u

/-- Take the next unit if it is the given character. -/
def accept (c : Char) : Reader Bool := do
  if (← peek) = some (.plain c) then
    let _ ← take
    return true
  else return false

def sees (c : Char) : Reader Bool := return (← peek) = some (.plain c)

/-- Go back to a place that was passed. -/
def seek (position : Nat) : Reader Unit :=
  modify fun r => { r with rest := r.source.drop position, position := position }

/-- At most `n` characters that satisfy `p`. -/
def takeWhile (p : Char → Bool) : Nat → Reader (List Char)
  | 0 => return []
  | n + 1 => do
    match ← peek with
    | some (.plain c) =>
      if p c then
        let _ ← take
        return c :: (← takeWhile p n)
      else return []
    | _ => return []

def remaining : Reader Nat := return (← get).rest.length

/-- Characters up to `close`, which is taken too. -/
def nameUntil (close : Char) : Nat → List Char → Reader (List Char)
  | 0, name => return name
  | fuel + 1, name => do
    match ← take with
    | none => failBack (.unterminatedName close) name.length
    | some u => if u = .plain close then return name else nameUntil close fuel (name ++ u.text)

/-- A name of some kind up to `close`; it cannot be empty. -/
def nameBefore (close : Char) (what : String) : Reader (List Char) := do
  if (← peek).isNone then failBack (.missingName what) 0
  else
    let name ← nameUntil close ((← remaining) + 1) []
    if name.isEmpty then failBack (.missingName what) 1 else return name

def isAsciiDigit (c : Char) : Bool := '0' ≤ c && c ≤ '9'

def isOctal (c : Char) : Bool := '0' ≤ c && c ≤ '7'

def isHex (c : Char) : Bool :=
  isAsciiDigit c || ('a' ≤ c && c ≤ 'f') || ('A' ≤ c && c ≤ 'F')

def hexValue (c : Char) : Nat :=
  if isAsciiDigit c then c.toNat - 48 else c.toLower.toNat - 87

def readHex (cs : List Char) : Nat := cs.foldl (fun n c => n * 16 + hexValue c) 0

def readOctal (cs : List Char) : Nat := cs.foldl (fun n c => n * 8 + (c.toNat - 48)) 0

end Reader

end Curried.Regex
