/-
  Curried.Regex.Escape — groups referred to, and what a backslash stands for.

  After a backslash a letter is a class of characters, an anchor, a character by its code or name, or a mistake;
  digits are a character in octal or a group; everything else is itself.
-/

import Curried.Regex.CharTest
import Curried.Regex.Reading
import Curried.Text.CharName

namespace Curried.Regex.Reader

/-! ## Groups -/

def widthOf? (index : Nat) : Reader (Option Width) :=
  return ((← get).widths.find? (·.1 == index)).map (·.2)

def openGroup (name : Option (List Char)) : Reader Nat := do
  let r ← get
  let index := r.groups
  match name with
  | none => set { r with groups := index + 1 }
  | some cs =>
    let name := String.ofList cs
    match r.names.find? (·.1 == name) with
    | some (_, earlier) => failBack (.redefinedGroup name index earlier) (cs.length + 1)
    | none => set { r with groups := index + 1, names := r.names ++ [(name, index)] }
  return index

def closeGroup (index : Nat) (w : Width) : Reader Unit :=
  modify fun r => { r with widths := (index, w) :: r.widths }

/-- A look-behind may only refer to groups closed before it. -/
def checkBehind (index : Nat) : Reader Unit := do
  match (← get).behindFrom with
  | none => return ()
  | some floor =>
    if (← widthOf? index).isNone then failBack .openGroup 0
    else if floor ≤ index then failBack .groupInLookBehind 0

def checkGroupName (name : List Char) : Reader Unit := do
  if !Text.isIdentifier name then failBack (.badGroupName (String.ofList name)) (name.length + 1)

def groupNamed (name : List Char) : Reader Nat := do
  match (← get).names.find? (·.1 == String.ofList name) with
  | some (_, index) => return index
  | none => failBack (.unknownGroup (String.ofList name)) (name.length + 1)

def referTo (index : Nat) (f : Flags) (w : Width) : Reader Pattern := do
  checkBehind index
  return .backReference index w f.folding

/-! ## Escapes -/

/-- Exactly `n` hexadecimal digits after `\\` and `letter`. -/
def hexEscape (letter : Char) (n : Nat) : Reader (List Char × Nat) := do
  let digits ← takeWhile isHex n
  let text := '\\' :: letter :: digits
  if digits.length != n then failBack (.incompleteEscape (String.ofList text)) text.length
  else return (text, readHex digits)

def badEscape {α : Type} (text : List Char) : Reader α :=
  failBack (.badEscape (String.ofList text)) text.length

/-- A character by its name in braces. -/
def namedEscape : Reader Nat := do
  if !(← accept '\x7b') then failBack .missingBrace 0
  else
    let name ← nameBefore '\x7d' "character name"
    match Text.codeNamed? (String.ofList name) with
    | some n => return n
    | none => failBack (.undefinedName (String.ofList name)) (name.length + 4)

/-- The escapes by letter that stand for one character anywhere. -/
def controlCode? : Char → Option Nat
  | 'a' => some 7
  | 'b' => some 8
  | 'f' => some 12
  | 'n' => some 10
  | 'r' => some 13
  | 't' => some 9
  | 'v' => some 11
  | '\\' => some 92
  | _ => none

def category? : Char → Option SetItem
  | 'd' => some (.category .digit false)
  | 'D' => some (.category .digit true)
  | 's' => some (.category .space false)
  | 'S' => some (.category .space true)
  | 'w' => some (.category .word false)
  | 'W' => some (.category .word true)
  | _ => none

/-- Escapes by code point or name, in and out of sets. -/
def codeEscape? (c : Char) : Reader (Option Nat) := do
  match c with
  | 'x' => return some (← hexEscape 'x' 2).2
  | 'u' => return some (← hexEscape 'u' 4).2
  | 'U' =>
    let (text, n) ← hexEscape 'U' 8
    if n > 0x10ffff then badEscape text else return some n
  | 'N' => return some (← namedEscape)
  | _ => return none

def checkOctal (text : List Char) : Reader Nat := do
  let n := readOctal (text.drop 1)
  if n > 0o377 then failBack (.octalTooLarge (String.ofList text)) text.length else return n

/-- An escape inside a set. -/
def setEscape (c : Char) : Reader SetItem := do
  match controlCode? c, category? c with
  | some n, _ => return .code n
  | none, some item => return item
  | none, none =>
    match ← codeEscape? c with
    | some n => return .code n
    | none =>
      if isOctal c then
        let digits ← takeWhile isOctal 2
        return .code (← checkOctal ('\\' :: c :: digits))
      else if isAsciiDigit c || c.isAlpha then badEscape ['\\', c]
      else return .code c.toNat

def anchor? (f : Flags) : Char → Option Anchor
  | 'A' => some .textStart
  | 'Z' => some .textEnd
  | 'b' => some (.wordBoundary f.ascii false)
  | 'B' => some (.wordBoundary f.ascii true)
  | _ => none

def literal (f : Flags) (code : Nat) : Pattern := .char (.ofCode f.folding code false)

/-- A backslash with a digit other than zero: three octal digits are a character, else it is a group. -/
def numberEscape (f : Flags) (c : Char) : Reader Pattern := do
  let second ← takeWhile isAsciiDigit 1
  let third ← if isOctal c && !second.isEmpty && second.all isOctal then takeWhile isOctal 1 else pure []
  let text := '\\' :: c :: second ++ third
  if !third.isEmpty then return literal f (← checkOctal text)
  else
    let index := Text.readDigits (text.drop 1)
    if index < (← get).groups then
      match ← widthOf? index with
      | none => failBack .openGroup text.length
      | some w => referTo index f w
    else failBack (.invalidReference index) (text.length - 1)

/-- An escape outside of sets. -/
def escape (f : Flags) (c : Char) : Reader Pattern := do
  match anchor? f c, category? c, controlCode? c with
  | some a, _, _ => return .anchor a
  | none, some item, _ => return .char (.ofItems f.folding f.ascii [item] false)
  | none, none, some n => return literal f n
  | none, none, none =>
    match ← codeEscape? c with
    | some n => return literal f n
    | none =>
      if c == '0' then
        let digits ← takeWhile isOctal 2
        return literal f (readOctal (c :: digits))
      else if isAsciiDigit c then numberEscape f c
      else if c.isAlpha then badEscape ['\\', c]
      else return literal f c.toNat

end Curried.Regex.Reader
