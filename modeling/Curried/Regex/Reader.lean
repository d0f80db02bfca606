/-
  Curried.Regex.Reader — reading a regular expression.

  Groups are numbered by their opening parenthesis. Flags for the whole expression stand at its start.

  `insideWithin d` reads what may stand inside `d` more levels of groups; every level takes a parenthesis, so the
  length of the expression is enough.
-/

import Curried.Regex.GroupFlags
import Curried.Regex.Set

namespace Curried.Regex.Reader

/-! ## Expressions, given how to read what is inside a group -/

/-- How to read the inside of a group under some flags: alternatives, or just one of them. -/
structure Inside where
  alternatives : Flags → Reader Pattern
  branch : Flags → Reader Pattern

def closeParen (start : Nat) : Reader Unit := do
  if !(← accept ')') then fail .unterminatedGroup start

/-- Take units up to a closing parenthesis. -/
def skipComment (start : Nat) : Nat → Reader Unit
  | 0 => return ()
  | fuel + 1 => do
    match ← peek with
    | none => fail .unterminatedComment start
    | some u =>
      let _ ← take
      if u = .plain ')' then return () else skipComment start fuel

/-- Take units up to a line feed. -/
def skipLine : Nat → Reader Unit
  | 0 => return ()
  | fuel + 1 => do
    match ← take with
    | none => return ()
    | some u => if u = .plain '\n' then return () else skipLine fuel

variable (inside : Inside)

/-- The inside of a group opened at `start` and its closing parenthesis. -/
def enclosed (f : Flags) (start : Nat) : Reader Pattern := do
  let p ← inside.alternatives f
  closeParen start
  return p

def capture (f : Flags) (start : Nat) (name : Option (List Char)) : Reader Pattern := do
  let index ← openGroup name
  let p ← enclosed inside f start
  closeGroup index p.width
  return .group (some index) p

def lookBehind (f : Flags) (start : Nat) (negated : Bool) : Reader Pattern := do
  let before := (← get).behindFrom
  modify fun r => { r with behindFrom := some (before.getD r.groups) }
  let p ← inside.alternatives f
  modify fun r => { r with behindFrom := before }
  closeParen start
  return .lookBehind negated p.width p

/-- Groups are numbered below this. -/
def groupLimit : Nat := 1073741823

/-- The group that a condition asks for, by name or by number. -/
def condition : Reader Nat := do
  let name ← nameBefore ')' "group name"
  let bad {α : Type} (cause : Cause) : Reader α := failBack cause (name.length + 1)
  let index ← if Text.isIdentifier name then groupNamed name
    else
      match Decimal.readInteger? name with
      | some (.ofNat n) =>
        if n == 0 then bad .badGroupNumber
        else if n ≥ groupLimit then bad (.invalidReference n)
        else
          let place := (← here) - name.length - 1
          modify fun r =>
            if r.conditions.any (·.1 == n) then r
            else { r with conditions := r.conditions ++ [(n, place)] }
          pure n
      | _ => bad (.badGroupName (String.ofList name))
  checkBehind index
  return index

/-- A condition and one or two branches, each without alternatives. -/
def conditional (f : Flags) (start : Nat) : Reader Pattern := do
  let index ← condition
  let yes ← inside.branch f
  if ← accept '|' then
    let no ← inside.branch f
    if ← sees '|' then failBack .tooManyBranches 0
    else
      closeParen start
      return .conditional index yes (some no)
  else
    closeParen start
    return .conditional index yes none

/-- What comes after `(?P`. -/
def namedGroup (f : Flags) (start : Nat) : Reader Pattern := do
  if ← accept '<' then
    let name ← nameBefore '>' "group name"
    checkGroupName name
    capture inside f start (some name)
  else if ← accept '=' then
    let name ← nameBefore ')' "group name"
    checkGroupName name
    let index ← groupNamed name
    match ← widthOf? index with
    | none => failBack .openGroup (name.length + 1)
    | some w => referTo index f w
  else
    match ← take with
    | none => failBack .endOfPattern 0
    | some u => failBack (.unknownExtension ("P" ++ String.ofList u.text)) (u.length + 2)

/-- What comes after `(?<`. -/
def behindGroup (f : Flags) (start : Nat) : Reader Pattern := do
  match ← take with
  | none => failBack .endOfPattern 0
  | some (.plain '=') => lookBehind inside f start false
  | some (.plain '!') => lookBehind inside f start true
  | some u => failBack (.unknownExtension ("<" ++ String.ofList u.text)) (u.length + 2)

/-- A group that starts with flags: those of the whole expression may only stand where nothing has been read
(`leading`), and are nothing themselves. -/
def flaggedGroup (f : Flags) (start : Nat) (leading : Bool) (c : Char) : Reader (Option Pattern) := do
  match ← groupFlags c with
  | none => if leading then return none else fail .misplacedFlags start
  | some (on, off) => return some (.group none (← enclosed inside (f.within on off) start))

/-- What comes after the opening parenthesis at `start`; a comment is nothing. -/
def group (f : Flags) (start : Nat) (leading : Bool) : Reader (Option Pattern) := do
  if !(← accept '?') then return some (← capture inside f start none)
  else
    match ← take with
    | none => failBack .endOfPattern 0
    | some (.plain 'P') => return some (← namedGroup inside f start)
    | some (.plain ':') => return some (.group none (← enclosed inside f start))
    | some (.plain '#') =>
      skipComment start ((← remaining) + 1)
      return none
    | some (.plain '=') => return some (.lookAhead false (← enclosed inside f start))
    | some (.plain '!') => return some (.lookAhead true (← enclosed inside f start))
    | some (.plain '<') => return some (← behindGroup inside f start)
    | some (.plain '(') => return some (← conditional inside f start)
    | some (.plain '>') => return some (.atomic (← enclosed inside f start))
    | some u =>
      match u with
      | .plain c =>
        if c == '-' || c == 'L' || (Flags.ofLetter? c).isSome then flaggedGroup inside f start leading c
        else failBack (.unknownExtension (String.ofList u.text)) (u.length + 1)
      | .escape _ => failBack (.unknownExtension (String.ofList u.text)) (u.length + 1)

/-- Layout that a verbose expression may have between its parts. -/
def isLayout (c : Char) : Bool := c == ' ' || ('\t' ≤ c && c ≤ '\r')

/-- One step of reading a sequence of items, which are kept in reverse: what follows from the unit `u`. -/
def item (f : Flags) (leading : Bool) (items : List Pattern) (u : Piece) : Reader (List Pattern) := do
  match u with
  | .escape c => return (← escape f c) :: items
  | .plain '[' => return (← set f ((← here) - 1)) :: items
  | .plain '.' => return .char (.any f.dotAll) :: items
  | .plain '^' => return .anchor (if f.multiline then .lineStart else .textStart) :: items
  | .plain '$' => return .anchor (if f.multiline then .lineEnd else .lastLineEnd) :: items
  | .plain '(' =>
    match ← group inside f ((← here) - 1) leading with
    | some p => return p :: items
    | none => return items
  | .plain c =>
    if c == '*' || c == '+' || c == '?' || c == '\x7b' then
      let start ← here
      match ← counts c start with
      | some (least, most) => repeatLast items start least most
      | none => return literal f c.toNat :: items
    else return literal f c.toNat :: items

/-- A sequence of items up to a bar, a closing parenthesis or the end. In the whole expression (`outermost`)
flags may come first. -/
def items (outermost first : Bool) : Nat → Flags → List Pattern → Reader (List Pattern)
  | 0, _, read => return read
  | fuel + 1, f, read => do
    match ← peek with
    | none => return read
    | some u =>
      if u = .plain '|' || u = .plain ')' then return read
      else
        let _ ← take
        match f.verbose, u with
        | true, .plain '#' =>
          skipLine ((← remaining) + 1)
          items outermost first fuel f read
        | verbose, u =>
          if verbose && u.text.all isLayout then items outermost first fuel f read
          else
            let read ← item inside f (first && read.isEmpty) read u
            let settled := (← get).flags
            items outermost first fuel (if outermost then settled else f) read

/-- One alternative. -/
def alternative (outermost first : Bool) (f : Flags) : Reader Pattern := do
  return .ofList (← items inside outermost first ((← remaining) + 1) f []).reverse

/-- The alternatives after a first one. -/
def moreAlternatives (outermost : Bool) : Nat → Flags → Pattern → Reader Pattern
  | 0, _, p => return p
  | fuel + 1, f, p => do
    if ← accept '|' then
      let settled := (← get).flags
      let f := if outermost then settled else f
      let q ← alternative inside outermost false f
      return .alt p (← moreAlternatives outermost fuel f q)
    else return p

def alternatives (outermost : Bool) (f : Flags) : Reader Pattern := do
  let p ← alternative inside outermost outermost f
  moreAlternatives inside outermost ((← remaining) + 1) f p

/-- How to read inside groups that nest at most so deep. -/
def insideWithin : Nat → Inside
  | 0 => ⟨fun _ => failBack .unbalanced 0, fun _ => failBack .unbalanced 0⟩
  | depth + 1 =>
    ⟨fun f => alternatives (insideWithin depth) false f,
     fun f => alternative (insideWithin depth) false false f⟩

/-- A whole expression: nothing may follow it, and every group that a condition asks for has to exist. -/
def whole : Reader Pattern := do
  checkNext
  let p ← alternatives (insideWithin ((← remaining) + 1)) true {}
  let r ← get
  if r.flags.ascii && r.flags.unicode then throw .clashingFlags
  else if (← peek).isSome then failBack .unbalanced 0
  else
    match r.conditions.find? (·.1 ≥ r.groups) with
    | some (index, place) => fail (.invalidReference index) place
    | none => return p

end Curried.Regex.Reader
