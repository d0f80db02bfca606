/-
  Curried.Regex.GroupFlags — reading the flags that a group starts with.

  Flags written `(?i)` hold for the whole expression; `(?i-s:...)` turns some on and others off inside its group.
-/

import Curried.Regex.Reading
import Curried.Text.Word

namespace Curried.Regex.Reader

def flagFault (c : Char) (otherwise : Cause) : Cause :=
  if Text.isLetter c.toNat then .unknownFlag else otherwise

/-- A unit where a flag letter or the end of the flags should be. -/
def badFlag {α : Type} (u : Piece) (otherwise : Cause) : Reader α :=
  match u with
  | .plain c => failBack (flagFault c otherwise) 1
  | .escape _ => failBack otherwise 2

/-- The flags to turn on, from the letter `c` on, and the character that ends them. -/
def flagsOn : Nat → Flags → Char → Reader (Flags × Char)
  | 0, on, c => return (on, c)
  | fuel + 1, on, c => do
    if c == 'L' then failBack .localeFlag 0
    else
      let on := on.union ((Flags.ofLetter? c).getD {})
      if on.ascii && on.unicode then failBack .incompatibleFlags 0
      else
        match ← take with
        | none => failBack .missingFlagEnd 0
        | some u =>
          match u with
          | .plain c =>
            if c == ')' || c == '-' || c == ':' then return (on, c)
            else if c == 'L' || (Flags.ofLetter? c).isSome then flagsOn fuel on c
            else badFlag u .missingFlagEnd
          | .escape _ => badFlag u .missingFlagEnd

/-- The flags to turn off, from the letter `c` on, up to the colon. -/
def flagsOff : Nat → Flags → Char → Reader Flags
  | 0, off, _ => return off
  | fuel + 1, off, c => do
    if c == 'a' || c == 'u' || c == 'L' then failBack .typeFlagOff 0
    else
      let off := off.union ((Flags.ofLetter? c).getD {})
      match ← take with
      | none => failBack .missingColon 0
      | some u =>
        match u with
        | .plain c =>
          if c == ':' then return off
          else if c == 'L' || (Flags.ofLetter? c).isSome then flagsOff fuel off c
          else badFlag u .missingColon
        | .escape _ => badFlag u .missingColon

/-- The flags to turn off, after the minus sign. -/
def flagsOffStart : Reader Flags := do
  match ← take with
  | none => failBack .missingFlag 0
  | some u =>
    match u with
    | .plain c =>
      if c == 'L' || (Flags.ofLetter? c).isSome then flagsOff ((← remaining) + 1) {} c
      else badFlag u .missingFlag
    | .escape _ => badFlag u .missingFlag

/-- Flags from the letter or minus sign `c` on: for the whole expression (`none`), or for a group that
follows, some on and some off. -/
def groupFlags (c : Char) : Reader (Option (Flags × Flags)) := do
  let (on, close) ← if c == '-' then pure ({}, '-') else flagsOn ((← remaining) + 1) {} c
  if close == ')' then
    modify fun r => { r with flags := r.flags.union on }
    return none
  else if on.template then failBack .globalFlagOn 1
  else
    let off ← if close == '-' then flagsOffStart else pure {}
    if off.template then failBack .globalFlagOff 1
    else if on.meets off then failBack .flagOnAndOff 1
    else return some (on, off)

end Curried.Regex.Reader
