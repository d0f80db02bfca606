/-
  Curried.Regex.Error — why a regular expression is refused.

  Most causes have a place in the expression, which the text names; when the expression has more than one
  line it names line and column too. Three causes are not faults of the expression but limits of whatever
  reads it, and are told apart by `Failure`.
-/

import Curried.Text.Quoted

namespace Curried.Regex

inductive Cause where
  | escapeAtEnd
  | incompleteEscape (text : String)
  | badEscape (text : String)
  | octalTooLarge (text : String)
  | missingBrace
  | undefinedName (name : String)
  | missingName (what : String)
  | unterminatedName (close : Char)
  | badGroupName (name : String)
  | redefinedGroup (name : String) (index earlier : Nat)
  | unknownGroup (name : String)
  | openGroup
  | groupInLookBehind
  | invalidReference (index : Nat)
  | badGroupNumber
  | tooManyBranches
  | unterminatedSet
  | badRange (low high : String)
  | leastAboveMost
  | nothingToRepeat
  | multipleRepeat
  | endOfPattern
  | unknownExtension (text : String)
  | unterminatedComment
  | unterminatedGroup
  | misplacedFlags
  | localeFlag
  | incompatibleFlags
  | missingFlagEnd
  | unknownFlag
  | missingFlag
  | missingColon
  | globalFlagOn
  | globalFlagOff
  | typeFlagOff
  | flagOnAndOff
  | unbalanced
  | repeatInTemplate (operator : String)
  | looksTooFarBehind
  | variableLookBehind
  deriving DecidableEq, Repr

def Cause.message : Cause → String
  | .escapeAtEnd => "bad escape (end of pattern)"
  | .incompleteEscape t => s!"incomplete escape {t}"
  | .badEscape t => s!"bad escape {t}"
  | .octalTooLarge t => s!"octal escape value {t} outside of range 0-0o377"
  | .missingBrace => "missing \x7b"
  | .undefinedName n => s!"undefined character name {Text.quoted n}"
  | .missingName w => s!"missing {w}"
  | .unterminatedName c => s!"missing {c}, unterminated name"
  | .badGroupName n => s!"bad character in group name {Text.quoted n}"
  | .redefinedGroup n index earlier =>
    s!"redefinition of group name {Text.quoted n} as group {index}; was group {earlier}"
  | .unknownGroup n => s!"unknown group name {Text.quoted n}"
  | .openGroup => "cannot refer to an open group"
  | .groupInLookBehind => "cannot refer to group defined in the same lookbehind subpattern"
  | .invalidReference n => s!"invalid group reference {n}"
  | .badGroupNumber => "bad group number"
  | .tooManyBranches => "conditional backref with more than two branches"
  | .unterminatedSet => "unterminated character set"
  | .badRange low high => s!"bad character range {low}-{high}"
  | .leastAboveMost => "min repeat greater than max repeat"
  | .nothingToRepeat => "nothing to repeat"
  | .multipleRepeat => "multiple repeat"
  | .endOfPattern => "unexpected end of pattern"
  | .unknownExtension t => s!"unknown extension ?{t}"
  | .unterminatedComment => "missing ), unterminated comment"
  | .unterminatedGroup => "missing ), unterminated subpattern"
  | .misplacedFlags => "global flags not at the start of the expression"
  | .localeFlag => "bad inline flags: cannot use 'L' flag with a str pattern"
  | .incompatibleFlags => "bad inline flags: flags 'a', 'u' and 'L' are incompatible"
  | .missingFlagEnd => "missing -, : or )"
  | .unknownFlag => "unknown flag"
  | .missingFlag => "missing flag"
  | .missingColon => "missing :"
  | .globalFlagOn => "bad inline flags: cannot turn on global flag"
  | .globalFlagOff => "bad inline flags: cannot turn off global flag"
  | .typeFlagOff => "bad inline flags: cannot turn off flags 'a', 'u' and 'L'"
  | .flagOnAndOff => "bad inline flags: flag turned on and off"
  | .unbalanced => "unbalanced parenthesis"
  | .repeatInTemplate op => s!"internal: unsupported template operator {op}"
  | .looksTooFarBehind => "looks too much behind"
  | .variableLookBehind => "look-behind requires fixed-width pattern"

/-- A cause, and where in the expression it was noticed. -/
structure Error where
  cause : Cause
  position : Option Nat
  deriving DecidableEq, Repr

/-- The line of a place in a text and its column, both from 1. -/
def lineAndColumn (text : List Char) (position : Nat) : Nat × Nat :=
  let before := text.take position
  (before.count '\n' + 1, (before.reverse.takeWhile (· != '\n')).length + 1)

def Error.text (e : Error) (source : String) : String :=
  match e.position with
  | none => e.cause.message
  | some p =>
    let cs := source.toList
    let place := s!"{e.cause.message} at position {p}"
    if cs.contains '\n' then
      let (line, column) := lineAndColumn cs p
      s!"{place} (line {line}, column {column})"
    else place

/-- An expression is refused for its own sake, or runs into a limit. -/
inductive Failure where
  | refused (e : Error)
  /-- A repetition count beyond what can be counted. -/
  | countTooLarge
  /-- A count written with more digits than integers are read with. -/
  | tooManyDigits (digits : Nat)
  /-- ASCII and Unicode classes both asked for, for the whole expression. -/
  | clashingFlags
  deriving DecidableEq, Repr

end Curried.Regex
