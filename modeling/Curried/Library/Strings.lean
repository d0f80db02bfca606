/-
  Curried.Library.Strings — regular expressions on text.
-/

import Curried.Regex.Replacement
import Curried.Value

namespace Curried.Library

/-- Why there is no regex: the source is refused, or reading it ran into a limit. -/
def reasonOf (source : String) : Regex.Failure → Reason
  | .refused e => .invalidRegex e source
  | .countTooLarge => .crashed ⟨"OverflowError", "the repetition number is too large"⟩
  | .tooManyDigits n => .crashed ⟨"ValueError",
      s!"Exceeds the limit (4300 digits) for integer string conversion: value has {n} digits; " ++
        "use sys.set_int_max_str_digits() to increase the limit"⟩
  | .clashingFlags => .crashed ⟨"ValueError", "ASCII and UNICODE flags are incompatible"⟩

def regex (compile : Regex.Compiler) (pattern : Value) : Except Fault Value := do
  let source ← pattern.asString "regex"
  match compile source with
  | .ok r => return .regex r
  | .error e => throw (.of (reasonOf source e))

/-- Whether the whole text matches. -/
def fullMatch (pattern text : Value) : Except Fault Value := do
  let r ← pattern.asRegex "match"
  let s ← text.asString "match"
  return .bool (r.matchesAll s)

/-- The replacement is read before the text is looked at. -/
def replace (pattern text replacement : Value) : Except Fault Value := do
  let r ← pattern.asRegex "replace"
  let template ← replacement.asString "replace"
  match Regex.Template.read r.program template with
  | .error e => throw (.of (.invalidReplacement e))
  | .ok parts =>
    let s ← text.asString "replace"
    return .string (← Fault.attempt (r.substitute parts s))

def split (pattern text : Value) : Except Fault Value := do
  let r ← pattern.asRegex "split"
  let s ← text.asString "split"
  return .list ((r.split s).map .string)

def join (list separator : Value) : Except Fault Value := do
  let between ← separator.asString "join"
  let items ← list.asList "join"
  let texts ← Value.renderAll items []
  return .string (String.intercalate between texts)

end Curried.Library
