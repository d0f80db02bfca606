/-
  Curried.Fault — what goes wrong while a program runs.

  A fault has a reason, a severity and, once an expression has been blamed for it, a position. A crash is a
  failure of what the program is built from rather than of the program; it is the reason of the fault that the
  expression which meets it reports.
-/

import Curried.Crash
import Curried.Kind
import Curried.Number
import Curried.Position
import Curried.Regex.Replacement

namespace Curried

inductive Reason where
  | undefinedVariable (name : String)
  | notAFunction
  | extraneousArgument
  | invalidTarget
  | unknownOperator (symbol : String)
  | unknownUnaryOperator (symbol : String)
  | operatorNotFunction (symbol name : String)
  | unknownForm (kind : String)
  | mismatch (function : String) (expected actual : Kind)
  | notWhole (function : String) (x : Float)
  | unsupported (type : String)
  | notNumeric (text : String)
  | indexOutOfRange (index : Int) (length : Nat)
  | headOfEmpty
  | reduceOfEmpty
  | negativeCount (function : String) (count : Int)
  | sliceOutOfBounds (first last : Int) (length : Nat)
  | unsortable (kind : Kind)
  | invalidRegex (e : Regex.Error) (source : String)
  | invalidReplacement (e : Regex.TemplateError)
  | crashed (c : Crash)
  /-- What an extension says. -/
  | raised (message : String)

def Reason.message : Reason → String
  | .undefinedVariable n => s!"Undefined variable {n}"
  | .notAFunction => "Not a function"
  | .extraneousArgument => "Extraneous argument in call"
  | .invalidTarget => "Invalid assignment target"
  | .unknownOperator s => s!"Unknown operator: {s}"
  | .unknownUnaryOperator s => s!"Unknown unary operator: {s}"
  | .operatorNotFunction s n => s!"Operator '{s}' needs '{n}' to be a function"
  | .unknownForm k => s!"Unknown node type: {k}"
  | .mismatch f expected actual => s!"{f} expected a {expected.name} but got {actual.name}"
  | .notWhole f x => s!"{f} expected a whole number but got {Number.fractionText x}"
  | .unsupported t => s!"Unsupported host value of type {t}"
  | .notNumeric t => s!"toNum cannot convert \"{t}\" to a number"
  | .indexOutOfRange i n => s!"nth index {i} out of range for list of length {n}"
  | .headOfEmpty => "head of empty list"
  | .reduceOfEmpty => "reduce of empty list"
  | .negativeCount f n => s!"{f} expected a non-negative count but got {n}"
  | .sliceOutOfBounds first last n => s!"slice range {first}..{last} out of bounds for list of length {n}"
  | .unsortable k => s!"Cannot sort {k.name} values, sort accepts numbers only"
  | .invalidRegex e source => s!"Invalid regex: {e.text source}"
  | .invalidReplacement e => e.message
  | .crashed c => s!"Internal error: {c.kind}: {c.text}"
  | .raised m => m

structure Fault where
  reason : Reason
  position : Option Position := none
  severity : Severity := .fatal

namespace Fault

def of (r : Reason) : Fault := { reason := r }

/-- The result of an operation that may crash. -/
def attempt {α : Type} (x : Except Crash α) : Except Fault α := x.mapError fun c => .of (.crashed c)

/-- Blame an expression at `p`, unless another one has been blamed already. -/
def blame (f : Fault) (p : Position) : Fault := { f with position := some (f.position.getD p) }

def issue (f : Fault) : Issue := ⟨f.reason.message, f.position, f.severity⟩

end Fault

end Curried
