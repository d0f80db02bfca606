/-
  Curried.Position — where something stands in a text, and what is said about it there.

  Lines and columns count from 1. An issue is what an error says to its reader: a message, a severity
  and, once it is known, a position.
-/

namespace Curried

structure Position where
  line : Int := 1
  column : Int := 1
  deriving DecidableEq, Repr, Inhabited

namespace Position

/-- The position after a character. -/
def step (p : Position) (c : Char) : Position :=
  if c = '\n' then ⟨p.line + 1, 1⟩ else ⟨p.line, p.column + 1⟩

/-- The position after a text. -/
def after (p : Position) (text : List Char) : Position := text.foldl step p

def text (p : Position) : String := s!"({p.line}, {p.column})"

end Position

/-- A fatal error ends the run; after any other the failed part counts as nil. -/
inductive Severity where
  | fatal
  | error
  deriving DecidableEq, Repr

def Severity.name : Severity → String
  | .fatal => "fatal"
  | .error => "error"

structure Issue where
  message : String
  position : Option Position
  severity : Severity
  deriving DecidableEq, Repr

/-- The message with its position in words. -/
def Issue.text (i : Issue) : String :=
  match i.position with
  | none => i.message
  | some p => s!"{i.message} at line {p.line}, column {p.column}"

end Curried
