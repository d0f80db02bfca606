/-
  Curried.Diagnostic — an error shown against its source.

  A diagnostic is written as a header, the line of the source it speaks of and a caret under the column. A
  reporter writes diagnostics and remembers them until it is cleared.
-/

import Curried.Position
import Curried.Text.Blank
import Curried.Transcript

namespace Curried

structure Diagnostic where
  severity : Severity
  position : Position
  message : String
  source : String
  deriving DecidableEq, Repr

namespace Diagnostic

/-- An issue without a position is shown at the start of the source. -/
def ofIssue (i : Issue) (source : String) : Diagnostic :=
  ⟨i.severity, i.position.getD {}, i.message, source⟩

def label (d : Diagnostic) : String :=
  match d.severity with
  | .fatal => "fatal error"
  | .error => "error"

/-- The line of the source the diagnostic speaks of; empty if there is no such line. -/
def sourceLine (d : Diagnostic) : String :=
  if d.position.line < 1 then ""
  else String.ofList ((Text.lines d.source.toList).getD (d.position.line - 1).toNat [])

def style (d : Diagnostic) : Text.Style :=
  match d.severity with
  | .fatal => .red
  | .error => .yellow

def header (d : Diagnostic) : String := s!"{d.label} {d.position.text}: {d.message}"

def caret (d : Diagnostic) : String :=
  String.ofList (List.replicate (d.position.column - 1).toNat ' ') ++ "^"

def format (d : Diagnostic) (color : Bool) : String :=
  let header := if color then d.style.apply d.header else d.header
  s!"{header}\n{d.sourceLine}\n{d.caret}"

end Diagnostic

/-- How diagnostics are written. -/
structure ReportStyle where
  color : Bool := true
  toErrorOutput : Bool := false
  deriving DecidableEq, Repr

/-- The diagnostics reported so far, and everything written. -/
structure Reporter where
  diagnostics : Array Diagnostic := #[]
  transcript : Transcript := #[]

namespace Reporter

def write : Reporter → Entry → Reporter
  | ⟨diagnostics, transcript⟩, e => ⟨diagnostics, transcript.push e⟩

def report (r : Reporter) (s : ReportStyle) (d : Diagnostic) : Reporter :=
  let r := { r with diagnostics := r.diagnostics.push d }
  let r := r.write (.log .debug "zy.diagnostics"
    s!"Reporting {d.severity.name} at {d.position.text}: {d.message}")
  let text := d.format s.color ++ "\n"
  r.write (if s.toErrorOutput then .errorOutput text else .output text)

def clear (r : Reporter) : Reporter := { r with diagnostics := #[] }

end Reporter

end Curried
