/-
  Curried.Transcript — everything a program and its interpreter write, in order.

  An entry is one piece written to the output or to the error output, or a line of the log. Styles are taken out
  piece by piece when the reader is no terminal; log lines are left as they are.
-/

import Curried.Text.Style

namespace Curried

inductive LogLevel where
  | debug
  | warning
  | error
  deriving DecidableEq, Repr

def LogLevel.name : LogLevel → String
  | .debug => "DEBUG"
  | .warning => "WARNING"
  | .error => "ERROR"

inductive Entry where
  | output (text : String)
  | errorOutput (text : String)
  | log (level : LogLevel) (source message : String)
  deriving DecidableEq, Repr

/-- A log line as it is written. -/
def logLine (level : LogLevel) (source message : String) : String :=
  s!"{level.name} {source}: {message}"

abbrev Transcript := Array Entry

namespace Transcript

def shown (styled : Bool) (text : String) : String := if styled then text else Text.plain text

/-- What was written to the output. -/
def output (t : Transcript) (styled : Bool) : String :=
  String.join (t.toList.filterMap fun
    | .output text => some (shown styled text)
    | _ => none)

/-- What was written to the error output, log lines apart. -/
def errorOutput (t : Transcript) (styled : Bool) : String :=
  String.join (t.toList.filterMap fun
    | .errorOutput text => some (shown styled text)
    | _ => none)

/-- What was written to the error output together with the log lines that pass `keep`. -/
def errorsAndLog (t : Transcript) (styled : Bool) (keep : LogLevel → Bool) : String :=
  String.join (t.toList.filterMap fun
    | .errorOutput text => some (shown styled text)
    | .log level source message => if keep level then some (logLine level source message ++ "\n") else none
    | .output _ => none)

/-- The lines of the log. -/
def logLines (t : Transcript) : List String :=
  t.toList.filterMap fun
    | .log level source message => some (logLine level source message)
    | _ => none

end Transcript

end Curried
