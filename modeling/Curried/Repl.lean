/-
  Curried.Repl — running one line of the input after the other.

  Before each line the prompt is written, after each line that has a value the value. Lines without text are passed
  over. An error does not end the loop; the end of input does, and so does a run that ends the program.
-/

import Curried.Session

namespace Curried.Repl

def write (s : Session) (text : String) : Session := { s with machine := s.machine.write text }

/-- The line that shows a value. -/
def shown (c : Settings) (text : String) : String :=
  let line := s!"=> {text}"
  (if c.color then Text.Style.grey.apply line else line) ++ "\n"

/-- Write the value of a line. -/
def showValue (c : Settings) (s : Session) (v : Value) : Session :=
  match v.render with
  | .ok text => write s (shown c text)
  | .error _ => s

/-- How the loop goes on after a line: with a session, or not at all. -/
inductive Turn where
  | next (s : Session)
  | over (s : Session)

/-- Run a line without the blanks around it. -/
def turn (c : Settings) (s : Session) (line : String) : Turn :=
  match Text.strip line.toList with
  | [] => .next s
  | text =>
    match s.run (String.ofList text) with
    | (.ok v, s) => .next (showValue c s v)
    | (.error .exit, s) => .over s
    | (.error _, s) => .next s

/-- Run at most `fuel` lines; whether the loop came to the end of the input, and the session then. -/
def runLines (c : Settings) : Nat → Session → Bool × Session
  | 0, s => (true, s)
  | fuel + 1, s =>
    let s := write s c.prompt
    match s.machine.readLine with
    | (none, _) => (true, write s "\n")
    | (some line, m) =>
      match turn c { s with machine := m } line with
      | .next s => runLines c fuel s
      | .over s => (false, s)

/-- Run all lines of the input. Each has a character at least, so there are no more lines than characters, and then
the end of input. -/
def run (c : Settings) (s : Session) : Bool × Session := runLines c (s.machine.input.length + 1) s

end Curried.Repl
