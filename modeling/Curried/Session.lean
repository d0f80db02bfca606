/-
  Curried.Session — one set of globals, and the programs run against it one after the other.

  A run reads its source and evaluates it in the globals, so that what it defines is there for the next one. An
  error in the source is reported by the run; one of evaluation where it arises. The reporter keeps the diagnostics
  of the latest run.
-/

import Curried.Catalogue.Standard
import Curried.Evaluator
import Curried.Expr.Parser
import Curried.Settings

namespace Curried

/-- How a run ends without a value. -/
inductive Trouble where
  | lexical (e : LexError)
  | grammar (e : ParseError)
  | fault (f : Fault)
  | crash (c : Crash)
  /-- The run has ended the whole program. -/
  | exit

abbrev Outcome := Except Trouble Value

def Trouble.ofHalt : Halt → Trouble
  | .fault f => .fault f
  | .crash c => .crash c
  | .exhausted | .exit => .exit

namespace Machine

/-- A new frame without parent for the globals. -/
def openGlobals (m : Machine) : Machine :=
  { m with store := m.store.push none, globals := m.store.size }

/-- Define a native function in the globals. -/
def defineNative (m : Machine) (d : Definition) : Machine :=
  { m with nextId := m.nextId + 1 }.define m.globals d.name (d.toValue m.nextId)

/-- Define all functions of a catalogue in the globals. -/
def install (m : Machine) (c : Catalogue) : Machine :=
  (c.definitions.foldl defineNative m).log .debug "zy.builtins" s!"Installed {c.definitions.length} builtins"

end Machine

structure Session where
  host : Host := {}
  machine : Machine := {}

namespace Session

/-- A session with the functions of a catalogue, on top of what a machine already holds. -/
def openOn (m : Machine) (h : Host) (c : Catalogue) : Session := ⟨h, m.openGlobals.install c⟩

/-- Define a global. -/
def define (s : Session) (name : String) (v : Value) : Session :=
  { s with machine := s.machine.define s.machine.globals name v }

/-- Define the arguments of a program. -/
def defineArgs (s : Session) (name : String) (args : List String) : Session :=
  s.define name (.list (args.map .string))

/-- The host that settings ask for. The stack is made larger for them, never smaller. -/
def hostOf (c : Settings) : Host :=
  let h : Host := { maxDepth := c.maxDepth, reports := { color := c.color } }
  { h with stack := max h.stack c.stackLimit.toNat }

/-- A session as settings want it. -/
def ofSettings (c : Settings) (args : Option (List String)) (input : List Char) : Session :=
  let s := openOn { input := input } (hostOf c) .standard
  match args with
  | some args => s.defineArgs c.argsName args
  | none => s

/-- Evaluate in the globals. -/
def evaluateHere (s : Session) (e : Expr) : Outcome × Session :=
  match evaluate s.host s.host.stackSize e s.machine.globals s.machine with
  | .ok v m => (.ok v, { s with machine := m })
  | .error halt m => (.error (.ofHalt halt), { s with machine := m })

/-- Apply a function outside any expression. -/
def applyHere (s : Session) (f arg : Value) : Outcome × Session :=
  match apply s.host s.host.stackSize f arg s.machine with
  | .ok v m => (.ok v, { s with machine := m })
  | .error halt m => (.error (.ofHalt halt), { s with machine := m })

/-- Report an error of the source. -/
def refuse (s : Session) (i : Issue) (t : Trouble) : Outcome × Session :=
  let m := { s.machine with hadError := true }
  (.error t, { s with machine := m.report s.host (.ofIssue i m.source) })

/-- End the run because its source nests too deep. -/
def refuseNesting (s : Session) (p : Position) : Outcome × Session :=
  let m := s.machine.log .error "zy.session" "Parser nesting exceeded the recursion limit, terminating"
  (.error .exit, { s with machine := m.report s.host ⟨.fatal, p, "Stack overflow", m.source⟩ })

/-- Warn of a declaration that rebinds an operator. -/
def warnOf (name : String) (p : Position) (m : Machine) : Machine :=
  if operatorNames.contains name then
    m.log .warning "zy.session" s!"Definition of '{name}' at {p.text} rebinds an operator"
  else m

/-- Warn of the declarations of a program that rebind an operator: those chained from its start. -/
def warn : Expr → Machine → Machine
  | .binding p name _ _ none, m => warnOf name p m
  | .binding p name _ _ (some next), m => warn next (warnOf name p m)
  | .function p (some name) _ _ none, m => warnOf name p m
  | .function p (some name) _ _ (some next), m => warn next (warnOf name p m)
  | .function _ none _ _ (some next), m => warn next m
  | _, m => m

def start (s : Session) (source : String) : Session :=
  { s with machine := (s.machine.start source).clearReports }

/-- Evaluate a tree as a run of a source. -/
def runExpr (s : Session) (source : String) (e : Expr) : Outcome × Session := (s.start source).evaluateHere e

/-- Evaluate what has been read from the source of a run. -/
def runProgram (s : Session) (program : Expr) : Outcome × Session :=
  match { s with machine := warn program s.machine }.evaluateHere program with
  | (.ok v, s) =>
    let m := s.machine.log .debug "zy.session" s!"Evaluated {s.machine.source.length} characters of source"
    (.ok v, { s with machine := m })
  | (.error t, s) => (.error t, s)

/-- Run a source. -/
def run (s : Session) (source : String) : Outcome × Session :=
  let s := s.start source
  match parseWithin s.host.maxNesting source with
  | .ok program => s.runProgram program
  | .error (.lexical e) => s.refuse e.issue (.lexical e)
  | .error (.grammar e) => s.refuse e.issue (.grammar e)
  | .error (.nesting p) => s.refuseNesting p

/-- The text of a file as a source: every line ends with a line feed. -/
def sourceOfFile (text : String) : String := String.ofList (Text.joinNewlines text.toList)

/-- Evaluate a source and report nothing about the source itself. -/
def evaluateSource (s : Session) (source : String) : Outcome × Session :=
  let s := { s with machine := s.machine.start source }
  match parseWithin s.host.maxNesting source with
  | .ok program => s.evaluateHere program
  | .error (.lexical e) => (.error (.lexical e), s)
  | .error (.grammar e) => (.error (.grammar e), s)
  | .error (.nesting _) => (.error .exit, s)

end Session

end Curried
