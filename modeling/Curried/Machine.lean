/-
  Curried.Machine — the state of a running program, and computations on it.

  The machine holds the frames, a counter that gives each new function its identity, the input not yet read, what
  has been reported and written, and the fields of the current run: its source, the depth of evaluation, and
  whether it has reported an error. Only the first error of a run is reported.

  A computation ends in a value or halts, and the machine is as it was left in either case.
-/

import Curried.Diagnostic
import Curried.Scope

namespace Curried

structure Machine where
  store : Store := {}
  /-- The identity of the next function to be made. -/
  nextId : Nat := 0
  globals : FrameId := 0
  input : List Char := []
  reporter : Reporter := {}
  source : String := ""
  hadError : Bool := false
  depth : Nat := 0

/-- What an extension answers when it has all its arguments. -/
inductive Reply where
  | value (v : Value)
  | fault (message : String) (severity : Severity) (position : Option Position := none)
  | crash (c : Crash)

/-- What the embedding program decides. -/
structure Host where
  maxDepth : Int := 3000
  /-- The levels of the stack that reading a program may take. -/
  stack : Nat := 31000
  reports : ReportStyle := {}
  compile : Regex.Compiler := Regex.compile
  extensions : String → List Value → Reply := fun _ _ => .value .nil

namespace Host

/-- The stack that evaluation has: ten levels for each of depth, and some room. -/
def stackSize (h : Host) : Nat := (h.maxDepth * 10).toNat + 1000

/-- How deep the expressions of a program may nest: reading one that is inside another takes twelve levels. -/
def maxNesting (h : Host) : Nat := h.stack / 12

end Host

/-- Why a computation has no value. -/
inductive Halt where
  | fault (f : Fault)
  | crash (c : Crash)
  /-- The stack that carries evaluation is used up. -/
  | exhausted
  /-- The run has been ended for good. -/
  | exit

/-- How a fault halts a computation. A crash is no fault until an expression has met it. -/
def Halt.ofFault (f : Fault) : Halt :=
  match f.reason with
  | .crashed c => .crash c
  | _ => .fault f

abbrev Eval := EStateM Halt Machine

namespace Machine

/-- Change the frames. The machine is taken apart before that, so that they are changed in place. -/
@[inline] def mapStore (f : Store → Store) : Machine → Machine
  | ⟨store, nextId, globals, input, reporter, source, hadError, depth⟩ =>
    ⟨f store, nextId, globals, input, reporter, source, hadError, depth⟩

/-- Change what has been reported and written, in place as well. -/
@[inline] def mapReporter (f : Reporter → Reporter) : Machine → Machine
  | ⟨store, nextId, globals, input, reporter, source, hadError, depth⟩ =>
    ⟨store, nextId, globals, input, f reporter, source, hadError, depth⟩

def log (m : Machine) (level : LogLevel) (source message : String) : Machine :=
  m.mapReporter (·.write (.log level source message))

def write (m : Machine) (text : String) : Machine := m.mapReporter (·.write (.output text))

def report (m : Machine) (h : Host) (d : Diagnostic) : Machine := m.mapReporter (·.report h.reports d)

/-- Report an issue, unless this run has reported one. -/
def reportOnce (m : Machine) (h : Host) (i : Issue) : Machine :=
  if m.hadError then m
  else { m with hadError := true }.report h (.ofIssue i m.source)

/-- Start a run of a source. -/
def start (m : Machine) (source : String) : Machine :=
  { m with source := source, hadError := false, depth := 0 }

def clearReports (m : Machine) : Machine := { m with reporter := m.reporter.clear }

def define (m : Machine) (frame : FrameId) (name : String) (v : Value) : Machine :=
  m.mapStore (·.define frame name v)

/-- Take a line of input without its end, if there is any. -/
def readLine (m : Machine) : Option String × Machine :=
  match m.input with
  | [] => (none, m)
  | input =>
    let (line, rest) := Text.takeLine input
    let text := Text.dropEnd (fun c => c == '\r' || c == '\n') line
    (some (String.ofList text), { m with input := rest })

/-- Reading a line changes nothing but the input. -/
theorem readLine_eq (m : Machine) : m.readLine.2 = { m with input := m.readLine.2.input } := by
  unfold readLine
  split
  · rfl
  · rfl

/-- And it takes nothing but the input into account. -/
theorem readLine_congr {m m' : Machine} (h : m.input = m'.input) :
    m.readLine.1 = m'.readLine.1 ∧ m.readLine.2.input = m'.readLine.2.input := by
  unfold readLine
  rw [h]
  split
  · exact ⟨rfl, h⟩
  · exact ⟨rfl, rfl⟩

end Machine

namespace Eval

def fault {α : Type} (r : Reason) : Eval α := throw (.fault (.of r))

/-- A result that may be a fault, as a computation. -/
def lift {α : Type} : Except Fault α → Eval α
  | .ok a => pure a
  | .error f => throw (.ofFault f)

/-- An identity that no function has yet. -/
def freshId : Eval Nat := modifyGet fun m => (m.nextId, { m with nextId := m.nextId + 1 })

def childFrame (parent : FrameId) : Eval FrameId := modifyGet fun m =>
  (m.store.size, m.mapStore (·.child parent))

def define (frame : FrameId) (name : String) (v : Value) : Eval Unit :=
  modify (·.define frame name v)

/-- Rebind a name where it is bound. -/
def assign (frame : FrameId) (name : String) (v : Value) : Eval Unit := do
  match (← get).store.resolve? frame name with
  | some (owner, _) => define owner name v
  | none => fault (.undefinedVariable name)

def lookup (frame : FrameId) (name : String) : Eval Value := do
  lift ((← get).store.get frame name)

end Eval

end Curried
