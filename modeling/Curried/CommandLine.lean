/-
  Curried.CommandLine — what the program does when it is called with words.

  The options before the command are read first, then the command is looked up, the settings are taken from the
  environment and the options, and only then are the command's own words read. So of several mistakes the one met
  first in this order is told.
-/

import Curried.Catalogue.Document
import Curried.CommandLine.Arguments
import Curried.Repl

namespace Curried.CommandLine

/-- What a path leads to. -/
inductive FileState where
  | missing
  | directory
  | file (text : String)
  deriving DecidableEq, Repr

/-- What the program is called with. -/
structure Call where
  words : List String
  environment : Variables := []
  files : String → FileState := fun _ => .missing
  input : String := ""

structure Answer where
  exitCode : Nat := 0
  verbose : Bool := false
  transcript : Transcript := #[]

namespace Answer

def output (a : Answer) (styled : Bool) : String := a.transcript.output styled

/-- The error output: what was written to it, and the log, of which only a verbose program shows all. -/
def errors (a : Answer) (styled : Bool) : String :=
  a.transcript.errorsAndLog styled fun level => a.verbose || level != .debug

def helpOn (c : Command) : Answer := { transcript := #[.output c.helpText] }

/-- Tell what is wrong with the words of a command. -/
def refuse (c : Command) (e : UsageError) : Answer :=
  let usage := Entry.errorOutput s!"Usage: {c.usage}\nTry '{c.path} --help' for help.\n\n"
  let error := Entry.errorOutput s!"Error: {e.message}\n"
  { exitCode := 2, transcript := if e.showsUsage then #[usage, error] else #[error] }

def refuseSettings (e : SettingsError) : Answer :=
  { exitCode := 1
    transcript := #[.errorOutput (Text.Style.red.apply s!"Error: {e.message}" ++ "\n")] }

def ofSession (exitCode : Nat) (s : Session) : Answer :=
  { exitCode := exitCode, transcript := s.machine.reporter.transcript }

end Answer

/-- The options before the command. -/
structure Common where
  verbose : Bool
  maxDepth : Option Int
  noColor : Bool
  deriving DecidableEq, Repr

/-- Read the words of a command, which may ask for help instead. -/
def readWords (c : Command) (words : List String) : Except Answer Arguments :=
  match Arguments.read c words with
  | .error e => .error (.refuse c e)
  | .ok a => if a.isGiven "--help" then .error (.helpOn c) else .ok a

def readDepth (a : Arguments) : Except Answer (Option Int) :=
  match a.value? "--max-depth" with
  | none => .ok none
  | some text =>
    match Decimal.readInteger? text.toList with
    | some n => .ok (some n)
    | none => .error (.refuse .group (.notAnInteger "--max-depth" text))

/-- The options before the command, and the words from the command on. -/
def readCommon (words : List String) : Except Answer (Common × List String) := do
  let a ← readWords .group words
  let depth ← readDepth a
  return (⟨a.isGiven "--verbose", depth, a.isGiven "--no-color"⟩, a.rest)

/-- The command that words start with, and the words after it. Without words it is the interactive one. Words that no
command starts with are tried once more as options. -/
def readCommand : List String → Except Answer (Command × List String)
  | [] => .ok (.repl, [])
  | name :: words =>
    match Command.ofName? name with
    | some c => .ok (c, words)
    | none => do
      let _ ← readCommon (name :: words)
      throw (.refuse .group (.noSuchCommand name))

def settings (common : Common) (vars : Variables) : Except Answer Settings :=
  match Settings.ofVariables vars with
  | .error e => .error (.refuseSettings e)
  | .ok c => .ok {
      c with
      maxDepth := common.maxDepth.getD c.maxDepth
      color := c.color && !common.noColor }

/-! ## The commands -/

/-- The text of the program to run, and its arguments. -/
def readProgram (files : String → FileState) (words : List String) : Except Answer (String × List String) := do
  let a ← readWords .run words
  match a.rest with
  | [] => throw (.refuse .run .fileMissing)
  | path :: args =>
    match files path with
    | .missing => throw (.refuse .run (.fileNotFound path))
    | .directory => throw (.refuse .run (.fileIsDirectory path))
    | .file text => return (text, args)

/-- A session, unless the settings ask for more stack than there is. -/
def openSession (c : Settings) (args : Option (List String)) (input : String) : Except Answer Session :=
  let s := Session.ofSettings c args (Text.joinNewlines input.toList)
  match c.stackCrash? with
  | some _ => .error (.ofSession 1 s)
  | none => .ok s

def runProgram (c : Settings) (call : Call) (words : List String) : Except Answer Answer := do
  let (text, args) ← readProgram call.files words
  let s ← openSession c (some args) call.input
  match s.run (Session.sourceOfFile text) with
  | (.ok _, s) => return .ofSession 0 s
  | (.error _, s) => return .ofSession 1 s

/-- A command that takes no arguments. -/
def readBare (c : Command) (words : List String) : Except Answer Arguments := do
  let a ← readWords c words
  if a.rest.isEmpty then return a else throw (.refuse c (.extraArguments a.rest))

def runRepl (c : Settings) (call : Call) (words : List String) : Except Answer Answer := do
  let _ ← readBare .repl words
  let s ← openSession c none call.input
  let (finished, s) := Repl.run c s
  return .ofSession (if finished then 0 else 1) s

def readCategory (a : Arguments) : Except Answer (Option Category) :=
  match a.value? "--category" with
  | none => .ok none
  | some text =>
    match Category.ofName text with
    | .ok c => .ok (some c)
    | .error _ => .error (.refuse .builtins (.notOneOf "--category" text (Category.all.map (·.name))))

def listBuiltins (words : List String) : Except Answer Answer := do
  let a ← readWords .builtins words
  let category ← readCategory a
  if !a.rest.isEmpty then throw (.refuse .builtins (.extraArguments a.rest))
  let lines :=
    if a.isGiven "--json" then (Catalogue.standard.select category).document.lines
    else Catalogue.standard.listing ((category.map ([·])).getD Category.all)
  return { transcript := (lines.map fun line => .output (line ++ "\n")).toArray }

def perform (c : Settings) (call : Call) (words : List String) : Command → Except Answer Answer
  | .run => runProgram c call words
  | .builtins => listBuiltins words
  | .group | .repl => runRepl c call words

/-- An answer given early is an answer like any other. -/
def settled : Except Answer Answer → Answer
  | .ok a => a
  | .error a => a

/-- The answer to a call. -/
def answer (call : Call) : Answer :=
  settled do
    let (common, words) ← readCommon call.words
    let (command, words) ← readCommand words
    let c ← settings common call.environment
    return { settled (perform c call words command) with verbose := common.verbose }

/-! ## What a call needs of its surroundings -/

/-- The names of the variables that settings are taken from. -/
def variableNames : List String := ["ZY_MAX_DEPTH", "NO_COLOR", "ZY_COLOR", "ZY_ARGS_NAME", "ZY_PROMPT"]

/-- The command that words lead to, with its own words. -/
def command? (words : List String) : Option (Command × List String) :=
  (readCommon words >>= fun (_, words) => readCommand words).toOption

/-- The path of the program that words ask to run. -/
def programPath? (words : List String) : Option String :=
  match command? words with
  | some (.run, words) => (readWords .run words).toOption.bind (·.rest.head?)
  | _ => none

/-- Whether a call may read the input. -/
def readsInput (words : List String) : Bool :=
  match command? words with
  | some (.repl, _) => true
  | _ => (programPath? words).isSome

end Curried.CommandLine
