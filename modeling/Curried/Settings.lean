/-
  Curried.Settings — what a user can choose, and how the environment chooses it.
-/

import Curried.Decimal.Reader
import Curried.Fault
import Curried.Text.Quoted

namespace Curried

structure Settings where
  /-- The depth of evaluation beyond which a run is a stack overflow. -/
  maxDepth : Int := 3000
  color : Bool := true
  /-- The global name of the arguments of a program. -/
  argsName : String := "args"
  prompt : String := "zy => "
  deriving DecidableEq, Repr

inductive SettingsError where
  | depth (text : String)
  deriving DecidableEq, Repr

def SettingsError.message : SettingsError → String
  | .depth text => s!"ZY_MAX_DEPTH must be an integer, got {Text.quoted text}"

/-- The variables of the environment, each name once. -/
abbrev Variables := List (String × String)

namespace Settings

/-- The stack that reaching the greatest depth may take: ten levels for each of evaluation, and some room. -/
def stackLimit (s : Settings) : Int := s.maxDepth * 10 + 1000

/-- The greatest limit that a stack can be given. -/
def greatestStackLimit : Int := 2147483647

/-- A stack without limit cannot be had. -/
def stackCrash? (s : Settings) : Option Crash :=
  if greatestStackLimit < s.stackLimit then some ⟨"OverflowError", "Python int too large to convert to C int"⟩
  else none

/-- A variable that has been set to something. -/
def nonempty? (vars : Variables) (name : String) : Option String :=
  match vars.lookup name with
  | some text => if text.isEmpty then none else some text
  | none => none

def depthFrom (vars : Variables) : Except SettingsError (Option Int) :=
  match nonempty? vars "ZY_MAX_DEPTH" with
  | none => .ok none
  | some text =>
    match Decimal.readInteger? text.toList with
    | some n => .ok (some n)
    | none => .error (.depth text)

/-- `NO_COLOR` turns colours off whatever it is set to; `ZY_COLOR` does with one of four words. -/
def colorFrom (vars : Variables) : Bool :=
  (vars.lookup "NO_COLOR").isNone &&
    ((vars.lookup "ZY_COLOR").getD "").toLower ∉ ["0", "false", "no", "off"]

def ofVariables (vars : Variables) : Except SettingsError Settings := do
  let defaults : Settings := {}
  let depth ← depthFrom vars
  return {
    maxDepth := depth.getD defaults.maxDepth
    color := colorFrom vars
    argsName := (nonempty? vars "ZY_ARGS_NAME").getD defaults.argsName
    prompt := (nonempty? vars "ZY_PROMPT").getD defaults.prompt }

end Settings

end Curried
