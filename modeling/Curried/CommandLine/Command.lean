/-
  Curried.CommandLine.Command — the commands, what they take, and what they say of themselves.
-/

namespace Curried.CommandLine

inductive Command where
  /-- What stands before a command: the options of them all. -/
  | group
  | run
  | repl
  | builtins
  deriving DecidableEq, Repr

structure Switch where
  long : String
  short : Option Char := none
  takesValue : Bool := false
  deriving DecidableEq, Repr

namespace Command

def ofName? : String → Option Command
  | "run" => some run
  | "repl" => some repl
  | "builtins" => some builtins
  | _ => none

/-- The words that call a command. -/
def path : Command → String
  | group => "zy"
  | run => "zy run"
  | repl => "zy repl"
  | builtins => "zy builtins"

def usage : Command → String
  | group => "zy [OPTIONS] COMMAND [ARGS]..."
  | run => "zy run [OPTIONS] FILE [ARGS]..."
  | repl => "zy repl [OPTIONS]"
  | builtins => "zy builtins [OPTIONS]"

def help : Switch := { long := "--help" }

def switches : Command → List Switch
  | group =>
    [{ long := "--verbose", short := some 'v' }, { long := "--max-depth", takesValue := true },
     { long := "--no-color" }, help]
  | run => [help]
  | repl => [help]
  | builtins => [{ long := "--category", takesValue := true }, { long := "--json" }, help]

/-- Whether options may come after arguments. Those after a command are the command's. -/
def interspersed : Command → Bool
  | group => false
  | _ => true

def about : Command → String
  | group => "Zy, a small functional language. Starts the REPL when no command is given."
  | run => "Run FILE, binding the remaining ARGS as a list of strings to \x60args\x60."
  | repl => "Start an interactive session. End of input exits."
  | builtins => "List builtin functions with their curried signatures."

def optionLines : Command → List String
  | group =>
    ["  -v, --verbose        Log debug output.",
     "  --max-depth INTEGER  Evaluation depth reported as a stack overflow (default:",
     "                       $ZY_MAX_DEPTH or 3000).",
     "  --no-color           Print diagnostics without color.",
     "  --help               Show this message and exit.",
     "",
     "Commands:",
     "  builtins  List builtin functions with their curried signatures.",
     "  repl      Start an interactive session.",
     "  run       Run FILE, binding the remaining ARGS as a list of strings to..."]
  | run => ["  --help  Show this message and exit."]
  | repl => ["  --help  Show this message and exit."]
  | builtins =>
    ["  --category [math|comparison|logic|conversion|function|list|string|io]",
     "                                  Only list builtins in this category.",
     "  --json                          Print the builtin documentation as JSON.",
     "  --help                          Show this message and exit."]

def helpText (c : Command) : String :=
  let lines := [s!"Usage: {c.usage}", "", s!"  {c.about}", "", "Options:"] ++ c.optionLines
  String.join (lines.map (· ++ "\n"))

end Command

end Curried.CommandLine
