/-
  Curried.CommandLine.Arguments — telling the options of a command from its arguments.

  A word is an option when it starts with a dash and is longer than that. A long option has its value after an equals
  sign or in the next word; letters after a single dash are options one by one. Two dashes alone end the options.
-/

import Curried.CommandLine.Command
import Curried.Text.Quoted
import Curried.Text.Similarity

namespace Curried.CommandLine

inductive UsageError where
  | noSuchOption (name : String) (close : List String)
  | valueRequired (name : String)
  | noValueTaken (name : String)
  | notAnInteger (name text : String)
  | notOneOf (name text : String) (choices : List String)
  | fileMissing
  | fileNotFound (path : String)
  | fileIsDirectory (path : String)
  | extraArguments (args : List String)
  | noSuchCommand (name : String)
  deriving DecidableEq, Repr

namespace UsageError

/-- What may have been meant instead. -/
def hint : List String → String
  | [] => ""
  | [name] => s!" Did you mean {name}?"
  | names => " (Possible options: " ++ String.intercalate ", " names ++ ")"

def message : UsageError → String
  | noSuchOption name close => s!"No such option: {name}{hint close}"
  | valueRequired name => s!"Option {Text.quoted name} requires an argument."
  | noValueTaken name => s!"Option {Text.quoted name} does not take a value."
  | notAnInteger name text => s!"Invalid value for '{name}': {Text.quoted text} is not a valid integer."
  | notOneOf name text choices =>
    let choices := String.intercalate ", " (choices.map Text.quoted)
    s!"Invalid value for '{name}': {Text.quoted text} is not one of {choices}."
  | fileMissing => "Missing argument 'FILE'."
  | fileNotFound path => s!"Invalid value for 'FILE': File {Text.quoted path} does not exist."
  | fileIsDirectory path => s!"Invalid value for 'FILE': File {Text.quoted path} is a directory."
  | extraArguments words =>
    let noun := if words.length == 1 then "argument" else "arguments"
    let args := String.intercalate " " words
    s!"Got unexpected extra {noun} ({args})"
  | noSuchCommand name => s!"No such command {Text.quoted name}."

/-- Errors in how an option is written come without a reminder of the usage. -/
def showsUsage : UsageError → Bool
  | valueRequired _ | noValueTaken _ => false
  | _ => true

end UsageError

/-- The options given, in order, and the arguments. -/
structure Arguments where
  given : List (String × Option String) := []
  rest : List String := []
  deriving DecidableEq, Repr

namespace Arguments

def isGiven (a : Arguments) (name : String) : Bool := a.given.any (·.1 == name)

/-- The value given last. -/
def value? (a : Arguments) (name : String) : Option String := (a.given.reverse.lookup name).join

def give (a : Arguments) (s : Switch) (value : Option String) : Arguments :=
  { a with given := a.given ++ [(s.long, value)] }

def isOption (word : String) : Bool :=
  match word.toList with
  | '-' :: _ :: _ => true
  | _ => false

/-- A word before and after its first equals sign. -/
def splitValue (word : String) : String × Option String :=
  match word.toList.span (· != '=') with
  | (name, _ :: value) => (String.ofList name, some (String.ofList value))
  | (_, []) => (word, none)

/-- What the reading of an option has come to: all of it is read, or an option, called by a name, still wants a
value. -/
inductive Reading where
  | done (a : Arguments)
  | wants (a : Arguments) (s : Switch) (name : String)

def readLong (a : Arguments) (s : Switch) (name : String) : Option String → Except UsageError Reading
  | some value => if s.takesValue then .ok (.done (a.give s (some value))) else .error (.noValueTaken name)
  | none => if s.takesValue then .ok (.wants a s name) else .ok (.done (a.give s none))

/-- Letters after a dash; an option that takes a value takes the letters after it for one. -/
def readShort (c : Command) : List Char → Arguments → Except UsageError Reading
  | [], a => .ok (.done a)
  | letter :: letters, a =>
    let name := String.ofList ['-', letter]
    match c.switches.find? (·.short == some letter) with
    | none => .error (.noSuchOption name [])
    | some s =>
      if s.takesValue then
        if letters.isEmpty then .ok (.wants a s name) else .ok (.done (a.give s (some (String.ofList letters))))
      else readShort c letters (a.give s none)

def readOption (c : Command) (a : Arguments) (word : String) : Except UsageError Reading :=
  let (name, value) := splitValue word
  match c.switches.find? (·.long == name) with
  | some s => readLong a s name value
  | none =>
    match word.toList with
    | '-' :: '-' :: _ => .error (.noSuchOption name (Text.closest name (c.switches.map (·.long))))
    | letters => readShort c (letters.drop 1) a

/-- Read words after those already read. -/
def readFrom (c : Command) : Arguments → List String → Except UsageError Arguments
  | a, [] => .ok a
  | a, word :: words =>
    if word == "--" then .ok { a with rest := a.rest ++ words }
    else if isOption word then
      match readOption c a word, words with
      | .error e, _ => .error e
      | .ok (.done a), words => readFrom c a words
      | .ok (.wants _ _ name), [] => .error (.valueRequired name)
      | .ok (.wants a s _), value :: words => readFrom c (a.give s (some value)) words
    else if c.interspersed then readFrom c { a with rest := a.rest ++ [word] } words
    else .ok { a with rest := a.rest ++ word :: words }

def read (c : Command) (words : List String) : Except UsageError Arguments := readFrom c {} words

end Arguments

end Curried.CommandLine
