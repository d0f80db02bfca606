/-
  Curried.Catalogue — definitions of native functions, with what documents them.

  A catalogue has each name once, in the order of first registration and with the definition registered last. A
  native function takes its arguments one at a time, so a definition needs at least one parameter.
-/

import Curried.Text.Quoted
import Curried.Value

namespace Curried

inductive Category where
  | math
  | comparison
  | logic
  | conversion
  | function
  | list
  | string
  | io
  deriving DecidableEq, Repr

namespace Category

def name : Category → String
  | math => "math"
  | comparison => "comparison"
  | logic => "logic"
  | conversion => "conversion"
  | function => "function"
  | list => "list"
  | string => "string"
  | io => "io"

def all : List Category := [math, comparison, logic, conversion, function, list, string, io]

end Category

structure Parameter where
  name : String
  type : String
  description : String
  deriving DecidableEq, Repr

structure Definition where
  name : String
  description : String
  category : Category
  parameters : List Parameter
  returnType : String
  examples : List String
  code : Primitive
  deriving DecidableEq, Repr

namespace Definition

/-- How a full application is written: `foldl(initial)(fn)(list)`. -/
def signature (d : Definition) : String :=
  d.name ++ String.join (d.parameters.map fun p => s!"({p.name})")

/-- The function defined, with an identity and no argument yet. -/
def toValue (d : Definition) (id : Nat) : Value := .native id d.name d.parameters.length d.code []

end Definition

inductive CatalogueError where
  | noParameters (name : String)
  | unknownName (name : String)
  | unknownCategory (name : String)
  deriving DecidableEq, Repr

def CatalogueError.message : CatalogueError → String
  | .noParameters n => s!"Builtin '{n}' must take at least one parameter"
  | .unknownName n => s!"Unknown builtin: {n}"
  | .unknownCategory n => s!"{Text.quoted n} is not a valid FunctionCategory"

def Category.ofName (name : String) : Except CatalogueError Category :=
  match all.find? (·.name == name) with
  | some c => .ok c
  | none => .error (.unknownCategory name)

structure Catalogue where
  definitions : List Definition := []
  deriving DecidableEq, Repr

namespace Catalogue

/-- Put a definition in the place of the one with its name, or at the end. -/
def put (d : Definition) : List Definition → List Definition
  | [] => [d]
  | e :: rest => if e.name == d.name then d :: rest else e :: put d rest

def register (c : Catalogue) (d : Definition) : Except CatalogueError Catalogue :=
  if d.parameters.isEmpty then .error (.noParameters d.name) else .ok ⟨put d c.definitions⟩

def get (c : Catalogue) (name : String) : Except CatalogueError Definition :=
  match c.definitions.find? (·.name == name) with
  | some d => .ok d
  | none => .error (.unknownName name)

def isRegistered (c : Catalogue) (name : String) : Bool := c.definitions.any (·.name == name)

def names (c : Catalogue) : List String := c.definitions.map (·.name)

/-- The definitions of a category. -/
def inCategory (c : Catalogue) (category : Category) : List Definition :=
  c.definitions.filter (·.category == category)

/-- The part of a catalogue that is selected: all of it, or one category. -/
def select (c : Catalogue) : Option Category → Catalogue
  | none => c
  | some category => ⟨c.inCategory category⟩

/-- Add a definition to the group of its category, or to a new one at the end. -/
def addToGroup (d : Definition) : List (Category × List Definition) → List (Category × List Definition)
  | [] => [(d.category, [d])]
  | (category, ds) :: rest =>
    if category == d.category then (category, ds ++ [d]) :: rest else (category, ds) :: addToGroup d rest

/-- The definitions grouped by category. Groups come in the order of their first members. -/
def groups (c : Catalogue) : List (Category × List Definition) :=
  c.definitions.foldl (fun groups d => addToGroup d groups) []

end Catalogue

end Curried
