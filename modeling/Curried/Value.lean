/-
  Curried.Value — the values of the language.

  A function has an identity: two functions are equal when they are the same one, however they look. A closure
  keeps the parameters it still waits for and the frame it was made in; a native function the arguments it has
  been given. A foreign value is something of the embedding program that the language has no kind for.
-/

import Curried.Builtin
import Curried.Expr
import Curried.Fault

namespace Curried

/-- Frames are numbered in the order in which they are made. -/
abbrev FrameId := Nat

inductive Value where
  | nil
  | bool (b : Bool)
  | number (x : Float)
  | string (s : String)
  | list (items : List Value)
  | closure (id : Nat) (name : Option String) (params : List String) (body : Expr) (frame : FrameId)
  | native (id : Nat) (name : String) (arity : Nat) (code : Primitive) (collected : List Value)
  | regex (r : Regex)
  | foreign (type : String)
  deriving Inhabited

namespace Value

def kind : Value → Except Fault Kind
  | nil => .ok .nil
  | bool _ => .ok .bool
  | number _ => .ok .number
  | string _ => .ok .string
  | list _ => .ok .list
  | closure .. => .ok .function
  | native .. => .ok .function
  | regex _ => .ok .regex
  | foreign t => .error (.of (.unsupported t))

def isFunction : Value → Bool
  | closure .. | native .. => true
  | _ => false

/-- Nil and false are not; everything else is. -/
def truthy : Value → Bool
  | nil => false
  | bool b => b
  | _ => true

/-! ## Text -/

def functionText : Option String → String
  | none => "<function>"
  | some n => if n.isEmpty then "<function>" else s!"<function {n}>"

mutual

/-- The text of a value, as it is printed and joined to other text. -/
def render : Value → Except Fault String
  | nil => .ok "()"
  | bool b => .ok (if b then "true" else "false")
  | number x => Fault.attempt (Number.render x)
  | string s => .ok s
  | list items => (renderAll items []).map fun texts => "[" ++ String.intercalate ", " texts ++ "]"
  | closure _ name _ _ _ => .ok (functionText name)
  | native _ name _ _ _ => .ok (functionText (some name))
  | regex r => .ok s!"<regex {r.source}>"
  | foreign t => .error (.of (.unsupported t))

/-- The texts of several values, after those in `before`, which are in reverse. -/
def renderAll : List Value → List String → Except Fault (List String)
  | [], before => .ok before.reverse
  | v :: vs, before =>
    match render v with
    | .ok text => renderAll vs (text :: before)
    | .error f => .error f

end

/-! ## Equality -/

mutual

/-- Values of different kinds differ; lists are compared element by element, functions by identity. -/
def equals : Value → Value → Except Fault Bool
  | foreign t, _ => .error (.of (.unsupported t))
  | _, foreign t => .error (.of (.unsupported t))
  | nil, nil => .ok true
  | bool a, bool b => .ok (a == b)
  | number a, number b => .ok (a == b)
  | string a, string b => .ok (a == b)
  | list as, list bs => if as.length = bs.length then equalsAll as bs else .ok false
  | closure i .., closure j .. => .ok (i == j)
  | native i .., native j .. => .ok (i == j)
  | regex r, regex s => .ok (r.source == s.source)
  | _, _ => .ok false

/-- Whether two lists agree as far as both go; the first difference settles it. -/
def equalsAll : List Value → List Value → Except Fault Bool
  | a :: as, b :: bs => do
    if ← equals a b then equalsAll as bs else return false
  | _, _ => .ok true

end

/-! ## Expectations -/

/-- The fault of `function` being given `v` where it expected another kind. -/
def mismatch {α : Type} (function : String) (expected : Kind) (v : Value) : Except Fault α := do
  let actual ← v.kind
  throw (.of (.mismatch function expected actual))

def asNumber (function : String) : Value → Except Fault Float
  | number x => .ok x
  | v => v.mismatch function .number

/-- A whole number, as the integer it is. -/
def asIndex (function : String) (v : Value) : Except Fault Int := do
  let x ← v.asNumber function
  if Number.isWhole x then Fault.attempt (Number.toInteger x)
  else throw (.of (.notWhole function x))

def asString (function : String) : Value → Except Fault String
  | string s => .ok s
  | v => v.mismatch function .string

def asList (function : String) : Value → Except Fault (List Value)
  | list items => .ok items
  | v => v.mismatch function .list

/-- A function, which is returned as it is. -/
def asFunction (function : String) (v : Value) : Except Fault Value :=
  if v.isFunction then .ok v else v.mismatch function .function

def asRegex (function : String) : Value → Except Fault Regex
  | regex r => .ok r
  | v => v.mismatch function .regex

end Value

end Curried
