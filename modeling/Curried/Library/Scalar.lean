/-
  Curried.Library.Scalar — arithmetic, comparison, logic and conversion.

  Each function names itself when it is given a value of the wrong kind, and looks at its first argument first.
-/

import Curried.Decimal.Reader
import Curried.Value

namespace Curried.Library

/-! ## Arithmetic, as doubles have it -/

def binaryNumber (name : String) (f : Float → Float → Float) (a b : Value) : Except Fault Value := do
  let x ← a.asNumber name
  let y ← b.asNumber name
  return .number (f x y)

def add : Value → Value → Except Fault Value := binaryNumber "add" (· + ·)

def sub : Value → Value → Except Fault Value := binaryNumber "sub" (· - ·)

def mul : Value → Value → Except Fault Value := binaryNumber "mul" (· * ·)

/-- By zero, a number becomes an infinity with the sign of both; zero and NaN become NaN. -/
def div (a b : Value) : Except Fault Value := do
  let x ← a.asNumber "div"
  let y ← b.asNumber "div"
  if y == 0 then
    if x == 0 || x.isNaN then return .number Number.nan
    else return .number (Number.withSignOf Number.infinity x * Number.withSignOf 1 y)
  else return .number (← Fault.attempt (Number.divide x y))

/-- There is no remainder by zero, nor of an infinity. -/
def mod (a b : Value) : Except Fault Value := do
  let x ← a.asNumber "mod"
  let y ← b.asNumber "mod"
  if y == 0 || x.isInf then return .number Number.nan
  else return .number (← Fault.attempt (Number.remainder x y))

def neg (a : Value) : Except Fault Value := do
  let x ← a.asNumber "neg"
  return .number (-x)

/-! ## Comparison -/

def compareNumbers (name : String) (f : Float → Float → Bool) (a b : Value) : Except Fault Value := do
  let x ← a.asNumber name
  let y ← b.asNumber name
  return .bool (f x y)

def eq (a b : Value) : Except Fault Value := (a.equals b).map .bool

def neq (a b : Value) : Except Fault Value := (a.equals b).map fun same => .bool !same

def lt : Value → Value → Except Fault Value := compareNumbers "lt" fun x y => x < y

def gt : Value → Value → Except Fault Value := compareNumbers "gt" fun x y => y < x

def lte : Value → Value → Except Fault Value := compareNumbers "lte" fun x y => x ≤ y

def gte : Value → Value → Except Fault Value := compareNumbers "gte" fun x y => y ≤ x

/-! ## Logic -/

def and (a b : Value) : Value := .bool (a.truthy && b.truthy)

def or (a b : Value) : Value := .bool (a.truthy || b.truthy)

def not (a : Value) : Value := .bool !a.truthy

def toBool (a : Value) : Value := .bool a.truthy

/-! ## Conversion -/

/-- A number is itself; a text is read as one. -/
def toNum : Value → Except Fault Value
  | .number x => .ok (.number x)
  | v => do
    let text ← v.asString "toNum"
    match Decimal.readNumber? text.toList with
    | some x => return .number x
    | none => throw (.of (.notNumeric text))

def toStr (a : Value) : Except Fault Value := a.render.map .string

end Curried.Library
