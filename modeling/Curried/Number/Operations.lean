/-
  Curried.Number.Operations — operations on doubles that have no result everywhere.

  There is no quotient and no remainder by zero, no remainder of an infinity, no integer for an infinity or NaN, and
  no double for an integer beyond the greatest one. Each operation crashes where it has no result.
-/

import Curried.Crash
import Curried.Number.Parts

namespace Curried.Number

def divide (x y : Float) : Except Crash Float :=
  if y == 0 then .error ⟨"ZeroDivisionError", "float division by zero"⟩ else .ok (x / y)

/-- What is left of `x` after taking `y` from it as often as possible, with the sign of `x`. Nothing can be taken from
a number by an infinity. -/
def remainder (x y : Float) : Except Crash Float :=
  if x.isNaN || y.isNaN then .ok nan
  else if y == 0 || x.isInf then .error ⟨"ValueError", "math domain error"⟩
  else match parts? x, parts? y with
    | some p, some q => .ok (ofParts (p.remainder q))
    | _, _ => .ok x

/-- The integer part of a number. -/
def toInteger (x : Float) : Except Crash Int :=
  match parts? x with
  | some p => .ok p.truncated
  | none =>
    if x.isNaN then .error ⟨"ValueError", "cannot convert float NaN to integer"⟩
    else .error ⟨"OverflowError", "cannot convert float infinity to integer"⟩

/-- The double nearest to an integer. -/
def ofInteger (n : Int) : Except Crash Float :=
  if (ofInt n).isInf then .error ⟨"OverflowError", "int too large to convert to float"⟩ else .ok (ofInt n)

end Curried.Number
