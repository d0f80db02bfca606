/-
  Curried.Number — numbers as the language shows them.

  A whole number of any size is written as the integer it is; any other finite number with its shortest
  digits.
-/

import Curried.Decimal.Notation
import Curried.Number.Operations

namespace Curried.Number

/-- The text of a number that is not whole. -/
def fractionText (x : Float) : String :=
  if x.isNaN then "NaN"
  else if x.isInf then (if x > 0 then "Infinity" else "-Infinity")
  else Decimal.text x

def render (x : Float) : Except Crash String :=
  if isWhole x then (toInteger x).map toString else .ok (fractionText x)

end Curried.Number
