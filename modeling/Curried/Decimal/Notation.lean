/-
  Curried.Decimal.Notation — how a number is written.

  A number has its shortest digits. It is written positionally, with at least one digit on each side of
  the point, while its leading digit stands in a window of places; otherwise with an exponent that
  always has a sign and at least two digits.
-/

import Curried.Decimal.Shortest

namespace Curried.Decimal

/-- The places of the leading digit for which a number is written positionally, and the spelling of
what has no digits. -/
structure Notation where
  firstPlace : Int
  lastPlace : Int
  nan : String
  infinity : String

/-- Positional from a ten-thousandth up to below 10^16. -/
def standard : Notation := ⟨-4, 15, "nan", "inf"⟩

/-- Take trailing zeros from a numeral's digits. -/
def trimZeros (digits : List Char) : List Char :=
  ((digits.reverse).dropWhile (· == '0')).reverse

def zeroRun (n : Nat) : List Char := List.replicate n '0'

def positional (digits : List Char) (place : Int) : List Char :=
  match place with
  | .ofNat e =>
    let whole := digits.take (e + 1)
    let rest := digits.drop (e + 1)
    whole ++ zeroRun (e + 1 - whole.length) ++ '.' :: (if rest.isEmpty then ['0'] else rest)
  | .negSucc e => '0' :: '.' :: zeroRun e ++ digits

def exponential (digits : List Char) (place : Int) : List Char :=
  let mantissa := match digits with
    | [] => []
    | [d] => [d]
    | d :: ds => d :: '.' :: ds
  let size := Nat.toDigits 10 place.natAbs
  mantissa ++ 'e' :: (if place < 0 then '-' else '+') :: zeroRun (2 - size.length) ++ size

/-- The digits of a decimal and the place of its leading digit. -/
def Numeral.spread (d : Numeral) : List Char × Int :=
  let digits := Nat.toDigits 10 d.digits
  (trimZeros digits, d.exponent + digits.length - 1)

def write (style : Notation) (x : Float) : String :=
  if x.isNaN then style.nan
  else
    let (negative, body) := match Number.parts? x with
      | none => (decide (x < 0), style.infinity.toList)
      | some p =>
        if p.mantissa == 0 then (p.negative, ['0', '.', '0'])
        else
          let (digits, place) := (shortest p).spread
          (p.negative, if style.firstPlace ≤ place && place ≤ style.lastPlace
            then positional digits place else exponential digits place)
    String.ofList (if negative then '-' :: body else body)

/-- The text of a number with its shortest digits. -/
def text (x : Float) : String := write standard x

end Curried.Decimal
