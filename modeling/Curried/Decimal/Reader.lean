/-
  Curried.Decimal.Reader — reading numbers and integers from text.

  A number is an optional sign and either decimal digits, with an optional point and exponent, or one of
  the names of infinity and NaN in any case. Digits may be those of any script, and one underscore may
  stand between two digits. White space around the whole is passed over.
-/

import Curried.Decimal.Shortest
import Curried.Text.Blank
import Curried.Text.Digit

namespace Curried.Decimal

/-- The number nearest to `digits * 10 ^ exponent`. Far outside the range of numbers the power is not
computed. -/
def nearest (d : Numeral) : Float :=
  let top := (numDigits d.digits : Int) + d.exponent
  if d.digits == 0 then 0
  else if top > 310 then Number.infinity
  else if top < -330 then 0
  else match d.exponent with
    | .ofNat e => Float.ofScientific d.digits false e
    | .negSucc e => Float.ofScientific d.digits true (e + 1)

/-- The value of `whole.fraction` with the given power of ten. -/
def ofNumeral (whole fraction : List Char) (power : Int) : Float :=
  nearest ⟨Text.readDigits (whole ++ fraction), power - fraction.length⟩

/-- Remove underscores; each has to stand between two digits. -/
def dropUnderscores (before : Bool) : List Char → Option (List Char)
  | [] => some []
  | '_' :: c :: cs =>
    if before && Text.isDigit c then dropUnderscores false (c :: cs) else none
  | '_' :: [] => none
  | c :: cs => (dropUnderscores (Text.isDigit c) cs).map (c :: ·)

/-- An optional sign: whether it is negative, and the rest. -/
def readSign : List Char → Bool × List Char
  | '+' :: cs => (false, cs)
  | '-' :: cs => (true, cs)
  | cs => (false, cs)

/-- The power of ten after the digits, if what remains is one or nothing. -/
def readPower? : List Char → Option Int
  | [] => some 0
  | c :: cs =>
    if c == 'e' || c == 'E' then
      let (negative, digits) := readSign cs
      if digits.isEmpty || !digits.all Text.isDigit then none
      else
        let n : Int := Text.readDigits digits
        some (if negative then -n else n)
    else none

/-- Digits, an optional point with digits, an optional power; some digit has to be there. -/
def readUnsigned? (cs : List Char) : Option Float :=
  let (whole, rest) := cs.span Text.isDigit
  let (fraction, rest) := match rest with
    | '.' :: rest => rest.span Text.isDigit
    | rest => ([], rest)
  if whole.isEmpty && fraction.isEmpty then none
  else (readPower? rest).map (ofNumeral whole fraction)

/-- The names of what has no digits. -/
def readName? (cs : List Char) : Option Float :=
  let name := String.ofList (cs.map Char.toLower)
  if name == "inf" || name == "infinity" then some Number.infinity
  else if name == "nan" then some Number.nan
  else none

def readNumber? (text : List Char) : Option Float :=
  (dropUnderscores false (Text.strip text)).bind fun cs =>
    let (negative, body) := readSign cs
    let size := (readName? body).or (readUnsigned? body)
    size.map fun x => if negative then -x else x

/-- Integers with more digits than this are not read. -/
def maxIntegerDigits : Nat := 4300

/-- White space that may stand around an integer; the information separators may not. -/
def isMargin (c : Char) : Bool := Text.isBlank c && !(28 ≤ c.toNat && c.toNat ≤ 31)

def readInteger? (text : List Char) : Option Int :=
  let (negative, body) := readSign (Text.dropEnd isMargin (text.dropWhile isMargin))
  (dropUnderscores false body).bind fun digits =>
    if digits.isEmpty || !digits.all Text.isDigit || digits.length > maxIntegerDigits then none
    else
      let n : Int := Text.readDigits digits
      some (if negative then -n else n)

end Curried.Decimal
