/-
  Curried.Decimal.Shortest — the fewest decimal digits that name a double.

  A finite number `m * 2 ^ q` is the double nearest to every real in an interval around it; the ends
  belong to the interval when `m` is even. For one digit, two digits and so on up to seventeen, the two
  neighbours of the number on that decimal grid are tried against the interval in exact arithmetic.
  The first grid with a hit gives the digits: of two hits the nearer one, and of two as near as each other
  the even one.
-/

import Curried.Number.Parts

namespace Curried.Decimal

/-- The value `digits * 10 ^ exponent`. -/
structure Numeral where
  digits : Nat
  exponent : Int

def numDigits (n : Nat) : Nat := (Nat.toDigits 10 n).length

/-- The `e` with `10 ^ e ≤ num / den < 10 ^ (e + 1)`. -/
def magnitude (num den : Nat) : Int :=
  if den ≤ num then (numDigits (num / den) : Int) - 1
  else
    let d := numDigits (den / num)
    if den ≤ num * Nat.pow 10 (d - 1) then 1 - (d : Int) else -(d : Int)

/-- The interval of reals that round to a number, over a common denominator. -/
structure Span where
  low : Nat
  value : Nat
  high : Nat
  den : Nat
  /-- Whether the ends belong to the interval. -/
  closed : Bool

/-- The gap below a power of two is half as wide as the gap above it. -/
def Span.of (p : Number.Parts) : Span :=
  let below := if p.mantissa == Nat.pow 2 52 && p.exponent != -1074 then 1 else 2
  let closed := p.mantissa % 2 == 0
  match p.exponent - 2 with
  | .ofNat e =>
    let unit := Nat.pow 2 e
    ⟨(4 * p.mantissa - below) * unit, 4 * p.mantissa * unit, (4 * p.mantissa + 2) * unit, 1, closed⟩
  | .negSucc e =>
    ⟨4 * p.mantissa - below, 4 * p.mantissa, 4 * p.mantissa + 2, Nat.pow 2 (e + 1), closed⟩

def Span.holds (s : Span) (point : Nat) : Bool :=
  if s.closed then s.low ≤ point && point ≤ s.high else s.low < point && point < s.high

/-- Stretch a span so that the points of the grid `10 ^ k` are the multiples of its denominator. -/
def Span.onGrid (s : Span) (k : Int) : Span :=
  match k with
  | .ofNat e => { s with den := s.den * Nat.pow 10 e }
  | .negSucc e =>
    let unit := Nat.pow 10 (e + 1)
    { s with low := s.low * unit, value := s.value * unit, high := s.high * unit }

/-- The neighbour of the value on the grid `10 ^ k` that lies in the span, the nearer one if both do. A tie goes to
the even one. -/
def Span.hit? (s : Span) (k : Int) : Option Numeral :=
  let g := s.onGrid k
  let below := g.value / g.den
  let above := below + 1
  let down := g.value - below * g.den
  let up := above * g.den - g.value
  let nearer := if down < up || (down == up && below % 2 == 0) then below else above
  match g.holds (below * g.den), g.holds (above * g.den) with
  | true, true => some ⟨nearer, k⟩
  | true, false => some ⟨below, k⟩
  | false, true => some ⟨above, k⟩
  | false, false => none

/-- The shortest decimal that reads back as the finite number with these parts. -/
def shortest (p : Number.Parts) : Numeral :=
  if p.mantissa == 0 then ⟨0, 0⟩
  else
    let span := Span.of p
    let top := magnitude span.value span.den
    let found := (List.range 17).findSome? fun n : Nat => span.hit? (top - (n : Int))
    found.getD ⟨(span.onGrid (top - 16)).value / (span.onGrid (top - 16)).den, top - 16⟩

end Curried.Decimal
