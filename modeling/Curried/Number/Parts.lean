/-
  Curried.Number.Parts — a double as an exact binary fraction.

  A finite number is a mantissa times a power of two, with a sign. Everything exact about numbers goes
  through these parts: whether one is whole and which integer it is, the remainder of a division, and
  the decimal digits that name it.
-/

namespace Curried.Number

/-- The value `mantissa * 2 ^ exponent`, negated when `negative`. -/
structure Parts where
  negative : Bool
  mantissa : Nat
  exponent : Int

def nan : Float := 0.0 / 0.0

def infinity : Float := 1.0 / 0.0

/-- The parts of a finite number; infinities and NaN have none. -/
def parts? (x : Float) : Option Parts :=
  let bits : Nat := x.toBits.toNat
  let fraction : Nat := bits % Nat.pow 2 52
  let scale : Nat := bits / Nat.pow 2 52 % Nat.pow 2 11
  let negative := bits / Nat.pow 2 63 == 1
  if scale == 2047 then none
  else if scale == 0 then some ⟨negative, fraction, -1074⟩
  else some ⟨negative, Nat.pow 2 52 + fraction, (scale : Int) - 1075⟩

/-- The integer part of `mantissa * 2 ^ exponent`. -/
def Parts.truncated (p : Parts) : Int :=
  let size : Nat := match p.exponent with
    | .ofNat e => p.mantissa * Nat.pow 2 e
    | .negSucc e => p.mantissa / Nat.pow 2 (e + 1)
  if p.negative then -size else size

def Parts.isWhole (p : Parts) : Bool :=
  match p.exponent with
  | .ofNat _ => true
  | .negSucc e => p.mantissa % Nat.pow 2 (e + 1) == 0

/-- The integer `mantissa * 2 ^ exponent`, when it is one. -/
def Parts.whole? (p : Parts) : Option Int := if p.isWhole then some p.truncated else none

/-- The integer a number is equal to, if any. -/
def whole? (x : Float) : Option Int := (parts? x).bind Parts.whole?

def isWhole (x : Float) : Bool := (whole? x).isSome

/-- A number with the sign of another one, which zero has as well. -/
def withSignOf (x y : Float) : Float := if y.toBits.toNat / Nat.pow 2 63 == 1 then -x.abs else x.abs

/-- The number nearest to an integer. -/
def ofInt (n : Int) : Float := Float.ofInt n

/-- The number nearest to `mantissa * 2 ^ exponent`: a power of a half is a power of five tenths. -/
def ofParts (p : Parts) : Float :=
  let size : Float := match p.exponent with
    | .ofNat e => Float.ofScientific (p.mantissa * Nat.pow 2 e) false 0
    | .negSucc e => Float.ofScientific (p.mantissa * Nat.pow 5 (e + 1)) true (e + 1)
  if p.negative then -size else size

/-- The remainder of two finite numbers, which is exact and has the sign of the first. -/
def Parts.remainder (x y : Parts) : Parts :=
  let e := min x.exponent y.exponent
  let scaled (p : Parts) : Nat := p.mantissa * Nat.pow 2 (p.exponent - e).toNat
  ⟨x.negative, scaled x % scaled y, e⟩

end Curried.Number
