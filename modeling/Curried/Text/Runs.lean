/-
  Curried.Text.Runs — a set of code points kept as its runs.

  The tables of character properties are long and mostly runs of neighbours, so a table is written as
  the gaps and lengths of its runs in hexadecimal and kept as the sorted bounds of those runs. A code
  point is in the set when an odd number of bounds are at or below it.
-/

namespace Curried.Text

structure Runs where
  bounds : Array Nat

namespace Runs

def hexValue (c : Char) : Nat :=
  if c.isDigit then c.toNat - '0'.toNat else c.toNat - 'a'.toNat + 10

def readHex (digits : List Char) : Nat :=
  digits.foldl (fun n c => n * 16 + hexValue c) 0

/-- Alternating gaps and lengths, in rows of words, become bounds by adding them up. -/
def ofGaps (rows : List String) : Runs :=
  ⟨((rows.flatMap (·.splitOn " ")).foldl
    (fun (acc : Array Nat × Nat) word =>
      let bound := acc.2 + readHex word.toList
      (acc.1.push bound, bound))
    (#[], 0)).1⟩

/-- How many of the sorted bounds between `lo` and `hi` are at or below `n`, counted from the start. -/
def countFrom (bounds : Array Nat) (n : Nat) : Nat → Nat → Nat → Nat
  | 0, lo, _ => lo
  | fuel + 1, lo, hi =>
    if lo < hi then
      let mid := (lo + hi) / 2
      if bounds.getD mid 0 ≤ n then countFrom bounds n fuel (mid + 1) hi
      else countFrom bounds n fuel lo mid
    else lo

def contains (r : Runs) (n : Nat) : Bool :=
  countFrom r.bounds n r.bounds.size 0 r.bounds.size % 2 == 1

end Runs

end Curried.Text
