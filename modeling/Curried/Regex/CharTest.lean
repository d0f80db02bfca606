/-
  Curried.Regex.CharTest — which characters a test accepts.

  When case is passed over, a literal accepts every character with the same lower case, and those whose
  lower case shares its upper case. A set is then asked about the lower case of a character and holds the
  lower cases of its members; beyond the Basic Multilingual Plane a single member is taken as written, and a
  range also accepts characters whose upper case is in it. A set none of whose members has case is asked about
  the character itself.
-/

import Curried.Regex.Pattern
import Curried.Text.Blank
import Curried.Text.Case
import Curried.Text.Digit
import Curried.Text.Word

namespace Curried.Regex

/-- The last code point of the Basic Multilingual Plane. -/
def lastBasic : Nat := 0xffff

namespace Folding

def lower : Folding → Nat → Nat
  | .exact, n => n
  | .ascii, n => Text.asciiLowerCode n
  | .full, n => Text.lowerCode n

def isCased : Folding → Nat → Bool
  | .exact, _ => false
  | .ascii, n => Text.isAsciiCased n
  | .full, n => Text.isCased n

/-- The lower-case code points taken for the same as a lower-case one. -/
def partners : Folding → Nat → List Nat
  | .full, n => Text.foldPartners n
  | _, n => [n]

/-- The code points whose lower case is `n`. -/
def raised (f : Folding) (n : Nat) : List Nat :=
  let others := Text.caseRuns.filterMap fun r =>
    let upper := ((n : Int) - r.shift).toNat
    if r.covers upper then some upper else none
  (n :: others).filter (f.lower · == n)

end Folding

def Category.holds (asciiOnly : Bool) (n : Nat) : Category → Bool
  | .digit => if asciiOnly then 48 ≤ n && n ≤ 57 else Text.isDigit (Char.ofNat n)
  | .space => if asciiOnly then n == 32 || (9 ≤ n && n ≤ 13) else Text.isBlankCode n
  | .word => if asciiOnly then Text.isAsciiWordCode n else Text.isWordCode n

namespace SetItem

/-- Whether case matters to a member: always so beyond the Basic Multilingual Plane. -/
def isCased (f : Folding) : SetItem → Bool
  | .code n => f.isCased n || n > lastBasic
  | .range low high =>
    high > lastBasic || (List.range (high + 1 - low)).any fun i => f.isCased (low + i)
  | .category _ _ => false

def holds (asciiOnly : Bool) (n : Nat) : SetItem → Bool
  | .code m => n == m
  | .range low high => low ≤ n && n ≤ high
  | .category c negated => c.holds asciiOnly n != negated

/-- Whether a member accepts a lower-case code point when case is passed over. -/
def holdsFolded (f : Folding) (asciiOnly : Bool) (n : Nat) : SetItem → Bool
  | .code m => if m > lastBasic then n == m else (f.partners (f.lower m)).contains n
  | .range low high =>
    let basic := (f.partners n).any fun p =>
      (f.raised p).any fun m => low ≤ m && m ≤ high && m ≤ lastBasic
    let upper := Text.upperCode n
    basic || (high > lastBasic && ((low ≤ n && n ≤ high) || (low ≤ upper && upper ≤ high)))
  | .category c negated => c.holds asciiOnly n != negated

end SetItem

namespace CharTest

/-- A test for a literal. Case is passed over only if the literal has case. -/
def ofCode (f : Folding) (code : Nat) (negated : Bool) : CharTest :=
  .literal code negated (if f.isCased code then f else .exact)

/-- A test for a set. Case is passed over only if some member has case. -/
def ofItems (f : Folding) (asciiOnly : Bool) (items : List SetItem) (negated : Bool) : CharTest :=
  .oneOf items negated (if f != .exact && items.any (·.isCased f) then f else .exact) asciiOnly

def holds (c : Char) : CharTest → Bool
  | .any acrossLines => acrossLines || c != '\n'
  | .literal m negated f =>
    let same := match f with
      | .exact => c.toNat == m
      | f => (f.partners (f.lower m)).contains (f.lower c.toNat)
    same != negated
  | .oneOf items negated f asciiOnly =>
    let inside := match f with
      | .exact => items.any (·.holds asciiOnly c.toNat)
      | f => items.any (·.holdsFolded f asciiOnly (f.lower c.toNat))
    inside != negated

end CharTest

end Curried.Regex
