/-
  Curried.Text.Blank — white space and lines.

  White space is what Unicode calls so together with the four information separators. Stripping takes
  it from both ends of a text. Input is read line by line: a line ends after a line feed, and
  `joinNewlines` first turns every other way of ending a line into one.
-/

namespace Curried.Text

def isBlankCode (n : Nat) : Bool :=
  (9 ≤ n && n ≤ 13) || (28 ≤ n && n ≤ 32) || n == 0x85 || n == 0xa0 || n == 0x1680 ||
  (0x2000 ≤ n && n ≤ 0x200a) || n == 0x2028 || n == 0x2029 || n == 0x202f || n == 0x205f ||
  n == 0x3000

def isBlank (c : Char) : Bool := isBlankCode c.toNat

/-- Drop what satisfies `p` from the end. -/
def dropEnd (p : Char → Bool) (cs : List Char) : List Char :=
  ((cs.reverse).dropWhile p).reverse

/-- Drop white space from both ends. -/
def strip (cs : List Char) : List Char := dropEnd isBlank (cs.dropWhile isBlank)

/-- Carriage returns, alone or before a line feed, become line feeds. -/
def joinNewlines : List Char → List Char
  | [] => []
  | '\r' :: '\n' :: cs => '\n' :: joinNewlines cs
  | c :: cs => (if c = '\r' then '\n' else c) :: joinNewlines cs

/-- The first line with its line feed, and the rest. -/
def takeLine : List Char → List Char × List Char
  | [] => ([], [])
  | c :: cs => if c = '\n' then ([c], cs) else
    let (line, rest) := takeLine cs
    (c :: line, rest)

/-- The pieces of a text between line feeds: one more than there are line feeds. -/
def lines : List Char → List (List Char)
  | [] => [[]]
  | c :: cs =>
    if c = '\n' then [] :: lines cs
    else match lines cs with
      | [] => [[c]]
      | line :: rest => (c :: line) :: rest

end Curried.Text
