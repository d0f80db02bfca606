/-
  Curried.Text.Style — colours in text.

  A style starts with an escape sequence and ends with the one that resets. `plain` takes such sequences out of
  a text: escape, bracket, then digits, semicolons and question marks, then a letter.
-/

namespace Curried.Text

inductive Style where
  | bold
  | red
  | yellow
  | grey
  deriving DecidableEq, Repr

def Style.code : Style → Nat
  | .bold => 1
  | .red => 31
  | .yellow => 33
  | .grey => 90

def escapeMark : Char := Char.ofNat 27

def Style.apply (s : Style) (text : String) : String :=
  s!"{escapeMark}[{s.code}m{text}{escapeMark}[0m"

def isStyleParameter (c : Char) : Bool := c.isDigit || c == ';' || c == '?'

/-- What follows the escape sequence that starts a text, if one does. -/
def afterSequence? : List Char → Option (List Char)
  | c :: '[' :: cs =>
    if c == escapeMark then
      match cs.dropWhile isStyleParameter with
      | d :: rest => if d.isAlpha then some rest else none
      | [] => none
    else none
  | _ => none

/-- Take escape sequences out of a text of at most `fuel` characters. -/
def plainFrom : Nat → List Char → List Char
  | 0, cs => cs
  | _ + 1, [] => []
  | fuel + 1, c :: cs =>
    match afterSequence? (c :: cs) with
    | some rest => plainFrom fuel rest
    | none => c :: plainFrom fuel cs

def plain (text : String) : String :=
  let cs := text.toList
  String.ofList (plainFrom cs.length cs)

end Curried.Text
