/-
  Curried.Regex.Matcher — matching a pattern against a text.

  A pattern is run at a state with a continuation that says whether the rest of the match can go on from where
  the pattern ends. Choices are tried in order, and the first way that the continuation accepts is the match;
  so a failed continuation goes back to the latest choice. What is atomic, possessive or a look-around is run
  with a continuation that accepts everything, which forgets its choices.

  A repetition may match nothing once more after its least count, but an optional round that took no characters
  is not followed by another one. Hence the number of rounds is at most the least count and two more than the
  length of the text, which is the fuel of the loops.
-/

import Curried.Regex.CharTest

namespace Curried.Regex

/-- Where a group was last entered and left. -/
structure Mark where
  entered : Option Nat := none
  left : Option Nat := none
  deriving DecidableEq, Repr

/-- The part of the text a group has matched. -/
def Mark.span? (m : Mark) : Option (Nat × Nat) :=
  match m.entered, m.left with
  | some i, some j => if i ≤ j then some (i, j) else none
  | _, _ => none

structure State where
  position : Nat
  /-- The marks of the groups, the first group first. -/
  marks : Array Mark
  deriving Repr

namespace State

def moveTo (s : State) (position : Nat) : State := { s with position }

def mark (s : State) (index : Nat) : Mark := s.marks.getD (index - 1) {}

def enter (s : State) (index : Nat) : State :=
  { s with marks := s.marks.setIfInBounds (index - 1) { s.mark index with entered := some s.position } }

def leave (s : State) (index : Nat) : State :=
  { s with marks := s.marks.setIfInBounds (index - 1) { s.mark index with left := some s.position } }

end State

/-- Whether and how a match goes on. -/
abbrev Rest := State → Option State

/-- A pattern as what it does. -/
abbrev Step := State → Rest → Option State

def isWordAt (text : Array Char) (asciiOnly : Bool) (i : Nat) : Bool :=
  match text[i]? with
  | some c => Category.word.holds asciiOnly c.toNat
  | none => false

def Anchor.holds (text : Array Char) (i : Nat) : Anchor → Bool
  | .textStart => i == 0
  | .lineStart => i == 0 || text[i - 1]? == some '\n'
  | .textEnd => i == text.size
  | .lastLineEnd => i == text.size || (i + 1 == text.size && text[i]? == some '\n')
  | .lineEnd => i == text.size || text[i]? == some '\n'
  | .wordBoundary asciiOnly negated =>
    let before := i != 0 && isWordAt text asciiOnly (i - 1)
    !text.isEmpty && (before != isWordAt text asciiOnly i) != negated

/-- Rounds of `body`, as many as possible first. `last` is where the latest optional round began. -/
def greedily (body : Step) (least : Nat) (most : Option Nat) :
    Nat → Nat → Option Nat → State → Rest → Option State
  | 0, _, _, _, _ => none
  | fuel + 1, count, last, s, rest =>
    if count < least then
      body s fun s => greedily body least most fuel (count + 1) last s rest
    else
      let another := most.all (count < ·) && last != some s.position
      let longer := if another then
          body s fun s' => greedily body least most fuel (count + 1) (some s.position) s' rest
        else none
      match longer with
      | some found => some found
      | none => rest s

/-- Rounds of `body`, as few as possible first. -/
def lazily (body : Step) (least : Nat) (most : Option Nat) :
    Nat → Nat → Option Nat → State → Rest → Option State
  | 0, _, _, _, _ => none
  | fuel + 1, count, last, s, rest =>
    if count < least then
      body s fun s => lazily body least most fuel (count + 1) last s rest
    else
      match rest s with
      | some found => some found
      | none =>
        if most.all (count < ·) && last != some s.position then
          body s fun s' => lazily body least most fuel (count + 1) (some s.position) s' rest
        else none

/-- Rounds of `body`, as many as there are, each matched once and for all. -/
def possessively (body : Step) (least : Nat) (most : Option Nat) : Nat → Nat → State → Option State
  | 0, _, s => some s
  | fuel + 1, count, s =>
    if most.all (count < ·) then
      match body s some with
      | some s' =>
        if s'.position == s.position && least ≤ count then some s'
        else possessively body least most fuel (count + 1) s'
      | none => if count < least then none else some s
    else some s

/-- Match the text between `i` and `j` again. -/
def again (text : Array Char) (f : Folding) (i j : Nat) (s : State) : Option State :=
  let same := (List.range (j - i)).all fun k =>
    match text[i + k]?, text[s.position + k]? with
    | some c, some d => f.lower c.toNat == f.lower d.toNat
    | _, _ => false
  if same then some (s.moveTo (s.position + (j - i))) else none

def Pattern.run (text : Array Char) : Pattern → Step
  | .empty => fun s rest => rest s
  | .char test => fun s rest =>
    match text[s.position]? with
    | some c => if test.holds c then rest (s.moveTo (s.position + 1)) else none
    | none => none
  | .anchor a => fun s rest => if a.holds text s.position then rest s else none
  | .seq p q => fun s rest => p.run text s fun s => q.run text s rest
  | .alt p q => fun s rest =>
    match p.run text s rest with
    | some found => some found
    | none => q.run text s rest
  | .repeated least most e p => fun s rest =>
    let fuel := least + text.size + 3
    match e with
    | .greedy => greedily (p.run text) least most fuel 0 none s rest
    | .lazily => lazily (p.run text) least most fuel 0 none s rest
    | .possessive => (possessively (p.run text) least most fuel 0 s).bind rest
  | .group none p => p.run text
  | .group (some index) p => fun s rest => p.run text (s.enter index) fun s => rest (s.leave index)
  | .atomic p => fun s rest => (p.run text s some).bind rest
  | .lookAhead negated p => fun s rest =>
    match p.run text s some, negated with
    | some s', false => rest (s'.moveTo s.position)
    | none, true => rest s
    | _, _ => none
  | .lookBehind negated w p => fun s rest =>
    let found := if w.least ≤ s.position then p.run text (s.moveTo (s.position - w.least)) some else none
    match found, negated with
    | some s', false => rest (s'.moveTo s.position)
    | none, true => rest s
    | _, _ => none
  | .backReference index _ f => fun s rest =>
    match (s.mark index).span? with
    | some (i, j) => (again text f i j s).bind rest
    | none => none
  | .conditional index yes no => fun s rest =>
    if (s.mark index).span?.isSome then yes.run text s rest
    else match no with
      | some no => no.run text s rest
      | none => rest s

end Curried.Regex
