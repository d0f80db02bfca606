/-
  Curried.Regex.Pattern — the tree of a regular expression.

  Flags are settled while the expression is read, so each node says by itself what it accepts: whether case
  counts, whether classes are ASCII, whether an anchor looks at lines. A back reference and a look-behind
  keep the width known when they were read.
-/

namespace Curried.Regex

/-- The fewest and the most characters a pattern can take. -/
structure Width where
  least : Nat
  most : Nat
  deriving DecidableEq, Repr

/-- Widths are counted up to this and not beyond. -/
def Width.limit : Nat := Nat.pow 2 64

namespace Width

def none : Width := ⟨0, 0⟩

def one : Width := ⟨1, 1⟩

def capped (w : Width) : Width := ⟨min w.least limit, min w.most limit⟩

def add (v w : Width) : Width := capped ⟨v.least + w.least, v.most + w.most⟩

def either (v w : Width) : Width := ⟨min v.least w.least, max v.most w.most⟩

def times (w : Width) (least : Nat) (most : Option Nat) : Width :=
  capped ⟨w.least * least, match most with
    | some n => w.most * n
    | .none => if w.most == 0 then 0 else limit⟩

end Width

/-- How case is passed over. -/
inductive Folding where
  | exact
  | ascii
  | full
  deriving DecidableEq, Repr

inductive Category where
  | digit
  | space
  | word
  deriving DecidableEq, Repr

/-- A member of a bracketed set, by code points. -/
inductive SetItem where
  | code (n : Nat)
  | range (low high : Nat)
  | category (c : Category) (negated : Bool)
  deriving DecidableEq, Repr

/-- A test of one character. -/
inductive CharTest where
  | any (acrossLines : Bool)
  | literal (code : Nat) (negated : Bool) (folding : Folding)
  | oneOf (items : List SetItem) (negated : Bool) (folding : Folding) (asciiOnly : Bool)
  deriving Repr

/-- A test of a place between characters. -/
inductive Anchor where
  | textStart
  | lineStart
  | textEnd
  /-- The end of the text, or before a line feed that ends it. -/
  | lastLineEnd
  | lineEnd
  | wordBoundary (asciiOnly negated : Bool)
  deriving DecidableEq, Repr

/-- Which number of repetitions is tried first, and whether others are tried at all. -/
inductive Eagerness where
  | greedy
  | lazily
  | possessive
  deriving DecidableEq, Repr

inductive Pattern where
  | empty
  | char (test : CharTest)
  | anchor (a : Anchor)
  | seq (first second : Pattern)
  | alt (first second : Pattern)
  | repeated (least : Nat) (most : Option Nat) (eagerness : Eagerness) (body : Pattern)
  | group (index : Option Nat) (body : Pattern)
  | atomic (body : Pattern)
  | lookAhead (negated : Bool) (body : Pattern)
  | lookBehind (negated : Bool) (width : Width) (body : Pattern)
  | backReference (index : Nat) (width : Width) (folding : Folding)
  /-- `yes` when the group has matched, else `no`. -/
  | conditional (index : Nat) (yes : Pattern) (no : Option Pattern)

namespace Pattern

def ofList : List Pattern → Pattern
  | [] => empty
  | [p] => p
  | p :: ps => seq p (ofList ps)

def width : Pattern → Width
  | empty | anchor _ | lookAhead _ _ | lookBehind _ _ _ => Width.none
  | char _ => Width.one
  | seq p q => p.width.add q.width
  | alt p q => p.width.either q.width
  | repeated least most _ p => p.width.times least most
  | group _ p => p.width
  | atomic p => p.width
  | backReference _ w _ => w
  | conditional _ yes no =>
    match no with
    | some no => yes.width.either no.width
    | none => ⟨0, yes.width.most⟩

end Pattern

end Curried.Regex
