/-
  Curried.Text.Similarity — how alike two words are, to suggest what was meant.

  The longest block that two words share is taken out, and what is left of it and right of it is compared the same
  way. The share of both words that all blocks cover, between 0 and 1, is their likeness.
-/

namespace Curried.Text

/-- The length of the start that two words share. -/
def commonStart : List Char → List Char → Nat
  | a :: as, b :: bs => if a == b then commonStart as bs + 1 else 0
  | _, _ => 0

/-- A block that two words share: where it starts in each, and how long it is. -/
structure Block where
  left : Nat
  right : Nat
  length : Nat
  deriving DecidableEq, Repr

/-- The longest block; of several the one that starts first on the left, then on the right. -/
def longestBlock (as bs : List Char) : Block :=
  let starts := (List.range as.length).flatMap fun i => (List.range bs.length).map fun j => (i, j)
  starts.foldl (fun best (i, j) =>
    let n := commonStart (as.drop i) (bs.drop j)
    if best.length < n then ⟨i, j, n⟩ else best) ⟨0, 0, 0⟩

/-- How many characters the shared blocks have, for a left word of at most `fuel` characters. -/
def sharedWithin : Nat → List Char → List Char → Nat
  | 0, _, _ => 0
  | fuel + 1, as, bs =>
    let b := longestBlock as bs
    if b.length = 0 then 0
    else
      b.length + sharedWithin fuel (as.take b.left) (bs.take b.right) +
        sharedWithin fuel (as.drop (b.left + b.length)) (bs.drop (b.right + b.length))

/-- A candidate with the characters it shares with a word, and the characters both have. -/
structure Likeness where
  candidate : String
  shared : Nat
  total : Nat
  deriving DecidableEq, Repr

namespace Likeness

def of (word candidate : String) : Likeness :=
  let as := candidate.toList
  let bs := word.toList
  ⟨candidate, sharedWithin as.length as bs, as.length + bs.length⟩

/-- Three fifths of both words are shared. -/
def isClose (l : Likeness) : Bool := 3 * l.total ≤ 10 * l.shared

/-- The closer one comes first, of equally close ones the later in the alphabet. -/
def comesBefore (l m : Likeness) : Bool :=
  let mine := l.shared * m.total
  let theirs := m.shared * l.total
  theirs < mine || (mine == theirs && m.candidate ≤ l.candidate)

end Likeness

/-- The three candidates closest to a word among those that are close at all, in alphabetical order. -/
def closest (word : String) (candidates : List String) : List String :=
  let close := (candidates.map (Likeness.of word)).filter (·.isClose)
  (((close.mergeSort Likeness.comesBefore).take 3).map (·.candidate)).mergeSort (· ≤ ·)

end Curried.Text
