/-
  Curried.Library.Lists — lists taken apart and put together.

  Indices and counts are whole numbers; any other number is refused. A slice has both its ends.
-/

import Curried.Value

namespace Curried.Library

/-- The element at an index; a negative one counts from the end. -/
def itemAt (items : List Value) (i : Int) : Except Crash Value :=
  let place := if i < 0 then i + items.length else i
  match place, items[place.toNat]? with
  | .ofNat _, some v => .ok v
  | _, _ => .error ⟨"IndexError", "list index out of range"⟩

/-- An element by its index from 0. -/
def nth (index list : Value) : Except Fault Value := do
  let i ← index.asIndex "nth"
  let items ← list.asList "nth"
  if 0 ≤ i && i < items.length then Fault.attempt (itemAt items i)
  else throw (.of (.indexOutOfRange i items.length))

def head (list : Value) : Except Fault Value := do
  let items ← list.asList "head"
  if items.isEmpty then throw (.of .headOfEmpty)
  else Fault.attempt (itemAt items 0)

def tail (list : Value) : Except Fault Value := do
  let items ← list.asList "tail"
  return .list (items.drop 1)

/-- No list is so long that its length could not be converted. -/
def len (list : Value) : Except Fault Value := do
  let items ← list.asList "len"
  return .number (Number.ofInt items.length)

def plus (list item : Value) : Except Fault Value := do
  let items ← list.asList "plus"
  return .list (items ++ [item])

/-- The index, counted from `i`, of the first element equal to `item`. -/
def indexOf? (item : Value) : Nat → List Value → Except Fault (Option Nat)
  | _, [] => .ok none
  | i, v :: vs => do
    if ← v.equals item then return some i else indexOf? item (i + 1) vs

/-- A list without the first element equal to `item`. -/
def minus (list item : Value) : Except Fault Value := do
  let items ← list.asList "minus"
  match ← indexOf? item 0 items with
  | some i => return .list (items.eraseIdx i)
  | none => return .list items

/-- A whole number that is not negative. -/
def asCount (name : String) (v : Value) : Except Fault Nat := do
  match ← v.asIndex name with
  | .ofNat n => return n
  | .negSucc n => throw (.of (.negativeCount name (.negSucc n)))

def drop (list count : Value) : Except Fault Value := do
  let items ← list.asList "drop"
  let n ← asCount "drop" count
  return .list (items.drop n)

def take (list count : Value) : Except Fault Value := do
  let items ← list.asList "take"
  let n ← asCount "take" count
  return .list (items.take n)

/-- The elements from one index to another, both included; nothing if the second is the smaller. -/
def slice (list start stop : Value) : Except Fault Value := do
  let items ← list.asList "slice"
  let first ← start.asIndex "slice"
  let last ← stop.asIndex "slice"
  if last < first then return .list []
  else if first < 0 || last ≥ items.length then throw (.of (.sliceOutOfBounds first last items.length))
  else return .list ((items.drop first.toNat).take (last - first + 1).toNat)

/-- Append to a list, an element or all elements of another; anything else is joined as text. -/
def concat (a b : Value) : Except Fault Value := do
  match a with
  | .list items =>
    let _ ← b.kind
    match b with
    | .list more => return .list (items ++ more)
    | v => return .list (items ++ [v])
  | v =>
    let left ← v.render
    let right ← b.render
    return .string (left ++ right)

def reverse (list : Value) : Except Fault Value := do
  let items ← list.asList "reverse"
  return .list items.reverse

/-- An element of a list to be sorted, which has to be a number. -/
def sortable : Value → Except Fault Float
  | .number x => .ok x
  | v => do
    let kind ← v.kind
    throw (.of (.unsortable kind))

/-- Ascending; numbers that compare equal keep their order. -/
def sort (list : Value) : Except Fault Value := do
  let items ← list.asList "sort"
  let numbers ← items.mapM sortable
  return .list ((numbers.mergeSort fun x y => !(decide (y < x))).map .number)

/-- The whole numbers from one up to, and without, another. -/
def range (start stop : Value) : Except Fault Value := do
  let first ← start.asIndex "range"
  let last ← stop.asIndex "range"
  let count := (last - first).toNat
  let numbers ← (List.range count).mapM fun i : Nat => Fault.attempt (Number.ofInteger (first + i))
  return .list (numbers.map .number)

end Curried.Library
