/-
  Curried.Regex.Set — bracketed sets and repetition signs.
-/

import Curried.Decimal.Reader
import Curried.Regex.Escape

namespace Curried.Regex.Reader

/-! ## Sets -/

def setMember (u : Piece) : Reader SetItem :=
  match u with
  | .plain c => return .code c.toNat
  | .escape c => setEscape c

def badRange {α : Type} (low high : Piece) : Reader α :=
  failBack (.badRange (String.ofList low.text) (String.ofList high.text)) (low.length + 1 + high.length)

/-- The members of a set opened at `start`, up to its bracket. A bracket that comes first is a member. -/
def setItems (start : Nat) : Nat → List SetItem → Reader (List SetItem)
  | 0, items => return items
  | fuel + 1, items => do
    match ← take with
    | none => fail .unterminatedSet start
    | some low =>
      if low = .plain ']' && !items.isEmpty then return items
      else
        let item ← setMember low
        if ← accept '-' then
          match ← take with
          | none => fail .unterminatedSet start
          | some high =>
            if high = .plain ']' then return items ++ [item, .code '-'.toNat]
            else
              match item, ← setMember high with
              | .code m, .code n =>
                if n < m then badRange low high else setItems start fuel (items ++ [.range m n])
              | _, _ => badRange low high
        else setItems start fuel (items ++ [item])

/-- A set, after its opening bracket at `start`. One member alone is a literal. -/
def set (f : Flags) (start : Nat) : Reader Pattern := do
  let negated ← accept '^'
  let items ← setItems start ((← remaining) + 1) []
  match items.eraseDups with
  | [.code n] => return .char (.ofCode f.folding n negated)
  | items => return .char (.ofItems f.folding f.ascii items negated)

/-! ## Repetition -/

/-- Counts from this on cannot be asked for. -/
def countLimit : Nat := 4294967295

def readCount (digits : List Char) : Reader Nat := do
  if digits.length > Decimal.maxIntegerDigits then throw (.tooManyDigits digits.length)
  else
    let n := Text.readDigits digits
    if n ≥ countLimit then throw .countTooLarge else return n

/-- The counts of a repetition sign that ends at `start`; a brace that starts no counts gives none. -/
def counts (sign : Char) (start : Nat) : Reader (Option (Nat × Option Nat)) := do
  match sign with
  | '?' => return some (0, some 1)
  | '*' => return some (0, none)
  | '+' => return some (1, none)
  | _ =>
    if ← sees '\x7d' then return none
    else
      let low ← takeWhile isAsciiDigit (← remaining)
      let high ← if ← accept ',' then takeWhile isAsciiDigit (← remaining) else pure low
      if !(← accept '\x7d') then
        seek start
        return none
      else
        let least ← if low.isEmpty then pure 0 else readCount low
        if high.isEmpty then return some (least, none)
        else
          let most ← readCount high
          if most < least then fail .leastAboveMost start else return some (least, some most)

/-- Repeat the last of the items read, which are in reverse. -/
def repeatLast (items : List Pattern) (start least : Nat) (most : Option Nat) : Reader (List Pattern) := do
  match items with
  | [] | .anchor _ :: _ => fail .nothingToRepeat (start - 1)
  | .repeated _ _ _ _ :: _ => fail .multipleRepeat (start - 1)
  | p :: rest =>
    if ← accept '?' then return .repeated least most .lazily p :: rest
    else if ← accept '+' then return .repeated least most .possessive p :: rest
    else return .repeated least most .greedy p :: rest

end Curried.Regex.Reader
