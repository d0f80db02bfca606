/-
  Curried.Regex.Program — an expression that has been read and can be run.

  What reading accepts may still be refused: a look-behind has to have one width.
-/

import Curried.Regex.Reader

namespace Curried.Regex

def Eagerness.operator : Eagerness → String
  | .greedy => "MAX_REPEAT"
  | .lazily => "MIN_REPEAT"
  | .possessive => "POSSESSIVE_REPEAT"

/-- Look-behinds reach back at most so far. -/
def reachLimit : Nat := 4294967295

/-- The first part that cannot be used: a repetition in a template, or a look-behind without a fixed width. -/
def Pattern.fault? (template : Bool) : Pattern → Option Cause
  | .empty | .char _ | .anchor _ | .backReference _ _ _ => none
  | .seq p q => (p.fault? template).or (q.fault? template)
  | .alt p q => (p.fault? template).or (q.fault? template)
  | .repeated _ _ e p => if template then some (.repeatInTemplate e.operator) else p.fault? template
  | .group _ p => p.fault? template
  | .atomic p => p.fault? template
  | .lookAhead _ p => p.fault? template
  | .lookBehind _ w p =>
    if w.least > reachLimit then some .looksTooFarBehind
    else if w.least != w.most then some .variableLookBehind
    else p.fault? template
  | .conditional _ yes no =>
    (yes.fault? template).or (match no with
      | some no => no.fault? template
      | none => none)

/-- A regular expression ready for matching. -/
structure Program where
  body : Pattern
  /-- How many groups can be referred to. -/
  groups : Nat
  names : List (String × Nat)

def Program.read (source : String) : Except Failure Program := do
  let cs := source.toList
  let (body, r) ← Reader.whole ⟨cs, cs, 0, {}, 1, [], [], none, []⟩
  match body.fault? r.flags.template with
  | some cause => throw (.refused ⟨cause, none⟩)
  | none => return ⟨body, r.groups - 1, r.names⟩

end Curried.Regex
