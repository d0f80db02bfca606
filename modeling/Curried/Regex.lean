/-
  Curried.Regex — regular expressions and the matches they find.

  A regex is a source together with the program read from it, so two regexes with one source are equal.
  Matches are found from left to right and do not overlap. The next search starts where the last match ended;
  after an empty match it has to take a character if it matches right there, so an empty match may follow a
  match that took characters but not an empty one at the same place.
-/

import Curried.Crash
import Curried.Regex.Matcher
import Curried.Regex.Program

namespace Curried

structure Regex where
  source : String
  program : Regex.Program
  read : Regex.Program.read source = .ok program

namespace Regex

def compile (source : String) : Except Failure Regex :=
  match h : Program.read source with
  | .ok program => .ok ⟨source, program, h⟩
  | .error e => .error e

/-- A way to make regexes of sources. -/
abbrev Compiler := String → Except Failure Regex

theorem ext_source {r s : Regex} (h : r.source = s.source) : r = s := by
  obtain ⟨a, p, hp⟩ := r
  obtain ⟨b, q, hq⟩ := s
  simp only at h
  subst h
  rw [hp] at hq
  cases hq
  rfl

instance : DecidableEq Regex := fun r s =>
  if h : r.source = s.source then isTrue (ext_source h)
  else isFalse fun e => h (congrArg source e)

/-- A match: the part of the text it takes, and those its groups take. -/
structure Match where
  start : Nat
  stop : Nat
  groups : List (Option (Nat × Nat))
  deriving DecidableEq, Repr

/-- The part of the text that a group takes, if it took part; group 0 is the whole match. -/
def Match.group (m : Match) : Nat → Except Crash (Option (Nat × Nat))
  | 0 => .ok (some (m.start, m.stop))
  | index + 1 =>
    match m.groups[index]? with
    | some span => .ok span
    | none => .error ⟨"IndexError", "no such group"⟩

def Program.initial (p : Program) (position : Nat) : State := ⟨position, Array.replicate p.groups {}⟩

/-- The first way to match at a place that `accept` agrees to. -/
def matchAt (r : Regex) (text : Array Char) (start : Nat) (accept : State → Bool) : Option Match :=
  let found := r.program.body.run text (r.program.initial start) fun s => if accept s then some s else none
  found.map fun s => ⟨start, s.position, s.marks.toList.map Mark.span?⟩

/-- Whether the whole text matches. -/
def matchesAll (r : Regex) (text : String) : Bool :=
  let cs := text.toList.toArray
  (r.matchAt cs 0 fun s => s.position == cs.size).isSome

/-- The first match at `start` or after; if `advance`, a match at `start` has to take a character. -/
def search (r : Regex) (text : Array Char) : Nat → Nat → Bool → Option Match
  | 0, _, _ => none
  | fuel + 1, start, advance =>
    match r.matchAt text start fun s => !advance || s.position != start with
    | some m => some m
    | none => if start < text.size then search r text fuel (start + 1) false else none

/-- All matches from `start` on. -/
def matchesFrom (r : Regex) (text : Array Char) : Nat → Nat → Bool → List Match
  | 0, _, _ => []
  | fuel + 1, start, advance =>
    match r.search text (text.size + 1 - start) start advance with
    | none => []
    | some m => m :: matchesFrom r text fuel m.stop (m.stop == m.start)

/-- The successive matches in a text. Two matches in a row take a character or move on, so there are at most
two for each place. -/
def findAll (r : Regex) (text : Array Char) : List Match :=
  r.matchesFrom text (2 * text.size + 2) 0 false

/-- The text between two places. -/
def slice (text : Array Char) (start stop : Nat) : String :=
  String.ofList (text.extract start stop).toList

/-- The pieces of a text around matches in it, from `start` on. -/
def piecesFrom (text : Array Char) : Nat → List Match → List String
  | start, [] => [slice text start text.size]
  | start, m :: ms => slice text start m.start :: piecesFrom text m.stop ms

/-- The pieces of a text between the matches. -/
def split (r : Regex) (text : String) : List String :=
  let cs := text.toList.toArray
  piecesFrom cs 0 (r.findAll cs)

/-- The pieces of a text and what its matches become, in turn, from `start` on. -/
def replacedFrom (text : Array Char) (expand : Match → Except Crash String) :
    Nat → List Match → Except Crash (List String)
  | start, [] => .ok [slice text start text.size]
  | start, m :: ms => do
    let expansion ← expand m
    let rest ← replacedFrom text expand m.stop ms
    return slice text start m.start :: expansion :: rest

end Regex

end Curried
