/-
  Curried.Regex.Replacement — what a match is replaced with.

  In a replacement `$n` and `$` with a name in braces stand for groups, and a backslash takes the next
  character as it is. A number after `$` takes further digits while it still names a group.
-/

import Curried.Regex

namespace Curried.Regex

/-- Literal text, or what a group has matched. -/
inductive Part where
  | text (s : String)
  | group (index : Nat)
  deriving DecidableEq, Repr

inductive TemplateError where
  | trailingBackslash
  | unclosedName
  | noGroupNamed (name : String)
  | noGroup (index : Nat)
  | badReference
  deriving DecidableEq, Repr

def TemplateError.message : TemplateError → String
  | .trailingBackslash => "Invalid replacement: trailing backslash"
  | .unclosedName => "Invalid replacement: missing '\x7d' after '$\x7b'"
  | .noGroupNamed n => s!"Invalid replacement: no group named '{n}'"
  | .noGroup n => s!"Invalid replacement: no group {n}"
  | .badReference =>
    "Invalid replacement: '$' must be followed by a group number or \x7bname\x7d"

namespace Template

/-- Literal characters gathered so far, in reverse, as a part of their own. -/
def flush (literal : List Char) (parts : List Part) : List Part :=
  if literal.isEmpty then parts else .text (String.ofList literal.reverse) :: parts

def asciiDigit? (c : Char) : Option Nat :=
  if '0' ≤ c && c ≤ '9' then some (c.toNat - '0'.toNat) else none

/-- Take further digits into a group number while it stays at most `groups`. -/
def growIndex (groups : Nat) : Nat → List Char → Nat × List Char
  | index, [] => (index, [])
  | index, c :: cs =>
    match asciiDigit? c with
    | some d => if index * 10 + d ≤ groups then growIndex groups (index * 10 + d) cs else (index, c :: cs)
    | none => (index, c :: cs)

/-- A group reference, after its `$`: the group and what follows. -/
def reference (p : Program) : List Char → Except TemplateError (Nat × List Char)
  | '\x7b' :: cs =>
    match cs.span (· != '\x7d') with
    | (_, []) => .error .unclosedName
    | (name, _ :: rest) =>
      match p.names.find? (·.1 == String.ofList name) with
      | some (_, index) => .ok (index, rest)
      | none => .error (.noGroupNamed (String.ofList name))
  | c :: cs =>
    match asciiDigit? c with
    | some d => if d ≤ p.groups then .ok (growIndex p.groups d cs) else .error (.noGroup d)
    | none => .error .badReference
  | [] => .error .badReference

/-- Read a replacement, with the literal characters and the parts before it in reverse. Each step takes a
character, so `fuel` characters are read at most. -/
def readFrom (p : Program) : Nat → List Char → List Part → List Char → Except TemplateError (List Part)
  | 0, literal, parts, _ => .ok (flush literal parts).reverse
  | _ + 1, literal, parts, [] => .ok (flush literal parts).reverse
  | fuel + 1, literal, parts, c :: cs =>
    if c == '\\' then
      match cs with
      | [] => .error .trailingBackslash
      | d :: rest => readFrom p fuel (d :: literal) parts rest
    else if c == '$' then
      match reference p cs with
      | .ok (index, rest) => readFrom p fuel [] (.group index :: flush literal parts) rest
      | .error e => .error e
    else readFrom p fuel (c :: literal) parts cs

/-- The parts of a replacement for matches of a program. -/
def read (p : Program) (template : String) : Except TemplateError (List Part) :=
  let cs := template.toList
  readFrom p (cs.length + 1) [] [] cs

/-- The text that a part stands for in a match; a group that took no part stands for nothing. -/
def expandPart (text : Array Char) (m : Match) : Part → Except Crash String
  | .text s => .ok s
  | .group index => do
    match ← m.group index with
    | some (start, stop) => return slice text start stop
    | none => return ""

def expand (text : Array Char) (parts : List Part) (m : Match) : Except Crash String :=
  (parts.mapM (expandPart text m)).map String.join

end Template

/-- Replace every match. -/
def substitute (r : Regex) (parts : List Part) (text : String) : Except Crash String :=
  let cs := text.toList.toArray
  (replacedFrom cs (Template.expand cs parts) 0 (r.findAll cs)).map String.join

end Curried.Regex
