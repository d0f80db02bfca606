/-
  Curried.Regex.Flags — what the letters in `(?i)` and `(?i:...)` turn on and off.
-/

import Curried.Regex.Pattern

namespace Curried.Regex

structure Flags where
  ascii : Bool := false
  ignoreCase : Bool := false
  multiline : Bool := false
  dotAll : Bool := false
  verbose : Bool := false
  template : Bool := false
  unicode : Bool := false
  deriving DecidableEq, Repr

namespace Flags

def ofLetter? : Char → Option Flags
  | 'a' => some { ascii := true }
  | 'i' => some { ignoreCase := true }
  | 'm' => some { multiline := true }
  | 's' => some { dotAll := true }
  | 'x' => some { verbose := true }
  | 't' => some { template := true }
  | 'u' => some { unicode := true }
  | _ => none

def union (f g : Flags) : Flags :=
  ⟨f.ascii || g.ascii, f.ignoreCase || g.ignoreCase, f.multiline || g.multiline, f.dotAll || g.dotAll,
   f.verbose || g.verbose, f.template || g.template, f.unicode || g.unicode⟩

def meets (f g : Flags) : Bool :=
  (f.ascii && g.ascii) || (f.ignoreCase && g.ignoreCase) || (f.multiline && g.multiline) ||
  (f.dotAll && g.dotAll) || (f.verbose && g.verbose) || (f.template && g.template) ||
  (f.unicode && g.unicode)

/-- The flags inside a group that turns some on and others off. -/
def within (f on off : Flags) : Flags :=
  { ascii := on.ascii || (f.ascii && !on.unicode)
    ignoreCase := (f.ignoreCase || on.ignoreCase) && !off.ignoreCase
    multiline := (f.multiline || on.multiline) && !off.multiline
    dotAll := (f.dotAll || on.dotAll) && !off.dotAll
    verbose := (f.verbose || on.verbose) && !off.verbose
    template := f.template
    unicode := f.unicode }

def folding (f : Flags) : Folding :=
  if f.ignoreCase then (if f.ascii then .ascii else .full) else .exact

end Flags

end Curried.Regex
