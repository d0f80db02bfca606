/-
  Curried.Crash — failures of what programs are built from.

  An operation that has no result for some of what it may be given crashes there. Whoever uses it checks that it has
  one first, or hands the crash on.
-/

namespace Curried

/-- A failure with a kind and a text of its own. -/
structure Crash where
  kind : String
  text : String
  deriving DecidableEq, Repr

end Curried
