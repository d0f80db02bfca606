/-
  Curried.Builtin — the functions the language comes with.

  A native function is one of these or an extension that the embedding program supplies under a key.
-/

namespace Curried

inductive Builtin where
  | add | sub | mul | div | mod | neg
  | eq | neq | lt | gt | lte | gte
  | and | or | not | toBool
  | toNum | toStr
  | compose | global
  | nth | head | tail | len | map | foldl | foldr | filter | reduce | zip | zipWith
  | plus | minus | drop | take | slice | concat | reverse | sort | range
  | regex | fullMatch | replace | split | join
  | print | read
  deriving DecidableEq, Repr

/-- What a native function computes. -/
inductive Primitive where
  | standard (b : Builtin)
  | extension (key : String)
  deriving DecidableEq, Repr

end Curried
