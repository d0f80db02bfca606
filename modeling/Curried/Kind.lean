/-
  Curried.Kind — the kinds of values, as messages name them.
-/

namespace Curried

inductive Kind where
  | number
  | string
  | bool
  | list
  | function
  | nil
  | regex
  deriving DecidableEq, Repr

def Kind.name : Kind → String
  | .number => "number"
  | .string => "string"
  | .bool => "bool"
  | .list => "list"
  | .function => "function"
  | .nil => "nil"
  | .regex => "regex"

end Curried
