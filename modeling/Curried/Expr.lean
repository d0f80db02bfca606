/-
  Curried.Expr — the expressions of the language.

  Every expression has a position: that of its own token, of its operator, or of its first part. Operators
  are kept by their symbol's meaning; a tree that was not read from a text may hold operators the language
  does not know (`unknown`) and a form without meaning (`strange`).
-/

import Curried.Token

namespace Curried

inductive BinaryOp where
  | add | sub | mul | div
  | eq | neq | lt | lte | gt | gte
  | and | or
  | compose | concat
  | unknown (symbol : String)
  deriving DecidableEq, Repr

def BinaryOp.symbol : BinaryOp → String
  | .add => "+"
  | .sub => "-"
  | .mul => "*"
  | .div => "/"
  | .eq => "="
  | .neq => "!="
  | .lt => "<"
  | .lte => "<="
  | .gt => ">"
  | .gte => ">="
  | .and => "&&"
  | .or => "||"
  | .compose => "."
  | .concat => ".."
  | .unknown s => s

/-- The name that an operator is looked up by when it runs. -/
def BinaryOp.builtin? : BinaryOp → Option String
  | .add => some "add"
  | .sub => some "sub"
  | .mul => some "mul"
  | .div => some "div"
  | .eq => some "eq"
  | .neq => some "neq"
  | .lt => some "lt"
  | .lte => some "lte"
  | .gt => some "gt"
  | .gte => some "gte"
  | .and => some "and"
  | .or => some "or"
  | .compose => some "compose"
  | .concat => some "concat"
  | .unknown _ => none

def BinaryOp.all : List BinaryOp :=
  [.add, .sub, .mul, .div, .eq, .neq, .lt, .lte, .gt, .gte, .and, .or, .compose, .concat]

/-- The operator written with a symbol. -/
def BinaryOp.ofSymbol (s : String) : BinaryOp :=
  (BinaryOp.all.find? (·.symbol == s)).getD (.unknown s)

inductive UnaryOp where
  | not | neg
  | unknown (symbol : String)
  deriving DecidableEq, Repr

def UnaryOp.symbol : UnaryOp → String
  | .not => "!"
  | .neg => "-"
  | .unknown s => s

def UnaryOp.builtin? : UnaryOp → Option String
  | .not => some "not"
  | .neg => some "neg"
  | .unknown _ => none

def UnaryOp.all : List UnaryOp := [.not, .neg]

def UnaryOp.ofSymbol (s : String) : UnaryOp :=
  (UnaryOp.all.find? (·.symbol == s)).getD (.unknown s)

/-- The names that operators are looked up by. -/
def operatorNames : List String :=
  BinaryOp.all.filterMap (·.builtin?) ++ UnaryOp.all.filterMap (·.builtin?)

inductive Expr where
  | number (p : Position) (value : Float)
  | string (p : Position) (text : String)
  | boolean (p : Position) (value : Bool)
  | nil (p : Position)
  | ref (p : Position) (name : String)
  | list (p : Position) (items : List Expr)
  | binary (p : Position) (op : BinaryOp) (left right : Expr)
  | unary (p : Position) (op : UnaryOp) (operand : Expr)
  | call (p : Position) (callee : Expr) (args : List Expr)
  /-- `target :: value in next`. -/
  | assign (p : Position) (target value next : Expr)
  | sequence (p : Position) (first second : Expr)
  | branch (p : Position) (test yes no : Expr)
  /-- `let name :: value in body`, then the declaration chained to it. -/
  | binding (p : Position) (name : String) (value body : Expr) (next : Option Expr)
  /-- `fn name(params) :: body`, then the declaration chained to it. -/
  | function (p : Position) (name : Option String) (params : List String) (body : Expr)
      (next : Option Expr)
  /-- A form without meaning, named by its kind. -/
  | strange (p : Position) (kind : String)
  deriving Inhabited

namespace Expr

def position : Expr → Position
  | number p _ | string p _ | boolean p _ | nil p | ref p _ | list p _ | binary p _ _ _
  | unary p _ _ | call p _ _ | assign p _ _ _ | sequence p _ _ | branch p _ _ _
  | binding p _ _ _ _ | function p _ _ _ _ | strange p _ => p

end Expr

end Curried
