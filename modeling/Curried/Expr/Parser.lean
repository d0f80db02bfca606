/-
  Curried.Expr.Parser — reading an expression from tokens.

  From loosest to tightest: `;`, pipes `.` and `..`, `||`, `&&`, equality, comparison, sums, products, the
  unary operators, assignment, calls. Pipes, logic and equality group to the left; sequences, comparisons,
  sums and products group to the right. Every optional or repeated part is taken whenever the next token is
  its first one, so each `in`, `and` and `end` belongs to the innermost construct that can take it.

  `sequence b` reads an expression that nests at most `b` deep; each bracket or construct inside it reads
  its parts with `b - 1`. `parse` allows as much nesting as there are tokens, which is never too little.
-/

import Curried.Expr
import Curried.Token.Lexer

namespace Curried

/-- What a parser was looking for when it met a token that is not it. -/
inductive Wanted where
  | expression
  | inAfterValue
  | closeAfterArguments
  | closeAfterExpression
  | closeAfterItems
  | declaration
  | letName
  | colonsAfterLetName
  | parameter
  | closeAfterParameters
  | colonsBeforeBody
  | thenAfterCondition
  | elseAfterBranch
  /-- Nothing: the program is complete before this token. -/
  | nothing
  deriving DecidableEq, Repr

def Wanted.text : Wanted → String
  | .expression => "Expected an expression"
  | .inAfterValue => "Expected 'in' after assigned value"
  | .closeAfterArguments => "Expected ')' after arguments"
  | .closeAfterExpression => "Expected ')' after expression"
  | .closeAfterItems => "Expected ']' after list items"
  | .declaration => "Expected 'let' or 'fn' after 'and'"
  | .letName => "Expected a name after 'let'"
  | .colonsAfterLetName => "Expected '::' after let name"
  | .parameter => "Expected a parameter name"
  | .closeAfterParameters => "Expected ')' after parameters"
  | .colonsBeforeBody => "Expected '::' before function body"
  | .thenAfterCondition => "Expected 'then' after condition"
  | .elseAfterBranch => "Expected 'else' after then-branch"
  | .nothing => "Expected nothing"

/-- The first token that cannot go on from what precedes it. -/
structure ParseError where
  wanted : Wanted
  token : Token
  deriving DecidableEq

def ParseError.message (e : ParseError) : String :=
  match e.wanted with
  | .nothing => s!"Unexpected token {e.token.lexeme.describe}"
  | w => s!"{w.text} but got {e.token.lexeme.describe}"

def ParseError.issue (e : ParseError) : Issue := ⟨e.message, some e.token.position, .fatal⟩

inductive ParseFailure where
  | lexical (e : LexError)
  | grammar (e : ParseError)
  /-- More nesting than allowed, noticed at a token. -/
  | nesting (p : Position)

abbrev Parser := StateT Tokens (Except ParseFailure)

namespace Parser

/-- The token the parser is looking at. -/
def peek : Parser Token := fun ts =>
  match ts.front, ts.ending with
  | t :: _, _ => .ok (t, ts)
  | [], .ok t => .ok (t, ts)
  | [], .error e => .error (.lexical e)

/-- Take the token the parser is looking at; the end of input stays. -/
def advance : Parser Unit := fun ts => .ok ((), ts.tail)

def unexpected {α : Type} (wanted : Wanted) : Parser α := do
  throw (.grammar ⟨wanted, ← peek⟩)

/-- Whether the next token is the given lexeme. -/
def sees (lexeme : Lexeme) : Parser Bool := do
  return (← peek).lexeme = lexeme

/-- Take the next token if it is the given lexeme. -/
def accept (lexeme : Lexeme) : Parser Bool := do
  if ← sees lexeme then
    advance
    return true
  else return false

def expect (lexeme : Lexeme) (wanted : Wanted) : Parser Unit := do
  if !(← accept lexeme) then unexpected wanted

def expectName (wanted : Wanted) : Parser String := do
  match (← peek).lexeme with
  | .name n =>
    advance
    return n
  | _ => unexpected wanted

/-- How many more tokens there are: a bound for every loop that takes one each time round. -/
def remaining : Parser Nat := fun ts => .ok (ts.size, ts)

/-! ## Lists -/

/-- `, item` as often as it comes. -/
def moreItems {α : Type} (item : Parser α) : Nat → Parser (List α)
  | 0 => return []
  | fuel + 1 => do
    if ← accept (.symbol .comma) then
      let x ← item
      let xs ← moreItems item fuel
      return x :: xs
    else return []

/-- Items with commas between them up to `close`, which is left for the caller. -/
def itemsUntil {α : Type} (item : Parser α) (close : Symbol) : Parser (List α) := do
  if ← sees (.symbol close) then return []
  else
    let x ← item
    let xs ← moreItems item (← remaining)
    return x :: xs

/-! ## Operators -/

inductive Grouping where
  | left
  | right
  deriving DecidableEq, Repr

/-- The binary operators of one tightness. -/
structure Level where
  grouping : Grouping
  operator? : Symbol → Option BinaryOp

/-- From loosest to tightest. -/
def levels : List Level :=
  [⟨.left, fun | .dot => some .compose | .dotDot => some .concat | _ => none⟩,
   ⟨.left, fun | .orOr => some .or | _ => none⟩,
   ⟨.left, fun | .andAnd => some .and | _ => none⟩,
   ⟨.left, fun | .equal => some .eq | .unequal => some .neq | _ => none⟩,
   ⟨.right, fun
     | .less => some .lt | .greater => some .gt | .lessEqual => some .lte | .greaterEqual => some .gte
     | _ => none⟩,
   ⟨.right, fun | .plus => some .add | .minus => some .sub | _ => none⟩,
   ⟨.right, fun | .times => some .mul | .divide => some .div | _ => none⟩]

/-- An operator with its position, and the operand after it. -/
structure Tail where
  op : BinaryOp
  position : Position
  operand : Expr

def operatorAt (operator? : Symbol → Option BinaryOp) (t : Token) : Option (BinaryOp × Position) :=
  match t.lexeme with
  | .symbol s => (operator? s).map (·, t.position)
  | _ => none

/-- Operators of one level with their operands, as often as they come. -/
def tails (operator? : Symbol → Option BinaryOp) (operand : Parser Expr) : Nat → Parser (List Tail)
  | 0 => return []
  | fuel + 1 => do
    match operatorAt operator? (← peek) with
    | none => return []
    | some (op, p) =>
      advance
      let x ← operand
      let rest ← tails operator? operand fuel
      return ⟨op, p, x⟩ :: rest

def groupLeft (first : Expr) (rest : List Tail) : Expr :=
  rest.foldl (fun left t => .binary t.position t.op left t.operand) first

def groupRight (first : Expr) : List Tail → Expr
  | [] => first
  | t :: rest => .binary t.position t.op first (groupRight t.operand rest)

def Grouping.apply : Grouping → Expr → List Tail → Expr
  | .left => groupLeft
  | .right => groupRight

/-- Operands with the operators of one level between them. -/
def Level.read (l : Level) (operand : Parser Expr) : Parser Expr := do
  let first ← operand
  let rest ← tails l.operator? operand (← remaining)
  return l.grouping.apply first rest

/-- All levels, around what is tighter than any of them. -/
def climb (operand : Parser Expr) : List Level → Parser Expr
  | [] => operand
  | l :: ls => l.read (climb operand ls)

def unaryAt (t : Token) : Option (UnaryOp × Position) :=
  match t.lexeme with
  | .symbol .bang => some (.not, t.position)
  | .symbol .minus => some (.neg, t.position)
  | _ => none

/-- Unary operators, as many as come, and the operand after them. -/
def unary (operand : Parser Expr) : Nat → Parser Expr
  | 0 => operand
  | fuel + 1 => do
    match unaryAt (← peek) with
    | none => operand
    | some (op, p) =>
      advance
      return .unary p op (← unary operand fuel)

/-- `; expression` as often as it comes, grouping to the right. -/
def sequenceTail (operand : Parser Expr) : Nat → Expr → Parser Expr
  | 0, first => return first
  | fuel + 1, first => do
    if ← accept (.symbol .semicolon) then
      let next ← operand
      return .sequence first.position first (← sequenceTail operand fuel next)
    else return first

/-! ## Constructs, given how to read the expressions inside them -/

variable (inner : Parser Expr)

def assignment (target : Parser Expr) : Parser Expr := do
  let target ← target
  if ← accept (.symbol .doubleColon) then
    let value ← inner
    expect (.keyword .inWord) .inAfterValue
    let next ← inner
    return .assign target.position target value next
  else return target

/-- Calls, as many as come, of what has been read. -/
def calls : Nat → Expr → Parser Expr
  | 0, callee => return callee
  | fuel + 1, callee => do
    if ← accept (.symbol .openParen) then
      let args ← itemsUntil inner .closeParen
      expect (.symbol .closeParen) .closeAfterArguments
      calls fuel (.call callee.position callee args)
    else return callee

def parameters : Parser (List String) := do
  if ← accept (.symbol .openParen) then
    let names ← itemsUntil (expectName .parameter) .closeParen
    expect (.symbol .closeParen) .closeAfterParameters
    return names
  else return []

def optionalName : Parser (Option String) := do
  match (← peek).lexeme with
  | .name n =>
    advance
    return some n
  | _ => return none

/-- The declaration chained with `and`, if there is one. -/
def chained (declaration : Parser Expr) : Parser (Option Expr) := do
  if ← accept (.keyword .andWord) then
    match (← peek).lexeme with
    | .keyword .letWord | .keyword .fnWord => return some (← declaration)
    | _ => unexpected .declaration
  else return none

/-- The rest of a `let` declaration, after its keyword at `p`. -/
def letRest (declaration : Parser Expr) (p : Position) : Parser Expr := do
  let name ← expectName .letName
  expect (.symbol .doubleColon) .colonsAfterLetName
  let value ← inner
  let body ← if ← accept (.keyword .inWord) then inner else pure (.nil value.position)
  return .binding p name value body (← chained declaration)

/-- The rest of a `fn` declaration, after its keyword at `p`. -/
def fnRest (declaration : Parser Expr) (p : Position) : Parser Expr := do
  let name ← optionalName
  let params ← parameters
  expect (.symbol .doubleColon) .colonsBeforeBody
  let body ← inner
  let next ← chained declaration
  let _ ← accept (.keyword .endWord)
  return .function p name params body next

/-- A declaration, which starts with `let` or `fn`, and those chained to it. -/
def declaration : Nat → Parser Expr
  | 0 => unexpected .declaration
  | fuel + 1 => do
    let token ← peek
    match token.lexeme with
    | .keyword .letWord =>
      advance
      letRest inner (declaration fuel) token.position
    | .keyword .fnWord =>
      advance
      fnRest inner (declaration fuel) token.position
    | _ => unexpected .declaration

/-- The rest of a conditional, after its keyword at `p`. -/
def branchRest (p : Position) : Parser Expr := do
  let test ← inner
  expect (.keyword .thenWord) .thenAfterCondition
  let yes ← inner
  expect (.keyword .elseWord) .elseAfterBranch
  let no ← inner
  return .branch p test yes no

/-- The rest of a parenthesis opened at `p`: nil when it closes at once. -/
def parenRest (p : Position) : Parser Expr := do
  if ← accept (.symbol .closeParen) then return .nil p
  else
    let e ← inner
    expect (.symbol .closeParen) .closeAfterExpression
    return e

/-- The rest of a list opened at `p`. -/
def listRest (p : Position) : Parser Expr := do
  let items ← itemsUntil inner .closeBracket
  expect (.symbol .closeBracket) .closeAfterItems
  return .list p items

def atom : Parser Expr := do
  let token ← peek
  let p := token.position
  match token.lexeme with
  | .keyword .letWord | .keyword .fnWord => declaration inner (← remaining)
  | .keyword .ifWord =>
    advance
    branchRest inner p
  | .number x =>
    advance
    return .number p x
  | .string s =>
    advance
    return .string p s
  | .boolean b =>
    advance
    return .boolean p b
  | .name n =>
    advance
    return .ref p n
  | .symbol .openParen =>
    advance
    parenRest inner p
  | .symbol .openBracket =>
    advance
    listRest inner p
  | _ => unexpected .expression

def application : Parser Expr := do
  let callee ← atom inner
  calls inner (← remaining) callee

/-- An operand of the binary operators. -/
def operand : Parser Expr := do
  unary (assignment inner (application inner)) (← remaining)

/-- An expression of any kind, its parts read by `inner`. -/
def expression : Parser Expr := do
  let pipe := climb (operand inner) levels
  let first ← pipe
  sequenceTail pipe (← remaining) first

/-- An expression that nests at most `depth` deep. -/
def sequence : Nat → Parser Expr
  | 0 => do throw (.nesting (← peek).position)
  | depth + 1 => expression (sequence depth)

/-- Pass over `end`s that close nothing. -/
def strayEnds : Nat → Parser Unit
  | 0 => return ()
  | fuel + 1 => do
    if ← accept (.keyword .endWord) then strayEnds fuel

/-- A whole program: one expression, and `end`s that close nothing after it. -/
def program (depth : Nat) : Parser Expr := do
  let e ← sequence depth
  strayEnds (← remaining)
  if ← sees .endOfInput then return e else unexpected .nothing

end Parser

/-- Read a program that nests at most `depth` deep. -/
def parseWithin (depth : Nat) (source : String) : Except ParseFailure Expr :=
  (Parser.program depth (Tokens.scan source)).map (·.1)

/-- Read a program. An expression inside another comes after one of its tokens, so nesting as deep as there
are tokens is enough. -/
def parse (source : String) : Except ParseFailure Expr :=
  let tokens := Tokens.scan source
  (Parser.program (tokens.size + 1) tokens).map (·.1)

end Curried
