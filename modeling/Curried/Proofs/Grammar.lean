/-
  Curried.Proofs.Grammar — the grammar of the language.

    Program     ::= Sequence end*
    Sequence    ::= Pipe [; Sequence]
    Pipe        ::= Disjunction ((. | ..) Disjunction)*
    Disjunction ::= Conjunction (|| Conjunction)*
    Conjunction ::= Equality (&& Equality)*
    Equality    ::= Comparison ((= | !=) Comparison)*
    Comparison  ::= Sum [(< | > | <= | >=) Comparison]
    Sum         ::= Product [(+ | -) Sum]
    Product     ::= Unary [(* | /) Product]
    Unary       ::= (! | -) Unary | Assignment
    Assignment  ::= Application [:: Sequence in Sequence]
    Application ::= Atom ( '(' [Sequence (, Sequence)*] ')' )*
    Atom        ::= Declaration | if Sequence then Sequence else Sequence | literal | name | '(' ')'
                  | '(' Sequence ')' | '[' [Sequence (, Sequence)*] ']'
    Declaration ::= let name :: Sequence [in Sequence] [and Declaration]
                  | fn [name] ['(' [name (, name)*] ')'] :: Sequence [and Declaration] [end]

  Every optional or repeated part is taken whenever the lexeme that comes next is its first one. So whether tokens make
  up a phrase depends on what comes after them: `Derives n ts next e` says that `ts`, before the lexeme `next`, is a
  phrase of kind `n` with the tree `e`.
-/

import Curried.Expr

namespace Curried.Grammar

/-- The lexeme that comes next when these tokens do, and then `next`. -/
def following (ts : List Token) (next : Lexeme) : Lexeme :=
  match ts with
  | [] => next
  | t :: _ => t.lexeme

/-- The kinds of binary operators, from loosest to tightest. -/
inductive Tier where
  | pipe | disjunction | conjunction | equality | comparison | sum | product

inductive Nonterminal where
  | sequence
  | tier (t : Tier)
  | unary
  | assignment
  | application
  | atom
  | declaration

namespace Tier

def operator? : Tier → Lexeme → Option BinaryOp
  | pipe, .symbol .dot => some .compose
  | pipe, .symbol .dotDot => some .concat
  | disjunction, .symbol .orOr => some .or
  | conjunction, .symbol .andAnd => some .and
  | equality, .symbol .equal => some .eq
  | equality, .symbol .unequal => some .neq
  | comparison, .symbol .less => some .lt
  | comparison, .symbol .greater => some .gt
  | comparison, .symbol .lessEqual => some .lte
  | comparison, .symbol .greaterEqual => some .gte
  | sum, .symbol .plus => some .add
  | sum, .symbol .minus => some .sub
  | product, .symbol .times => some .mul
  | product, .symbol .divide => some .div
  | _, _ => none

/-- Whether `a op b op c` is `(a op b) op c`, not `a op (b op c)`. -/
def groupsLeft : Tier → Bool
  | pipe | disjunction | conjunction | equality => true
  | comparison | sum | product => false

def operand : Tier → Nonterminal
  | pipe => .tier disjunction
  | disjunction => .tier conjunction
  | conjunction => .tier equality
  | equality => .tier comparison
  | comparison => .tier sum
  | sum => .tier product
  | product => .unary

end Tier

def unaryOperator? : Lexeme → Option UnaryOp
  | .symbol .bang => some .not
  | .symbol .minus => some .neg
  | _ => none

/-- Tokens before a lexeme, and what they stand for. -/
abbrev Phrase (α : Type) := List Token → Lexeme → α → Prop

/-- `P (, P)*`. -/
inductive Items {α : Type} (P : Phrase α) : Phrase (List α)
  | one {ts : List Token} {next : Lexeme} {x : α} : P ts next x → next ≠ .symbol .comma → Items P ts next [x]
  | more {ts us : List Token} {comma : Token} {next : Lexeme} {x : α} {xs : List α} :
      P ts (.symbol .comma) x → comma.lexeme = .symbol .comma → Items P us next xs →
      Items P (ts ++ comma :: us) next (x :: xs)

/-- `[P (, P)*]` before a closing bracket. -/
inductive Listed {α : Type} (P : Phrase α) (close : Symbol) : List Token → List α → Prop
  | none : Listed P close [] []
  | some {ts : List Token} {xs : List α} : Items P ts (.symbol close) xs → Listed P close ts xs

inductive Name : Phrase String
  | name {t : Token} {next : Lexeme} {n : String} : t.lexeme = .name n → Name [t] next n

/-- `[name]`. -/
inductive OptionalName : List Token → Option String → Prop
  | none : OptionalName [] none
  | some {t : Token} {n : String} : t.lexeme = .name n → OptionalName [t] (some n)

/-- `['(' [name (, name)*] ')']`. -/
inductive Parameters : List Token → List String → Prop
  | none : Parameters [] []
  | some {opening closing : Token} {ts : List Token} {names : List String} :
      opening.lexeme = .symbol .openParen → Listed Name .closeParen ts names →
      closing.lexeme = .symbol .closeParen → Parameters (opening :: (ts ++ [closing])) names

/-- `[end]`. -/
inductive OptionalEnd : List Token → Lexeme → Prop
  | none {next : Lexeme} : next ≠ .keyword .endWord → OptionalEnd [] next
  | some {t : Token} {next : Lexeme} : t.lexeme = .keyword .endWord → OptionalEnd [t] next

mutual

inductive Derives : Nonterminal → Phrase Expr
  | single {ts : List Token} {next : Lexeme} {e : Expr} :
      Derives (.tier .pipe) ts next e → next ≠ .symbol .semicolon → Derives .sequence ts next e
  | sequence {ts us : List Token} {semicolon : Token} {next : Lexeme} {e f : Expr} :
      Derives (.tier .pipe) ts (.symbol .semicolon) e → semicolon.lexeme = .symbol .semicolon →
      Derives .sequence us next f → Derives .sequence (ts ++ semicolon :: us) next (.sequence e.position e f)
  | left {tier : Tier} {ts us : List Token} {next : Lexeme} {e f : Expr} :
      tier.groupsLeft = true → Derives tier.operand ts (following us next) e → Operations tier e us next f →
      Derives (.tier tier) (ts ++ us) next f
  | operand {tier : Tier} {ts : List Token} {next : Lexeme} {e : Expr} :
      tier.groupsLeft = false → Derives tier.operand ts next e → tier.operator? next = none →
      Derives (.tier tier) ts next e
  | right {tier : Tier} {ts us : List Token} {operator : Token} {op : BinaryOp} {next : Lexeme} {e f : Expr} :
      tier.groupsLeft = false → Derives tier.operand ts operator.lexeme e →
      tier.operator? operator.lexeme = some op → Derives (.tier tier) us next f →
      Derives (.tier tier) (ts ++ operator :: us) next (.binary operator.position op e f)
  | unary {ts : List Token} {operator : Token} {op : UnaryOp} {next : Lexeme} {e : Expr} :
      unaryOperator? operator.lexeme = some op → Derives .unary ts next e →
      Derives .unary (operator :: ts) next (.unary operator.position op e)
  | unsigned {ts : List Token} {next : Lexeme} {e : Expr} :
      Derives .assignment ts next e → Derives .unary ts next e
  | target {ts : List Token} {next : Lexeme} {e : Expr} :
      Derives .application ts next e → next ≠ .symbol .doubleColon → Derives .assignment ts next e
  | assign {ts us vs : List Token} {colons inWord : Token} {next : Lexeme} {target value body : Expr} :
      Derives .application ts (.symbol .doubleColon) target → colons.lexeme = .symbol .doubleColon →
      Derives .sequence us (.keyword .inWord) value → inWord.lexeme = .keyword .inWord →
      Derives .sequence vs next body →
      Derives .assignment (ts ++ colons :: (us ++ inWord :: vs)) next (.assign target.position target value body)
  | application {ts us : List Token} {next : Lexeme} {e f : Expr} :
      Derives .atom ts (following us next) e → Calls e us next f → Derives .application (ts ++ us) next f
  | declared {ts : List Token} {next : Lexeme} {e : Expr} :
      Derives .declaration ts next e → Derives .atom ts next e
  | branch {ts us vs : List Token} {ifWord thenWord elseWord : Token} {next : Lexeme} {test yes no : Expr} :
      ifWord.lexeme = .keyword .ifWord → Derives .sequence ts (.keyword .thenWord) test →
      thenWord.lexeme = .keyword .thenWord → Derives .sequence us (.keyword .elseWord) yes →
      elseWord.lexeme = .keyword .elseWord → Derives .sequence vs next no →
      Derives .atom (ifWord :: (ts ++ thenWord :: (us ++ elseWord :: vs))) next (.branch ifWord.position test yes no)
  | number {t : Token} {next : Lexeme} {x : Float} :
      t.lexeme = .number x → Derives .atom [t] next (.number t.position x)
  | string {t : Token} {next : Lexeme} {s : String} :
      t.lexeme = .string s → Derives .atom [t] next (.string t.position s)
  | boolean {t : Token} {next : Lexeme} {b : Bool} :
      t.lexeme = .boolean b → Derives .atom [t] next (.boolean t.position b)
  | ref {t : Token} {next : Lexeme} {n : String} :
      t.lexeme = .name n → Derives .atom [t] next (.ref t.position n)
  | nil {opening closing : Token} {next : Lexeme} :
      opening.lexeme = .symbol .openParen → closing.lexeme = .symbol .closeParen →
      Derives .atom [opening, closing] next (.nil opening.position)
  | group {ts : List Token} {opening closing : Token} {next : Lexeme} {e : Expr} :
      opening.lexeme = .symbol .openParen → Derives .sequence ts (.symbol .closeParen) e →
      closing.lexeme = .symbol .closeParen → Derives .atom (opening :: (ts ++ [closing])) next e
  | list {ts : List Token} {opening closing : Token} {next : Lexeme} {es : List Expr} :
      opening.lexeme = .symbol .openBracket → Listed (Derives .sequence) .closeBracket ts es →
      closing.lexeme = .symbol .closeBracket →
      Derives .atom (opening :: (ts ++ [closing])) next (.list opening.position es)
  | binding {ts us vs : List Token} {letWord name colons : Token} {n : String} {next : Lexeme} {value : Expr}
      {body chained : Option Expr} :
      letWord.lexeme = .keyword .letWord → name.lexeme = .name n → colons.lexeme = .symbol .doubleColon →
      Derives .sequence ts (following (us ++ vs) next) value →
      Continued .inWord .sequence us (following vs next) body → Continued .andWord .declaration vs next chained →
      Derives .declaration (letWord :: name :: colons :: (ts ++ (us ++ vs))) next
        (.binding letWord.position n value (body.getD (.nil value.position)) chained)
  | function {ns ps ts us vs : List Token} {fnWord colons : Token} {name : Option String} {params : List String}
      {next : Lexeme} {body : Expr} {chained : Option Expr} :
      fnWord.lexeme = .keyword .fnWord → OptionalName ns name → Parameters ps params →
      colons.lexeme = .symbol .doubleColon → Derives .sequence ts (following (us ++ vs) next) body →
      Continued .andWord .declaration us (following vs next) chained → OptionalEnd vs next →
      Derives .declaration (fnWord :: (ns ++ (ps ++ colons :: (ts ++ (us ++ vs))))) next
        (.function fnWord.position name params body chained)

/-- `(op operand)*` after the tree of what comes before it, grouping to the left. -/
inductive Operations : Tier → Expr → Phrase Expr
  | none {tier : Tier} {next : Lexeme} {e : Expr} : tier.operator? next = none → Operations tier e [] next e
  | more {tier : Tier} {ts us : List Token} {operator : Token} {op : BinaryOp} {next : Lexeme} {e f g : Expr} :
      tier.operator? operator.lexeme = some op → Derives tier.operand ts (following us next) f →
      Operations tier (.binary operator.position op e f) us next g → Operations tier e (operator :: (ts ++ us)) next g

/-- `( '(' [Sequence (, Sequence)*] ')' )*` after the tree of what is called. -/
inductive Calls : Expr → Phrase Expr
  | none {next : Lexeme} {e : Expr} : next ≠ .symbol .openParen → Calls e [] next e
  | more {ts us : List Token} {opening closing : Token} {next : Lexeme} {e f : Expr} {args : List Expr} :
      opening.lexeme = .symbol .openParen → Listed (Derives .sequence) .closeParen ts args →
      closing.lexeme = .symbol .closeParen → Calls (.call e.position e args) us next f →
      Calls e (opening :: (ts ++ closing :: us)) next f

/-- `[word phrase]`. -/
inductive Continued : Keyword → Nonterminal → Phrase (Option Expr)
  | none {word : Keyword} {n : Nonterminal} {next : Lexeme} : next ≠ .keyword word → Continued word n [] next none
  | some {word : Keyword} {n : Nonterminal} {ts : List Token} {t : Token} {next : Lexeme} {e : Expr} :
      t.lexeme = .keyword word → Derives n ts next e → Continued word n (t :: ts) next (some e)

end

/-- A whole program: one expression, and `end`s that close nothing after it. -/
def Program (ts : List Token) (e : Expr) : Prop :=
  ∃ us ends, ts = us ++ ends ∧ (∀ t ∈ ends, t.lexeme = .keyword .endWord) ∧
    Derives .sequence us (following ends .endOfInput) e

end Curried.Grammar
