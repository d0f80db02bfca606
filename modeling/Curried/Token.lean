/-
  Curried.Token — the tokens of a program.

  A token is a literal, a name, one of the keywords, one of the symbols or the end of input, together
  with its offset in the text and its position.
-/

import Curried.Decimal.Notation
import Curried.Position

namespace Curried

inductive Keyword where
  | fnWord | letWord | inWord | ifWord | thenWord | elseWord | andWord | endWord
  deriving DecidableEq, Repr

def Keyword.text : Keyword → String
  | .fnWord => "fn"
  | .letWord => "let"
  | .inWord => "in"
  | .ifWord => "if"
  | .thenWord => "then"
  | .elseWord => "else"
  | .andWord => "and"
  | .endWord => "end"

def Keyword.all : List Keyword :=
  [.fnWord, .letWord, .inWord, .ifWord, .thenWord, .elseWord, .andWord, .endWord]

inductive Symbol where
  | plus | minus | times | divide
  | equal | unequal | less | lessEqual | greater | greaterEqual
  | andAnd | orOr | bang
  | dot | dotDot | semicolon
  | openParen | closeParen | openBracket | closeBracket | doubleColon | comma
  deriving DecidableEq, Repr

def Symbol.text : Symbol → String
  | .plus => "+"
  | .minus => "-"
  | .times => "*"
  | .divide => "/"
  | .equal => "="
  | .unequal => "!="
  | .less => "<"
  | .lessEqual => "<="
  | .greater => ">"
  | .greaterEqual => ">="
  | .andAnd => "&&"
  | .orOr => "||"
  | .bang => "!"
  | .dot => "."
  | .dotDot => ".."
  | .semicolon => ";"
  | .openParen => "("
  | .closeParen => ")"
  | .openBracket => "["
  | .closeBracket => "]"
  | .doubleColon => "::"
  | .comma => ","

/-- What a token is, apart from where it stands. -/
inductive Lexeme where
  | number (value : Float)
  | string (text : String)
  | boolean (value : Bool)
  | name (text : String)
  | keyword (word : Keyword)
  | symbol (mark : Symbol)
  | endOfInput
  deriving DecidableEq

structure Token where
  lexeme : Lexeme
  offset : Nat
  position : Position
  deriving DecidableEq

/-- A lexeme as a message names it: strings in double quotes, all else in single ones. -/
def Lexeme.describe : Lexeme → String
  | .number x => s!"'{Decimal.text x}'"
  | .string s => s!"\"{s}\""
  | .boolean b => if b then "'True'" else "'False'"
  | .name n => s!"'{n}'"
  | .keyword k => s!"'{k.text}'"
  | .symbol s => s!"'{s.text}'"
  | .endOfInput => "end of input"

/-- A character that starts no token. -/
structure LexError where
  char : Char
  offset : Nat
  position : Position
  deriving DecidableEq

def LexError.issue (e : LexError) : Issue :=
  ⟨s!"Unexpected character '{e.char}'", some e.position, .fatal⟩

end Curried
