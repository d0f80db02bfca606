/-
  Curried.Token.Lexer — cutting a text into tokens.

  White space and comments, which run from an apostrophe to the end of the line, only separate. Names are
  ASCII; numerals are decimal digits of any script with an optional fraction; strings have no escapes and
  may span lines; of two symbols that fit, the longer one is taken.

  A cursor stands somewhere in a text; `Cursor.next` takes one token from it. `Tokens.scan` takes them all,
  up to the end of input or to the first character that starts no token, and keeps which of the two it was:
  whoever reads the tokens meets that character only when it gets there.
-/

import Curried.Decimal.Reader
import Curried.Token

namespace Curried

/-- A place in a text and what follows it. -/
structure Cursor where
  rest : List Char
  offset : Nat
  position : Position

namespace Cursor

def start (source : List Char) : Cursor := ⟨source, 0, {}⟩

/-- Pass over white space and comments. -/
def skipFrom (inComment : Bool) : List Char → Nat → Position → Cursor
  | [], offset, position => ⟨[], offset, position⟩
  | c :: cs, offset, position =>
    if inComment then skipFrom (c != '\n') cs (offset + 1) (position.step c)
    else if Text.isBlank c then skipFrom false cs (offset + 1) (position.step c)
    else if c == '\'' then skipFrom true cs (offset + 1) (position.step c)
    else ⟨c :: cs, offset, position⟩

def skip (c : Cursor) : Cursor := skipFrom false c.rest c.offset c.position

/-- Move over `spelling`, after which `rest` follows. -/
def past (c : Cursor) (spelling rest : List Char) : Cursor :=
  ⟨rest, c.offset + spelling.length, c.position.after spelling⟩

end Cursor

namespace Lexeme

def isNameStart (c : Char) : Bool := c.isAlpha || c == '_'

def isNamePart (c : Char) : Bool := c.isAlphanum || c == '_'

/-- A word is a keyword, a truth value or a name. -/
def ofWord (word : String) : Lexeme :=
  if word == "true" then .boolean true
  else if word == "false" then .boolean false
  else match Keyword.all.find? (·.text == word) with
    | some k => .keyword k
    | none => .name word

/-- The symbol at the start of a text and the number of its characters. -/
def symbolAt : List Char → Option (Symbol × Nat)
  | '!' :: '=' :: _ => some (.unequal, 2)
  | '<' :: '=' :: _ => some (.lessEqual, 2)
  | '>' :: '=' :: _ => some (.greaterEqual, 2)
  | '&' :: '&' :: _ => some (.andAnd, 2)
  | '|' :: '|' :: _ => some (.orOr, 2)
  | '.' :: '.' :: _ => some (.dotDot, 2)
  | ':' :: ':' :: _ => some (.doubleColon, 2)
  | '+' :: _ => some (.plus, 1)
  | '-' :: _ => some (.minus, 1)
  | '*' :: _ => some (.times, 1)
  | '/' :: _ => some (.divide, 1)
  | '=' :: _ => some (.equal, 1)
  | '<' :: _ => some (.less, 1)
  | '>' :: _ => some (.greater, 1)
  | '!' :: _ => some (.bang, 1)
  | '.' :: _ => some (.dot, 1)
  | ';' :: _ => some (.semicolon, 1)
  | '(' :: _ => some (.openParen, 1)
  | ')' :: _ => some (.closeParen, 1)
  | '[' :: _ => some (.openBracket, 1)
  | ']' :: _ => some (.closeBracket, 1)
  | ',' :: _ => some (.comma, 1)
  | _ => none

/-- The fraction of a numeral, with its point: there is one only if a digit follows the point. -/
def fractionAt : List Char → List Char × List Char
  | '.' :: cs =>
    let (digits, rest) := cs.span Text.isDigit
    if digits.isEmpty then ([], '.' :: cs) else ('.' :: digits, rest)
  | cs => ([], cs)

/-- The lexeme at the start of a text, its spelling and what follows. -/
def first? (cs : List Char) : Option (Lexeme × List Char × List Char) :=
  match cs with
  | [] => none
  | c :: rest =>
    if isNameStart c then
      let (word, rest) := cs.span isNamePart
      some (ofWord (String.ofList word), word, rest)
    else if Text.isDigit c then
      let (whole, rest) := cs.span Text.isDigit
      let (fraction, rest) := fractionAt rest
      some (.number (Decimal.ofNumeral whole (fraction.drop 1) 0), whole ++ fraction, rest)
    else if c == '"' then
      match rest.span (· != '"') with
      | (body, q :: rest) => some (.string (String.ofList body), c :: body ++ [q], rest)
      | (_, []) => none
    else
      (symbolAt cs).map fun (s, n) => (.symbol s, cs.take n, cs.drop n)

end Lexeme

/-- Take the next token. At the end of the text that is the end of input, as often as one asks. -/
def Cursor.next (c : Cursor) : Except LexError (Token × Cursor) :=
  let c := c.skip
  match c.rest with
  | [] => .ok (⟨.endOfInput, c.offset, c.position⟩, c)
  | ch :: _ =>
    match Lexeme.first? c.rest with
    | some (lexeme, spelling, rest) => .ok (⟨lexeme, c.offset, c.position⟩, c.past spelling rest)
    | none => .error ⟨ch, c.offset, c.position⟩

/-- The tokens of a text before its end, and how they end: with the token for the end of input, or with a
character that starts no token. -/
structure Tokens where
  front : List Token
  ending : Except LexError Token
  /-- How many tokens there are before the end, kept so that nobody has to count them again. -/
  size : Nat
  size_eq : size = front.length

namespace Tokens

/-- No tokens before the end. -/
def nil (ending : Except LexError Token) : Tokens := ⟨[], ending, 0, rfl⟩

def cons (t : Token) (ts : Tokens) : Tokens :=
  ⟨t :: ts.front, ts.ending, ts.size + 1, congrArg (· + 1) ts.size_eq⟩

/-- The tokens after the first. -/
def tail (ts : Tokens) : Tokens :=
  ⟨ts.front.tail, ts.ending, ts.size - 1, by simp [ts.size_eq]⟩

/-- Take tokens until they end; every token takes at least one character, so `fuel` characters give at
most as many tokens. -/
def scanFrom : Nat → Cursor → Tokens
  | 0, c => nil (.ok ⟨.endOfInput, c.offset, c.position⟩)
  | fuel + 1, c =>
    match c.next with
    | .error e => nil (.error e)
    | .ok (token, c) =>
      match token.lexeme with
      | .endOfInput => nil (.ok token)
      | _ => cons token (scanFrom fuel c)

def scan (source : String) : Tokens :=
  let cs := source.toList
  scanFrom (cs.length + 1) (Cursor.start cs)

end Tokens

end Curried
