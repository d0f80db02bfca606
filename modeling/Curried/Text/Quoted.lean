/-
  Curried.Text.Quoted — a text in quotes, with escapes for what cannot be shown.

  Single quotes are used unless the text has one and has no double quote. The backslash, the quote in use,
  tab, line feed and carriage return are escaped by name; any other character that is not printable by its
  code point in two, four or eight hexadecimal digits.
-/

import Curried.Text.Printable

namespace Curried.Text

/-- At least `width` hexadecimal digits. -/
def hexDigits (width n : Nat) : List Char :=
  let digits := Nat.toDigits 16 n
  List.replicate (width - digits.length) '0' ++ digits

def escapeCode (n : Nat) : List Char :=
  if n < 0x100 then '\\' :: 'x' :: hexDigits 2 n
  else if n < 0x10000 then '\\' :: 'u' :: hexDigits 4 n
  else '\\' :: 'U' :: hexDigits 8 n

def escapeChar (quote c : Char) : List Char :=
  if c == quote || c == '\\' then ['\\', c]
  else if c == '\t' then ['\\', 't']
  else if c == '\n' then ['\\', 'n']
  else if c == '\r' then ['\\', 'r']
  else if isPrintable c.toNat then [c]
  else escapeCode c.toNat

def quoted (text : String) : String :=
  let cs := text.toList
  let quote := if cs.contains '\'' && !cs.contains '"' then '"' else '\''
  String.ofList (quote :: cs.flatMap (escapeChar quote) ++ [quote])

end Curried.Text
