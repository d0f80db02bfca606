/-
  Curried.Text.Json — JSON documents, laid out one entry to a line.

  Entries of lists and objects are indented by two blanks; text is written in ASCII, all else as escapes. The fields of
  an object keep their order.
-/

namespace Curried.Text

/-- A document of texts, lists and objects. -/
inductive Json where
  | text (s : String)
  | list (items : List Json)
  | object (fields : List (String × Json))

namespace Json

/-- The value that an object has for a key. -/
def field? (key : String) : Json → Option Json
  | object fields => fields.lookup key
  | _ => none

/-- The four hexadecimal digits of a unit of UTF-16. -/
def unitEscape (n : Nat) : String :=
  let digits := Nat.toDigits 16 n
  "\\u" ++ String.ofList (List.replicate (4 - digits.length) '0' ++ digits)

def escape (c : Char) : String :=
  if c == '"' then "\\\""
  else if c == '\\' then "\\\\"
  else if c == '\n' then "\\n"
  else if c == '\r' then "\\r"
  else if c == '\t' then "\\t"
  else if c.toNat == 8 then "\\b"
  else if c.toNat == 12 then "\\f"
  else if 32 ≤ c.toNat && c.toNat ≤ 126 then c.toString
  else if c.toNat < 0x10000 then unitEscape c.toNat
  else
    let n := c.toNat - 0x10000
    unitEscape (0xd800 + n / 0x400) ++ unitEscape (0xdc00 + n % 0x400)

def quote (s : String) : String := "\"" ++ String.join (s.toList.map escape) ++ "\""

/-- Put a comma after the last line. -/
def withComma : List String → List String
  | [] => []
  | [l] => [l ++ ","]
  | l :: ls => l :: withComma ls

/-- Entries one after the other, with commas between them. -/
def separated : List (List String) → List String
  | [] => []
  | [e] => e
  | e :: es => withComma e ++ separated es

def enclosed (opening closing : String) (entries : List (List String)) : List String :=
  if entries.isEmpty then [opening ++ closing]
  else opening :: (separated entries).map ("  " ++ ·) ++ [closing]

/-- Put a key before the first line. -/
def labelled (key : String) : List String → List String
  | [] => []
  | l :: ls => (quote key ++ ": " ++ l) :: ls

mutual

/-- The lines of a document. -/
def lines : Json → List String
  | text s => [quote s]
  | list items => enclosed "[" "]" (itemLines items)
  | object fields => enclosed "\x7b" "\x7d" (fieldLines fields)

def itemLines : List Json → List (List String)
  | [] => []
  | j :: rest => j.lines :: itemLines rest

def fieldLines : List (String × Json) → List (List String)
  | [] => []
  | (key, j) :: rest => labelled key j.lines :: fieldLines rest

end

end Json

end Curried.Text
