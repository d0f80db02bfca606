/-
  Curried.Catalogue.Standard — the definitions the language comes with.
-/

import Curried.Catalogue

namespace Curried.Catalogue

def leftRight (type : String) : List Parameter :=
  [⟨"a", type, "Left operand"⟩, ⟨"b", type, "Right operand"⟩]

def mathDefinition (name description : String) (example_ : String) (b : Builtin) : Definition :=
  ⟨name, description, .math, leftRight "number", "number", [example_], .standard b⟩

def mathDefinitions : List Definition := [
  mathDefinition "add" "Adds two numbers (operator +)" "1 + 2" .add,
  mathDefinition "sub" "Subtracts b from a (operator -)" "sub(10)(4)" .sub,
  mathDefinition "mul" "Multiplies two numbers (operator *)" "mul(3, 4)" .mul,
  mathDefinition "div" "Divides a by b (operator /)" "div(9, 3)" .div,
  mathDefinition "mod" "Remainder of a divided by b, with the sign of a" "mod(7, 3)" .mod,
  ⟨"neg", "Negates a number (unary operator -)", .math, [⟨"a", "number", "The number to negate"⟩],
    "number", ["-x", "neg(3)"], .standard .neg⟩]

def comparison (name description type : String) (example_ : String) (b : Builtin) : Definition :=
  ⟨name, description, .comparison, leftRight type, "bool", [example_], .standard b⟩

def comparisonDefinitions : List Definition := [
  comparison "eq" "Structural equality (operator =)" "any" "[1, 2] = [1, 2]" .eq,
  comparison "neq" "Structural inequality (operator !=)" "any" "x != \"done\"" .neq,
  comparison "lt" "a < b for numbers" "number" "1 < 2" .lt,
  comparison "gt" "a > b for numbers" "number" "2 > 1" .gt,
  comparison "lte" "a <= b for numbers" "number" "n <= 0" .lte,
  comparison "gte" "a >= b for numbers" "number" "n >= 10" .gte]

def logicDefinitions : List Definition := [
  ⟨"and", "True if both values are truthy (operator &&, not short-circuiting)", .logic, leftRight "any",
    "bool", ["ready && count > 0"], .standard .and⟩,
  ⟨"or", "True if either value is truthy (operator ||, not short-circuiting)", .logic, leftRight "any",
    "bool", ["done || failed"], .standard .or⟩,
  ⟨"not", "Negates the truthiness of a value (operator !)", .logic, [⟨"a", "any", "The value to negate"⟩],
    "bool", ["!done"], .standard .not⟩,
  ⟨"toBool", "False for () and false, true for everything else", .logic,
    [⟨"value", "any", "The value to test"⟩], "bool", ["toBool(0)"], .standard .toBool⟩]

def conversionDefinitions : List Definition := [
  ⟨"toNum", "Parses a string as a number", .conversion, [⟨"value", "string", "Text to parse, or a number"⟩],
    "number", ["toNum(\"42\") + 1", "read() . toNum"], .standard .toNum⟩,
  ⟨"toStr", "Renders any value as text", .conversion, [⟨"value", "any", "The value to render"⟩],
    "string", ["toStr([1, 2])"], .standard .toStr⟩]

def functionDefinitions : List Definition := [
  ⟨"compose", "Pipes a value into a function (operator .): x . f is f(x)", .function,
    [⟨"value", "any", "The value to pipe"⟩, ⟨"fn", "function", "The function to apply"⟩],
    "any", ["5 . add(3)", "[3, 1, 2] . sort . reverse"], .standard .compose⟩,
  ⟨"global", "Looks a name up in the global scope, () if unbound", .function,
    [⟨"name", "string", "The global name"⟩], "any", ["global(\"add\")(1)(2)"], .standard .global⟩]

def theList : Parameter := ⟨"list", "list", "The list"⟩

def theFunction : Parameter := ⟨"fn", "function", "The function to apply"⟩

def accumulator : Parameter := ⟨"initial", "any", "Starting accumulator"⟩

def listDefinition (name description : String) (parameters : List Parameter) (returnType : String)
    (examples : List String) (b : Builtin) : Definition :=
  ⟨name, description, .list, parameters, returnType, examples, .standard b⟩

def listDefinitions : List Definition := [
  listDefinition "nth" "Element at a 0-based index" [⟨"index", "number", "0-based index"⟩, theList]
    "any" ["nth(0)([1, 2])"] .nth,
  listDefinition "head" "First element" [theList] "any" ["head([1, 2])"] .head,
  listDefinition "tail" "All elements but the first" [theList] "list" ["tail([1, 2])"] .tail,
  listDefinition "len" "Number of elements" [theList] "number" ["len(xs) > 0"] .len,
  listDefinition "map" "Applies fn to every element" [theList, theFunction]
    "list" ["map([1, 2, 3], fn(x) :: x * 2 end)"] .map,
  listDefinition "foldl" "Folds from the left: fn(acc)(x)" [accumulator, theFunction, theList]
    "any" ["foldl(0, add, [1, 2, 3])"] .foldl,
  listDefinition "foldr" "Folds from the right: fn(x)(acc)" [accumulator, theFunction, theList]
    "any" ["foldr([], fn(x, acc) :: acc .. x end, [1, 2])"] .foldr,
  listDefinition "filter" "Elements for which fn returns a truthy value" [theList, theFunction]
    "list" ["filter(xs, fn(x) :: x > 1 end)"] .filter,
  listDefinition "reduce" "Folds a non-empty list from its first element" [theList, theFunction]
    "any" ["reduce([1, 2, 3], mul)"] .reduce,
  listDefinition "zip" "Applies each function to the element at the same index"
    [⟨"fns", "list", "Functions"⟩, theList] "list" ["zip([add(1), mul(2)], [10, 10])"] .zip,
  listDefinition "zipWith" "Combines two lists element-wise with fn"
    [theList, theFunction, ⟨"other", "list", "The second list"⟩]
    "list" ["zipWith([1, 2], add, [10, 20])"] .zipWith,
  listDefinition "plus" "Appends one element" [theList, ⟨"item", "any", "Element to append"⟩]
    "list" ["plus([1], 2)"] .plus,
  listDefinition "minus" "Removes the first equal element" [theList, ⟨"item", "any", "Element to remove"⟩]
    "list" ["minus([1, 2, 1], 1)"] .minus,
  listDefinition "drop" "All but the first n elements" [theList, ⟨"n", "number", "Count"⟩]
    "list" ["drop([1, 2, 3], 1)"] .drop,
  listDefinition "take" "The first n elements" [theList, ⟨"n", "number", "Count"⟩]
    "list" ["take([1, 2, 3], 2)"] .take,
  listDefinition "slice" "Elements from start to end inclusive"
    [theList, ⟨"start", "number", "First index"⟩, ⟨"end", "number", "Last index"⟩]
    "list" ["slice([1, 2, 3, 4], 1, 2)"] .slice,
  listDefinition "concat" "Appends to a list, or joins renderings as text (operator ..)" (leftRight "any")
    "any" ["\"n = \" .. 3", "[1] .. [2, 3]"] .concat,
  listDefinition "reverse" "Elements in reverse order" [theList] "list" ["reverse([1, 2])"] .reverse,
  listDefinition "sort" "Sorts a list of numbers ascending" [theList] "list" ["sort([3, 1, 2])"] .sort,
  listDefinition "range" "Numbers from start up to, not including, end"
    [⟨"start", "number", "First number"⟩, ⟨"end", "number", "Stop before"⟩] "list" ["range(0, 5)"] .range]

def thePattern : Parameter := ⟨"re", "regex", "A pattern built with regex()"⟩

def theText : Parameter := ⟨"text", "string", "The text"⟩

def stringDefinitions : List Definition := [
  ⟨"regex", "Compiles a regular expression", .string, [⟨"pattern", "string", "Regular expression source"⟩],
    "regex", ["regex(\"[0-9]+\")"], .standard .regex⟩,
  ⟨"match", "True if the whole text matches the pattern", .string, [thePattern, theText],
    "bool", ["match(regex(\"[0-9]+\"), \"123\")"], .standard .fullMatch⟩,
  ⟨"replace", "Replaces every match in text; $1 or $\x7bname\x7d insert a group, backslash escapes", .string,
    [thePattern, theText, ⟨"replacement", "string", "Replacement text"⟩],
    "string", ["replace(regex(\"a\"), \"banana\", \"o\")"], .standard .replace⟩,
  ⟨"split", "Splits text around matches, without captured groups", .string, [thePattern, theText],
    "list", ["split(regex(\",\\s*\"), \"a, b,c\")"], .standard .split⟩,
  ⟨"join", "Joins the renderings of list elements with a separator", .string,
    [⟨"list", "list", "Elements to join"⟩, ⟨"separator", "string", "Text placed between elements"⟩],
    "string", ["join([1, 2, 3], \", \")"], .standard .join⟩]

def ioDefinitions : List Definition := [
  ⟨"print", "Writes the rendering of a value and a newline", .io, [⟨"value", "any", "The value to print"⟩],
    "nil", ["print(\"hello\")", "\"n = \" .. n . print"], .standard .print⟩,
  ⟨"read", "Reads one line of input, () at end of input", .io, [⟨"_", "any", "Ignored"⟩],
    "string", ["let name :: read() in print(name)"], .standard .read⟩]

/-- The builtins, in the order of their categories. -/
def standard : Catalogue :=
  ⟨mathDefinitions ++ comparisonDefinitions ++ logicDefinitions ++ conversionDefinitions ++
    functionDefinitions ++ listDefinitions ++ stringDefinitions ++ ioDefinitions⟩

/-- A catalogue without definitions stands for the standard one. -/
def orStandard (c : Catalogue) : Catalogue := if c.definitions.isEmpty then standard else c

end Curried.Catalogue
