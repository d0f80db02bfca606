/-
  Curried.Library.Apply — applying the builtin functions.

  Some of them apply functions they are given; they take `apply`, which applies a function to one argument, so that
  nothing here depends on how functions are run. Nor does it depend on how regexes are compiled. A function of several
  arguments is applied to one after the other, and what comes between has to be a function again.
-/

import Curried.Library.Lists
import Curried.Library.Scalar
import Curried.Library.Strings
import Curried.Machine

namespace Curried.Library

variable (compile : Regex.Compiler) (apply : Value → Value → Eval Value)

/-- Apply a function to one more argument; anything else takes no argument. -/
def applyNext (f v : Value) : Eval Value :=
  if f.isFunction then apply f v else Eval.fault .extraneousArgument

/-- Apply to arguments one at a time. -/
def applyAll (f : Value) (args : List Value) : Eval Value := args.foldlM (applyNext apply) f

/-- `f(acc)(v)` for each `v` in turn. -/
def foldItems (f initial : Value) (items : List Value) : Eval Value :=
  items.foldlM (fun acc v => applyAll apply f [acc, v]) initial

/-- `f(v)(acc)` for each `v` in turn. -/
def foldItemsFlipped (f initial : Value) (items : List Value) : Eval Value :=
  items.foldlM (fun acc v => applyAll apply f [v, acc]) initial

/-- Apply a function to the element at its place, if it is one. -/
def zipItem (pair : Value × Value) : Eval Value := do
  let g ← Eval.lift (pair.1.asFunction "zip")
  apply g pair.2

def compose (v f : Value) : Eval Value := do
  let g ← Eval.lift (f.asFunction "compose")
  apply g v

def map (list f : Value) : Eval Value := do
  let g ← Eval.lift (f.asFunction "map")
  let items ← Eval.lift (list.asList "map")
  return .list (← items.mapM (apply g))

def filter (list f : Value) : Eval Value := do
  let g ← Eval.lift (f.asFunction "filter")
  let items ← Eval.lift (list.asList "filter")
  return .list (← items.filterM fun v => do return (← apply g v).truthy)

def foldl (initial f list : Value) : Eval Value := do
  let g ← Eval.lift (f.asFunction "foldl")
  let items ← Eval.lift (list.asList "foldl")
  foldItems apply g initial items

def foldr (initial f list : Value) : Eval Value := do
  let g ← Eval.lift (f.asFunction "foldr")
  let items ← Eval.lift (list.asList "foldr")
  foldItemsFlipped apply g initial items.reverse

def reduce (list f : Value) : Eval Value := do
  let g ← Eval.lift (f.asFunction "reduce")
  let items ← Eval.lift (list.asList "reduce")
  if items.isEmpty then Eval.fault .reduceOfEmpty
  else
    let first ← Eval.lift (Fault.attempt (itemAt items 0))
    foldItems apply g first (items.drop 1)

def zip (functions list : Value) : Eval Value := do
  let fs ← Eval.lift (functions.asList "zip")
  let items ← Eval.lift (list.asList "zip")
  return .list (← (fs.zip items).mapM (zipItem apply))

def zipWith (list f other : Value) : Eval Value := do
  let g ← Eval.lift (f.asFunction "zipWith")
  let left ← Eval.lift (list.asList "zipWith")
  let right ← Eval.lift (other.asList "zipWith")
  return .list (← (left.zip right).mapM fun (a, b) => applyAll apply g [a, b])

/-- A name looked up among the globals; nil if it has no value there. -/
def global (name : Value) : Eval Value := do
  let n ← Eval.lift (name.asString "global")
  let m ← get
  return (m.store.lookup? m.globals n).getD .nil

def print (v : Value) : Eval Value := do
  let text ← Eval.lift v.render
  modify (·.write (text ++ "\n"))
  return .nil

/-- One line of input; nil at its end. -/
def read : Eval Value := do
  let line ← modifyGet Machine.readLine
  return (line.map Value.string).getD .nil

/-- A builtin applied to all its arguments. -/
def run : Builtin → List Value → Eval Value
  | .add, [a, b] => Eval.lift (add a b)
  | .sub, [a, b] => Eval.lift (sub a b)
  | .mul, [a, b] => Eval.lift (mul a b)
  | .div, [a, b] => Eval.lift (div a b)
  | .mod, [a, b] => Eval.lift (mod a b)
  | .neg, [a] => Eval.lift (neg a)
  | .eq, [a, b] => Eval.lift (eq a b)
  | .neq, [a, b] => Eval.lift (neq a b)
  | .lt, [a, b] => Eval.lift (lt a b)
  | .gt, [a, b] => Eval.lift (gt a b)
  | .lte, [a, b] => Eval.lift (lte a b)
  | .gte, [a, b] => Eval.lift (gte a b)
  | .and, [a, b] => pure (and a b)
  | .or, [a, b] => pure (or a b)
  | .not, [a] => pure (not a)
  | .toBool, [a] => pure (toBool a)
  | .toNum, [a] => Eval.lift (toNum a)
  | .toStr, [a] => Eval.lift (toStr a)
  | .compose, [v, f] => compose apply v f
  | .global, [name] => global name
  | .nth, [i, list] => Eval.lift (nth i list)
  | .head, [list] => Eval.lift (head list)
  | .tail, [list] => Eval.lift (tail list)
  | .len, [list] => Eval.lift (len list)
  | .map, [list, f] => map apply list f
  | .foldl, [initial, f, list] => foldl apply initial f list
  | .foldr, [initial, f, list] => foldr apply initial f list
  | .filter, [list, f] => filter apply list f
  | .reduce, [list, f] => reduce apply list f
  | .zip, [fs, list] => zip apply fs list
  | .zipWith, [list, f, other] => zipWith apply list f other
  | .plus, [list, item] => Eval.lift (plus list item)
  | .minus, [list, item] => Eval.lift (minus list item)
  | .drop, [list, n] => Eval.lift (drop list n)
  | .take, [list, n] => Eval.lift (take list n)
  | .slice, [list, i, j] => Eval.lift (slice list i j)
  | .concat, [a, b] => Eval.lift (concat a b)
  | .reverse, [list] => Eval.lift (reverse list)
  | .sort, [list] => Eval.lift (sort list)
  | .range, [i, j] => Eval.lift (range i j)
  | .regex, [pattern] => Eval.lift (regex compile pattern)
  | .fullMatch, [pattern, text] => Eval.lift (fullMatch pattern text)
  | .replace, [pattern, text, replacement] => Eval.lift (replace pattern text replacement)
  | .split, [pattern, text] => Eval.lift (split pattern text)
  | .join, [list, separator] => Eval.lift (join list separator)
  | .print, [v] => print v
  | .read, [_] => read
  | _, _ => Eval.fault .extraneousArgument

end Curried.Library
