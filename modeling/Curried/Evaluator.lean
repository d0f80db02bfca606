/-
  Curried.Evaluator — running expressions.

  Evaluating an expression goes one level deeper; beyond the depth the host allows the run is ended as a stack
  overflow. The first error of a run is reported at the expression that met it; a fatal one goes on to the top, any
  other leaves nil for the expression's value. Operators are names looked up where they run. A call evaluates and
  applies its arguments one at a time.

  `evaluate` and `apply` take the part of the stack that is left, which grows smaller with each of them that is
  inside another. When it is used up, that too is a stack overflow at the expression that notices it.
-/

import Curried.Library.Apply

namespace Curried

namespace Evaluator

/-- End the run because evaluation is too deep at an expression. -/
def overflow (h : Host) (e : Expr) (m : Machine) : EStateM.Result Halt Machine Value :=
  let m := m.log .error "zy.evaluator" s!"Evaluation depth exceeded {h.maxDepth}, terminating"
  .error .exit (m.report h ⟨.fatal, e.position, "Stack overflow", m.source⟩)

/-- Report a fault of an expression, and go on with nil unless it is fatal. -/
def settleFault (h : Host) (e : Expr) (f : Fault) (m : Machine) : EStateM.Result Halt Machine Value :=
  let f := f.blame e.position
  let m := m.reportOnce h f.issue
  match f.severity with
  | .fatal => .error (.fault f) m
  | .error => .ok .nil m

/-- What an expression makes of the way its computation ended. -/
def settle (h : Host) (e : Expr) :
    EStateM.Result Halt Machine Value → EStateM.Result Halt Machine Value
  | .ok v m => .ok v m
  | .error (.fault f) m => settleFault h e f m
  | .error (.crash c) m => settleFault h e (.of (.crashed c)) m
  | .error .exhausted m => overflow h e m
  | .error .exit m => .error .exit m

def setDepth (depth : Nat) : EStateM.Result Halt Machine Value → EStateM.Result Halt Machine Value
  | .ok v m => .ok v { m with depth := depth }
  | .error halt m => .error halt { m with depth := depth }

/-- Compute an expression one level deeper. -/
def deeper (h : Host) (e : Expr) (body : Eval Value) : Eval Value := fun m =>
  let depth := m.depth
  let m := { m with depth := depth + 1 }
  let result := if h.maxDepth < m.depth then overflow h e m else settle h e (body m)
  setDepth depth result

/-! ## Expressions and functions, given how to run what is inside them -/

variable (evaluate : Expr → FrameId → Eval Value) (apply : Value → Value → Eval Value)

/-- The function that an operator stands for where it runs. -/
def operatorFunction (symbol name : String) (frame : FrameId) : Eval Value := do
  let f ← Eval.lookup frame name
  if f.isFunction then return f else Eval.fault (.operatorNotFunction symbol name)

def binary (op : BinaryOp) (left right : Expr) (frame : FrameId) : Eval Value := do
  let a ← evaluate left frame
  let b ← evaluate right frame
  match op.builtin? with
  | none => Eval.fault (.unknownOperator op.symbol)
  | some name =>
    let f ← operatorFunction op.symbol name frame
    Library.applyAll apply f [a, b]

def unary (op : UnaryOp) (operand : Expr) (frame : FrameId) : Eval Value := do
  let a ← evaluate operand frame
  match op.builtin? with
  | none => Eval.fault (.unknownUnaryOperator op.symbol)
  | some name =>
    let f ← operatorFunction op.symbol name frame
    Library.applyAll apply f [a]

/-- Evaluate an argument and apply a function to it. -/
def applyTo (frame : FrameId) (f : Value) (arg : Expr) : Eval Value := do
  let v ← evaluate arg frame
  Library.applyNext apply f v

/-- A call without arguments applies the function to nil. -/
def call (callee : Expr) (args : List Expr) (frame : FrameId) : Eval Value := do
  let f ← evaluate callee frame
  if f.isFunction then
    match args with
    | [] => apply f .nil
    | args => args.foldlM (applyTo evaluate apply frame) f
  else Eval.fault .notAFunction

/-- Only a name can be assigned to; this is noticed after its value has been computed. -/
def assign (target value next : Expr) (frame : FrameId) : Eval Value := do
  let v ← evaluate value frame
  match target with
  | .ref p name =>
    fun m => match Eval.assign frame name v m with
      | .ok _ m => evaluate next frame m
      | .error (.fault f) m => .error (.fault (f.blame p)) m
      | .error halt m => .error halt m
  | target => throw (.fault { reason := .invalidTarget, position := some target.position })

/-- Only true itself chooses the first branch. -/
def branch (test yes no : Expr) (frame : FrameId) : Eval Value := do
  match ← evaluate test frame with
  | .bool true => evaluate yes frame
  | _ => evaluate no frame

def binding (name : String) (value body : Expr) (next : Option Expr) (frame : FrameId) : Eval Value := do
  let v ← evaluate value frame
  Eval.define frame name v
  let result ← evaluate body frame
  match next with
  | some next => evaluate next frame
  | none => return result

def function (name : Option String) (params : List String) (body : Expr) (next : Option Expr)
    (frame : FrameId) : Eval Value := do
  let id ← Eval.freshId
  let f : Value := .closure id name params body frame
  match name with
  | some name => Eval.define frame name f
  | none => pure ()
  match next with
  | some next => evaluate next frame
  | none => return f

/-- The value of an expression in a frame. -/
def expression (e : Expr) (frame : FrameId) : Eval Value :=
  match e with
  | .number _ x => pure (.number x)
  | .string _ s => pure (.string s)
  | .boolean _ b => pure (.bool b)
  | .nil _ => pure .nil
  | .ref _ name => Eval.lookup frame name
  | .list _ items => do return .list (← items.mapM (evaluate · frame))
  | .binary _ op left right => binary evaluate apply op left right frame
  | .unary _ op operand => unary evaluate apply op operand frame
  | .call _ callee args => call evaluate apply callee args frame
  | .assign _ target value next => assign evaluate target value next frame
  | .sequence _ first second => do
    let _ ← evaluate first frame
    evaluate second frame
  | .branch _ test yes no => branch evaluate test yes no frame
  | .binding _ name value body next => binding evaluate name value body next frame
  | .function _ name params body next => function evaluate name params body next frame
  | .strange _ kind => Eval.fault (.unknownForm kind)

/-- Apply a closure: its first parameter is bound in a new frame, and the body runs once none is left. A closure
without parameters ignores its argument. -/
def applyClosure (name : Option String) (params : List String) (body : Expr) (frame : FrameId)
    (arg : Value) : Eval Value := do
  let inner ← Eval.childFrame frame
  match params with
  | [] => evaluate body inner
  | [p] =>
    Eval.define inner p arg
    evaluate body inner
  | p :: more =>
    Eval.define inner p arg
    return .closure (← Eval.freshId) name more body inner

def reply : Reply → Eval Value
  | .value v => pure v
  | .fault message severity position => throw (.fault ⟨.raised message, position, severity⟩)
  | .crash c => throw (.crash c)

/-- Apply a native function: it computes once it has all its arguments. -/
def applyNative (h : Host) (name : String) (arity : Nat) (code : Primitive) (collected : List Value)
    (arg : Value) : Eval Value := do
  let args := collected ++ [arg]
  if args.length < arity then return .native (← Eval.freshId) name arity code args
  else
    match code with
    | .standard b => Library.run h.compile apply b args
    | .extension key => reply (h.extensions key args)

/-- Apply a function to one argument. -/
def applied (h : Host) (f arg : Value) : Eval Value :=
  match f with
  | .closure _ name params body frame => applyClosure evaluate name params body frame arg
  | .native _ name arity code collected => applyNative apply h name arity code collected arg
  | _ => Eval.fault .extraneousArgument

end Evaluator

open Evaluator in
mutual

/-- Evaluate an expression in a frame, with so much of the stack left. -/
def evaluate (h : Host) : Nat → Expr → FrameId → Eval Value
  | 0, _, _ => throw .exhausted
  | stack + 1, e, frame => deeper h e (expression (evaluate h stack) (apply h stack) e frame)

/-- Apply a function to an argument, with so much of the stack left. -/
def apply (h : Host) : Nat → Value → Value → Eval Value
  | 0, _, _ => throw .exhausted
  | stack + 1, f, arg => applied (evaluate h stack) (apply h stack) h f arg

end

end Curried
