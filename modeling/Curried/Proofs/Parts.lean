/-
  Curried.Proofs.Parts — what expressions and values are made of.

  The parts of an expression run in the frame it runs in; the body of a function runs elsewhere. `Expr.Outer` reaches
  the expressions inside another that are outside every function body, `Expr.Node` all of them, and `Expr.Inner` those
  inside a body. `Value.Part` reaches what is inside a value: items of lists, and arguments that native functions have
  collected.

  `Likeness.same` is the likeness of a run with itself: values are alike when they are equal and something holds of
  everything opaque in them (`Likeness.same_values_iff`).
-/

import Curried.Proofs.Coupling
import Curried.Proofs.Likeness.Uses

namespace Curried

namespace Expr

/-- What runs in the same frame when an expression does. The target of an assignment counts, though it is not run. -/
def parts : Expr → List Expr
  | list _ items => items
  | binary _ _ left right => [left, right]
  | unary _ _ operand => [operand]
  | call _ callee args => callee :: args
  | assign _ target value next => [target, value, next]
  | sequence _ first second => [first, second]
  | branch _ test yes no => [test, yes, no]
  | binding _ _ value body next => value :: body :: next.toList
  | function _ _ _ _ next => next.toList
  | number .. | string .. | boolean .. | nil _ | ref .. | strange .. => []

inductive Outer : Expr → Expr → Prop
  | self {e : Expr} : Outer e e
  | part {e x d : Expr} : x ∈ e.parts → Outer x d → Outer e d

inductive Node : Expr → Expr → Prop
  | self {e : Expr} : Node e e
  | part {e x d : Expr} : x ∈ e.parts → Node x d → Node e d
  | body {p : Position} {name : Option String} {params : List String} {b d : Expr} {next : Option Expr} :
      Node b d → Node (function p name params b next) d

def Inner (e d : Expr) : Prop :=
  ∃ p name params b next, e.Outer (function p name params b next) ∧ b.Node d

theorem Outer.node_of {e d x : Expr} (h : e.Outer d) (hx : d.Node x) : e.Node x := by
  induction h with
  | self => exact hx
  | part hy _ ih => exact .part hy (ih hx)

theorem Inner.node {e d : Expr} (h : e.Inner d) : e.Node d := by
  obtain ⟨p, name, params, b, next, houter, hd⟩ := h
  exact houter.node_of (.body hd)

theorem Inner.part {e x d : Expr} (hx : x ∈ e.parts) (h : x.Inner d) : e.Inner d := by
  obtain ⟨p, name, params, b, next, houter, hd⟩ := h
  exact ⟨p, name, params, b, next, .part hx houter, hd⟩

def Within (T : Position → Prop) (e : Expr) : Prop := ∀ d, e.Node d → T d.position

theorem within_of {T : Position → Prop} {e : Expr} (hp : T e.position) (hparts : ∀ x ∈ e.parts, x.Within T)
    (hbody : ∀ p name params b next, e = function p name params b next → b.Within T) : e.Within T := by
  intro d hd
  cases hd with
  | self => exact hp
  | part hx hd => exact hparts _ hx d hd
  | body hd => exact hbody _ _ _ _ _ rfl d hd

theorem Within.position {T : Position → Prop} {e : Expr} (h : e.Within T) : T e.position := h e .self

/-- An expression is of its own form, with what holds of its parts. -/
theorem matches_self {Q : Expr → Prop} {e : Expr} (h : ∀ x ∈ e.parts, Q x) :
    Expr.Matches (fun a b => a = b ∧ Q a) e e := by
  have hall : ∀ {es : List Expr}, (∀ x ∈ es, Q x) → List.Forall₂ (fun a b => a = b ∧ Q a) es es :=
    fun hes => List.forall₂_same.mpr fun x hx => ⟨rfl, hes x hx⟩
  have hnext : ∀ {next : Option Expr}, (∀ x ∈ next.toList, Q x) → Option.Rel (fun a b => a = b ∧ Q a) next next := by
    intro next hn
    cases next with
    | none => exact .none
    | some e => exact .some ⟨rfl, hn e List.mem_cons_self⟩
  cases e with
  | number => exact .number
  | string => exact .string
  | boolean => exact .boolean
  | nil => exact .nil
  | ref => exact .ref
  | list => exact .list (hall h)
  | binary =>
    obtain ⟨hl, hr, -⟩ := List.forall_mem_cons.mp h |>.imp_right List.forall_mem_cons.mp
    exact .binary ⟨rfl, hl⟩ ⟨rfl, hr⟩
  | unary => exact .unary ⟨rfl, h _ List.mem_cons_self⟩
  | call =>
    obtain ⟨hc, hargs⟩ := List.forall_mem_cons.mp h
    exact .call ⟨rfl, hc⟩ (hall hargs)
  | assign => exact .assign ⟨rfl, h _ (by simp [parts])⟩ ⟨rfl, h _ (by simp [parts])⟩ ⟨rfl, h _ (by simp [parts])⟩
  | sequence => exact .sequence ⟨rfl, h _ (by simp [parts])⟩ ⟨rfl, h _ (by simp [parts])⟩
  | branch => exact .branch ⟨rfl, h _ (by simp [parts])⟩ ⟨rfl, h _ (by simp [parts])⟩ ⟨rfl, h _ (by simp [parts])⟩
  | binding =>
    exact .binding ⟨rfl, h _ (by simp [parts])⟩ ⟨rfl, h _ (by simp [parts])⟩
      (hnext fun x hx => h x (List.mem_cons_of_mem _ (List.mem_cons_of_mem _ hx)))
  | function => exact .function (hnext h)
  | strange => exact .strange

end Expr

/-! ## Values -/

namespace Value

inductive Part : Value → Value → Prop
  | self {v : Value} : Part v v
  | item {items : List Value} {v u : Value} : v ∈ items → Part v u → Part (list items) u
  | collected {id : Nat} {name : String} {arity : Nat} {code : Primitive} {vs : List Value} {v u : Value} :
      v ∈ vs → Part v u → Part (native id name arity code vs) u

/-- A function, or a value that is none of the language's. -/
def isOpaque : Value → Bool
  | closure .. | native .. | foreign _ => true
  | nil | bool _ | number _ | string _ | list _ | regex _ => false

def Each (Q : Value → Prop) (v : Value) : Prop := ∀ u, v.Part u → u.isOpaque = true → Q u

variable {Q : Value → Prop}

theorem each_list {items : List Value} : (list items).Each Q ↔ ∀ v ∈ items, v.Each Q := by
  constructor
  · intro h v hv u hu
    exact h u (.item hv hu)
  · intro h u hu hf
    cases hu with
    | self => cases hf
    | item hv hu => exact h _ hv u hu hf

theorem each_native {id : Nat} {name : String} {arity : Nat} {code : Primitive} {vs : List Value} :
    (native id name arity code vs).Each Q ↔ Q (native id name arity code vs) ∧ ∀ v ∈ vs, v.Each Q := by
  constructor
  · intro h
    exact ⟨h _ .self rfl, fun v hv u hu => h u (.collected hv hu)⟩
  · rintro ⟨hself, hvs⟩ u hu hf
    cases hu with
    | self => exact hself
    | collected hv hu => exact hvs _ hv u hu hf

theorem each_closure {id : Nat} {name : Option String} {params : List String} {body : Expr} {frame : FrameId} :
    (closure id name params body frame).Each Q ↔ Q (closure id name params body frame) := by
  constructor
  · intro h
    exact h _ .self rfl
  · rintro hself u hu -
    cases hu
    exact hself

theorem each_foreign {type : String} : (foreign type).Each Q ↔ Q (foreign type) := by
  constructor
  · intro h
    exact h _ .self rfl
  · rintro hself u hu -
    cases hu
    exact hself

theorem Each.imp {Q' : Value → Prop} {v : Value} (h : ∀ u, Q u → Q' u) (hv : v.Each Q) : v.Each Q' :=
  fun u hu ho => h u (hv u hu ho)

theorem Part.trans {v u x : Value} (h : v.Part u) (hx : u.Part x) : v.Part x := by
  induction h with
  | self => exact hx
  | item hv _ ih => exact .item hv (ih hx)
  | collected hv _ ih => exact .collected hv (ih hx)

theorem Each.part {v u : Value} (hv : v.Each Q) (hu : v.Part u) : u.Each Q := fun x hx => hv x (hu.trans hx)

theorem allUse_iff {P : Primitive → Prop} {vs : List Value} : AllUse P vs ↔ ∀ v ∈ vs, v.Uses P := by
  induction vs with
  | nil => exact ⟨fun _ => nofun, fun _ => trivial⟩
  | cons v vs ih => rw [AllUse, List.forall_mem_cons, ih]

theorem Uses.part {P : Primitive → Prop} {v u : Value} (hu : v.Part u) (h : v.Uses P) : u.Uses P := by
  induction hu with
  | self => exact h
  | item hv _ ih =>
    rw [Uses] at h
    exact ih (allUse_iff.mp h _ hv)
  | collected hv _ ih =>
    rw [Uses] at h
    exact ih (allUse_iff.mp h.2 _ hv)

end Value

namespace Likeness

def same (Q : Value → Prop) : Likeness where
  closure id name params body body' frame := body = body' ∧ Q (.closure id name params body frame)
  native id name arity code vs vs' := vs = vs' ∧ Q (.native id name arity code vs)
  foreign type := Q (.foreign type)

variable {Q : Value → Prop}

mutual

theorem eq_and_each : ∀ {v v' : Value}, (same Q).Values v v' → v = v' ∧ v.Each Q
  | _, _, .nil => ⟨rfl, fun u hu hf => by cases hu; cases hf⟩
  | _, _, .bool _ => ⟨rfl, fun u hu hf => by cases hu; cases hf⟩
  | _, _, .number _ => ⟨rfl, fun u hu hf => by cases hu; cases hf⟩
  | _, _, .string _ => ⟨rfl, fun u hu hf => by cases hu; cases hf⟩
  | _, _, .list h => ⟨congrArg Value.list (eq_and_each_all h).1, Value.each_list.mpr (eq_and_each_all h).2⟩
  | _, _, .closure h => by
    obtain ⟨rfl, hq⟩ := h
    exact ⟨rfl, Value.each_closure.mpr hq⟩
  | _, _, .native h hs => by
    obtain ⟨rfl, hq⟩ := h
    exact ⟨rfl, Value.each_native.mpr ⟨hq, (eq_and_each_all hs).2⟩⟩
  | _, _, .regex _ => ⟨rfl, fun u hu hf => by cases hu; cases hf⟩
  | _, _, .foreign h => ⟨rfl, Value.each_foreign.mpr h⟩

theorem eq_and_each_all : ∀ {vs vs' : List Value}, List.Forall₂ (same Q).Values vs vs' →
    vs = vs' ∧ ∀ v ∈ vs, v.Each Q
  | _, _, .nil => ⟨rfl, nofun⟩
  | _, _, .cons h hs => by
    obtain ⟨rfl, hv⟩ := eq_and_each h
    obtain ⟨rfl, hvs⟩ := eq_and_each_all hs
    exact ⟨rfl, List.forall_mem_cons.mpr ⟨hv, hvs⟩⟩

end

mutual

theorem values_of_each : ∀ {v : Value}, v.Each Q → (same Q).Values v v
  | .nil, _ => .nil
  | .bool b, _ => .bool b
  | .number x, _ => .number x
  | .string s, _ => .string s
  | .list _, h => .list (values_of_each_all (Value.each_list.mp h))
  | .closure .., h => .closure ⟨rfl, Value.each_closure.mp h⟩
  | .native .., h => .native ⟨rfl, (Value.each_native.mp h).1⟩ (values_of_each_all (Value.each_native.mp h).2)
  | .regex r, _ => .regex r
  | .foreign _, h => .foreign (Value.each_foreign.mp h)

theorem values_of_each_all : ∀ {vs : List Value}, (∀ v ∈ vs, v.Each Q) → List.Forall₂ (same Q).Values vs vs
  | [], _ => .nil
  | _ :: _, h => .cons (values_of_each (List.forall_mem_cons.mp h).1) (values_of_each_all (List.forall_mem_cons.mp h).2)

end

theorem same_values_iff {v v' : Value} : (same Q).Values v v' ↔ v = v' ∧ v.Each Q := by
  constructor
  · exact eq_and_each
  · rintro ⟨rfl, hv⟩
    exact values_of_each hv

/-- Every value is alike to itself, where nothing is asked of it. -/
theorem same_self (v : Value) : (same fun _ => True).Values v v := values_of_each fun _ _ _ => trivial

end Likeness

end Curried
