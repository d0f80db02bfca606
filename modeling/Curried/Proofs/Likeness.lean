/-
  Curried.Proofs.Likeness — values that are alike.

  A likeness says which closures and which native functions count as alike; values are alike when they are built the
  same way from functions that are (`Values`). No builtin can tell values that are alike from one another: they have
  the same kind and the same text, compare the same, and are taken apart into parts that are alike. What a builtin
  answers is compared by `Answers`: values that are alike, or the same fault.

  Stores are alike when the same names are bound in the same frames to values that are (`Store.Alike`); a name is
  then found in the same frame, and binding and making frames leaves them alike.
-/

import Curried.Catalogue.Standard
import Curried.Machine
import Curried.Proofs.Operations
import Mathlib.Data.List.Forall2

namespace Curried

/-- Which functions count as alike: those with the same identity and look, of which this holds. -/
structure Likeness where
  /-- A closure with one body and the same closure with another body. -/
  closure : Nat → Option String → List String → Expr → Expr → FrameId → Prop
  /-- A native function with some arguments collected, and the same with others. -/
  native : Nat → String → Nat → Primitive → List Value → List Value → Prop
  foreign : String → Prop := fun _ => True

/-- The reasons that a builtin or an application gives, whatever the program is. Where one names a function, that is one
of the library. The rest come from names without a value, from operators and forms that the language does not know, from
extensions and from crashes. -/
def Reason.isOrdinary : Reason → Bool
  | .undefinedVariable _ | .unknownOperator _ | .unknownUnaryOperator _ | .unknownForm _ | .crashed _ | .raised _ =>
    false
  | .mismatch function _ _ | .notWhole function _ | .negativeCount function _ =>
    Catalogue.standard.isRegistered function
  | _ => true

/-- Only crashes do not halt as the faults they are. -/
theorem Halt.ofFault_of {r : Reason} (h : r.isOrdinary = true) : Halt.ofFault (.of r) = .fault (.of r) := by
  cases r with
  | crashed c => cases h
  | _ => rfl

theorem Eval.lift_fault {α : Type} {r : Reason} (h : r.isOrdinary = true) :
    (Eval.lift (.error (.of r)) : Eval α) = Eval.fault r :=
  congrArg throw (Halt.ofFault_of h)

/-- Answers that are alike: the values are, or both are the same fault, which no expression has been blamed for. -/
inductive Answers {α β : Type} (rel : α → β → Prop) : Except Fault α → Except Fault β → Prop
  | ok {a : α} {b : β} : rel a b → Answers rel (.ok a) (.ok b)
  | fault {r : Reason} : r.isOrdinary = true → Answers rel (.error (.of r)) (.error (.of r))

namespace Likeness

inductive Values (L : Likeness) : Value → Value → Prop
  | nil : Values L .nil .nil
  | bool (b : Bool) : Values L (.bool b) (.bool b)
  | number (x : Float) : Values L (.number x) (.number x)
  | string (s : String) : Values L (.string s) (.string s)
  | list {vs vs' : List Value} : List.Forall₂ (Values L) vs vs' → Values L (.list vs) (.list vs')
  | closure {id : Nat} {name : Option String} {params : List String} {body body' : Expr} {frame : FrameId} :
      L.closure id name params body body' frame →
      Values L (.closure id name params body frame) (.closure id name params body' frame)
  | native {id : Nat} {name : String} {arity : Nat} {code : Primitive} {vs vs' : List Value} :
      L.native id name arity code vs vs' → List.Forall₂ (Values L) vs vs' →
      Values L (.native id name arity code vs) (.native id name arity code vs')
  | regex (r : Regex) : Values L (.regex r) (.regex r)
  | foreign {type : String} : L.foreign type → Values L (.foreign type) (.foreign type)

structure Le (L M : Likeness) : Prop where
  closure : ∀ {id name params body body' frame}, L.closure id name params body body' frame →
    M.closure id name params body body' frame
  native : ∀ {id name arity code vs vs'}, L.native id name arity code vs vs' → M.native id name arity code vs vs'
  foreign : ∀ {type}, L.foreign type → M.foreign type

variable {L M : Likeness}

mutual

theorem Values.mono (hLM : L.Le M) : ∀ {v v' : Value}, L.Values v v' → M.Values v v'
  | _, _, .nil => .nil
  | _, _, .bool b => .bool b
  | _, _, .number x => .number x
  | _, _, .string s => .string s
  | _, _, .list h => .list (Values.monoAll hLM h)
  | _, _, .closure h => .closure (hLM.closure h)
  | _, _, .native h hs => .native (hLM.native h) (Values.monoAll hLM hs)
  | _, _, .regex r => .regex r
  | _, _, .foreign h => .foreign (hLM.foreign h)

theorem Values.monoAll (hLM : L.Le M) :
    ∀ {vs vs' : List Value}, List.Forall₂ L.Values vs vs' → List.Forall₂ M.Values vs vs'
  | _, _, .nil => .nil
  | _, _, .cons h hs => .cons (Values.mono hLM h) (Values.monoAll hLM hs)

end

end Likeness

/-! ## Answers -/

theorem Answers.map {α β γ δ : Type} {rel : α → β → Prop} {rel' : γ → δ → Prop} {x : Except Fault α}
    {y : Except Fault β} {f : α → γ} {g : β → δ} (h : Answers rel x y) (hf : ∀ a b, rel a b → rel' (f a) (g b)) :
    Answers rel' (x.map f) (y.map g) := by
  cases h with
  | ok h => exact .ok (hf _ _ h)
  | fault hr => exact .fault hr

theorem Answers.imp {α β : Type} {rel rel' : α → β → Prop} {x : Except Fault α} {y : Except Fault β}
    (h : Answers rel x y) (himp : ∀ a b, rel a b → rel' a b) : Answers rel' x y := by
  cases h with
  | ok h => exact .ok (himp _ _ h)
  | fault hr => exact .fault hr

theorem Answers.bind {α β γ δ : Type} {rel : α → β → Prop} {rel' : γ → δ → Prop} {x : Except Fault α}
    {y : Except Fault β} {f : α → Except Fault γ} {g : β → Except Fault δ} (h : Answers rel x y)
    (hf : ∀ a b, rel a b → Answers rel' (f a) (g b)) : Answers rel' (x >>= f) (y >>= g) := by
  cases h with
  | ok h => exact hf _ _ h
  | fault hr => exact .fault hr

/-- The same computation on both sides, after answers that are equal. -/
theorem Answers.bind_eq {α γ δ : Type} {rel' : γ → δ → Prop} {x y : Except Fault α} {f : α → Except Fault γ}
    {g : α → Except Fault δ} (h : Answers Eq x y) (hf : ∀ a, Answers rel' (f a) (g a)) :
    Answers rel' (x >>= f) (y >>= g) :=
  h.bind fun a _ e => e ▸ hf a

theorem Answers.eq {α : Type} {x y : Except Fault α} (h : Answers Eq x y) : x = y := by
  cases h with
  | ok h => rw [h]
  | fault => rfl

theorem Answers.mapM {α β γ δ : Type} {rel : α → β → Prop} {rel' : γ → δ → Prop} {f : α → Except Fault γ}
    {g : β → Except Fault δ} (hf : ∀ a b, rel a b → Answers rel' (f a) (g b)) {xs : List α} {ys : List β}
    (h : List.Forall₂ rel xs ys) : Answers (List.Forall₂ rel') (xs.mapM f) (ys.mapM g) := by
  induction h with
  | nil => exact .ok .nil
  | cons hd _ ih =>
    simp only [List.mapM_cons]
    exact (hf _ _ hd).bind fun a b hab => ih.bind fun as bs habs => .ok (.cons hab habs)

namespace Likeness

variable {L : Likeness}

/-! ## What values look like -/

theorem Values.isFunction {v v' : Value} (h : L.Values v v') : v.isFunction = v'.isFunction := by
  cases h <;> rfl

theorem Values.truthy {v v' : Value} (h : L.Values v v') : v.truthy = v'.truthy := by
  cases h <;> rfl

theorem Values.kind {v v' : Value} (h : L.Values v v') : Answers Eq v.kind v'.kind := by
  cases h with
  | foreign => exact .fault rfl
  | _ => exact .ok rfl

theorem Values.mismatch {α β : Type} {rel : α → β → Prop} {v v' : Value} (h : L.Values v v') {name : String}
    (hname : Catalogue.standard.isRegistered name = true) (k : Kind) :
    Answers rel (v.mismatch name k) (v'.mismatch name k) :=
  h.kind.bind_eq fun _ => .fault hname

theorem Values.asNumber {v v' : Value} (h : L.Values v v') (name : String)
    (hname : Catalogue.standard.isRegistered name = true) :
    Answers Eq (v.asNumber name) (v'.asNumber name) := by
  have hm : Answers (@Eq Float) (v.mismatch name .number) (v'.mismatch name .number) := h.mismatch hname .number
  cases h with
  | number x => exact .ok rfl
  | _ => exact hm

/-- The index and the double that it is. -/
theorem Values.asIndex_whole {v v' : Value} (h : L.Values v v') (name : String)
    (hname : Catalogue.standard.isRegistered name = true) :
    Answers (fun i j => i = j ∧ ∃ x, Number.whole? x = some i) (v.asIndex name) (v'.asIndex name) := by
  refine (h.asNumber name hname).bind_eq fun x => ?_
  show Answers _ (Value.asIndex name (.number x)) (Value.asIndex name (.number x))
  cases hx : Number.whole? x with
  | some n =>
    rw [Value.asIndex_of_whole hx]
    exact .ok ⟨rfl, x, hx⟩
  | none =>
    rw [Value.asIndex_of_whole?_none hx]
    exact .fault hname

theorem Values.asIndex {v v' : Value} (h : L.Values v v') (name : String)
    (hname : Catalogue.standard.isRegistered name = true) :
    Answers Eq (v.asIndex name) (v'.asIndex name) :=
  (h.asIndex_whole name hname).imp fun _ _ hi => hi.1

theorem Values.asString {v v' : Value} (h : L.Values v v') (name : String)
    (hname : Catalogue.standard.isRegistered name = true) :
    Answers Eq (v.asString name) (v'.asString name) := by
  have hm : Answers (@Eq String) (v.mismatch name .string) (v'.mismatch name .string) := h.mismatch hname .string
  cases h with
  | string s => exact .ok rfl
  | _ => exact hm

theorem Values.asRegex {v v' : Value} (h : L.Values v v') (name : String)
    (hname : Catalogue.standard.isRegistered name = true) :
    Answers Eq (v.asRegex name) (v'.asRegex name) := by
  have hm : Answers (@Eq Regex) (v.mismatch name .regex) (v'.mismatch name .regex) := h.mismatch hname .regex
  cases h with
  | regex r => exact .ok rfl
  | _ => exact hm

theorem Values.asList {v v' : Value} (h : L.Values v v') (name : String)
    (hname : Catalogue.standard.isRegistered name = true) :
    Answers (List.Forall₂ (L.Values)) (v.asList name) (v'.asList name) := by
  have hm : Answers (List.Forall₂ (L.Values)) (v.mismatch name .list) (v'.mismatch name .list) := h.mismatch hname .list
  cases h with
  | list hs => exact .ok hs
  | _ => exact hm

theorem Values.asFunction {v v' : Value} (h : L.Values v v') (name : String)
    (hname : Catalogue.standard.isRegistered name = true) :
    Answers (L.Values) (v.asFunction name) (v'.asFunction name) := by
  unfold Value.asFunction
  rw [← h.isFunction]
  split
  · exact .ok h
  · exact h.mismatch hname .function

mutual

theorem Values.render : ∀ {v v' : Value}, L.Values v v' → Answers Eq v.render v'.render
  | _, _, .nil => .ok rfl
  | _, _, .bool _ => .ok rfl
  | _, _, .number x => by
    obtain ⟨text, htext⟩ := Number.exists_render x
    rw [Value.render, htext]
    exact .ok rfl
  | _, _, .string _ => .ok rfl
  | _, _, .list h => (Values.renderAll h []).map fun _ _ e => by rw [e]
  | _, _, .closure _ => .ok rfl
  | _, _, .native _ _ => .ok rfl
  | _, _, .regex _ => .ok rfl
  | _, _, .foreign _ => .fault rfl

theorem Values.renderAll : ∀ {vs vs' : List Value}, List.Forall₂ (L.Values) vs vs' → ∀ before : List String,
    Answers Eq (Value.renderAll vs before) (Value.renderAll vs' before)
  | _, _, .nil, _ => .ok rfl
  | _, _, .cons (a := v) (b := v') h hs, before => by
    unfold Value.renderAll
    have hv := Values.render h
    generalize v.render = x, v'.render = y at hv
    cases hv with
    | ok e => subst e; exact Values.renderAll hs _
    | fault hr => exact .fault hr

end

mutual

theorem Values.equals : ∀ {a a' b b' : Value}, L.Values a a' → L.Values b b' →
    Answers Eq (a.equals b) (a'.equals b')
  | _, _, _, _, .list h, hb => by
    cases hb with
    | list hb =>
      simp only [Value.equals, h.length_eq, hb.length_eq]
      split
      · exact Values.equalsAll h hb
      · exact .ok rfl
    | foreign => exact .fault rfl
    | _ => exact .ok rfl
  | _, _, _, _, .foreign _, hb => by simp only [Value.equals]; exact .fault rfl
  | _, _, _, _, .nil, hb | _, _, _, _, .bool _, hb | _, _, _, _, .number _, hb | _, _, _, _, .string _, hb
  | _, _, _, _, .closure _, hb | _, _, _, _, .native _ _, hb | _, _, _, _, .regex _, hb => by
    cases hb with
    | foreign => exact .fault rfl
    | _ => exact .ok rfl

theorem Values.equalsAll : ∀ {as as' bs bs' : List Value}, List.Forall₂ (L.Values) as as' →
    List.Forall₂ (L.Values) bs bs' → Answers Eq (Value.equalsAll as bs) (Value.equalsAll as' bs')
  | _, _, _, _, .nil, _ => by simp only [Value.equalsAll]; exact .ok rfl
  | _, _, _, _, .cons h hs, hb => by
    cases hb with
    | nil => simp only [Value.equalsAll]; exact .ok rfl
    | cons h' hs' =>
      simp only [Value.equalsAll]
      refine (Values.equals h h').bind_eq fun same => ?_
      cases same
      · exact .ok rfl
      · exact Values.equalsAll hs hs'

end

end Likeness

/-! ## Stores -/

theorem rel_getElem? {α β : Type} {rel : α → β → Prop} {xs : List α} {ys : List β} (h : List.Forall₂ rel xs ys) :
    ∀ i : Nat, Option.Rel rel xs[i]? ys[i]? := by
  induction h with
  | nil => intro i; exact .none
  | cons hd _ ih =>
    intro i
    cases i with
    | zero => exact .some hd
    | succ i => exact ih i

structure Frame.Alike (rel : Value → Value → Prop) (f f' : Frame) : Prop where
  parent : f.parent = f'.parent
  bindings : List.Forall₂ (fun b b' => b.1 = b'.1 ∧ rel b.2 b'.2) f.bindings f'.bindings

def Store.Alike (rel : Value → Value → Prop) (s s' : Store) : Prop :=
  List.Forall₂ (Frame.Alike rel) s.frames.toList s'.frames.toList

section

variable {rel : Value → Value → Prop}

theorem Frame.Alike.find? {f f' : Frame} (h : f.Alike rel f') (name : String) :
    Option.Rel rel (f.find? name) (f'.find? name) := by
  obtain ⟨-, hb⟩ := h
  unfold Frame.find?
  generalize f.bindings = bs, f'.bindings = bs' at hb
  induction hb with
  | nil => exact .none
  | @cons b b' _ _ hd _ ih =>
    rw [List.find?_cons, List.find?_cons, hd.1]
    cases b'.1 == name
    · exact ih
    · exact .some hd.2

theorem Frame.Alike.bind {f f' : Frame} (h : f.Alike rel f') (name : String) {v v' : Value} (hv : rel v v') :
    (f.bind name v).Alike rel (f'.bind name v') := by
  obtain ⟨hp, hb⟩ := h
  refine ⟨hp, ?_⟩
  show List.Forall₂ _ (Frame.bindIn name v f.bindings) (Frame.bindIn name v' f'.bindings)
  generalize f.bindings = bs, f'.bindings = bs' at hb
  induction hb with
  | nil => exact .cons ⟨rfl, hv⟩ .nil
  | @cons b b' _ _ hd hs ih =>
    obtain ⟨n, u⟩ := b
    obtain ⟨n', u'⟩ := b'
    obtain ⟨rfl, hu⟩ := hd
    simp only [Frame.bindIn]
    split
    · exact .cons ⟨rfl, hv⟩ hs
    · exact .cons ⟨rfl, hu⟩ ih

theorem Store.Alike.size {s s' : Store} (h : s.Alike rel s') : s.size = s'.size := h.length_eq

theorem Store.Alike.frame {s s' : Store} (h : s.Alike rel s') (id : FrameId) :
    (s.frame id).Alike rel (s'.frame id) := by
  unfold Store.frame
  rw [Array.getD_eq_getD_getElem?, Array.getD_eq_getD_getElem?, ← Array.getElem?_toList, ← Array.getElem?_toList]
  have hr := rel_getElem? h id
  generalize s.frames.toList[id]? = x, s'.frames.toList[id]? = y at hr
  cases hr with
  | none => exact ⟨rfl, .nil⟩
  | some hf => exact hf

/-- A name is found in the same frame of stores that are alike. -/
theorem Store.Alike.resolve? {s s' : Store} (h : s.Alike rel s') (id : FrameId) (name : String) :
    Option.Rel (fun r r' => r.1 = r'.1 ∧ rel r.2 r'.2) (s.resolve? id name) (s'.resolve? id name) := by
  unfold Store.resolve?
  generalize id + 1 = fuel
  induction fuel generalizing id with
  | zero => exact .none
  | succ fuel ih =>
    obtain hf := h.frame id
    have hv := hf.find? name
    simp only [Store.resolveWithin, ← hf.parent]
    generalize (s.frame id).find? name = x, (s'.frame id).find? name = y at hv
    cases hv with
    | some hv => exact .some ⟨rfl, hv⟩
    | none =>
      cases (s.frame id).parent with
      | none => exact .none
      | some parent => exact ih parent

theorem Store.Alike.lookup? {s s' : Store} (h : s.Alike rel s') (id : FrameId) (name : String) :
    Option.Rel rel (s.lookup? id name) (s'.lookup? id name) := by
  have hr := h.resolve? id name
  unfold Store.lookup?
  generalize s.resolve? id name = x, s'.resolve? id name = y at hr
  cases hr with
  | none => exact .none
  | some hr => exact .some hr.2

theorem Store.Alike.define {s s' : Store} (h : s.Alike rel s') (id : FrameId) (name : String) {v v' : Value}
    (hv : rel v v') : (s.define id name v).Alike rel (s'.define id name v') := by
  show List.Forall₂ _ (s.frames.modify id _).toList (s'.frames.modify id _).toList
  rw [Array.toList_modify, Array.toList_modify]
  unfold Store.Alike at h
  generalize s.frames.toList = fs, s'.frames.toList = fs' at h
  induction h generalizing id with
  | nil => simp
  | cons hd hs ih =>
    cases id with
    | zero => exact .cons (hd.bind name hv) hs
    | succ id => exact .cons hd (ih id)

theorem Store.Alike.child {s s' : Store} (h : s.Alike rel s') (parent : FrameId) :
    (s.child parent).Alike rel (s'.child parent) := by
  show List.Forall₂ _ (s.frames.push _).toList (s'.frames.push _).toList
  rw [Array.toList_push, Array.toList_push]
  exact List.rel_append h (.cons ⟨rfl, .nil⟩ .nil)

end

end Curried
