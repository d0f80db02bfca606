/-
  Curried.Proofs.Coupling.Evaluator — evaluation respects every coupling.

  The evaluator is written from parts that are given how to run what is inside them; each part, given two ways that
  correspond, makes computations that correspond. With the laws of a coupling this closes: `evaluate_runs` and
  `apply_runs`, by induction on the stack that is left. The second run may have more of it than the first where
  running out of it is excused.
-/

import Curried.Proofs.Coupling.Library

namespace Curried

def Value.reads : Value → Bool
  | .native _ _ _ (.standard .read) _ => true
  | _ => false

namespace Coupling

open Evaluator Likeness

variable {C : Coupling} {w : C.World} {h h' : Host}

def Evaluates (C : Coupling) (w : C.World) (evaluate evaluate' : Expr → FrameId → Eval Value) : Prop :=
  ∀ w', C.later w w' → ∀ e e' frame, C.program w' e e' frame →
    C.Runs w' C.Values (evaluate e frame) (evaluate' e' frame)

section

variable (hC : C.Steps h h')
include hC

theorem Evaluates.mono {evaluate evaluate' : Expr → FrameId → Eval Value} (he : C.Evaluates w evaluate evaluate')
    {w' : C.World} (hw : C.later w w') : C.Evaluates w' evaluate evaluate' :=
  fun u hu => he u (hC.trans hw hu)

/-! ## Names -/

omit hC in
theorem lookup_eq (frame : FrameId) (name : String) (m : Machine) :
    Eval.lookup frame name m = match m.store.resolve? frame name with
      | some (_, v) => .ok v m
      | none => .error (.fault (.of (.undefinedVariable name))) m := by
  show Eval.lift (m.store.get frame name) m = _
  unfold Store.get Store.lookup?
  cases m.store.resolve? frame name <;> rfl

theorem lookup_runs {e e' : Expr} {frame : FrameId} (he : C.program w e e' frame) (name : String) :
    C.Runs w C.Values (Eval.lookup frame name) (Eval.lookup frame name) := by
  intro w' hw m m' hm
  have hr := hC.resolve (hC.program hw he) hm name
  rw [lookup_eq, lookup_eq]
  cases hx : m.store.resolve? frame name with
  | none =>
    rw [hx] at hr
    generalize m'.store.resolve? frame name = y at hr
    cases hr
    exact .halt (hC.refl w') (hC.missing (hC.program hw he) hx hm)
  | some r =>
    rw [hx] at hr
    generalize m'.store.resolve? frame name = y at hr
    cases hr with
    | some hv => exact .ok (hC.refl w') hm hv.2

theorem declare_runs {e e' : Expr} {frame : FrameId} {name : String} {v v' : Value} (he : C.program w e e' frame)
    (hname : e.declared? = some name) (hv : C.Values w v v') :
    C.Runs w (fun _ _ _ => True) (Eval.define frame name v) (Eval.define frame name v') :=
  .modify fun _ hw _ _ hm => hC.declare (hC.program hw he) hname hm (hv.mono (hC.like hw))

theorem operatorFunction_runs {e e' : Expr} {frame : FrameId} (he : C.program w e e' frame) (symbol name : String) :
    C.Runs w C.Values (operatorFunction symbol name frame) (operatorFunction symbol name frame) := by
  refine .bind hC.toWorlds (lookup_runs hC he name) fun w₁ _ f f' hf => ?_
  rw [← hf.isFunction]
  split
  · exact .value hC.toWorlds hf
  · exact fault_runs hC rfl

omit hC in
theorem assign_eq (frame : FrameId) (name : String) (v : Value) (m : Machine) :
    Eval.assign frame name v m = match m.store.resolve? frame name with
      | some (owner, _) => .ok () (m.define owner name v)
      | none => .error (.fault (.of (.undefinedVariable name))) m := by
  show (match m.store.resolve? frame name with
    | some (owner, _) => Eval.define owner name v
    | none => Eval.fault (.undefinedVariable name)) m = _
  cases m.store.resolve? frame name <;> rfl

/-! ## Expressions -/

variable {evaluate evaluate' : Expr → FrameId → Eval Value} {apply apply' : Value → Value → Eval Value}
  (heval : C.Evaluates w evaluate evaluate') (happ : C.Applies w apply apply')
include heval happ

theorem binary_runs {p p' : Position} {op : BinaryOp} {l l' r r' : Expr} {frame : FrameId}
    (he : C.program w (.binary p op l r) (.binary p' op l' r') frame) (hl : C.program w l l' frame)
    (hr : C.program w r r' frame) :
    C.Runs w C.Values (binary evaluate apply op l r frame) (binary evaluate' apply' op l' r' frame) := by
  refine .bind hC.toWorlds (heval w (hC.refl w) _ _ _ hl) fun w₁ hw₁ a a' ha => ?_
  refine .bind hC.toWorlds (heval w₁ hw₁ _ _ _ (hC.program hw₁ hr)) fun w₂ hw₂ b b' hb => ?_
  have hw := hC.trans hw₁ hw₂
  cases hop : op.builtin? with
  | none =>
    -- only an operator that is not the language's has no name to look up
    cases op <;> cases hop
    exact fun w₃ hw₃ _ _ hm => .halt (hC.refl w₃) (hC.unknown (hC.program (hC.trans hw hw₃) he) rfl hm)
  | some name =>
    refine .bind hC.toWorlds (operatorFunction_runs hC (hC.program hw he) op.symbol name) fun w₃ hw₃ f f' hf => ?_
    exact applyAll_runs hC (happ.mono hC (hC.trans hw hw₃)) hf
      (.cons (ha.mono (hC.like (hC.trans hw₂ hw₃))) (.cons (hb.mono (hC.like hw₃)) .nil))

theorem unary_runs {p p' : Position} {op : UnaryOp} {x x' : Expr} {frame : FrameId}
    (he : C.program w (.unary p op x) (.unary p' op x') frame) (hx : C.program w x x' frame) :
    C.Runs w C.Values (unary evaluate apply op x frame) (unary evaluate' apply' op x' frame) := by
  refine .bind hC.toWorlds (heval w (hC.refl w) _ _ _ hx) fun w₁ hw₁ a a' ha => ?_
  cases hop : op.builtin? with
  | none =>
    cases op <;> cases hop
    exact fun w₂ hw₂ _ _ hm => .halt (hC.refl w₂) (hC.unknown (hC.program (hC.trans hw₁ hw₂) he) rfl hm)
  | some name =>
    refine .bind hC.toWorlds (operatorFunction_runs hC (hC.program hw₁ he) op.symbol name) fun w₂ hw₂ f f' hf => ?_
    exact applyAll_runs hC (happ.mono hC (hC.trans hw₁ hw₂)) hf (.cons (ha.mono (hC.like hw₂)) .nil)

theorem call_runs {callee callee' : Expr} {args args' : List Expr} {frame : FrameId}
    (hcallee : C.program w callee callee' frame) (hargs : List.Forall₂ (C.program w · · frame) args args') :
    C.Runs w C.Values (call evaluate apply callee args frame) (call evaluate' apply' callee' args' frame) := by
  refine .bind hC.toWorlds (heval w (hC.refl w) _ _ _ hcallee) fun w₁ hw₁ f f' hf => ?_
  rw [← hf.isFunction]
  split
  · cases hargs with
    | nil => exact happ w₁ hw₁ _ _ _ _ hf .nil
    | cons ha has =>
      have hall : List.Forall₂ (C.program w · · frame) (_ :: _) (_ :: _) := .cons ha has
      refine .foldlM hC.toWorlds (fun hw hv => hv.mono (hC.like hw)) ?_ hall hf
      intro w₂ hw₂ arg arg' harg g g' hg
      have hw := hC.trans hw₁ hw₂
      refine .bind hC.toWorlds (heval w₂ hw _ _ _ (hC.program hw harg)) fun w₃ hw₃ v v' hv => ?_
      exact applyNext_runs hC (happ.mono hC (hC.trans hw hw₃)) (hg.mono (hC.like hw₃)) hv
  · exact fault_runs hC rfl

omit happ

theorem branch_runs {test test' yes yes' no no' : Expr} {frame : FrameId} (ht : C.program w test test' frame)
    (hy : C.program w yes yes' frame) (hn : C.program w no no' frame) :
    C.Runs w C.Values (branch evaluate test yes no frame) (branch evaluate' test' yes' no' frame) := by
  refine .bind hC.toWorlds (heval w (hC.refl w) _ _ _ ht) fun w₁ hw₁ v v' hv => ?_
  have second := heval w₁ hw₁ _ _ _ (hC.program hw₁ hn)
  cases hv with
  | bool b =>
    cases b
    · exact second
    · exact heval w₁ hw₁ _ _ _ (hC.program hw₁ hy)
  | _ => exact second

/-- What follows a declaration: the one chained to it, or else a value. -/
theorem next_runs {next next' : Option Expr} {frame : FrameId} {w' : C.World} (hw : C.later w w') {v v' : Value}
    (hv : C.Values w' v v') : Option.Rel (C.program w · · frame) next next' →
    C.Runs w' C.Values (match next with | some e => evaluate e frame | none => pure v)
      (match next' with | some e => evaluate' e frame | none => pure v') := by
  intro hn
  cases hn with
  | none => exact .value hC.toWorlds hv
  | some he => exact heval w' hw _ _ _ (hC.program hw he)

theorem binding_runs {p p' : Position} {name : String} {value value' body body' : Expr} {next next' : Option Expr}
    {frame : FrameId} (he : C.program w (.binding p name value body next) (.binding p' name value' body' next') frame)
    (hv : C.program w value value' frame) (hb : C.program w body body' frame)
    (hn : Option.Rel (C.program w · · frame) next next') :
    C.Runs w C.Values (binding evaluate name value body next frame)
      (binding evaluate' name value' body' next' frame) := by
  refine .bind hC.toWorlds (heval w (hC.refl w) _ _ _ hv) fun w₁ hw₁ v v' hv => ?_
  refine .bind hC.toWorlds (declare_runs hC (hC.program hw₁ he) rfl hv) fun w₂ hw₂ _ _ _ => ?_
  have hw := hC.trans hw₁ hw₂
  refine .bind hC.toWorlds (heval w₂ hw _ _ _ (hC.program hw hb)) fun w₃ hw₃ u u' hu => ?_
  exact next_runs hC heval (hC.trans hw hw₃) hu hn

theorem function_runs {p p' : Position} {name : Option String} {params : List String} {body body' : Expr}
    {next next' : Option Expr} {frame : FrameId}
    (he : C.program w (.function p name params body next) (.function p' name params body' next') frame)
    (hn : Option.Rel (C.program w · · frame) next next') :
    C.Runs w C.Values (function evaluate name params body next frame)
      (function evaluate' name params body' next' frame) := by
  have hid : C.Runs w (fun w id id' => id = id' ∧ (C.like w).closure id name params body body' frame) Eval.freshId
      Eval.freshId := by
    refine .modifyGet fun w₁ hw₁ m m' hm => ?_
    obtain ⟨w₂, hw₂, hm₂, hc⟩ := hC.make (hC.program hw₁ he) hm
    exact ⟨w₂, hw₂, hm₂, hC.ids hm, hc⟩
  refine .bind hC.toWorlds hid fun w₁ hw₁ id id' ⟨e, hc⟩ => ?_
  subst e
  cases name with
  | none => exact next_runs hC heval hw₁ (.closure hc) hn
  | some n =>
    refine .bind hC.toWorlds (declare_runs hC (hC.program hw₁ he) rfl (.closure hc)) fun w₂ hw₂ _ _ _ => ?_
    exact next_runs hC heval (hC.trans hw₁ hw₂) (.closure ((hC.like hw₂).closure hc)) hn

theorem assign_runs {p p' : Position} {t t' value value' next next' : Expr} {frame : FrameId}
    (he : C.program w (.assign p t value next) (.assign p' t' value' next') frame) (ht : C.program w t t' frame)
    (hv : C.program w value value' frame) (hn : C.program w next next' frame) :
    C.Runs w C.Values (assign evaluate t value next frame) (assign evaluate' t' value' next' frame) := by
  refine .bind hC.toWorlds (heval w (hC.refl w) _ _ _ hv) fun w₁ hw₁ v v' hv => ?_
  have invalid : C.Runs w₁ C.Values
      (throw (.fault ⟨.invalidTarget, some t.position, .fatal⟩))
      (throw (.fault ⟨.invalidTarget, some t'.position, .fatal⟩)) :=
    fun w₂ hw₂ _ _ hm => .halt (hC.refl w₂)
      (hC.target (r := .invalidTarget) (hC.program (hC.trans hw₁ hw₂) he) (hC.fault rfl hm) hm)
  cases hC.parts ht with
  | @ref q q' name =>
    intro w₂ hw₂ m m' hm
    have hw := hC.trans hw₁ hw₂
    have hr := hC.resolve (hC.program hw ht) hm name
    dsimp only
    rw [assign_eq, assign_eq]
    cases hx : m.store.resolve? frame name with
    | none =>
      rw [hx] at hr
      generalize m'.store.resolve? frame name = y at hr
      cases hr
      have hmissing := hC.missing (hC.program hw he) hx hm
      exact .halt (hC.refl w₂) (hC.target (r := .undefinedVariable name) (hC.program hw he) hmissing hm)
    | some r =>
      obtain ⟨w₃, hw₃, hm₃⟩ := hC.rebind (hC.program hw he) hm hx (hv.mono (hC.like hw₂))
      rw [hx] at hr
      generalize m'.store.resolve? frame name = y at hr
      cases hr with
      | @some _ r' hr =>
        have hw' := hC.trans hw hw₃
        show C.Ends w₂ C.Values (evaluate next frame (m.define r.1 name v))
          (evaluate' next' frame (m'.define r'.1 name v'))
        rw [← hr.1]
        exact (heval w₃ hw' _ _ _ (hC.program hw' hn) w₃ (hC.refl w₃) _ _ hm₃).earlier hC.toWorlds hw₃
  | _ => exact invalid

include happ

theorem expression_runs {e e' : Expr} {frame : FrameId} (he : C.program w e e' frame) :
    C.Runs w C.Values (expression evaluate apply e frame) (expression evaluate' apply' e' frame) := by
  cases hC.parts he with
  | number => exact .value hC.toWorlds (.number _)
  | string => exact .value hC.toWorlds (.string _)
  | boolean => exact .value hC.toWorlds (.bool _)
  | nil => exact .value hC.toWorlds .nil
  | ref => exact lookup_runs hC he _
  | list hs => exact collect_runs hC (fun _ _ hx => heval w (hC.refl w) _ _ _ hx) hs
  | binary hl hr => exact binary_runs hC heval happ he hl hr
  | unary hx => exact unary_runs hC heval happ he hx
  | call hf hs => exact call_runs hC heval happ hf hs
  | assign ht hv hn => exact assign_runs hC heval he ht hv hn
  | sequence ha hb =>
    exact .bind hC.toWorlds (heval w (hC.refl w) _ _ _ ha) fun w₁ hw₁ _ _ _ =>
      heval w₁ hw₁ _ _ _ (hC.program hw₁ hb)
  | branch ht hy hn => exact branch_runs hC heval ht hy hn
  | binding hv hb hn => exact binding_runs hC heval he hv hb hn
  | function hn => exact function_runs hC heval he hn
  | strange => exact fun w₁ hw₁ _ _ hm => .halt (hC.refl w₁) (hC.unknown (hC.program hw₁ he) rfl hm)

/-! ## Functions -/

omit happ

theorem applyClosure_runs {id : Nat} {name : Option String} {params : List String} {body body' : Expr}
    {frame : FrameId} {v v' : Value} (hc : (C.like w).closure id name params body body' frame) (hv : C.Values w v v') :
    C.Runs w C.Values (applyClosure evaluate name params body frame v)
      (applyClosure evaluate' name params body' frame v') := by
  intro w₁ hw₁ m m' hm
  have hc₁ := (hC.like hw₁).closure hc
  have hv₁ := hv.mono (hC.like hw₁)
  match params with
  | [] =>
    obtain ⟨w₂, hw₂, hm₂, hb⟩ := hC.enter hc₁ (Nat.zero_le _) hm hv₁
    show C.Ends w₁ C.Values (evaluate body m.store.size (m.entered frame [] v))
      (evaluate' body' m'.store.size (m'.entered frame [] v'))
    rw [← hC.frames hm]
    exact (heval w₂ (hC.trans hw₁ hw₂) _ _ _ hb w₂ (hC.refl w₂) _ _ hm₂).earlier hC.toWorlds hw₂
  | [p] =>
    obtain ⟨w₂, hw₂, hm₂, hb⟩ := hC.enter hc₁ (Nat.le_refl _) hm hv₁
    show C.Ends w₁ C.Values (evaluate body m.store.size (m.entered frame [p] v))
      (evaluate' body' m'.store.size (m'.entered frame [p] v'))
    rw [← hC.frames hm]
    exact (heval w₂ (hC.trans hw₁ hw₂) _ _ _ hb w₂ (hC.refl w₂) _ _ hm₂).earlier hC.toWorlds hw₂
  | p :: q :: more =>
    obtain ⟨w₂, hw₂, hm₂, hb⟩ := hC.curry hc₁ hm hv₁
    have hval : C.Values w₂ (.closure m.nextId name (q :: more) body m.store.size)
        (.closure m'.nextId name (q :: more) body' m'.store.size) := by
      rw [← hC.frames hm, ← hC.ids hm]
      exact .closure hb
    exact .ok hw₂ hm₂ hval

omit heval
include happ

theorem applyNative_runs {id : Nat} {name : String} {arity : Nat} {code : Primitive} {vs vs' : List Value}
    {v v' : Value} (hn : (C.like w).native id name arity code vs vs') (hvs : List.Forall₂ (C.Values w) vs vs')
    (hv : C.Values w v v') (hread : code = .standard .read → C.Runs w C.Values Library.read Library.read) :
    C.Runs w C.Values (applyNative apply h name arity code vs v) (applyNative apply' h' name arity code vs' v') := by
  have hargs : List.Forall₂ (C.Values w) (vs ++ [v]) (vs' ++ [v']) := List.rel_append hvs (.cons hv .nil)
  unfold applyNative
  simp only [← hargs.length_eq]
  split
  · rename_i hlt
    rw [List.length_append, List.length_singleton] at hlt
    have hid : C.Runs w (fun w i i' => i = i' ∧ (C.like w).native i name arity code (vs ++ [v]) (vs' ++ [v']))
        Eval.freshId Eval.freshId := by
      refine .modifyGet fun w₁ hw₁ m m' hm => ?_
      obtain ⟨w₂, hw₂, hm₂, hc⟩ := hC.collect ((hC.like hw₁).native hn) (Values.monoAll (hC.like hw₁) hvs)
        (hv.mono (hC.like hw₁)) hlt hm
      exact ⟨w₂, hw₂, hm₂, hC.ids hm, hc⟩
    refine .bind hC.toWorlds hid fun w₁ hw₁ i i' ⟨e, hc⟩ => ?_
    subst e
    exact .value hC.toWorlds (.native hc (Values.monoAll (hC.like hw₁) hargs))
  · cases code with
    | standard b => exact run_runs hC happ b (fun hb => hread (congrArg Primitive.standard hb)) hargs
    | extension key => exact hC.extension hn hargs

include heval

theorem applied_runs {f f' v v' : Value} (hf : C.Values w f f') (hv : C.Values w v v')
    (hread : f.reads = true → C.Runs w C.Values Library.read Library.read) :
    C.Runs w C.Values (applied evaluate apply h f v) (applied evaluate' apply' h' f' v') := by
  cases hf with
  | closure hc => exact applyClosure_runs hC heval hc hv
  | native hn hvs => exact applyNative_runs hC happ hn hvs hv fun hcode => hread (by rw [hcode, Value.reads])
  | _ => exact fault_runs hC rfl

end

/-! ## Evaluation as a whole -/

/-- The stacks of two runs: equal, or the second has more and running out is excused. -/
def Stacks (C : Coupling) (k k' : Nat) : Prop := k = k' ∨ C.excused .exhausted ∧ k ≤ k'

variable (hC : C.Laws h h')
include hC

/-- One induction for both, since evaluating applies functions and applying them evaluates their bodies. -/
theorem evaluates_and_applies (w : C.World) : ∀ k k', C.Stacks k k' →
    C.Evaluates w (Curried.evaluate h k) (Curried.evaluate h' k') ∧
      C.Applies w (Curried.apply h k) (Curried.apply h' k') := by
  intro k
  induction k with
  | zero =>
    intro k' hk
    have used : ∀ (w' : C.World) (y : Eval Value), (k' = 0 → y = throw .exhausted) →
        C.Runs w' C.Values (throw .exhausted) y := by
      intro w' y hy w₁ _ m m' hm
      rcases hC.exhausted hm with hx | hx
      · exact .excused hx
      · rcases hk with e | ⟨hx', _⟩
        · rw [hy e.symm]
          exact .halt (hC.refl w₁) hx
        · exact .excused hx'
    refine ⟨fun w₁ _ e e' frame _ => ?_, fun w₁ _ f f' v v' _ _ => ?_⟩
    · rw [Curried.evaluate]
      exact used w₁ _ fun e => by subst e; rw [Curried.evaluate]
    · rw [Curried.apply]
      exact used w₁ _ fun e => by subst e; rw [Curried.apply]
  | succ k ih =>
    intro k' hk
    match k' with
    | 0 =>
      rcases hk with e | ⟨_, hle⟩
      · cases e
      · exact absurd hle (Nat.not_succ_le_zero k)
    | k' + 1 =>
      have hk' : C.Stacks k k' := hk.imp Nat.succ.inj fun hx => ⟨hx.1, Nat.le_of_succ_le_succ hx.2⟩
      obtain ⟨heval, happ⟩ := ih k' hk'
      refine ⟨fun w₁ hw₁ e e' frame he => ?_, fun w₁ hw₁ f f' v v' hf hv => ?_⟩
      · rw [Curried.evaluate, Curried.evaluate]
        exact hC.deeper he (expression_runs hC.toSteps (heval.mono hC.toSteps hw₁) (happ.mono hC.toSteps hw₁) he)
      · rw [Curried.apply, Curried.apply]
        exact applied_runs hC.toSteps (heval.mono hC.toSteps hw₁) (happ.mono hC.toSteps hw₁) hf hv
          fun _ => read_runs hC

/-- Corresponding expressions, evaluated on corresponding machines, end alike. -/
theorem evaluate_runs {k k' : Nat} (hk : C.Stacks k k') {e e' : Expr} {frame : FrameId}
    (he : C.program w e e' frame) :
    C.Runs w C.Values (Curried.evaluate h k e frame) (Curried.evaluate h' k' e' frame) :=
  (evaluates_and_applies hC w k k' hk).1 w (hC.refl w) e e' frame he

end Coupling

end Curried
