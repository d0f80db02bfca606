/-
  Curried.Proofs.Depth — evaluation that has less room overflows, or goes the same way.

  Nothing but the comparison with the limit reads the depth of a machine. Two runs of one expression, on machines that
  differ in depth alone and under limits that leave the second one at least as much room, therefore go the same way
  until the first one meets its limit (`expression_ends`). The stack that is left is like the room: the second run may
  have more of it, and running out of it counts as overflowing (`Overflows`).
-/

import Curried.Proofs.Parts
import Curried.Proofs.Watch

namespace Curried

/-- An ending that is due to the depth of evaluation, or to the stack that carries it. -/
def Overflows : EStateM.Result Halt Machine Value → Prop
  | .error .exit _ | .error .exhausted _ => True
  | .ok _ _ | .error (.fault _) _ | .error (.crash _) _ => False

instance (r : EStateM.Result Halt Machine Value) : Decidable (Overflows r) :=
  match r with
  | .error .exit _ | .error .exhausted _ => .isTrue trivial
  | .ok _ _ | .error (.fault _) _ | .error (.crash _) _ => .isFalse id

def Agrees (r r' : EStateM.Result Halt Machine Value) : Prop := Overflows r ∨ r' = r

/-- Hosts that differ in their limits at most. -/
structure Host.Resembles (h h' : Host) : Prop where
  reports : h.reports = h'.reports
  compile : h.compile = h'.compile
  extensions : h.extensions = h'.extensions

theorem Host.Resembles.refl (h : Host) : h.Resembles h := ⟨rfl, rfl, rfl⟩

namespace Depth

open Evaluator

variable (h h' : Host)

/-- Machines that differ in depth alone, where the second has at least as much room below its limit. -/
def Machines (m m' : Machine) : Prop :=
  ∃ depth : Nat, m' = { m with depth := depth } ∧ h.maxDepth - m.depth ≤ h'.maxDepth - depth

def coupling : Coupling where
  World := Unit
  later _ _ := True
  like _ := .same fun _ => True
  machine _ := Machines h h'
  program _ e e' _ := e = e'
  halted _ x m x' m' := x = x' ∧ Machines h h' m m'
  excused x := x = .exit ∨ x = .exhausted

variable {h h'} {m m' n n' : Machine} {w : (coupling h h').World} {e : Expr}

theorem eq_of_values {v v' : Value} (hv : (coupling h h').Values w v v') : v = v' :=
  (Likeness.eq_and_each (Q := fun _ => True) hv).1

theorem ends_ok (v : Value) (hm : Machines h h' m m') :
    (coupling h h').Ends w (coupling h h').Values (.ok v m) (.ok v m') :=
  @Coupling.Ends.ok (coupling h h') w _ _ _ w v v m m' trivial hm (Likeness.same_self v)

theorem ends_halt {x : Halt} (hm : Machines h h' m m') :
    (coupling h h').Ends w (coupling h h').Values (.error x m) (.error x m') :=
  @Coupling.Ends.halt (coupling h h') w _ _ _ w x x m m' trivial ⟨rfl, hm⟩

theorem ends_exit {r : EStateM.Result Halt Machine Value} :
    (coupling h h').Ends w (coupling h h').Values (.error .exit m) r :=
  .excused (Or.inl rfl)

/-! ## Machines -/

/-- What is changed in both machines apart from their depth, and in the same way. -/
theorem Machines.update (hm : Machines h h' m m') {f : Machine → Machine}
    (hf : ∀ d, f { m with depth := d } = { f m with depth := d }) : Machines h h' (f m) (f m') := by
  obtain ⟨depth, rfl, hroom⟩ := hm
  have hdepth : (f m).depth = m.depth := by
    have hself := hf m.depth
    have hm : { m with depth := m.depth } = m := rfl
    rw [hm] at hself
    rw [hself]
  exact ⟨depth, hf depth, by rwa [hdepth]⟩

/-- The depths of two other machines. -/
theorem Machines.atDepth (hn : Machines h h' n n') (hm : Machines h h' m m') :
    Machines h h' { n with depth := m.depth } { n' with depth := m'.depth } := by
  obtain ⟨_, rfl, -⟩ := hn
  obtain ⟨depth, rfl, hroom⟩ := hm
  exact ⟨depth, rfl, hroom⟩

theorem Machines.deeper (hm : Machines h h' m m') :
    Machines h h' { m with depth := m.depth + 1 } { m' with depth := m'.depth + 1 } := by
  obtain ⟨depth, rfl, hroom⟩ := hm
  refine ⟨depth + 1, rfl, ?_⟩
  dsimp only
  omega

theorem Machines.entered (hm : Machines h h' m m') (frame : FrameId) (params : List String) (v : Value) :
    Machines h h' (m.entered frame params v) (m'.entered frame params v) := by
  refine hm.update (f := (·.entered frame params v)) fun d => ?_
  cases params with
  | nil => rfl
  | cons p ps => rfl

theorem Machines.readLine (hm : Machines h h' m m') :
    Machines h h' m.readLine.2 m'.readLine.2 ∧ m.readLine.1 = m'.readLine.1 := by
  obtain ⟨depth, rfl, hroom⟩ := hm
  have hinput : m.input = { m with depth := depth }.input := rfl
  obtain ⟨hline, hrest⟩ := Machine.readLine_congr hinput
  refine ⟨⟨depth, ?_, ?_⟩, hline⟩
  · rw [Machine.readLine_eq { m with depth := depth }, ← hrest, m.readLine_eq]
  · rw [m.readLine_eq]
    exact hroom

theorem Machines.reportOnce (hr : h.reports = h'.reports) (hm : Machines h h' m m') (i : Issue) :
    Machines h h' (m.reportOnce h i) (m'.reportOnce h' i) := by
  have hhost : ∀ n : Machine, n.reportOnce h' i = n.reportOnce h i := by
    intro n
    simp only [Machine.reportOnce, Machine.report, hr]
  rw [hhost]
  refine hm.update (f := (·.reportOnce h i)) fun d => ?_
  unfold Machine.reportOnce
  dsimp only
  split
  · rfl
  · rfl

/-! ## One expression -/

theorem settleFault_ends (hr : h.reports = h'.reports) (f : Fault) (hm : Machines h h' m m') :
    (coupling h h').Ends w (coupling h h').Values (settleFault h e f m) (settleFault h' e f m') := by
  unfold settleFault
  dsimp only
  cases (f.blame e.position).severity with
  | fatal => exact ends_halt (hm.reportOnce hr _)
  | error => exact ends_ok .nil (hm.reportOnce hr _)

theorem settle_ends (hr : h.reports = h'.reports) {r r' : EStateM.Result Halt Machine Value}
    (hends : (coupling h h').Ends w (coupling h h').Values r r') :
    (coupling h h').Ends w (coupling h h').Values (settle h e r) (settle h' e r') := by
  cases hends with
  | ok _ hm hv =>
    cases eq_of_values hv
    exact ends_ok _ hm
  | @halt _ x _ _ _ _ hx =>
    obtain ⟨rfl, hm⟩ := hx
    cases x with
    | fault f => exact settleFault_ends hr f hm
    | crash c => exact settleFault_ends hr (.of (.crashed c)) hm
    | exhausted => exact ends_exit
    | exit => exact ends_exit
  | excused hx =>
    rcases hx with rfl | rfl
    · exact ends_exit
    · exact ends_exit

theorem setDepth_ends {r r' : EStateM.Result Halt Machine Value}
    (hends : (coupling h h').Ends w (coupling h h').Values r r') (hm : Machines h h' m m') :
    (coupling h h').Ends w (coupling h h').Values (setDepth m.depth r) (setDepth m'.depth r') := by
  cases hends with
  | ok _ hn hv =>
    cases eq_of_values hv
    exact ends_ok _ (Machines.atDepth hn hm)
  | halt _ hx =>
    obtain ⟨rfl, hn⟩ := hx
    exact ends_halt (hn.atDepth hm)
  | excused hx => exact .excused hx

theorem deeper_runs (hr : h.reports = h'.reports) {x x' : Eval Value}
    (hx : (coupling h h').Runs w (coupling h h').Values x x') :
    (coupling h h').Runs w (coupling h h').Values (deeper h e x) (deeper h' e x') := by
  intro w₁ hw₁ m m' hm
  have hbody := hx w₁ hw₁ _ _ (Machines.deeper hm)
  have hroom : h.maxDepth - m.depth ≤ h'.maxDepth - m'.depth := by
    obtain ⟨depth, rfl, hroom⟩ := hm
    exact hroom
  unfold deeper
  dsimp only
  refine setDepth_ends ?_ hm
  by_cases hover : h.maxDepth < (m.depth + 1 : Nat)
  · rw [if_pos hover]
    exact ends_exit
  · rw [if_neg hover, if_neg (by omega)]
    exact settle_ends hr hbody

/-! ## Evaluation as a whole -/

theorem coupling_laws (hh : h.Resembles h') : (coupling h h').Laws h h' where
  refl _ := trivial
  trans _ _ := trivial
  like _ := ⟨id, id, id⟩
  program _ he := he
  frames := by rintro _ m _ ⟨depth, rfl, -⟩; rfl
  ids := by rintro _ m _ ⟨depth, rfl, -⟩; rfl
  parts := by rintro _ e _ frame rfl; exact Watch.matches_self e
  resolve := by
    rintro _ e _ frame m _ - ⟨depth, rfl, -⟩ name
    dsimp only
    cases m.store.resolve? frame name with
    | none => exact .none
    | some r => exact .some ⟨rfl, Likeness.same_self r.2⟩
  global := by
    rintro _ m _ ⟨depth, rfl, -⟩ name
    dsimp only
    cases m.store.lookup? m.globals name with
    | none => exact .none
    | some v => exact .some (Likeness.same_self v)
  declare := by
    intro _ e e' frame name m m' v v' _ _ hm hv
    cases eq_of_values hv
    exact ⟨(), trivial, Machines.update hm (f := (·.define frame name v)) fun _ => rfl⟩
  rebind := by
    intro _ p q name value next e' frame owner u m m' v v' _ hm _ hv
    cases eq_of_values hv
    exact ⟨(), trivial, Machines.update hm (f := (·.define owner name v)) fun _ => rfl⟩
  make := by
    intro _ p p' name params body body' next next' frame m m' he hm
    cases he
    exact ⟨(), trivial, Machines.update hm (f := fun m => { m with nextId := m.nextId + 1 }) fun _ => rfl, rfl, trivial⟩
  enter := by
    rintro _ id name params body _ frame m m' v v' ⟨rfl, -⟩ - hm hv
    cases eq_of_values hv
    exact ⟨(), trivial, Machines.entered hm frame params v, rfl⟩
  curry := by
    rintro _ id name p q more body _ frame m _ v v' ⟨rfl, -⟩ ⟨depth, rfl, hroom⟩ hv
    cases eq_of_values hv
    exact ⟨(), trivial, ⟨depth, rfl, hroom⟩, rfl, trivial⟩
  collect := by
    rintro _ id name arity code vs _ m m' v v' ⟨rfl, -⟩ - hv - hm
    cases eq_of_values hv
    exact ⟨(), trivial, Machines.update hm (f := fun m => { m with nextId := m.nextId + 1 }) fun _ => rfl, rfl, trivial⟩
  write := by
    intro _ m m' hm text
    exact ⟨(), trivial, Machines.update hm (f := (·.write text)) fun _ => rfl⟩
  readLine := by
    intro _ m m' hm
    exact ⟨(), trivial, Machines.readLine hm⟩
  fault _ hm := ⟨rfl, hm⟩
  missing _ _ hm := ⟨rfl, hm⟩
  unknown _ _ hm := ⟨rfl, hm⟩
  target := by
    intro _ p p' t t' value value' next next' frame r m m' he _ hm
    cases he
    exact ⟨rfl, hm⟩
  accept source r := by rw [hh.compile]
  refuse := by
    intro _ source failure failure' m m' hc hc' hm
    rw [hh.compile, hc'] at hc
    cases hc
    exact ⟨rfl, hm⟩
  exhausted _ := Or.inl (Or.inr rfl)
  extension := by
    intro _ id name arity key vs vs' v v' _ hargs _ _ m m' hm
    rw [← hh.extensions, ← (Likeness.eq_and_each_all (Q := fun _ => True) hargs).1]
    cases h.extensions key (vs ++ [v]) with
    | value u => exact ends_ok u hm
    | fault message severity position => exact ends_halt hm
    | crash c => exact ends_halt hm
  deeper := by
    intro _ e e' frame x x' he hbody
    cases he
    exact deeper_runs hh.reports hbody

/-- Endings that correspond differ in the depth that is left at most. -/
theorem setDepth_eq_of_ends {r r' : EStateM.Result Halt Machine Value}
    (hends : (coupling h h').Ends w (coupling h h').Values r r') :
    Overflows r ∨ ∀ depth, setDepth depth r' = setDepth depth r := by
  cases hends with
  | ok _ hm hv =>
    cases eq_of_values hv
    obtain ⟨_, rfl, -⟩ := hm
    exact Or.inr fun _ => rfl
  | halt _ hx =>
    obtain ⟨rfl, _, rfl, -⟩ := hx
    exact Or.inr fun _ => rfl
  | excused hx =>
    rcases hx with rfl | rfl
    · exact Or.inl trivial
    · exact Or.inl trivial

/-- What an expression computes, with less room and less stack and with more of them. -/
theorem expression_ends (hh : h.Resembles h') {k k' : Nat} (hk : k ≤ k')
    (hm : Machines h h' m m') (e : Expr) (frame : FrameId) :
    Overflows (expression (evaluate h k) (apply h k) e frame m) ∨
      ∀ depth, setDepth depth (expression (evaluate h' k') (apply h' k') e frame m') =
        setDepth depth (expression (evaluate h k) (apply h k) e frame m) := by
  have hC := coupling_laws hh
  obtain ⟨heval, happ⟩ := Coupling.evaluates_and_applies hC () k k' (Or.inr ⟨Or.inr rfl, hk⟩)
  have he : (coupling h h').program () e e frame := rfl
  exact setDepth_eq_of_ends (Coupling.expression_runs hC.toSteps heval happ he () trivial m m' hm)

/-- An expression leaves the depth as it found it. -/
theorem setDepth_evaluate (h : Host) (k : Nat) (e : Expr) (frame : FrameId) (m : Machine) :
    setDepth m.depth (evaluate h k e frame m) = evaluate h k e frame m := by
  cases k with
  | zero => rw [evaluate]; rfl
  | succ k =>
    rw [evaluate, deeper]
    generalize ite (h.maxDepth < _) _ _ = r
    cases r with
    | ok v n => rfl
    | error x n => rfl

/-- Evaluation under a smaller limit and with less stack overflows, or ends as it does with more. -/
theorem evaluate_agrees (hd : h.maxDepth ≤ h'.maxDepth) (hh : h.Resembles h') {k k' : Nat} (hk : k ≤ k') (e : Expr)
    (frame : FrameId) (m : Machine) :
    Agrees (evaluate h k e frame m) (evaluate h' k' e frame m) := by
  have hm : Machines h h' m m := ⟨m.depth, rfl, by omega⟩
  have he : (coupling h h').program () e e frame := rfl
  have hends := Coupling.evaluate_runs (coupling_laws hh) (Or.inr ⟨Or.inr rfl, hk⟩) he () trivial m m hm
  rcases setDepth_eq_of_ends hends with hover | hsame
  · exact Or.inl hover
  · have hdepth := hsame m.depth
    rw [setDepth_evaluate, setDepth_evaluate] at hdepth
    exact Or.inr hdepth

end Depth

end Curried
