/-
  Curried.Proofs.Invariant — what one run keeps up from its start to its end.

  An invariant says which functions there may be in values (`value`), which expressions may run in which frames
  (`program`), what holds of the machine (`machine`) and of the faults that halt a computation (`fault`). The first two
  may depend on how many frames there are, and hold on when there are more. It is a coupling of a run with itself.
  `Invariant.Laws` asks, step by step, that each thing evaluation does keeps it up; then evaluating an expression and
  applying a function do (`evaluate_ended`, `apply_ended`), however they end.
-/

import Curried.Proofs.Coupling.Evaluator
import Curried.Proofs.Frames
import Curried.Proofs.Parts
import Curried.Proofs.Run

namespace Curried

def Store.Each (Q : Value → Prop) (s : Store) : Prop := ∀ f ∈ s.frames, ∀ b ∈ f.bindings, b.2.Each Q

theorem Store.alike_self_iff {Q : Value → Prop} {s : Store} : s.Alike (Likeness.same Q).Values s ↔ s.Each Q := by
  constructor
  · intro h f hf b hb
    have hframe := List.forall₂_same.mp h f (Array.mem_toList_iff.mpr hf)
    exact (Likeness.same_values_iff.mp (List.forall₂_same.mp hframe.bindings b hb).2).2
  · intro h
    refine List.forall₂_same.mpr fun f hf => ⟨rfl, List.forall₂_same.mpr fun b hb => ⟨rfl, ?_⟩⟩
    exact Likeness.values_of_each (h f (Array.mem_toList_iff.mp hf) b hb)

theorem Store.Each.define {Q : Value → Prop} {s : Store} (hs : s.Each Q) (id : FrameId) (name : String) {v : Value}
    (hv : v.Each Q) : (s.define id name v).Each Q :=
  alike_self_iff.mp ((alike_self_iff.mpr hs).define id name (Likeness.values_of_each hv))

theorem Store.Each.push {Q : Value → Prop} {s : Store} (hs : s.Each Q) (parent : Option FrameId) :
    (s.push parent).Each Q := by
  intro f hf b hb
  rcases Array.mem_push.mp hf with hf | rfl
  · exact hs f hf b hb
  · cases hb

theorem Store.Each.imp {Q Q' : Value → Prop} {s : Store} (h : ∀ v, Q v → Q' v) (hs : s.Each Q) : s.Each Q' :=
  fun f hf b hb u hu hfun => h u (hs f hf b hb u hu hfun)

def Eval.left {α : Type} : EStateM.Result Halt Machine α → Machine
  | .ok _ m | .error _ m => m

def Halt.fault? : Halt → Option Fault
  | .fault f => some f
  | .crash c => some (.of (.crashed c))
  | .exhausted | .exit => none

theorem Halt.fault?_ofFault (r : Reason) : (ofFault (.of r)).fault? = some (.of r) := by
  cases r with
  | _ => rfl

structure Invariant where
  value : Nat → Value → Prop
  program : Nat → Expr → FrameId → Prop
  machine : Machine → Prop
  fault : Fault → Prop

namespace Invariant

open Evaluator

variable (I : Invariant)

structure Holds (m : Machine) : Prop where
  store : m.store.Each (I.value m.store.size)
  machine : I.machine m

def Halted (x : Halt) (m : Machine) : Prop := I.Holds m ∧ ∀ f, x.fault? = some f → I.fault f

def Ended (n : Nat) : EStateM.Result Halt Machine Value → Prop
  | .ok v m => n ≤ m.store.size ∧ v.Each (I.value m.store.size) ∧ I.Holds m
  | .error x m => n ≤ m.store.size ∧ I.Halted x m

theorem Ended.left {I : Invariant} {n : Nat} :
    ∀ {r : EStateM.Result Halt Machine Value}, I.Ended n r → I.Holds (Eval.left r)
  | .ok _ _, hr => hr.2.2
  | .error _ _, hr => hr.2.1

/-- A world is a number of frames. -/
def coupling : Coupling where
  World := Nat
  later n n' := n ≤ n'
  like n := .same (I.value n)
  machine n m m' := m = m' ∧ m.store.size = n ∧ I.Holds m
  program n e e' frame := e = e' ∧ I.program n e frame
  halted n x m x' m' := x = x' ∧ m = m' ∧ m.store.size = n ∧ I.Halted x m
  excused _ := False

structure Laws (I : Invariant) (h : Host) : Prop where
  values : ∀ {n n' v}, n ≤ n' → I.value n v → I.value n' v
  programs : ∀ {n n' e frame}, n ≤ n' → I.program n e frame → I.program n' e frame
  parts : ∀ {n e frame}, I.program n e frame → ∀ x ∈ e.parts, I.program n x frame
  /-- A declared function. -/
  make : ∀ {p name params body next frame m}, I.program m.store.size (.function p name params body next) frame →
    I.machine m → I.value m.store.size (.closure m.nextId name params body frame)
  /-- The last argument of a closure lets its body run in a new frame. -/
  enter : ∀ {id name params body frame m}, I.value m.store.size (.closure id name params body frame) →
    params.length ≤ 1 → I.machine m → I.program (m.store.size + 1) body m.store.size
  curry : ∀ {id name p q more body frame m}, I.value m.store.size (.closure id name (p :: q :: more) body frame) →
    I.machine m → I.value (m.store.size + 1) (.closure m.nextId name (q :: more) body m.store.size)
  collect : ∀ {id name arity code vs v m}, I.value m.store.size (.native id name arity code vs) → I.machine m →
    I.value m.store.size (.native m.nextId name arity code (vs ++ [v]))
  fresh : ∀ {m}, I.machine m → I.machine { m with nextId := m.nextId + 1 }
  declare : ∀ {e frame name v m}, I.program m.store.size e frame → e.declared? = some name → I.machine m →
    I.machine (m.define frame name v)
  rebind : ∀ {frame owner name u v m}, m.store.resolve? frame name = some (owner, u) → I.machine m →
    I.machine (m.define owner name v)
  entered : ∀ {id name params body frame v m}, I.value m.store.size (.closure id name params body frame) →
    I.machine m → I.machine (m.entered frame params v)
  write : ∀ {text m}, I.machine m → I.machine (m.write text)
  input : ∀ {rest m}, I.machine m → I.machine { m with input := rest }
  atDepth : ∀ {depth m}, I.machine m → I.machine { m with depth := depth }
  /-- Evaluation gives no warnings. -/
  log : ∀ {level source message m}, level ≠ .warning → I.machine m → I.machine (m.log level source message)
  report : ∀ {n e frame f m}, I.program n e frame → I.fault f → I.machine m →
    I.machine ({ m with hadError := true }.report h (.ofIssue (f.blame e.position).issue m.source))
  overflow : ∀ {n e frame m}, I.program n e frame → I.machine m →
    I.machine (m.report h ⟨.fatal, e.position, "Stack overflow", m.source⟩)
  ordinary : ∀ r : Reason, r.isOrdinary = true → I.fault (.of r)
  missing : ∀ {e frame name m}, I.program m.store.size e frame → m.store.resolve? frame name = none → I.machine m →
    I.fault (.of (.undefinedVariable name))
  unknown : ∀ {n e frame r}, I.program n e frame → e.unknown? = some r → I.fault (.of r)
  refused : ∀ {source x}, h.compile source = .error x → I.fault (.of (Library.reasonOf source x))
  blame : ∀ {n e frame f}, I.program n e frame → I.fault f → I.fault (f.blame e.position)
  extension : ∀ {id name arity key vs v m}, I.value m.store.size (.native id name arity (.extension key) vs) →
    I.Holds m → I.Ended m.store.size (reply (h.extensions key (vs ++ [v])) m)

variable {I} {h : Host}

/-! ## One expression -/

theorem Holds.atDepth (hI : I.Laws h) {m : Machine} (hm : I.Holds m) (depth : Nat) :
    I.Holds { m with depth := depth } :=
  ⟨hm.store, hI.atDepth hm.machine⟩

theorem Ended.earlier {n n' : Nat} {r : EStateM.Result Halt Machine Value} (hr : I.Ended n' r) (hn : n ≤ n') :
    I.Ended n r := by
  match r, hr with
  | .ok v m, ⟨hsize, hv, hm⟩ => exact ⟨Nat.le_trans hn hsize, hv, hm⟩
  | .error x m, ⟨hsize, hx⟩ => exact ⟨Nat.le_trans hn hsize, hx⟩

theorem setDepth_ended (hI : I.Laws h) {n : Nat} {r : EStateM.Result Halt Machine Value} (hr : I.Ended n r)
    (depth : Nat) : I.Ended n (setDepth depth r) := by
  match r, hr with
  | .ok v m, ⟨hsize, hv, hm⟩ => exact ⟨hsize, hv, hm.atDepth hI depth⟩
  | .error x m, ⟨hsize, hm, hx⟩ => exact ⟨hsize, hm.atDepth hI depth, hx⟩

theorem reply_ended {m : Machine} (hm : I.Holds m) {r : Reply}
    (hvalue : ∀ v, r = .value v → v.Each (I.value m.store.size))
    (hfault : ∀ message severity position, r = .fault message severity position →
      I.fault ⟨.raised message, position, severity⟩)
    (hcrash : ∀ c, r = .crash c → I.fault (.of (.crashed c))) : I.Ended m.store.size (reply r m) := by
  cases r with
  | value v => exact ⟨Nat.le_refl _, hvalue v rfl, hm⟩
  | fault message severity position =>
    exact ⟨Nat.le_refl _, hm, fun f hf => by cases hf; exact hfault message severity position rfl⟩
  | crash c => exact ⟨Nat.le_refl _, hm, fun f hf => by cases hf; exact hcrash c rfl⟩

variable {n : Nat} {e : Expr} {frame : FrameId}

theorem overflow_ended (hI : I.Laws h) (he : I.program n e frame) {m : Machine} (hm : I.Holds m) :
    I.Ended m.store.size (overflow h e m) :=
  ⟨Nat.le_refl _, ⟨hm.store, hI.overflow he (hI.log (by decide) hm.machine)⟩, fun _ hf => by cases hf⟩

theorem settleFault_ended (hI : I.Laws h) (he : I.program n e frame) {f : Fault} (hf : I.fault f) {m : Machine}
    (hm : I.Holds m) : I.Ended m.store.size (settleFault h e f m) := by
  have hreported : I.Holds (m.reportOnce h (f.blame e.position).issue) ∧
      (m.reportOnce h (f.blame e.position).issue).store.size = m.store.size := by
    unfold Machine.reportOnce
    split
    · exact ⟨hm, rfl⟩
    · exact ⟨⟨hm.store, hI.report he hf hm.machine⟩, rfl⟩
  unfold settleFault
  dsimp only
  cases (f.blame e.position).severity with
  | fatal => exact ⟨Nat.le_of_eq hreported.2.symm, hreported.1, fun g hg => by cases hg; exact hI.blame he hf⟩
  | error => exact ⟨Nat.le_of_eq hreported.2.symm, (Likeness.eq_and_each .nil).2, hreported.1⟩

theorem settle_ended (hI : I.Laws h) (he : I.program n e frame) {n' : Nat} :
    ∀ {r : EStateM.Result Halt Machine Value}, I.Ended n' r → I.Ended n' (settle h e r)
  | .ok _ _, hr => hr
  | .error (.fault f) _, ⟨hsize, hm, hf⟩ => (settleFault_ended hI he (hf f rfl) hm).earlier hsize
  | .error (.crash c) _, ⟨hsize, hm, hf⟩ => (settleFault_ended hI he (hf (.of (.crashed c)) rfl) hm).earlier hsize
  | .error .exhausted _, ⟨hsize, hm, _⟩ => (overflow_ended hI he hm).earlier hsize
  | .error .exit _, hr => hr

theorem deeper_ended (hI : I.Laws h) (he : I.program n e frame) {x : Eval Value} {m : Machine} (hm : I.Holds m)
    (hx : I.Ended m.store.size (x { m with depth := m.depth + 1 })) : I.Ended m.store.size (deeper h e x m) := by
  unfold deeper
  dsimp only
  refine setDepth_ended hI ?_ m.depth
  split
  · exact overflow_ended hI he (hm.atDepth hI (m.depth + 1))
  · exact settle_ended hI he hx

/-! ## A run -/

theorem ends_of_ended {r : EStateM.Result Halt Machine Value} (hr : I.Ended n r) :
    I.coupling.Ends n I.coupling.Values r r := by
  match r, hr with
  | .ok v m, ⟨hsize, hv, hm⟩ =>
    exact @Coupling.Ends.ok I.coupling n _ _ _ m.store.size v v m m hsize ⟨rfl, rfl, hm⟩ (Likeness.values_of_each hv)
  | .error x m, ⟨hsize, hx⟩ =>
    exact @Coupling.Ends.halt I.coupling n _ _ _ m.store.size x x m m hsize ⟨rfl, rfl, rfl, hx⟩

theorem ended_of_ends {r r' : EStateM.Result Halt Machine Value} (hr : I.coupling.Ends n I.coupling.Values r r') :
    r = r' ∧ I.Ended n r := by
  cases hr with
  | ok hsize hm hv =>
    obtain ⟨rfl, rfl, hm⟩ := hm
    obtain ⟨rfl, heach⟩ := Likeness.eq_and_each hv
    exact ⟨rfl, hsize, heach, hm⟩
  | halt hsize hx =>
    obtain ⟨rfl, rfl, rfl, hx⟩ := hx
    exact ⟨rfl, hsize, hx⟩
  | excused hx => exact hx.elim

theorem Holds.define {m : Machine} (hm : I.Holds m) {frame : FrameId} {name : String} {v : Value}
    (hv : v.Each (I.value m.store.size)) (hmachine : I.machine (m.define frame name v)) :
    I.Holds (m.define frame name v) ∧ (m.define frame name v).store.size = m.store.size := by
  have hsize : (m.define frame name v).store.size = m.store.size := Store.size_define m.store frame name v
  refine ⟨⟨?_, hmachine⟩, hsize⟩
  rw [hsize]
  exact hm.store.define frame name hv

theorem size_entered (m : Machine) (frame : FrameId) (params : List String) (v : Value) :
    (m.entered frame params v).store.size = m.store.size + 1 := by
  cases params with
  | nil => exact Store.size_push m.store (some frame)
  | cons p _ => exact (Store.size_define _ _ p v).trans (Store.size_push m.store (some frame))

theorem Holds.entered (hI : I.Laws h) {m : Machine} (hm : I.Holds m) {id : Nat} {name : Option String}
    {params : List String} {body : Expr} {frame : FrameId}
    (hc : I.value m.store.size (.closure id name params body frame)) {v : Value}
    (hv : v.Each (I.value m.store.size)) : I.Holds (m.entered frame params v) := by
  have hgrown : ∀ u, I.value m.store.size u → I.value (m.store.size + 1) u := fun u => hI.values (Nat.le_succ _)
  refine ⟨?_, hI.entered hc hm.machine⟩
  rw [size_entered]
  cases params with
  | nil => exact (hm.store.imp hgrown).push (some frame)
  | cons p _ => exact ((hm.store.imp hgrown).push (some frame)).define m.store.size p (hv.imp hgrown)

theorem Holds.readLine (hI : I.Laws h) {m : Machine} (hm : I.Holds m) : I.Holds m.readLine.2 := by
  rw [m.readLine_eq]
  exact ⟨hm.store, hI.input hm.machine⟩

theorem coupling_laws (hI : I.Laws h) : I.coupling.Laws h h where
  refl n := Nat.le_refl n
  trans hn hn' := Nat.le_trans hn hn'
  like hn := ⟨fun hc => ⟨hc.1, hI.values hn hc.2⟩, fun hc => ⟨hc.1, hI.values hn hc.2⟩, fun hf => hI.values hn hf⟩
  program hn he := ⟨he.1, hI.programs hn he.2⟩
  frames := by rintro _ m _ ⟨rfl, -⟩; rfl
  ids := by rintro _ m _ ⟨rfl, -⟩; rfl
  parts := by rintro _ e _ frame ⟨rfl, he⟩; exact Expr.matches_self (hI.parts he)
  resolve := by
    rintro _ e _ frame m _ - ⟨rfl, rfl, hm⟩ name
    exact (Store.alike_self_iff.mpr hm.store).resolve? frame name
  global := by
    rintro _ m _ ⟨rfl, rfl, hm⟩ name
    exact (Store.alike_self_iff.mpr hm.store).lookup? m.globals name
  declare := by
    rintro _ e _ frame name m _ v v' ⟨rfl, he⟩ hname ⟨rfl, rfl, hm⟩ hv
    obtain ⟨rfl, heach⟩ := Likeness.eq_and_each hv
    obtain ⟨hm', hsize⟩ := hm.define heach (hI.declare he hname hm.machine)
    exact ⟨m.store.size, Nat.le_refl _, rfl, hsize, hm'⟩
  rebind := by
    rintro _ p q name value next _ frame owner u m _ v v' ⟨rfl, he⟩ ⟨rfl, rfl, hm⟩ hr hv
    obtain ⟨rfl, heach⟩ := Likeness.eq_and_each hv
    obtain ⟨hm', hsize⟩ := hm.define heach (hI.rebind hr hm.machine)
    exact ⟨m.store.size, Nat.le_refl _, rfl, hsize, hm'⟩
  make := by
    rintro _ p p' name params body body' next next' frame m _ ⟨he, hp⟩ ⟨rfl, rfl, hm⟩
    cases he
    exact ⟨m.store.size, Nat.le_refl _, ⟨rfl, rfl, hm.store, hI.fresh hm.machine⟩, rfl, hI.make hp hm.machine⟩
  enter := by
    rintro _ id name params body _ frame m _ v v' ⟨rfl, hc⟩ hlen ⟨rfl, rfl, hm⟩ hv
    obtain ⟨rfl, heach⟩ := Likeness.eq_and_each hv
    exact ⟨m.store.size + 1, Nat.le_succ _, ⟨rfl, size_entered m frame params v, hm.entered hI hc heach⟩, rfl,
      hI.enter hc hlen hm.machine⟩
  curry := by
    rintro _ id name p q more body _ frame m _ v v' ⟨rfl, hc⟩ ⟨rfl, rfl, hm⟩ hv
    obtain ⟨rfl, heach⟩ := Likeness.eq_and_each hv
    have hm' := hm.entered hI hc heach
    exact ⟨m.store.size + 1, Nat.le_succ _,
      ⟨rfl, size_entered m frame (p :: q :: more) v, hm'.store, hI.fresh hm'.machine⟩, rfl, hI.curry hc hm.machine⟩
  collect := by
    rintro _ id name arity code vs _ m _ v v' ⟨rfl, hc⟩ - hv - ⟨rfl, rfl, hm⟩
    obtain ⟨rfl, -⟩ := Likeness.eq_and_each hv
    exact ⟨m.store.size, Nat.le_refl _, ⟨rfl, rfl, hm.store, hI.fresh hm.machine⟩, rfl, hI.collect hc hm.machine⟩
  write := by
    rintro _ m _ ⟨rfl, rfl, hm⟩ text
    exact ⟨m.store.size, Nat.le_refl _, rfl, rfl, hm.store, hI.write hm.machine⟩
  readLine := by
    rintro _ m _ ⟨rfl, rfl, hm⟩
    have hsize : m.readLine.2.store.size = m.store.size := congrArg (·.store.size) m.readLine_eq
    exact ⟨m.store.size, Nat.le_refl _, ⟨rfl, hsize, hm.readLine hI⟩, rfl⟩
  fault := by
    rintro _ r m _ hr ⟨rfl, rfl, hm⟩
    exact ⟨rfl, rfl, rfl, hm, fun f hf => by cases hf; exact hI.ordinary r hr⟩
  missing := by
    rintro _ e _ frame name m _ ⟨rfl, he⟩ hname ⟨rfl, rfl, hm⟩
    exact ⟨rfl, rfl, rfl, hm, fun f hf => by cases hf; exact hI.missing he hname hm.machine⟩
  unknown := by
    rintro _ e _ frame r m _ ⟨rfl, he⟩ hr ⟨rfl, rfl, hm⟩
    exact ⟨rfl, rfl, rfl, hm, fun f hf => by cases hf; exact hI.unknown he hr⟩
  target := by
    rintro _ p p' t t' value value' next next' frame r m _ ⟨he, hp⟩ ⟨-, -, -, -, hr⟩ ⟨rfl, rfl, hm⟩
    cases he
    have ht := hI.parts hp t List.mem_cons_self
    exact ⟨rfl, rfl, rfl, hm, fun f hf => by cases hf; exact hI.blame ht (hr _ rfl)⟩
  accept _ _ := Iff.rfl
  refuse := by
    rintro _ source failure failure' m _ hc hc' ⟨rfl, rfl, hm⟩
    cases hc.symm.trans hc'
    refine ⟨rfl, rfl, rfl, hm, fun f hf => ?_⟩
    rw [Halt.fault?_ofFault] at hf
    cases hf
    exact hI.refused hc
  exhausted := by
    rintro _ m _ ⟨rfl, rfl, hm⟩
    exact Or.inr ⟨rfl, rfl, rfl, hm, fun _ hf => by cases hf⟩
  extension := by
    rintro n id name arity key vs _ v v' ⟨rfl, hn⟩ hargs _ hle m _ ⟨rfl, rfl, hm⟩
    obtain ⟨heq, -⟩ := Likeness.eq_and_each_all hargs
    rw [← heq]
    exact ends_of_ended (hI.extension (hI.values hle hn) hm)
  deeper := by
    rintro n e _ frame x x' ⟨rfl, he⟩ hx _ hle m _ ⟨rfl, rfl, hm⟩
    have hdeep : I.coupling.machine m.store.size { m with depth := m.depth + 1 } { m with depth := m.depth + 1 } :=
      ⟨rfl, rfl, hm.atDepth hI (m.depth + 1)⟩
    obtain ⟨heq, hended⟩ := ended_of_ends (hx m.store.size hle _ _ hdeep)
    have hsame : deeper h e x' m = deeper h e x m := by
      unfold deeper
      dsimp only
      rw [heq]
    rw [hsame]
    exact ends_of_ended (deeper_ended hI he hm hended)

variable (hI : I.Laws h) (k : Nat)
include hI

theorem evaluate_ended {m : Machine} (he : I.program m.store.size e frame) (hm : I.Holds m) :
    I.Ended m.store.size (evaluate h k e frame m) := by
  have hprogram : I.coupling.program m.store.size e e frame := ⟨rfl, he⟩
  have hruns := Coupling.evaluate_runs (coupling_laws hI) (k := k) (Or.inl rfl) hprogram
  exact (ended_of_ends (hruns m.store.size (Nat.le_refl _) m m ⟨rfl, rfl, hm⟩)).2

/-- Before an expression makes something of the way it ends. -/
theorem expression_ended {m : Machine} (he : I.program m.store.size e frame) (hm : I.Holds m) :
    I.Ended m.store.size (expression (evaluate h k) (apply h k) e frame m) := by
  have hC := coupling_laws hI
  obtain ⟨heval, happ⟩ := Coupling.evaluates_and_applies hC m.store.size k k (Or.inl rfl)
  have hprogram : I.coupling.program m.store.size e e frame := ⟨rfl, he⟩
  have hruns := Coupling.expression_runs hC.toSteps heval happ hprogram
  exact (ended_of_ends (hruns m.store.size (Nat.le_refl _) m m ⟨rfl, rfl, hm⟩)).2

theorem apply_ended {f v : Value} {m : Machine} (hf : f.Each (I.value m.store.size))
    (hv : v.Each (I.value m.store.size)) (hm : I.Holds m) : I.Ended m.store.size (apply h k f v m) := by
  have happly := (Coupling.evaluates_and_applies (coupling_laws hI) m.store.size k k (Or.inl rfl)).2
  have hruns := happly m.store.size (Nat.le_refl _) f f v v (Likeness.values_of_each hf) (Likeness.values_of_each hv)
  exact (ended_of_ends (hruns m.store.size (Nat.le_refl _) m m ⟨rfl, rfl, hm⟩)).2

theorem applyAll_ended {f : Value} {vs : List Value} {m : Machine} (hf : f.Each (I.value m.store.size))
    (hvs : ∀ v ∈ vs, v.Each (I.value m.store.size)) (hm : I.Holds m) :
    I.Ended m.store.size (Library.applyAll (apply h k) f vs m) := by
  have hC := coupling_laws hI
  have happly := (Coupling.evaluates_and_applies hC m.store.size k k (Or.inl rfl)).2
  have hruns := Coupling.applyAll_runs hC.toSteps happly (Likeness.values_of_each hf) (Likeness.values_of_each_all hvs)
  exact (ended_of_ends (hruns m.store.size (Nat.le_refl _) m m ⟨rfl, rfl, hm⟩)).2

omit hI

/-- What holds when the evaluation of a run starts holds when the run ends, of its machine and of the fault it ends
in. -/
theorem run_begun {s : Session} (hI : I.Laws s.host) {source : String} {program : Expr}
    (hread : parseWithin s.host.maxNesting source = .ok program)
    (hprogram : I.program s.machine.store.size program s.machine.globals) (hs : I.Holds (s.begun source program)) :
    I.Holds (s.run source).2.machine ∧ ∀ f, (s.run source).1 = .error (.fault f) → I.fault f := by
  have hsame : (s.begun source program).globals = s.machine.globals ∧
      (s.begun source program).store = s.machine.store := by
    obtain ⟨t, ht⟩ := s.begun_eq source program
    rw [ht]
    exact ⟨rfl, rfl⟩
  have hprogram' : I.program (s.begun source program).store.size program (s.begun source program).globals := by
    rw [hsame.1, hsame.2]
    exact hprogram
  have hended := evaluate_ended hI s.host.stackSize hprogram' hs
  change I.Ended _ (s.evaluation source program) at hended
  rw [Session.run_program hread]
  generalize s.evaluation source program = r at hended ⊢
  match r, hended with
  | .ok v m, ⟨_, _, hm⟩ => exact ⟨⟨hm.store, hI.log (by decide) hm.machine⟩, fun _ hf => by cases hf⟩
  | .error x m, ⟨_, hm, hx⟩ =>
    refine ⟨hm, fun f hf => hx f ?_⟩
    cases x with
    | fault g => cases hf; rfl
    | _ => cases hf

/-- What holds when a run has started, and is kept by warnings, holds when it ends. -/
theorem run_ended {s : Session} (hI : I.Laws s.host)
    (hwarning : ∀ {m message}, I.machine m → I.machine (m.log .warning "zy.session" message)) {source : String}
    {program : Expr} (hread : parseWithin s.host.maxNesting source = .ok program)
    (hprogram : I.program s.machine.store.size program s.machine.globals) (hs : I.Holds (s.start source).machine) :
    I.Holds (s.run source).2.machine ∧ ∀ f, (s.run source).1 = .error (.fault f) → I.fault f :=
  run_begun hI hread hprogram
    (Session.warn_keeps (Q := I.Holds) (fun _ _ hm => ⟨hm.store, hwarning hm.machine⟩) program _ hs)

end Invariant

end Curried
