/-
  Curried.Proofs.Reports — what a run has reported when it ends.

  While a run goes on it has reported nothing, or one error that was not fatal (`Slight`): the first error of a run is
  the only one reported, and one that is fatal is not survived. What an expression makes of any ending keeps that up
  (`settle_final`), whatever the extensions of the host reply. So each run is back at depth 0 and ends in exactly one of
  four ways, and what has been reported fits it (`Session.run_reports`).
-/

import Curried.Proofs.Run
import Curried.Proofs.Standard
import Curried.Proofs.Watch

namespace Curried

namespace Reports

open Evaluator

/-- What may have been reported before a run ends: nothing, or one error that is not fatal. `soft` says that there can
be such errors. -/
def Slight (soft : Prop) (source : String) (ds : Array Diagnostic) (hadError : Bool) : Prop :=
  hadError = false ∧ ds = #[] ∨
    soft ∧ hadError = true ∧ ∃ d : Diagnostic, ds = #[d] ∧ d.severity = .error ∧ d.source = source

structure Settled (soft : Prop) (source : String) (f : Fault) (m : Machine) : Prop where
  fatal : f.severity = .fatal
  placed : f.position.isSome = true
  noticed : m.hadError = true
  reported : m.reporter.diagnostics = #[.ofIssue f.issue source] ∨
    Slight soft source m.reporter.diagnostics m.hadError

def Overflowed (soft : Prop) (source : String) (m : Machine) : Prop :=
  ∃ before p, m.reporter.diagnostics = Array.push before ⟨.fatal, p, "Stack overflow", source⟩ ∧
    Slight soft source before m.hadError

variable {P : Primitive → Prop} {soft : Prop} {source : String}

structure Going (P : Primitive → Prop) (soft : Prop) (source : String) (m : Machine) : Prop where
  uses : m.store.Uses P
  source_eq : m.source = source
  slight : Slight soft source m.reporter.diagnostics m.hadError

def Halted (P : Primitive → Prop) (soft : Prop) (source : String) : Halt → Machine → Prop
  | .fault f, m => Settled soft source f m ∨ Going P soft source m ∧ (f.severity = .error → soft)
  | .crash _, m | .exhausted, m => Going P soft source m
  | .exit, m => Overflowed soft source m

def Ended (P : Primitive → Prop) (soft : Prop) (source : String) : EStateM.Result Halt Machine Value → Prop
  | .ok v m => v.Uses P ∧ Going P soft source m
  | .error x m => Halted P soft source x m

/-- How an expression ends: never in a crash, never with the stack used up. -/
def Final (P : Primitive → Prop) (soft : Prop) (source : String) : EStateM.Result Halt Machine Value → Prop
  | .ok v m => v.Uses P ∧ Going P soft source m
  | .error (.fault f) m => Settled soft source f m
  | .error .exit m => Overflowed soft source m
  | .error (.crash _) _ | .error .exhausted _ => False

/-! ## One expression -/

theorem Going.atDepth {m : Machine} (hm : Going P soft source m) (depth : Nat) :
    Going P soft source { m with depth := depth } :=
  ⟨hm.uses, hm.source_eq, hm.slight⟩

theorem setDepth_final {r : EStateM.Result Halt Machine Value} (hr : Final P soft source r) (depth : Nat) :
    Final P soft source (setDepth depth r) := by
  match r, hr with
  | .ok v m, ⟨hv, hm⟩ => exact ⟨hv, hm.atDepth depth⟩
  | .error (.fault f) m, hs => exact ⟨hs.fatal, hs.placed, hs.noticed, hs.reported⟩
  | .error .exit m, ho => exact ho

theorem overflow_final {m : Machine} (h : Host) (e : Expr) (hm : Going P soft source m) :
    Final P soft source (overflow h e m) := by
  refine ⟨m.reporter.diagnostics, e.position, ?_, hm.slight⟩
  rw [← hm.source_eq]
  rfl

/-- After the first error of a run: it is the one reported, or an error that was not fatal came before it. -/
theorem reportOnce_slight {m : Machine} (h : Host) (i : Issue) (hm : Going P soft source m) :
    (m.reportOnce h i).store.Uses P ∧ (m.reportOnce h i).source = source ∧ (m.reportOnce h i).hadError = true ∧
      ((m.reportOnce h i).reporter.diagnostics = #[.ofIssue i source] ∨
        Slight soft source (m.reportOnce h i).reporter.diagnostics (m.reportOnce h i).hadError) := by
  obtain ⟨hu, hsource, hs⟩ := hm
  rcases hs with ⟨hno, hnone⟩ | hone
  · rw [Machine.reportOnce, if_neg (by rw [hno]; decide)]
    refine ⟨hu, hsource, rfl, Or.inl ?_⟩
    show m.reporter.diagnostics.push (.ofIssue i m.source) = _
    rw [hnone, hsource]
    rfl
  · rw [Machine.reportOnce, if_pos hone.2.1]
    exact ⟨hu, hsource, hone.2.1, Or.inr (Or.inr hone)⟩

/-- What an expression makes of a fault that it is the first to meet. -/
theorem settleFault_final {m : Machine} (h : Host) (e : Expr) {f : Fault} (hm : Going P soft source m)
    (hf : f.severity = .error → soft) : Final P soft source (settleFault h e f m) := by
  obtain ⟨hu, hsource, hnoticed, hreported⟩ := reportOnce_slight h (f.blame e.position).issue hm
  have hblame : (f.blame e.position).severity = f.severity := rfl
  unfold settleFault
  dsimp only
  rw [hblame]
  cases hsev : f.severity with
  | fatal => exact ⟨hsev, rfl, hnoticed, hreported⟩
  | error =>
    refine ⟨trivial, hu, hsource, ?_⟩
    rcases hreported with hown | hslight
    · exact Or.inr ⟨hf hsev, hnoticed, _, hown, hsev, rfl⟩
    · exact hslight

/-- A fatal fault is not reported after another error. -/
theorem settleFault_noticed {m : Machine} (h : Host) (e : Expr) {f : Fault} (hfatal : f.severity = .fatal)
    (hnoticed : m.hadError = true) : settleFault h e f m = .error (.fault (f.blame e.position)) m := by
  have hblame : (f.blame e.position).severity = .fatal := hfatal
  unfold settleFault
  simp only [hblame, Machine.reportOnce, hnoticed, if_true]

/-- A fault that an expression inside has settled passes through unchanged. -/
theorem settleFault_passes {m : Machine} (h : Host) (e : Expr) {f : Fault} (hfatal : f.severity = .fatal)
    (hplaced : f.position.isSome = true) (hnoticed : m.hadError = true) :
    settleFault h e f m = .error (.fault f) m := by
  obtain ⟨p, hp⟩ := Option.isSome_iff_exists.mp hplaced
  have hblame : f.blame e.position = f := by
    unfold Fault.blame
    rw [hp, Option.getD_some, ← hp]
  rw [settleFault_noticed h e hfatal hnoticed, hblame]

theorem settle_final (h : Host) (e : Expr) :
    ∀ {r : EStateM.Result Halt Machine Value}, Ended P soft source r → Final P soft source (settle h e r)
  | .ok _ _, hok => hok
  | .error (.fault f) m, hx => by
    rcases hx with hs | ⟨hm, hf⟩
    · show Final P soft source (settleFault h e f m)
      rw [settleFault_passes h e hs.fatal hs.placed hs.noticed]
      exact hs
    · exact settleFault_final h e hm hf
  | .error (.crash c) m, hm => settleFault_final h e (f := .of (.crashed c)) hm fun hs => by cases hs
  | .error .exhausted _, hm => overflow_final h e hm
  | .error .exit _, ho => ho

/-! ## A run -/

def watch (P : Primitive → Prop) (soft : Prop) (source : String) : Watch where
  primitive := P
  going ds hadError text := text = source ∧ Slight soft source ds hadError
  halted x m x' m' := x = x' ∧ m = m' ∧ Halted P soft source x m
  excused _ := False

theorem runs_iff {m : Machine} : (watch P soft source).Runs m ↔ Going P soft source m :=
  ⟨fun hm => ⟨Watch.uses_of_alike hm.store, hm.going.1, hm.going.2⟩,
    fun hm => ⟨Watch.store_alike hm.uses, hm.source_eq, hm.slight⟩⟩

theorem deeper_final {h : Host} {e : Expr} {x x' : Eval Value}
    (hx : (watch P soft source).coupling.Runs () (watch P soft source).coupling.Values x x') {m : Machine}
    (hm : Going P soft source m) :
    deeper h e x m = deeper h e x' m ∧ Final P soft source (deeper h e x m) := by
  unfold deeper
  dsimp only
  by_cases hover : h.maxDepth < (m.depth + 1 : Nat)
  · rw [if_pos hover, if_pos hover]
    exact ⟨rfl, setDepth_final (overflow_final h e (hm.atDepth _)) _⟩
  · rw [if_neg hover, if_neg hover]
    have hbody := hx () trivial { m with depth := m.depth + 1 } _ ⟨rfl, runs_iff.mpr (hm.atDepth _)⟩
    generalize x { m with depth := m.depth + 1 } = r, x' { m with depth := m.depth + 1 } = r' at hbody
    cases hbody with
    | ok _ hn hv =>
      obtain ⟨rfl, hn⟩ := hn
      cases Watch.eq_of_values hv
      have hended : Ended P soft source (.ok _ _) := ⟨Watch.uses_of_values hv, runs_iff.mp hn⟩
      exact ⟨rfl, setDepth_final (settle_final h e hended) _⟩
    | halt _ hh =>
      obtain ⟨rfl, rfl, hh⟩ := hh
      exact ⟨rfl, setDepth_final (settle_final h e (r := .error _ _) hh) _⟩
    | excused hy => exact hy.elim

/-- With what the functions there are can do: reply functions of the same kind, and complain of an error that is not
fatal only where there can be such errors. -/
theorem watch_laws {h : Host} (hreply : ∀ key, P (.extension key) → ∀ v : Value, v.Uses P)
    (hsoft : ∀ key, P (.extension key) → soft) : (watch P soft source).Laws h h where
  fault hf hm := ⟨rfl, rfl, Or.inr ⟨runs_iff.mp hm, fun hs => by rw [hf] at hs; cases hs⟩⟩
  crash hm := ⟨rfl, rfl, runs_iff.mp hm⟩
  exhausted hm := Or.inr ⟨rfl, rfl, runs_iff.mp hm⟩
  accept _ _ := Iff.rfl
  refuse {_ failure _ _} hc hc' hm := by
    cases hc.symm.trans hc'
    refine ⟨rfl, rfl, ?_⟩
    cases failure with
    | refused e => exact Or.inr ⟨runs_iff.mp hm, fun hs => by cases hs⟩
    | countTooLarge | tooManyDigits | clashingFlags => exact runs_iff.mp hm
  extensions := rfl
  reply hk _ := hreply _ hk _
  complaint hk _ hm := ⟨rfl, rfl, Or.inr ⟨runs_iff.mp hm, fun _ => hsoft _ hk⟩⟩
  deeper := by
    rintro e x x' hx ⟨⟩ _ m _ ⟨rfl, hm⟩
    obtain ⟨heq, hfinal⟩ := deeper_final (h := h) (e := e) hx (runs_iff.mp hm)
    rw [← heq]
    match deeper h e x m, hfinal with
    | .ok v n, ⟨hv, hn⟩ => exact Watch.ends_ok (runs_iff.mpr hn) (Watch.values_of_uses hv)
    | .error (.fault f) n, hs => exact Watch.ends_halt ⟨rfl, rfl, Or.inl hs⟩
    | .error .exit n, ho => exact Watch.ends_halt ⟨rfl, rfl, ho⟩

theorem evaluate_final {h : Host} (hreply : ∀ key, P (.extension key) → ∀ v : Value, v.Uses P)
    (hsoft : ∀ key, P (.extension key) → soft) (k : Nat) (e : Expr) (frame : FrameId) {m : Machine}
    (hm : Going P soft source m) : Final P soft source (evaluate h (k + 1) e frame m) := by
  rw [evaluate]
  exact (deeper_final (Watch.expression_ends (watch_laws hreply hsoft) (Or.inl rfl) e frame) hm).2

end Reports

namespace Session

open Reports

inductive Verdict where
  | refused
  | value
  | fault
  | overflow

/-- What a verdict says of the outcome of a run and of the machine it leaves. -/
def Verdict.Describes (soft : Prop) (s : Session) (source : String) (outcome : Outcome) (m : Machine) : Verdict → Prop
  | .refused => ∃ i : Issue,
      ((∃ e : LexError, outcome = .error (.lexical e) ∧ i = e.issue) ∨
        ∃ e : ParseError, outcome = .error (.grammar e) ∧ i = e.issue) ∧
      m.hadError = true ∧ m.reporter.diagnostics = #[.ofIssue i source] ∧ m.store = s.machine.store
  | .value => ∃ v, outcome = .ok v ∧ Slight soft source m.reporter.diagnostics m.hadError
  | .fault => ∃ f, outcome = .error (.fault f) ∧ Settled soft source f m
  | .overflow => outcome = .error .exit ∧ Overflowed soft source m

variable {P : Primitive → Prop} {soft : Prop}

/-- An expression leaves the depth as it found it. -/
theorem finish_depth (h : Host) (k : Nat) (e : Expr) (frame : FrameId) (m : Machine) :
    (finish (evaluate h (k + 1) e frame m)).depth = m.depth := by
  rw [evaluate, Evaluator.deeper]
  generalize ite (h.maxDepth < _) _ _ = r
  cases r with
  | ok v n => rfl
  | error x n => rfl

theorem final_verdict {source : String} (s : Session) :
    ∀ {r : EStateM.Result Halt Machine Value}, Final P soft source r →
      ∃ w : Verdict, w.Describes soft s source (ending r) (finish r)
  | .ok v _, ⟨_, hm⟩ => ⟨.value, v, rfl, hm.slight⟩
  | .error (.fault f) _, hs => ⟨.fault, f, rfl, hs⟩
  | .error .exit _, ho => ⟨.overflow, rfl, ho⟩

theorem begun_going {s : Session} (hs : s.machine.store.Uses P) (source : String) (program : Expr) :
    Going P soft source (s.begun source program) := by
  obtain ⟨t, ht⟩ := s.begun_eq source program
  rw [ht]
  exact ⟨hs, rfl, Or.inl ⟨rfl, rfl⟩⟩

theorem run_verdict (soft : Prop) {s : Session} (hs : s.machine.store.Uses P)
    (hreply : ∀ key, P (.extension key) → ∀ v : Value, v.Uses P) (hsoft : ∀ key, P (.extension key) → soft)
    (source : String) :
    (s.run source).2.machine.depth = 0 ∧
      ∃ w : Verdict, w.Describes soft s source (s.run source).1 (s.run source).2.machine := by
  cases hp : parseWithin s.host.maxNesting source with
  | ok program =>
    rw [run_program hp]
    have hfinal : Final P soft source (s.evaluation source program) :=
      evaluate_final hreply hsoft _ program _ (begun_going hs source program)
    obtain ⟨t, ht⟩ := s.begun_eq source program
    refine ⟨(finish_depth s.host _ program _ _).trans ?_, final_verdict s hfinal⟩
    rw [ht]
    rfl
  | error failure =>
    cases failure with
    | lexical e =>
      rw [run_lexical hp]
      exact ⟨rfl, .refused, e.issue, Or.inl ⟨e, rfl, rfl⟩, rfl, rfl, rfl⟩
    | grammar e =>
      rw [run_grammar hp]
      exact ⟨rfl, .refused, e.issue, Or.inr ⟨e, rfl, rfl⟩, rfl, rfl, rfl⟩
    | nesting p =>
      rw [run_nesting hp]
      exact ⟨rfl, .overflow, rfl, #[], p, rfl, Or.inl ⟨rfl, rfl⟩⟩

def Verdict.of : Outcome → Verdict
  | .ok _ => .value
  | .error (.lexical _) | .error (.grammar _) => .refused
  | .error (.fault _) | .error (.crash _) => .fault
  | .error .exit => .overflow

theorem Verdict.eq_of_describes {s : Session} {source : String} {outcome : Outcome} {m : Machine} {w : Verdict}
    (h : w.Describes soft s source outcome m) : w = .of outcome := by
  cases w with
  | refused =>
    obtain ⟨_, ⟨e, rfl, -⟩ | ⟨e, rfl, -⟩, -⟩ := h
    · rfl
    · rfl
  | value => obtain ⟨v, rfl, -⟩ := h; rfl
  | fault => obtain ⟨f, rfl, -⟩ := h; rfl
  | overflow => obtain ⟨rfl, -⟩ := h; rfl

/-- Where every error is fatal, a run that goes on has reported none. -/
theorem slight_false {source : String} {ds : Array Diagnostic} {hadError : Bool}
    (h : Slight False source ds hadError) : hadError = false ∧ ds = #[] := by
  rcases h with h | ⟨h, -⟩
  · exact h
  · exact h.elim

/-- Whatever the extensions of the host reply, a run is back at depth 0 and ends in exactly one of four ways, with the
reports that go with it. With the functions of the library alone no error is survived: a run that has a value has
reported nothing, and any other one thing. -/
theorem run_reports (s : Session) (source : String) :
    (s.run source).2.machine.depth = 0 ∧
      (∃! w : Verdict, w.Describes True s source (s.run source).1 (s.run source).2.machine) ∧
      (s.machine.store.IsStandard →
        (∀ v, (s.run source).1 = .ok v →
          (s.run source).2.machine.hadError = false ∧ (s.run source).2.machine.reporter.diagnostics = #[]) ∧
        (∀ f, (s.run source).1 = .error (.fault f) →
          (s.run source).2.machine.reporter.diagnostics = #[.ofIssue f.issue source]) ∧
        ((s.run source).1 = .error .exit →
          ∃ p, (s.run source).2.machine.reporter.diagnostics = #[⟨.fatal, p, "Stack overflow", source⟩])) := by
  have hany : s.machine.store.Uses fun _ => True := fun _ _ b _ => b.2.uses_any
  obtain ⟨hdepth, w, hw⟩ := run_verdict True hany (fun _ _ v => v.uses_any) (fun _ _ => trivial) source
  refine ⟨hdepth, ⟨w, hw, fun w' hw' => ?_⟩, fun hstandard => ?_⟩
  · rw [Verdict.eq_of_describes hw', Verdict.eq_of_describes hw]
  obtain ⟨-, w, hw⟩ := run_verdict False hstandard nofun nofun source
  refine ⟨fun v hv => ?_, fun f hf => ?_, fun hexit => ?_⟩
  · rw [hv] at hw
    cases Verdict.eq_of_describes hw
    obtain ⟨-, -, hslight⟩ := hw
    exact slight_false hslight
  · rw [hf] at hw
    cases Verdict.eq_of_describes hw
    obtain ⟨g, hg, hs⟩ := hw
    cases hg
    rcases hs.reported with hown | hslight
    · exact hown
    · exact absurd hs.noticed (by rw [(slight_false hslight).1]; decide)
  · rw [hexit] at hw
    cases Verdict.eq_of_describes hw
    obtain ⟨-, before, p, hreported, hslight⟩ := hw
    rw [hreported, (slight_false hslight).2]
    exact ⟨p, rfl⟩

def headOnly : Session :=
  ⟨{ maxDepth := 3 }, { store := ⟨#[⟨none, [("head", .native 0 "head" 1 (.standard .head) [])]⟩]⟩ }⟩

theorem run_reports_head :
    headOnly.machine.store.IsStandard ∧
      (headOnly.run "head([])").1 = .error (.fault ⟨.headOfEmpty, some ⟨1, 1⟩, .fatal⟩) ∧
      (headOnly.run "head([])").2.machine.reporter.diagnostics =
        #[⟨.fatal, ⟨1, 1⟩, "head of empty list", "head([])"⟩] := by
  have hstandard : headOnly.machine.store.IsStandard := by
    intro f hf b hb
    obtain rfl : f = ⟨none, [("head", .native 0 "head" 1 (.standard .head) [])]⟩ := by simpa [headOnly] using hf
    obtain rfl : b = ("head", .native 0 "head" 1 (.standard .head) []) := by simpa using hb
    rw [Value.Uses]
    exact ⟨rfl, trivial⟩
  have hp : parseWithin headOnly.host.maxNesting "head([])" =
      .ok (.call ⟨1, 1⟩ (.ref ⟨1, 1⟩ "head") [.list ⟨1, 6⟩ []]) := rfl
  have hfault : (headOnly.run "head([])").1 = .error (.fault ⟨.headOfEmpty, some ⟨1, 1⟩, .fatal⟩) := by
    rw [run_program hp, evaluation, show headOnly.host.stackSize = 1030 from by decide]
    rfl
  exact ⟨hstandard, hfault, ((run_reports headOnly "head([])").2.2 hstandard).2.1 _ hfault⟩

end Session

end Curried
