/-
  Curried.Proofs.Run — a run of a source, taken apart.

  A run is refused by the reader of the source, or it is one evaluation: from the machine on which the run has
  started (`Session.begun`) to the machine that evaluation leaves (`Session.finish`).
-/

import Curried.Session

namespace Curried

def ParseFailure.position : ParseFailure → Position
  | .lexical e => e.position
  | .grammar e => e.token.position
  | .nesting p => p

namespace Session

def ending : EStateM.Result Halt Machine Value → Outcome
  | .ok v _ => .ok v
  | .error x _ => .error (.ofHalt x)

def finish : EStateM.Result Halt Machine Value → Machine
  | .ok _ m => m.log .debug "zy.session" s!"Evaluated {m.source.length} characters of source"
  | .error _ m => m

def begun (s : Session) (source : String) (program : Expr) : Machine := warn program (s.start source).machine

/-- The evaluation that a run is, once its source has been read. -/
def evaluation (s : Session) (source : String) (program : Expr) : EStateM.Result Halt Machine Value :=
  evaluate s.host s.host.stackSize program (s.begun source program).globals (s.begun source program)

/-- What a line of the session's log keeps, the warnings before a program keep. -/
theorem warn_keeps {Q : Machine → Prop} (hQ : ∀ m message, Q m → Q (m.log .warning "zy.session" message))
    (program : Expr) (m : Machine) (hm : Q m) : Q (warn program m) := by
  have hof : ∀ (name : String) (p : Position) {m : Machine}, Q m → Q (warnOf name p m) := by
    intro name p m hm
    unfold warnOf
    split
    · exact hQ m _ hm
    · exact hm
  fun_induction warn program m with
  | case1 => exact hof _ _ hm
  | case2 _ _ _ _ _ _ ih => exact ih (hof _ _ hm)
  | case3 => exact hof _ _ hm
  | case4 _ _ _ _ _ _ ih => exact ih (hof _ _ hm)
  | case5 _ _ _ _ _ ih => exact ih hm
  | case6 => exact hm

/-- Warnings are written, and change nothing else. -/
theorem begun_eq (s : Session) (source : String) (program : Expr) :
    ∃ t, s.begun source program = { (s.start source).machine with reporter := { transcript := t } } := by
  refine warn_keeps (Q := fun m => ∃ t, m = { (s.start source).machine with reporter := { transcript := t } })
    ?_ program _ ⟨_, rfl⟩
  rintro _ message ⟨t, rfl⟩
  exact ⟨_, rfl⟩

theorem runProgram_eq (s : Session) (program : Expr) :
    let r := evaluate s.host s.host.stackSize program (warn program s.machine).globals (warn program s.machine)
    s.runProgram program = (ending r, { s with machine := finish r }) := by
  unfold runProgram evaluateHere
  dsimp only
  cases evaluate s.host s.host.stackSize program (warn program s.machine).globals (warn program s.machine) with
  | ok v m => rfl
  | error x m => rfl

theorem run_program {s : Session} {source : String} {program : Expr}
    (h : parseWithin s.host.maxNesting source = .ok program) :
    s.run source =
      (ending (s.evaluation source program), { s with machine := finish (s.evaluation source program) }) := by
  have hrun : s.run source = (s.start source).runProgram program := by
    unfold run
    simp only [start, h]
  exact hrun.trans (runProgram_eq (s.start source) program)

theorem run_lexical {s : Session} {source : String} {e : LexError}
    (h : parseWithin s.host.maxNesting source = .error (.lexical e)) :
    s.run source = (s.start source).refuse e.issue (.lexical e) := by
  unfold run
  simp only [start, h]

theorem run_grammar {s : Session} {source : String} {e : ParseError}
    (h : parseWithin s.host.maxNesting source = .error (.grammar e)) :
    s.run source = (s.start source).refuse e.issue (.grammar e) := by
  unfold run
  simp only [start, h]

theorem run_nesting {s : Session} {source : String} {p : Position}
    (h : parseWithin s.host.maxNesting source = .error (.nesting p)) :
    s.run source = (s.start source).refuseNesting p := by
  unfold run
  simp only [start, h]

/-- A source that cannot be read is refused: one diagnostic says where, and nothing is defined. -/
theorem run_refused {s : Session} {source : String} {x : ParseFailure}
    (h : parseWithin s.host.maxNesting source = .error x) :
    (∃ d : Diagnostic, (s.run source).2.machine.reporter.diagnostics = #[d] ∧ d.position = x.position ∧
      d.source = source) ∧ (s.run source).2.machine.store = s.machine.store := by
  cases x with
  | lexical e =>
    rw [run_lexical h]
    exact ⟨⟨_, rfl, rfl, rfl⟩, rfl⟩
  | grammar e =>
    rw [run_grammar h]
    exact ⟨⟨_, rfl, rfl, rfl⟩, rfl⟩
  | nesting p =>
    rw [run_nesting h]
    exact ⟨⟨_, rfl, rfl, rfl⟩, rfl⟩

theorem run_host (s : Session) (source : String) : (s.run source).2.host = s.host := by
  cases h : parseWithin s.host.maxNesting source with
  | ok program => rw [run_program h]
  | error x =>
    cases x with
    | lexical e => rw [run_lexical h]; rfl
    | grammar e => rw [run_grammar h]; rfl
    | nesting p => rw [run_nesting h]; rfl

def runs (s : Session) (sources : List String) : Session := sources.foldl (fun s source => (s.run source).2) s

theorem runs_host (s : Session) (sources : List String) : (s.runs sources).host = s.host := by
  induction sources generalizing s with
  | nil => rfl
  | cons source sources ih => exact (ih (s.run source).2).trans (s.run_host source)

end Session

end Curried
