/-
  Curried.Proofs.Compilers — one run with two compilers of regexes.

  With compilers that accept the same sources a run goes the same way until it compiles a source on which they fail
  differently. Either failure is fatal, so each of the two runs reports its own and goes no further: what they report
  differs in the last error at most, and then that is what the compilers make of one source (`Session.run_compiling`).
-/

import Curried.Proofs.Callbacks
import Curried.Proofs.Reports

namespace Curried

open Evaluator

def Regex.Error.naming (source : String) : Regex.Error := ⟨.badEscape source, none⟩

namespace Regex.Compiler

def Agree (compile compile' : Compiler) : Prop := ∀ source r, compile source = .ok r ↔ compile' source = .ok r

theorem Agree.symm {compile compile' : Compiler} (h : compile.Agree compile') : compile'.Agree compile :=
  fun source r => (h source r).symm

theorem Agree.trans {compile compile' compile'' : Compiler} (h : compile.Agree compile')
    (h' : compile'.Agree compile'') :
    compile.Agree compile'' :=
  fun source r => (h source r).trans (h' source r)

def refusing (compile : Compiler) (source : String) (e : Error) : Compiler := fun s =>
  if s = source then .error (.refused e) else compile s

/-- A compiler that refuses, by name, what another one crashes on. -/
def calm (compile : Compiler) : Compiler := fun source =>
  match compile source with
  | .ok r => .ok r
  | .error (.refused e) => .error (.refused e)
  | .error _ => .error (.refused (.naming source))

variable {compile : Compiler} {source pattern : String}

theorem refusing_self (e : Error) : compile.refusing pattern e pattern = .error (.refused e) := if_pos rfl

theorem refusing_of_ne (e : Error) (h : source ≠ pattern) : compile.refusing pattern e source = compile source :=
  if_neg h

theorem agree_calm : compile.Agree compile.calm := by
  intro source r
  unfold calm
  cases compile source with
  | ok r' => exact Iff.rfl
  | error x => cases x <;> exact ⟨nofun, nofun⟩

theorem agree_refusing {x : Failure} (h : compile pattern = .error x) (e : Error) :
    compile.Agree (compile.refusing pattern e) := by
  intro source r
  by_cases hsource : source = pattern
  · rw [hsource, refusing_self, h]
    exact ⟨nofun, nofun⟩
  · rw [refusing_of_ne e hsource]

theorem calm_of_crashes {x : Failure} {c : Crash} (h : compile source = .error x)
    (hx : Library.reasonOf source x = .crashed c) : compile.calm source = .error (.refused (.naming source)) := by
  unfold calm
  rw [h]
  cases x with
  | refused e => cases hx
  | countTooLarge | tooManyDigits | clashingFlags => rfl

theorem not_crashes_calm {c : Crash} : ¬compile.calm.Crashes source c := by
  rintro ⟨x, hx, hcrash⟩
  unfold calm at hx
  cases hc : compile source with
  | ok r => rw [hc] at hx; cases hx
  | error y => rw [hc] at hx; cases y <;> cases hx <;> cases hcrash

end Regex.Compiler

def Host.compiling (h : Host) (compile : Regex.Compiler) : Host := { h with compile := compile }

def Session.compiling (s : Session) (compile : Regex.Compiler) : Session := { s with host := s.host.compiling compile }

namespace Compilers

section
variable (compile compile' : Regex.Compiler)

/-- Reports that differ in the last one at most, and then by what the compilers make of one source. -/
def ReportAlike (r r' : Array Diagnostic) : Prop :=
  r = r' ∨ ∃ (before : Array Diagnostic) (position : Position) (text source : String) (x x' : Regex.Failure),
    compile source = .error x ∧ compile' source = .error x' ∧
    r = before.push ⟨.fatal, position, (Library.reasonOf source x).message, text⟩ ∧
    r' = before.push ⟨.fatal, position, (Library.reasonOf source x').message, text⟩

/-- Two runs that halt: alike, or because of one source. The first expression to meet that makes an error of it, and
those around it pass the error on. -/
inductive Halted : Halt → Machine → Halt → Machine → Prop
  | same (x : Halt) (m : Machine) : Halted x m x m
  | parted {source : String} {x x' : Regex.Failure} {m : Machine} : compile source = .error x →
      compile' source = .error x' →
      Halted (.ofFault (.of (Library.reasonOf source x))) m (.ofFault (.of (Library.reasonOf source x'))) m
  | settled {f f' : Fault} {m m' : Machine} : f.severity = .fatal → f'.severity = .fatal → m.hadError = true →
      m'.hadError = true → ReportAlike compile compile' m.reporter.diagnostics m'.reporter.diagnostics →
      Halted (.fault f) m (.fault f') m'

def watch : Watch where
  primitive _ := True
  going _ _ _ := True
  halted := Halted compile compile'
  excused _ := False

end

/-! ## One expression -/

variable {compile compile' : Regex.Compiler}

theorem runs_any (m : Machine) : (watch compile compile').Runs m :=
  ⟨Watch.store_alike fun _ _ b _ => b.2.uses_any, trivial⟩

abbrev Ends (compile compile' : Regex.Compiler) (r r' : EStateM.Result Halt Machine Value) : Prop :=
  (watch compile compile').coupling.Ends () (watch compile compile').coupling.Values r r'

theorem ends_self (r : EStateM.Result Halt Machine Value) : Ends compile compile' r r := by
  cases r with
  | ok v m => exact Watch.ends_ok (runs_any m) (Watch.values_of_uses v.uses_any)
  | error x m => exact Watch.ends_halt (.same x m)

theorem setDepth_ends {r r' : EStateM.Result Halt Machine Value} (hr : Ends compile compile' r r') (depth : Nat) :
    Ends compile compile' (setDepth depth r) (setDepth depth r') := by
  cases hr with
  | ok _ hm hv =>
    obtain ⟨rfl, -⟩ := hm
    cases Watch.eq_of_values hv
    exact ends_self _
  | halt _ hx =>
    refine Watch.ends_halt ?_
    cases hx with
    | same => exact .same _ _
    | parted hc hc' => exact .parted hc hc'
    | settled hf hf' hm hm' hr => exact .settled hf hf' hm hm' hr
  | excused hx => exact hx.elim

variable {h : Host} {e : Expr} {m m' : Machine}

theorem settle_ofFault (r : Reason) : settle h e (.error (.ofFault (.of r)) m) = settleFault h e (.of r) m := by
  cases r with
  | _ => rfl

/-- What an expression makes of a failure that it is the first to meet. -/
theorem settle_parted {source : String} {x x' : Regex.Failure} (hc : compile source = .error x)
    (hc' : compile' source = .error x') :
    Ends compile compile' (settle h e (.error (.ofFault (.of (Library.reasonOf source x))) m))
      (settle h e (.error (.ofFault (.of (Library.reasonOf source x'))) m)) := by
  rw [settle_ofFault, settle_ofFault]
  refine Watch.ends_halt ?_
  unfold Machine.reportOnce
  split
  · rename_i hnoticed
    exact .settled rfl rfl hnoticed hnoticed (Or.inl rfl)
  · exact .settled rfl rfl rfl rfl (Or.inr ⟨_, _, _, source, x, x', hc, hc', rfl, rfl⟩)

theorem settle_ends {r r' : EStateM.Result Halt Machine Value} (hr : Ends compile compile' r r') :
    Ends compile compile' (settle h e r) (settle h e r') := by
  cases hr with
  | ok _ hm hv =>
    obtain ⟨rfl, -⟩ := hm
    cases Watch.eq_of_values hv
    exact ends_self _
  | halt _ hx =>
    cases hx with
    | same => exact ends_self _
    | parted hc hc' => exact settle_parted hc hc'
    | settled hf hf' hm hm' hr =>
      rw [settle, settle, Reports.settleFault_noticed h e hf hm, Reports.settleFault_noticed h e hf' hm']
      exact Watch.ends_halt (.settled hf hf' hm hm' hr)
  | excused hx => exact hx.elim

/-! ## A run -/

theorem settle_compiling (r : EStateM.Result Halt Machine Value) :
    settle (h.compiling compile') e r = settle h e r := by
  cases r with
  | ok v m => rfl
  | error x m => cases x <;> rfl

theorem watch_laws (hagree : h.compile.Agree compile') : (watch h.compile compile').Laws h (h.compiling compile') where
  fault _ _ := .same _ _
  crash _ := .same _ _
  exhausted _ := Or.inr (.same _ _)
  accept := hagree
  refuse hc hc' _ := .parted hc hc'
  extensions := rfl
  reply _ _ := Value.uses_any _
  complaint _ _ _ := .same _ _
  deeper := by
    rintro e x x' hx ⟨⟩ _ m _ ⟨rfl, hm⟩
    unfold deeper
    dsimp only
    refine setDepth_ends ?_ m.depth
    by_cases hover : h.maxDepth < (m.depth + 1 : Nat)
    · rw [if_pos hover, if_pos (show (h.compiling compile').maxDepth < _ from hover)]
      exact ends_self _
    · rw [if_neg hover, if_neg (show ¬ (h.compiling compile').maxDepth < _ from hover), settle_compiling]
      exact settle_ends (hx () trivial _ _ ⟨rfl, runs_any _⟩)

theorem Ends.reports {r r' : EStateM.Result Halt Machine Value} (hr : Ends compile compile' r r') :
    ReportAlike compile compile' (Session.finish r).reporter.diagnostics (Session.finish r').reporter.diagnostics := by
  cases hr with
  | ok _ hm hv =>
    obtain ⟨rfl, -⟩ := hm
    exact Or.inl rfl
  | halt _ hx =>
    cases hx with
    | same => exact Or.inl rfl
    | parted => exact Or.inl rfl
    | settled _ _ _ _ hr => exact hr
  | excused hx => exact hx.elim

end Compilers

open Compilers

/-- What a run reports with another compiler that accepts the same sources. -/
theorem Session.run_compiling (s : Session) {compile' : Regex.Compiler} (hagree : s.host.compile.Agree compile')
    (source : String) :
    ReportAlike s.host.compile compile' (s.run source).2.machine.reporter.diagnostics
      ((s.compiling compile').run source).2.machine.reporter.diagnostics := by
  cases h : parseWithin s.host.maxNesting source with
  | ok program =>
    have h' : parseWithin (s.compiling compile').host.maxNesting source = .ok program := h
    rw [run_program h, run_program h']
    have hlaws := Watch.coupling_laws (watch_laws hagree)
    have hprogram : (watch s.host.compile compile').coupling.program () program program (s.begun source program).globals :=
      rfl
    have hruns := Coupling.evaluate_runs hlaws (k := s.host.stackSize) (Or.inl rfl) hprogram
    exact Ends.reports (hruns () trivial _ _ ⟨rfl, runs_any (s.begun source program)⟩)
  | error x =>
    refine Or.inl ?_
    cases x with
    | lexical e => rw [run_lexical h, run_lexical (s := s.compiling compile') h]; rfl
    | grammar e => rw [run_grammar h, run_grammar (s := s.compiling compile') h]; rfl
    | nesting p => rw [run_nesting h, run_nesting (s := s.compiling compile') h]; rfl

end Curried
