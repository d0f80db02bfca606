/-
  Curried.Proofs.Warnings — which rebindings of operators a run announces.

  A run warns before it evaluates, and evaluation gives no warnings, whatever it does. What is announced are the
  declarations chained from the start of the program, in their order, that declare the name of an operator
  (`run_announces_chained`); they are announced whether or not evaluation comes to them. A declaration that stands
  elsewhere in the program rebinds its operator all the same, unannounced (`run_rebinds_unannounced`).
-/

import Curried.Proofs.Standard

namespace Curried

def Entry.isWarning : Entry → Bool
  | .log .warning _ _ => true
  | _ => false

def Transcript.Unwarned (t t' : Transcript) : Prop :=
  ∃ written, t'.toList = t.toList ++ written ∧ ∀ entry ∈ written, entry.isWarning = false

namespace Transcript.Unwarned

variable {t t' : Transcript}

theorem refl (t : Transcript) : t.Unwarned t :=
  ⟨[], (List.append_nil _).symm, fun _ h => by cases h⟩

theorem push (h : t.Unwarned t') {entry : Entry} (hentry : entry.isWarning = false) : t.Unwarned (t'.push entry) := by
  obtain ⟨written, hwritten, hnone⟩ := h
  refine ⟨written ++ [entry], by rw [Array.toList_push, hwritten, List.append_assoc], ?_⟩
  intro e he
  rcases List.mem_append.mp he with he | he
  · exact hnone e he
  · rw [List.mem_singleton.mp he]
    exact hentry

end Transcript.Unwarned

namespace Expr

/-- The names that are declared in the chain from the start of a program, and where. -/
def chained : Expr → List (String × Position)
  | binding p name _ _ none => [(name, p)]
  | binding p name _ _ (some next) => (name, p) :: next.chained
  | function p (some name) _ _ none => [(name, p)]
  | function p (some name) _ _ (some next) => (name, p) :: next.chained
  | function _ none _ _ (some next) => next.chained
  | _ => []

/-- A chained declaration stands outside every function body. -/
theorem outer_of_chained {name : String} {p : Position} :
    ∀ {e : Expr}, (name, p) ∈ e.chained → ∃ d, e.Outer d ∧ d.declared? = some name ∧ d.position = p
  | binding q n value body none, h => by
    cases List.mem_singleton.mp h
    exact ⟨_, .self, rfl, rfl⟩
  | binding q n value body (some next), h => by
    rcases List.mem_cons.mp h with h | h
    · cases h
      exact ⟨_, .self, rfl, rfl⟩
    · obtain ⟨d, hd, hname, hp⟩ := outer_of_chained h
      have hnext : next ∈ (binding q n value body (some next)).parts := by simp [parts]
      exact ⟨d, .part hnext hd, hname, hp⟩
  | function q (some n) params body none, h => by
    cases List.mem_singleton.mp h
    exact ⟨_, .self, rfl, rfl⟩
  | function q (some n) params body (some next), h => by
    rcases List.mem_cons.mp h with h | h
    · cases h
      exact ⟨_, .self, rfl, rfl⟩
    · obtain ⟨d, hd, hname, hp⟩ := outer_of_chained h
      exact ⟨d, .part List.mem_cons_self hd, hname, hp⟩
  | function q none params body (some next), h => by
    obtain ⟨d, hd, hname, hp⟩ := outer_of_chained (e := next) h
    exact ⟨d, .part List.mem_cons_self hd, hname, hp⟩

end Expr

namespace Warnings

open Transcript

def invariant (t : Transcript) : Invariant where
  value _ _ := True
  program _ _ _ := True
  machine m := t.Unwarned m.reporter.transcript
  fault _ := True

variable {t : Transcript}

theorem each_any (n : Nat) (v : Value) : v.Each ((invariant t).value n) := fun _ _ _ => trivial

theorem machine_report {m : Machine} (hm : (invariant t).machine m) (h : Host) (d : Diagnostic) :
    (invariant t).machine (m.report h d) := by
  have hlogged := Unwarned.push hm (show Entry.isWarning (.log .debug "zy.diagnostics"
    s!"Reporting {d.severity.name} at {d.position.text}: {d.message}") = false from rfl)
  refine hlogged.push ?_
  split
  · rfl
  · rfl

theorem invariant_laws (h : Host) : (invariant t).Laws h where
  values _ _ := trivial
  programs _ _ := trivial
  parts _ _ _ := trivial
  make _ _ := trivial
  enter _ _ _ := trivial
  curry _ _ := trivial
  collect _ _ := trivial
  fresh hm := hm
  declare _ _ hm := hm
  rebind _ hm := hm
  entered _ hm := by
    rw [Machine.entered_eq]
    exact hm
  write hm := hm.push rfl
  input hm := hm
  atDepth hm := hm
  log {level _ _ _} hlevel hm := by
    refine hm.push ?_
    cases level with
    | warning => exact absurd rfl hlevel
    | debug => rfl
    | error => rfl
  report {_ _ _ _ m} _ _ hm := machine_report (m := { m with hadError := true }) hm h _
  overflow _ hm := machine_report hm h _
  ordinary _ _ := trivial
  missing _ _ _ := trivial
  unknown _ _ := trivial
  refused _ := trivial
  blame _ _ := trivial
  extension _ hm := Invariant.reply_ended hm (fun v _ => each_any _ v) (fun _ _ _ _ => trivial) fun _ _ => trivial

end Warnings

namespace Session

def announcement (name : String) (p : Position) : Entry :=
  .log .warning "zy.session" s!"Definition of '{name}' at {p.text} rebinds an operator"

def announcements (declared : List (String × Position)) : List Entry :=
  (declared.filter fun d => operatorNames.contains d.1).map fun d => announcement d.1 d.2

theorem announcements_cons (d : String × Position) (ds : List (String × Position)) :
    announcements (d :: ds) = announcements [d] ++ announcements ds := by
  unfold announcements
  rw [← List.map_append, ← List.filter_append]
  rfl

theorem transcript_warnOf (name : String) (p : Position) (m : Machine) :
    (warnOf name p m).reporter.transcript.toList = m.reporter.transcript.toList ++ announcements [(name, p)] := by
  by_cases h : operatorNames.contains name = true
  · have hone : announcements [(name, p)] = [announcement name p] := by
      rw [announcements, List.filter_cons, if_pos h]
      rfl
    rw [warnOf, if_pos h, hone]
    exact Array.toList_push
  · have hnone : announcements [(name, p)] = [] := by
      rw [announcements, List.filter_cons, if_neg h]
      rfl
    rw [warnOf, if_neg h, hnone, List.append_nil]

/-- The warnings are written at the end of what there is. -/
theorem transcript_warn : ∀ (program : Expr) (m : Machine),
    (warn program m).reporter.transcript.toList = m.reporter.transcript.toList ++ announcements program.chained
  | .binding p name _ _ none, m => transcript_warnOf name p m
  | .binding p name _ _ (some next), m => by
    rw [warn, transcript_warn next, transcript_warnOf, List.append_assoc, ← announcements_cons, Expr.chained]
  | .function p (some name) _ _ none, m => transcript_warnOf name p m
  | .function p (some name) _ _ (some next), m => by
    rw [warn, transcript_warn next, transcript_warnOf, List.append_assoc, ← announcements_cons, Expr.chained]
  | .function _ none _ _ (some next), m => transcript_warn next m
  | .function _ none _ _ none, m | .number .., m | .string .., m | .boolean .., m | .nil _, m | .ref .., m
  | .list .., m | .binary .., m | .unary .., m | .call .., m | .assign .., m | .sequence .., m | .branch .., m
  | .strange .., m => (List.append_nil _).symm

/-- Evaluation writes at the end of what there is, and no warnings. -/
theorem run_unwarned {s : Session} {source : String} {program : Expr}
    (h : parseWithin s.host.maxNesting source = .ok program) :
    (s.begun source program).reporter.transcript.Unwarned (s.run source).2.machine.reporter.transcript := by
  have hbegun : (Warnings.invariant (s.begun source program).reporter.transcript).Holds (s.begun source program) :=
    ⟨fun _ _ b _ => Warnings.each_any _ b.2, .refl _⟩
  exact (Invariant.run_begun (Warnings.invariant_laws s.host) h trivial hbegun).1.machine

theorem prefix_push {l : List Entry} {t : Transcript} (h : l <+: t.toList) (e : Entry) : l <+: (t.push e).toList := by
  rw [Array.toList_push]
  exact h.trans (List.prefix_append _ _)

/-- A run, however it ends, writes at the end of what there is. -/
theorem prefix_transcript_run (s : Session) (source : String) :
    s.machine.reporter.transcript.toList <+: (s.run source).2.machine.reporter.transcript.toList := by
  have hself : s.machine.reporter.transcript.toList <+: s.machine.reporter.transcript.toList := List.prefix_rfl
  cases h : parseWithin s.host.maxNesting source with
  | ok program =>
    obtain ⟨written, hwritten, -⟩ := run_unwarned h
    have hwarned : s.machine.reporter.transcript.toList <+: (s.begun source program).reporter.transcript.toList :=
      ⟨_, (transcript_warn program (s.start source).machine).symm⟩
    rw [hwritten]
    exact hwarned.trans (List.prefix_append _ _)
  | error x =>
    cases x with
    | lexical e =>
      rw [run_lexical h]
      exact prefix_push (prefix_push hself _) _
    | grammar e =>
      rw [run_grammar h]
      exact prefix_push (prefix_push hself _) _
    | nesting p =>
      rw [run_nesting h]
      exact prefix_push (prefix_push (prefix_push hself _) _) _

/-- A run writes, after what there is, the warnings of the declarations chained from the start of its program that have
the name of an operator. They stand outside every function body. What the run writes after them is no warning. -/
theorem run_announces_chained {s : Session} {source : String} {program : Expr}
    (h : parseWithin s.host.maxNesting source = .ok program) :
    (∃ written, (s.run source).2.machine.reporter.transcript.toList =
        s.machine.reporter.transcript.toList ++ announcements program.chained ++ written ∧
        ∀ entry ∈ written, entry.isWarning = false) ∧
      ∀ name p, (name, p) ∈ program.chained →
        ∃ d, program.Outer d ∧ d.declared? = some name ∧ d.position = p := by
  refine ⟨?_, fun _ _ => Expr.outer_of_chained⟩
  obtain ⟨written, hwritten, hnone⟩ := run_unwarned h
  refine ⟨written, ?_, hnone⟩
  rw [hwritten]
  exact congrArg (· ++ written) (transcript_warn program (s.start source).machine)

theorem run_announces_chained_two :
    let s := ofSettings {} none []
    let source := "let x :: 1 and let mul :: add and fn neg(x) :: x"
    ∃ program, parseWithin s.host.maxNesting source = .ok program ∧
      ∃ written, (s.run source).2.machine.reporter.transcript.toList = s.machine.reporter.transcript.toList ++
          [announcement "mul" ⟨1, 16⟩, announcement "neg" ⟨1, 35⟩] ++ written ∧
        ∀ entry ∈ written, entry.isWarning = false := by
  obtain ⟨program, hread, hchained⟩ :
      ∃ program, parseWithin (ofSettings {} none []).host.maxNesting
          "let x :: 1 and let mul :: add and fn neg(x) :: x" = .ok program ∧
        announcements program.chained = [announcement "mul" ⟨1, 16⟩, announcement "neg" ⟨1, 35⟩] :=
    ⟨_, rfl, by decide +kernel⟩
  rw [← hchained]
  exact ⟨program, hread, (run_announces_chained (s := ofSettings {} none []) hread).1⟩

/-- A declaration after a semicolon stands outside every function body and rebinds addition, and there is no warning. -/
theorem run_rebinds_unannounced :
    (∃ program d, parseWithin (ofSettings {} none []).host.maxNesting "1; fn add(a, b) :: a" = .ok program ∧
        program.Outer d ∧ d.declared? = some "add") ∧
      "add" ∈ operatorNames ∧
      (((ofSettings {} none []).runs ["1; fn add(a, b) :: a"]).run "print(2 + 3)").2.machine.reporter.transcript =
        #[.log .debug "zy.builtins" "Installed 47 builtins",
          .log .debug "zy.session" "Evaluated 20 characters of source", .output "2\n",
          .log .debug "zy.session" "Evaluated 12 characters of source"] := by
  refine ⟨⟨_, _, rfl, .part (List.mem_cons_of_mem _ List.mem_cons_self) .self, rfl⟩, by decide, by decide +kernel⟩

end Session

end Curried
