/-
  Curried.Proofs.Blame — which expressions are blamed for what is reported.

  A diagnostic carries the position of an expression that was evaluated: one of the program being run, or one of the
  body of a function, and that function was declared by this program or by one run before it in the same session
  (`Session.run_blames`, `Session.runs_known`). The source it carries is that of the run, whichever of these the
  expression comes from (`Session.run_quotes_current`). So a diagnostic for an expression of an earlier program quotes
  the wrong text (`Session.run_misquotes`).
-/

import Curried.Proofs.Standard

namespace Curried

namespace Blame

/-- A function of the library, or one whose body has its positions in a set. -/
def Known (B : Position → Prop) : Value → Prop
  | .closure _ _ _ body _ => body.Within B
  | .native _ _ _ code _ => code.isStandard = true
  | _ => True

/-- While a source is run: what is evaluated has its positions in `A`, and the bodies of functions in `B`. -/
def invariant (A B : Position → Prop) (source : String) : Invariant where
  value _ := Known B
  program _ e _ := e.Within A ∧ ∀ d, e.Inner d → B d.position
  machine m := m.source = source ∧ ∀ d ∈ m.reporter.diagnostics, d.source = source ∧ A d.position
  fault f := ∀ p, f.position = some p → A p

variable {A B : Position → Prop} {source : String}

theorem blame_position {f : Fault} {p : Position} (hf : (invariant A B source).fault f) (hp : A p) :
    A (f.position.getD p) := by
  cases h : f.position with
  | none => exact hp
  | some q => exact hf q h

theorem machine_report {m : Machine} (hm : (invariant A B source).machine m) (h : Host) {d : Diagnostic}
    (hsource : d.source = m.source) (hp : A d.position) : (invariant A B source).machine (m.report h d) := by
  refine ⟨hm.1, fun x hx => ?_⟩
  rcases Array.mem_push.mp hx with hx | rfl
  · exact hm.2 x hx
  · exact ⟨hsource.trans hm.1, hp⟩

theorem invariant_laws (hBA : ∀ p, B p → A p) (h : Host) : (invariant A B source).Laws h where
  values _ hv := hv
  programs _ he := he
  parts he x hx := ⟨fun d hd => he.1 d (.part hx hd), fun d hd => he.2 d (hd.part hx)⟩
  make he _ := fun d hd => he.2 d ⟨_, _, _, _, _, .self, hd⟩
  enter hc _ _ := ⟨fun d hd => hBA _ (hc d hd), fun d hd => hc d hd.node⟩
  curry hc _ := hc
  collect hn _ := hn
  fresh hm := hm
  declare _ _ hm := hm
  rebind _ hm := hm
  entered _ hm := by
    rw [Machine.entered_eq]
    exact hm
  write hm := hm
  input hm := hm
  atDepth hm := hm
  log _ hm := hm
  report {_ e _ f m} he hf hm :=
    machine_report (m := { m with hadError := true }) hm h rfl (blame_position hf he.1.position)
  overflow he hm := machine_report hm h rfl he.1.position
  ordinary _ _ := nofun
  missing _ _ _ := nofun
  unknown _ _ := nofun
  refused _ := nofun
  blame he hf p hp := by
    cases hp
    exact blame_position hf he.1.position
  extension hn _ := absurd hn nofun

theorem Known.imp {B' : Position → Prop} (h : ∀ p, B p → B' p) : ∀ v, Known B v → Known B' v
  | .closure .., hv => fun d hd => h _ (hv d hd)
  | .native .., hv => hv
  | .nil, _ | .bool _, _ | .number _, _ | .string _, _ | .list _, _ | .regex _, _ | .foreign _, _ => trivial

end Blame

def Expr.NodeAt (e : Expr) (p : Position) : Prop := ∃ d, e.Node d ∧ d.position = p

def Expr.InnerAt (e : Expr) (p : Position) : Prop := ∃ d, e.Inner d ∧ d.position = p

namespace Session

open Blame

variable {B : Position → Prop}

/-! ## One run -/

def running (program : Expr) (B : Position → Prop) (source : String) : Invariant :=
  invariant (fun p => program.NodeAt p ∨ B p) (fun p => program.InnerAt p ∨ B p) source

theorem run_holds {s : Session} (hs : s.machine.store.Each (Known B)) {source : String} {program : Expr}
    (h : parseWithin s.host.maxNesting source = .ok program) :
    (running program B source).Holds (s.run source).2.machine := by
  have hlaws : (running program B source).Laws s.host :=
    invariant_laws (fun p => Or.imp_left fun ⟨d, hd, hp⟩ => ⟨d, hd.node, hp⟩) s.host
  have hprogram : (running program B source).program s.machine.store.size program s.machine.globals :=
    ⟨fun d hd => Or.inl ⟨d, hd, rfl⟩, fun d hd => Or.inl ⟨d, hd, rfl⟩⟩
  have hstart : (running program B source).Holds (s.start source).machine :=
    ⟨hs.imp (Known.imp fun _ => Or.inr), rfl, fun d hd => by simp [start, Machine.clearReports, Reporter.clear] at hd⟩
  exact (Invariant.run_ended hlaws id h hprogram hstart).1

/-- A run leaves functions that were there, and functions declared in its program. -/
theorem run_known {s : Session} (hs : s.machine.store.Each (Known B)) (source : String) :
    (s.run source).2.machine.store.Each
      (Known fun p => (∃ program, parseWithin s.host.maxNesting source = .ok program ∧ program.InnerAt p) ∨ B p) := by
  cases h : parseWithin s.host.maxNesting source with
  | ok program =>
    refine (run_holds hs h).store.imp (Known.imp fun p => Or.imp_left fun hp => ?_)
    exact ⟨program, rfl, hp⟩
  | error x =>
    rw [(run_refused h).2]
    exact hs.imp (Known.imp fun _ => Or.inr)

/-- What a run reports has the source of the run, and the position where reading failed, of an expression of the
program, or of the body of a function that was there. -/
theorem run_blames {s : Session} (hs : s.machine.store.Each (Known B)) (source : String) :
    ∀ d ∈ (s.run source).2.machine.reporter.diagnostics, d.source = source ∧
      match parseWithin s.host.maxNesting source with
      | .ok program => program.NodeAt d.position ∨ B d.position
      | .error x => d.position = x.position := by
  intro d hd
  cases h : parseWithin s.host.maxNesting source with
  | ok program => exact (run_holds hs h).machine.2 d hd
  | error x =>
    obtain ⟨⟨d', hone, hposition, hsource⟩, -⟩ := run_refused h
    rw [hone] at hd
    obtain rfl : d = d' := by simpa using hd
    exact ⟨hsource, hposition⟩

/-! ## Runs of one session -/

/-- The position is that of an expression in the body of a function that one of the sources declares. -/
def BodyAt (limit : Nat) (sources : List String) (p : Position) : Prop :=
  ∃ source ∈ sources, ∃ program, parseWithin limit source = .ok program ∧ program.InnerAt p

theorem runs_known {s : Session} (hs : s.machine.store.Each (Known B)) (sources : List String) :
    (s.runs sources).machine.store.Each (Known fun p => BodyAt s.host.maxNesting sources p ∨ B p) := by
  induction sources generalizing s B with
  | nil => exact hs.imp (Known.imp fun _ => Or.inr)
  | cons source sources ih =>
    have hrest := ih (run_known hs source)
    rw [run_host] at hrest
    refine hrest.imp (Known.imp fun p hp => ?_)
    rcases hp with ⟨text, htext, hbody⟩ | hown | hbefore
    · exact Or.inl ⟨text, List.mem_cons_of_mem _ htext, hbody⟩
    · exact Or.inl ⟨source, List.mem_cons_self, hown⟩
    · exact Or.inr hbefore

theorem ofSettings_known (c : Settings) (args : Option (List String)) (input : List Char) :
    (ofSettings c args input).machine.store.Each (Known fun _ => False) :=
  ofSettings_each (fun d hd _ => Catalogue.standard_isStandard d hd) c args input

/-- Whatever sources a session has run, what the next run reports has the source of that run. Its position is where
reading that source failed, or that of an expression of that program, or that of an expression in the body of a function
which one of the earlier sources declares. -/
theorem run_quotes_current (c : Settings) (args : Option (List String)) (input : List Char) (earlier : List String)
    (source : String) :
    let s := ofSettings c args input
    ∀ d ∈ ((s.runs earlier).run source).2.machine.reporter.diagnostics, d.source = source ∧
      match parseWithin s.host.maxNesting source with
      | .ok program => program.NodeAt d.position ∨ BodyAt s.host.maxNesting earlier d.position
      | .error x => d.position = x.position := by
  intro s d hd
  have hs : (s.runs earlier).machine.store.Each (Known (BodyAt s.host.maxNesting earlier)) :=
    (runs_known (ofSettings_known c args input) earlier).imp (Known.imp fun _ hp => hp.resolve_right not_false)
  have hblames := run_blames hs source d hd
  rw [runs_host] at hblames
  exact hblames

/-! ### A function called by a later source -/

/-- What is reported when `f()` calls the function that `fn f() :: y` has declared. -/
def misquoted : Diagnostic := ⟨.fatal, ⟨1, 11⟩, "Undefined variable y", "f()"⟩

theorem run_reports_misquoted :
    (((ofSettings {} none []).runs ["fn f() :: y"]).run "f()").2.machine.reporter.diagnostics = #[misquoted] := by
  decide +kernel

theorem misquoted_not_current {program : Expr}
    (h : parseWithin (ofSettings {} none []).host.maxNesting "f()" = .ok program) :
    ¬ program.NodeAt misquoted.position := by
  obtain rfl : Expr.call ⟨1, 1⟩ (.ref ⟨1, 1⟩ "f") [] = program := Except.ok.inj h
  rintro ⟨d, hd, hp⟩
  cases hd with
  | self => cases hp
  | part hx hd =>
    obtain rfl := List.mem_singleton.mp hx
    cases hd with
    | self => cases hp
    | part hx _ => cases hx

theorem run_quotes_current_call :
    misquoted ∈ (((ofSettings {} none []).runs ["fn f() :: y"]).run "f()").2.machine.reporter.diagnostics ∧
      misquoted.source = "f()" ∧
      BodyAt (ofSettings {} none []).host.maxNesting ["fn f() :: y"] misquoted.position := by
  have hd : misquoted ∈ (((ofSettings {} none []).runs ["fn f() :: y"]).run "f()").2.machine.reporter.diagnostics := by
    rw [run_reports_misquoted]
    exact Array.mem_singleton.mpr rfl
  obtain ⟨hsource, hposition⟩ := run_quotes_current {} none [] ["fn f() :: y"] "f()" misquoted hd
  exact ⟨hd, hsource, hposition.resolve_left (misquoted_not_current rfl)⟩

/-- The diagnostic carries the position of `y` in the first source, where no expression of the second stands, and quotes
the second. -/
theorem run_misquotes :
    (((ofSettings {} none []).runs ["fn f() :: y"]).run "f()").2.machine.reporter.diagnostics = #[misquoted] ∧
      misquoted.source = "f()" ∧
      (∀ program, parseWithin (ofSettings {} none []).host.maxNesting "f()" = .ok program →
        ¬ program.NodeAt misquoted.position) ∧
      ∃ program, parseWithin (ofSettings {} none []).host.maxNesting "fn f() :: y" = .ok program ∧
        program.InnerAt misquoted.position :=
  ⟨run_reports_misquoted, rfl, fun _ h => misquoted_not_current h, _, rfl, .ref ⟨1, 11⟩ "y",
    ⟨_, _, _, _, _, .self, .self⟩, rfl⟩

end Session

end Curried
