/-
  Curried.Proofs.Layout — layout never changes what a program does.

  Two sources with the same lexemes in the same order read alike (`Curried.Proofs.Layout.Reading`). No position decides
  anything while a program runs: it only tells where a diagnostic points. So in sessions opened in the same way both
  runs end alike, with the same output printed, the same input read, and diagnostics that say the same
  (`Session.run_of_same_lexemes`).
-/

import Curried.Proofs.Coupling.Evaluator
import Curried.Proofs.Layout.Reading
import Curried.Proofs.Run
import Curried.Proofs.Standard
import Curried.Proofs.Tokens

namespace Curried

/-! ## What is printed -/

def Entry.announces : Entry → Bool
  | .log _ source _ => source == "zy.diagnostics"
  | _ => false

/-- What of an entry has been printed: output, unless it is the text of a diagnostic. -/
def Entry.printed (announced : Bool) : Entry → List String
  | .output text => if announced then [] else [text]
  | _ => []

namespace Transcript

/-- What has been printed, piece by piece, and whether the text of a diagnostic comes next. -/
def printing (t : Transcript) : List String × Bool :=
  t.foldl (fun s e => (s.1 ++ e.printed s.2, e.announces)) ([], false)

def printed (t : Transcript) : List String := t.printing.1

theorem printing_push (t : Transcript) (e : Entry) :
    printing (t.push e) = (t.printing.1 ++ e.printed t.printing.2, e.announces) := by
  unfold printing
  rw [Array.foldl_push]

end Transcript

/-! ## Machines that are alike -/

structure Diagnostic.Alike (d d' : Diagnostic) : Prop where
  severity : d.severity = d'.severity
  message : d.message = d'.message

structure Reporter.Alike (r r' : Reporter) : Prop where
  diagnostics : List.Forall₂ Diagnostic.Alike r.diagnostics.toList r'.diagnostics.toList
  printing : r.transcript.printing = r'.transcript.printing
  settled : r.transcript.printing.2 = false

namespace Reporter.Alike

variable {r r' : Reporter}

theorem write (h : r.Alike r') (text : String) : (r.write (.output text)).Alike (r'.write (.output text)) := by
  refine ⟨h.diagnostics, ?_, ?_⟩
  · show Transcript.printing (r.transcript.push _) = Transcript.printing (r'.transcript.push _)
    rw [Transcript.printing_push, Transcript.printing_push, h.printing]
  · show (Transcript.printing (r.transcript.push _)).2 = false
    rw [Transcript.printing_push]
    rfl

/-- A line of the log prints nothing. -/
theorem printing_log (r : Reporter) (level : LogLevel) {source : String} (hs : (source == "zy.diagnostics") = false)
    (message : String) (h : r.transcript.printing.2 = false) :
    (r.write (.log level source message)).transcript.printing = r.transcript.printing := by
  show Transcript.printing (r.transcript.push _) = _
  rw [Transcript.printing_push]
  simp only [Entry.printed, Entry.announces, hs, List.append_nil]
  rw [← h]

theorem log_left (h : r.Alike r') (level : LogLevel) {source : String} (hs : (source == "zy.diagnostics") = false)
    (message : String) : (r.write (.log level source message)).Alike r' := by
  have hl := printing_log r level hs message h.settled
  exact ⟨h.diagnostics, hl.trans h.printing, by rw [hl, h.settled]⟩

theorem log_right (h : r.Alike r') (level : LogLevel) {source : String} (hs : (source == "zy.diagnostics") = false)
    (message : String) : r.Alike (r'.write (.log level source message)) := by
  have hl := printing_log r' level hs message (h.printing ▸ h.settled)
  exact ⟨h.diagnostics, h.printing.trans hl.symm, h.settled⟩

/-- The text of a diagnostic is not printed by the program. -/
theorem printing_report (r : Reporter) (style : ReportStyle) (d : Diagnostic) :
    (r.report style d).transcript.printing = (r.transcript.printing.1, false) := by
  show Transcript.printing ((r.transcript.push _).push _) = _
  rw [Transcript.printing_push, Transcript.printing_push]
  cases style.toErrorOutput with
  | false => simp [Entry.printed, Entry.announces]
  | true => simp [Entry.printed, Entry.announces]

theorem report (h : r.Alike r') (style : ReportStyle) {d d' : Diagnostic} (hd : d.Alike d') :
    (r.report style d).Alike (r'.report style d') := by
  refine ⟨?_, ?_, ?_⟩
  · show List.Forall₂ _ (r.diagnostics.push d).toList (r'.diagnostics.push d').toList
    rw [Array.toList_push, Array.toList_push]
    exact List.rel_append h.diagnostics (.cons hd .nil)
  · rw [printing_report, printing_report, h.printing]
  · rw [printing_report]

end Reporter.Alike

/-- Machines that differ in positions at most: in those inside functions, and in where diagnostics point. -/
structure Machine.Alike (rel : Value → Value → Prop) (m m' : Machine) : Prop where
  store : m.store.Alike rel m'.store
  nextId : m.nextId = m'.nextId
  globals : m.globals = m'.globals
  input : m.input = m'.input
  reporter : m.reporter.Alike m'.reporter
  hadError : m.hadError = m'.hadError
  depth : m.depth = m'.depth

namespace Machine.Alike

variable {rel : Value → Value → Prop} {m m' : Machine}

theorem define (h : m.Alike rel m') (frame : FrameId) (name : String) {v v' : Value} (hv : rel v v') :
    (m.define frame name v).Alike rel (m'.define frame name v') :=
  { h with store := h.store.define frame name hv }

theorem entered (h : m.Alike rel m') (frame : FrameId) (params : List String) {v v' : Value} (hv : rel v v') :
    (m.entered frame params v).Alike rel (m'.entered frame params v') := by
  have hchild : (m.mapStore (·.child frame)).Alike rel (m'.mapStore (·.child frame)) :=
    { h with store := h.store.child frame }
  cases params with
  | nil => exact hchild
  | cons p _ =>
    show ((m.mapStore (·.child frame)).define m.store.size p v).Alike rel
      ((m'.mapStore (·.child frame)).define m'.store.size p v')
    rw [← h.store.size]
    exact hchild.define m.store.size p hv

theorem nextFunction (h : m.Alike rel m') :
    Machine.Alike rel { m with nextId := m.nextId + 1 } { m' with nextId := m'.nextId + 1 } :=
  { h with nextId := congrArg (· + 1) h.nextId }

theorem atDepth (h : m.Alike rel m') (depth : Nat) :
    Machine.Alike rel { m with depth := depth } { m' with depth := depth } :=
  { h with depth := rfl }

theorem readLine (h : m.Alike rel m') : m.readLine.2.Alike rel m'.readLine.2 ∧ m.readLine.1 = m'.readLine.1 := by
  obtain ⟨hline, hrest⟩ := Machine.readLine_congr h.input
  refine ⟨?_, hline⟩
  rw [m.readLine_eq, m'.readLine_eq]
  exact { h with input := hrest }

theorem report (h : m.Alike rel m') (host : Host) {d d' : Diagnostic} (hd : d.Alike d') :
    (m.report host d).Alike rel (m'.report host d') :=
  { h with reporter := h.reporter.report host.reports hd }

theorem log (h : m.Alike rel m') (level : LogLevel) {source : String} (hs : (source == "zy.diagnostics") = false)
    (message message' : String) : (m.log level source message).Alike rel (m'.log level source message') :=
  { h with reporter := (h.reporter.log_left level hs message).log_right level hs message' }

theorem reportOnce (h : m.Alike rel m') (host : Host) (i i' : Issue) (hs : i.severity = i'.severity)
    (hm : i.message = i'.message) : (m.reportOnce host i).Alike rel (m'.reportOnce host i') := by
  unfold Machine.reportOnce
  rw [← h.hadError]
  cases m.hadError with
  | true => exact h
  | false =>
    have h' : Machine.Alike rel { m with hadError := true } { m' with hadError := true } := { h with hadError := rfl }
    exact h'.report host ⟨hs, hm⟩

end Machine.Alike

/-! ## Runs that differ in layout -/

inductive Halt.Alike : Halt → Halt → Prop
  | fault {f f' : Fault} : f.reason = f'.reason → f.severity = f'.severity → Alike (.fault f) (.fault f')
  | crash (c : Crash) : Alike (.crash c) (.crash c)
  | exhausted : Alike .exhausted .exhausted
  | exit : Alike .exit .exit

theorem Halt.Alike.refl (x : Halt) : x.Alike x := by
  cases x with
  | fault f => exact .fault rfl rfl
  | crash c => exact .crash c
  | exhausted => exact .exhausted
  | exit => exact .exit

namespace Layout

open Evaluator

def like : Likeness where
  closure _ _ _ body body' _ := body.Alike body'
  native _ _ _ code _ _ := code.isStandard = true

def coupling : Coupling where
  World := Unit
  later _ _ := True
  like _ := like
  machine _ m m' := m.Alike like.Values m'
  program _ e e' _ := e.Alike e'
  halted _ x m x' m' := x.Alike x' ∧ m.Alike like.Values m'
  excused _ := False

theorem coupling_worlds : coupling.Worlds where
  refl _ := trivial
  trans _ _ := trivial
  like _ := ⟨id, id, id⟩
  program _ he := he

/-- Whatever two expressions are blamed for, the reports differ in positions alone. -/
theorem coupling_settles (h : Host) (e e' : Expr) : coupling.Settles Halt.Alike h e e' where
  refl := .refl
  form hx := by
    cases hx with
    | fault hr hs => exact .inr ⟨_, _, rfl, rfl, hs⟩
    | crash | exhausted | exit => exact .inl rfl
  blame hf := by
    cases hf with
    | fault hr hs => exact .fault hr hs
  halted := Iff.rfl
  unexcused _ := id
  depth hm := hm.depth
  atDepth hm := hm.atDepth
  report hm hf := by
    cases hf with
    | fault hr hs => exact hm.reportOnce h _ _ hs (congrArg Reason.message hr)
  overflow hm := ⟨_, _, rfl, rfl, (hm.log .error (by decide) _ _).report h ⟨rfl, rfl⟩⟩

/-- No law has anything to do with positions but those about reports. -/
theorem coupling_laws (h : Host) : coupling.Laws h h where
  toWorlds := coupling_worlds
  frames hm := hm.store.size
  ids hm := hm.nextId
  parts := by rintro _ e e' frame ⟨hparts, -⟩; exact hparts
  resolve _ hm name := hm.store.resolve? _ name
  global hm name := by
    rw [← hm.globals]
    exact hm.store.lookup? _ name
  declare _ _ hm hv := ⟨(), trivial, hm.define _ _ hv⟩
  rebind _ hm _ hv := ⟨(), trivial, hm.define _ _ hv⟩
  make := by
    rintro _ p p' name params body body' next next' frame m m' ⟨-, hbody⟩ hm
    cases hbody with
    | some hbody => exact ⟨(), trivial, hm.nextFunction, hbody⟩
  enter hbody _ hm hv := ⟨(), trivial, hm.entered _ _ hv, hbody⟩
  curry hbody hm hv := ⟨(), trivial, { hm.entered _ _ hv with nextId := congrArg (· + 1) hm.nextId }, hbody⟩
  collect hcode _ _ _ hm := ⟨(), trivial, hm.nextFunction, hcode⟩
  write hm text := ⟨(), trivial, { hm with reporter := hm.reporter.write text }⟩
  readLine hm := ⟨(), trivial, hm.readLine.1, hm.readLine.2⟩
  fault _ hm := ⟨.fault rfl rfl, hm⟩
  missing _ _ hm := ⟨.fault rfl rfl, hm⟩
  unknown _ _ hm := ⟨.fault rfl rfl, hm⟩
  target _ _ hm := ⟨.fault rfl rfl, hm⟩
  accept _ _ := Iff.rfl
  refuse hc hc' hm := by
    cases hc.symm.trans hc'
    exact ⟨.refl _, hm⟩
  exhausted hm := Or.inr ⟨.exhausted, hm⟩
  extension hcode := by cases hcode
  deeper _ hx := (coupling_settles h _ _).deeper coupling_worlds hx

theorem values_self {v : Value} (hv : v.Uses fun code => code.isStandard = true) : like.Values v v :=
  Likeness.values_self (L := like) Expr.Alike.refl id trivial v hv

end Layout

/-! ## Sessions -/

/-- Outcomes of one kind that show the same: values with the same text, or errors with the same message. -/
inductive Outcome.Alike : Outcome → Outcome → Prop
  | value {v v' : Value} : v.render = v'.render → Alike (.ok v) (.ok v')
  | grammar {e e' : ParseError} : e.message = e'.message → Alike (.error (.grammar e)) (.error (.grammar e'))
  | fault {f f' : Fault} : f.reason.message = f'.reason.message → Alike (.error (.fault f)) (.error (.fault f'))
  | crash (c : Crash) : Alike (.error (.crash c)) (.error (.crash c))
  | exit : Alike (.error .exit) (.error .exit)

namespace Session

open Layout

variable {s : Session}

theorem start_alike (hs : s.machine.store.IsStandard) (ht : s.machine.reporter.transcript.printing.2 = false)
    (source source' : String) : (s.start source).machine.Alike like.Values (s.start source').machine where
  store := Store.Uses.alike_self hs fun _ => values_self
  nextId := rfl
  globals := rfl
  input := rfl
  reporter := ⟨.nil, rfl, ht⟩
  hadError := rfl
  depth := rfl

theorem begun_alike (hs : s.machine.store.IsStandard) (ht : s.machine.reporter.transcript.printing.2 = false)
    (source source' : String) (program program' : Expr) :
    (s.begun source program).Alike like.Values (s.begun source' program') := by
  refine warn_keeps (Q := fun m => (s.begun source program).Alike like.Values m) ?_ program' _ ?_
  · intro m message hm
    exact { hm with reporter := hm.reporter.log_right .warning (by decide) message }
  · refine warn_keeps (Q := fun m => m.Alike like.Values (s.start source').machine) ?_ program _ ?_
    · intro m message hm
      exact { hm with reporter := hm.reporter.log_left .warning (by decide) message }
    · exact start_alike hs ht source source'

/-- What the ends of two evaluations say of the runs. -/
theorem finish_alike {w : coupling.World} {r r' : EStateM.Result Halt Machine Value}
    (h : coupling.Ends w coupling.Values r r') :
    Outcome.Alike (ending r) (ending r') ∧ (finish r).Alike like.Values (finish r') := by
  cases h with
  | ok _ hm hv => exact ⟨.value hv.render.eq, hm.log .debug (by decide) _ _⟩
  | halt _ hx =>
    obtain ⟨hx, hm⟩ := hx
    cases hx with
    | fault hr _ => exact ⟨.fault (congrArg Reason.message hr), hm⟩
    | crash c => exact ⟨.crash c, hm⟩
    | exhausted => exact ⟨.exit, hm⟩
    | exit => exact ⟨.exit, hm⟩
  | excused hx => exact hx.elim

theorem run_alike (hs : s.machine.store.IsStandard) (ht : s.machine.reporter.transcript.printing.2 = false)
    {source source' : String} (hts : (Tokens.scan source).Alike (Tokens.scan source')) :
    Outcome.Alike (s.run source).1 (s.run source').1 ∧
      (s.run source).2.machine.Alike like.Values (s.run source').2.machine := by
  have hread := Parser.program_agrees s.host.maxNesting _ _ hts
  have hp : parseWithin s.host.maxNesting source =
      (Parser.program s.host.maxNesting (Tokens.scan source)).map (·.1) := rfl
  have hp' : parseWithin s.host.maxNesting source' =
      (Parser.program s.host.maxNesting (Tokens.scan source')).map (·.1) := rfl
  have hstart := start_alike hs ht source source'
  generalize Parser.program s.host.maxNesting (Tokens.scan source) = r at hread hp
  generalize Parser.program s.host.maxNesting (Tokens.scan source') = r' at hread hp'
  cases hread with
  | @ok e e' _ _ he _ =>
    rw [run_program hp, run_program hp']
    have hbegun := begun_alike hs ht source source' e e'
    refine finish_alike (w := ()) ?_
    unfold evaluation
    rw [← hbegun.globals]
    have he : coupling.program () e e' (s.begun source e).globals := he
    exact Coupling.evaluate_runs (coupling_laws s.host) (Or.inl rfl) he () trivial _ _ hbegun
  | error hx =>
    cases hx with
    | @grammar wanted t t' hlex =>
      rw [run_grammar hp, run_grammar hp']
      have hmessage : (ParseError.mk wanted t).message = (ParseError.mk wanted t').message := by
        simp only [ParseError.message, hlex]
      have hnoticed : Machine.Alike like.Values { (s.start source).machine with hadError := true }
          { (s.start source').machine with hadError := true } := { hstart with hadError := rfl }
      exact ⟨.grammar hmessage, hnoticed.report s.host ⟨rfl, hmessage⟩⟩
    | nesting =>
      rw [run_nesting hp, run_nesting hp']
      exact ⟨.exit, (hstart.log .error (by decide) _ _).report s.host ⟨rfl, rfl⟩⟩

theorem ofSettings_settled (c : Settings) (args : Option (List String)) (input : List Char) :
    (ofSettings c args input).machine.reporter.transcript.printing.2 = false := by
  cases args with
  | none =>
    show (Transcript.printing (Array.push _ _)).2 = false
    rw [Transcript.printing_push]
    rfl
  | some args =>
    show (Transcript.printing (Array.push _ _)).2 = false
    rw [Transcript.printing_push]
    rfl

/-- Two sources without a lexical error and with the same lexemes, run in sessions opened in the same way: the runs end
alike, print the same, leave the same input unread, and report diagnostics that say the same one by one. -/
theorem run_of_same_lexemes (c : Settings) (args : Option (List String)) (input : List Char)
    (source source' : String) {t t' : Token} (h : (Tokens.scan source).ending = .ok t)
    (h' : (Tokens.scan source').ending = .ok t')
    (hsame : (Tokens.scan source).front.map (·.lexeme) = (Tokens.scan source').front.map (·.lexeme)) :
    Outcome.Alike ((ofSettings c args input).run source).1 ((ofSettings c args input).run source').1 ∧
      ((ofSettings c args input).run source).2.machine.reporter.transcript.printed =
        ((ofSettings c args input).run source').2.machine.reporter.transcript.printed ∧
      ((ofSettings c args input).run source).2.machine.input =
        ((ofSettings c args input).run source').2.machine.input ∧
      List.Forall₂ Diagnostic.Alike
        ((ofSettings c args input).run source).2.machine.reporter.diagnostics.toList
        ((ofSettings c args input).run source').2.machine.reporter.diagnostics.toList := by
  have hts : (Tokens.scan source).Alike (Tokens.scan source') := by
    refine ⟨?_, t, t', h, h', (Tokens.scan_ending h).trans (Tokens.scan_ending h').symm⟩
    have heq := List.forall₂_eq_eq_eq (α := Lexeme) ▸ hsame
    simpa only [List.forall₂_map_left_iff, List.forall₂_map_right_iff] using heq
  obtain ⟨houtcome, hm⟩ := run_alike (ofSettings_isStandard c args input) (ofSettings_settled c args input) hts
  exact ⟨houtcome, congrArg Prod.fst hm.reporter.printing, hm.input, hm.reporter.diagnostics⟩

/-- A call on one line, and the same over three with a comment in it. -/
theorem run_of_same_lexemes_spread :
    (Tokens.scan "f(x)").front.map (·.lexeme) = (Tokens.scan "f (\n x 'x\n)").front.map (·.lexeme) ∧
      Outcome.Alike ((ofSettings {} none []).run "f(x)").1 ((ofSettings {} none []).run "f (\n x 'x\n)").1 ∧
      List.Forall₂ Diagnostic.Alike ((ofSettings {} none []).run "f(x)").2.machine.reporter.diagnostics.toList
        ((ofSettings {} none []).run "f (\n x 'x\n)").2.machine.reporter.diagnostics.toList := by
  have hlexemes : (Tokens.scan "f(x)").front.map (·.lexeme) =
      (Tokens.scan "f (\n x 'x\n)").front.map (·.lexeme) := rfl
  have hruns := run_of_same_lexemes {} none [] "f(x)" "f (\n x 'x\n)" rfl rfl hlexemes
  exact ⟨hlexemes, hruns.1, hruns.2.2.2⟩

end Session

end Curried
