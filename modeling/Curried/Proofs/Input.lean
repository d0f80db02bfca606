/-
  Curried.Proofs.Input — what a run reads of the input.

  An input is a list of lines (`Text.inputLines`). Reading takes the first of them and leaves the others.

  Which lines a run has read is told by a second evaluator, that does what the first does and writes down each line that
  a call of `read` has given (`Noted.evaluate`). Erasing the notes gives the first evaluator's run
  (`Session.evaluation_eq_erase`), and the notes and the lines that are left are together the lines there were
  (`Session.reads_append`). Both are one coupling of the two evaluators. Between reading and noting it does not hold, so
  its laws are those of the steps without reading (`Coupling.Steps`), and `read` is gone through on its own
  (`Noted.read_ends`).
-/

import Curried.Proofs.Invariant
import Curried.Proofs.Places
import Curried.Proofs.Watch

namespace Curried

/-! ## Lines -/

namespace Text

def lineText (line : List Char) : String := String.ofList (dropEnd (fun c => c == '\r' || c == '\n') line)

/-- The lines of an input: what stands between line feeds, and after the last one unless nothing does. -/
def inputLines (input : List Char) : List String :=
  (if (lines input).getLast? = some [] then (lines input).dropLast else lines input).map lineText

theorem inputLines_nil : inputLines [] = [] := rfl

theorem lineText_append (line : List Char) : lineText (line ++ ['\n']) = lineText line := by
  simp [lineText, dropEnd]

/-- The first line is what comes before the first line feed, if there is one. -/
theorem takeLine_cases (input : List Char) :
    ('\n' ∉ input ∧ takeLine input = (input, [])) ∨
      ∃ line rest, '\n' ∉ line ∧ input = line ++ '\n' :: rest ∧ takeLine input = (line ++ ['\n'], rest) := by
  induction input with
  | nil => exact .inl ⟨by simp, rfl⟩
  | cons c cs ih =>
    by_cases hc : c = '\n'
    · subst hc
      exact .inr ⟨[], cs, by simp, rfl, by simp [takeLine]⟩
    · have hne : ¬ '\n' = c := fun h => hc h.symm
      rcases ih with ⟨hmem, htake⟩ | ⟨line, rest, hmem, rfl, htake⟩
      · exact .inl ⟨by simp [hne, hmem], by simp [takeLine, hc, htake]⟩
      · exact .inr ⟨c :: line, rest, by simp [hne, hmem], rfl, by simp [takeLine, hc, htake]⟩

/-- Taking a line of an input that has one takes the first of its lines, and some character. -/
theorem inputLines_takeLine {input : List Char} (h : input ≠ []) :
    inputLines input = lineText (takeLine input).1 :: inputLines (takeLine input).2 ∧
      (takeLine input).2.length < input.length := by
  rcases takeLine_cases input with ⟨hmem, htake⟩ | ⟨line, rest, hmem, rfl, htake⟩
  · rw [htake, inputLines, lines_of_not_mem hmem]
    exact ⟨by simp [h, inputLines_nil], List.length_pos_iff.mpr h⟩
  · have hlast : (line :: lines rest).getLast? = (lines rest).getLast? := by
      rw [List.getLast?_cons_of_ne_nil (lines_ne_nil rest)]
    have hdrop : (line :: lines rest).dropLast = line :: (lines rest).dropLast :=
      List.dropLast_cons_of_ne_nil (lines_ne_nil rest)
    rw [htake, inputLines, lines_append, lines_of_not_mem hmem, List.singleton_append, hlast, hdrop, lineText_append]
    refine ⟨?_, by simp; omega⟩
    unfold inputLines
    split
    · rfl
    · rfl

theorem length_inputLines_le (input : List Char) : (inputLines input).length ≤ input.length := by
  by_cases h : input = []
  · subst h
    exact Nat.le_refl 0
  · obtain ⟨hlines, hlt⟩ := inputLines_takeLine h
    have hrest := length_inputLines_le (takeLine input).2
    rw [hlines, List.length_cons]
    omega
termination_by input.length

end Text

namespace Machine

theorem readLine_of_nil {m : Machine} (h : m.input = []) : m.readLine = (none, m) := by
  unfold readLine
  rw [h]

theorem readLine_of_ne_nil {m : Machine} (h : m.input ≠ []) :
    m.readLine = (some (Text.lineText (Text.takeLine m.input).1), { m with input := (Text.takeLine m.input).2 }) := by
  unfold readLine
  split
  · rename_i hnil
    exact (h hnil).elim
  · rfl

theorem foldl_defineNative_frame (ds : List Definition) (m : Machine) :
    (ds.foldl defineNative m).input = m.input ∧ (ds.foldl defineNative m).reporter = m.reporter := by
  induction ds generalizing m with
  | nil => exact ⟨rfl, rfl⟩
  | cons d ds ih => exact ih (m.defineNative d)

end Machine

/-! ## Notes -/

def Entry.note? : Entry → Option String
  | .log _ source text => if source = "read" then some text else none
  | _ => none

namespace Noted

open Evaluator

def notes (entries : List Entry) : List String := entries.filterMap Entry.note?

def unnoted (entries : List Entry) : List Entry := entries.filter fun entry => entry.note?.isNone

/-- Note the line that an application of `f` has given, if `f` is `read`. -/
def note (f v : Value) (m : Machine) : Machine :=
  match f.reads, v with
  | true, .string text => m.log .debug "read" text
  | _, _ => m

def noting (f : Value) : EStateM.Result Halt Machine Value → EStateM.Result Halt Machine Value
  | .ok v m => .ok v (note f v m)
  | .error x m => .error x m

mutual

def evaluate (h : Host) : Nat → Expr → FrameId → Eval Value
  | 0, _, _ => throw .exhausted
  | stack + 1, e, frame => deeper h e (expression (evaluate h stack) (apply h stack) e frame)

def apply (h : Host) : Nat → Value → Value → Eval Value
  | 0, _, _ => throw .exhausted
  | stack + 1, f, arg => fun m => noting f (applied (evaluate h stack) (apply h stack) h f arg m)

end

/-! ## The two evaluators -/

/-- A machine and that of the noted run, from an empty transcript on: they differ in the notes alone, and the lines
noted and those left are the lines there were. -/
def Alike (written : List Entry) (lines : List String) (m m' : Machine) : Prop :=
  ∃ t : Transcript, m' = { m with reporter := ⟨m.reporter.diagnostics, t⟩ } ∧
    m.reporter.transcript.toList = written ++ unnoted t.toList ∧
    lines = notes t.toList ++ Text.inputLines m.input

variable {written : List Entry} {lines : List String} {m m' : Machine}

namespace Alike

/-- A change that has nothing to do with the reporter and the input. -/
theorem update {f : Machine → Machine} (hf : ∀ m r, f { m with reporter := r } = { f m with reporter := r })
    (hreporter : ∀ m, (f m).reporter = m.reporter) (hinput : ∀ m, (f m).input = m.input)
    (hm : Alike written lines m m') : Alike written lines (f m) (f m') := by
  obtain ⟨t, rfl, ht, hlines⟩ := hm
  refine ⟨t, ?_, ?_, ?_⟩
  · rw [hf, hreporter]
  · rw [hreporter]
    exact ht
  · rw [hinput]
    exact hlines

theorem define (hm : Alike written lines m m') (frame : FrameId) (name : String) (v : Value) :
    Alike written lines (m.define frame name v) (m'.define frame name v) :=
  hm.update (f := (·.define frame name v)) (fun _ _ => rfl) (fun _ => rfl) fun _ => rfl

theorem fresh (hm : Alike written lines m m') :
    Alike written lines { m with nextId := m.nextId + 1 } { m' with nextId := m'.nextId + 1 } :=
  hm.update (f := fun m => { m with nextId := m.nextId + 1 }) (fun _ _ => rfl) (fun _ => rfl) fun _ => rfl

theorem entered (hm : Alike written lines m m') (frame : FrameId) (params : List String) (v : Value) :
    Alike written lines (m.entered frame params v) (m'.entered frame params v) := by
  cases params with
  | nil => exact hm.update (f := (·.entered frame [] v)) (fun _ _ => rfl) (fun _ => rfl) fun _ => rfl
  | cons p more => exact hm.update (f := (·.entered frame (p :: more) v)) (fun _ _ => rfl) (fun _ => rfl) fun _ => rfl

theorem atDepth (hm : Alike written lines m m') (depth : Nat) :
    Alike written lines { m with depth := depth } { m' with depth := depth } :=
  hm.update (f := fun m => { m with depth := depth }) (fun _ _ => rfl) (fun _ => rfl) fun _ => rfl

theorem noticed (hm : Alike written lines m m') :
    Alike written lines { m with hadError := true } { m' with hadError := true } :=
  hm.update (f := fun m => { m with hadError := true }) (fun _ _ => rfl) (fun _ => rfl) fun _ => rfl

/-- Both runs write something that is no note. -/
theorem write (hm : Alike written lines m m') {entry : Entry} (hentry : entry.note? = none) :
    Alike written lines (m.mapReporter (·.write entry)) (m'.mapReporter (·.write entry)) := by
  obtain ⟨t, rfl, ht, hlines⟩ := hm
  refine ⟨t.push entry, rfl, ?_, ?_⟩
  · show (m.reporter.transcript.push entry).toList = _
    simp [unnoted, hentry, ht]
  · show lines = notes (t.push entry).toList ++ Text.inputLines m.input
    simp [notes, hentry, hlines]

theorem diagnosed (hm : Alike written lines m m') (d : Diagnostic) :
    Alike written lines { m with reporter := { m.reporter with diagnostics := m.reporter.diagnostics.push d } }
      { m' with reporter := { m'.reporter with diagnostics := m'.reporter.diagnostics.push d } } := by
  obtain ⟨t, rfl, ht, hlines⟩ := hm
  exact ⟨t, rfl, ht, hlines⟩

theorem report (hm : Alike written lines m m') (h : Host) (d : Diagnostic) :
    Alike written lines (m.report h d) (m'.report h d) := by
  have hlogged := (hm.diagnosed d).write (show Entry.note? (.log .debug "zy.diagnostics"
    s!"Reporting {d.severity.name} at {d.position.text}: {d.message}") = none from rfl)
  refine hlogged.write ?_
  split
  · rfl
  · rfl

theorem source_eq (hm : Alike written lines m m') : m'.source = m.source := by
  obtain ⟨t, rfl, -⟩ := hm
  rfl

theorem reportOnce (hm : Alike written lines m m') (h : Host) (i : Issue) :
    Alike written lines (m.reportOnce h i) (m'.reportOnce h i) := by
  have hnoticed := hm.noticed
  obtain ⟨t, rfl, ht⟩ := hm
  unfold Machine.reportOnce
  dsimp only
  by_cases hold : m.hadError = true
  · rw [if_pos hold, if_pos hold]
    exact ⟨t, rfl, ht⟩
  · rw [if_neg hold, if_neg hold]
    exact hnoticed.report h _

end Alike

variable (written lines)

def coupling : Coupling where
  World := Unit
  later _ _ := True
  like _ := .same fun _ => True
  machine _ := Alike written lines
  program _ e e' _ := e = e'
  halted _ x m x' m' := x = x' ∧ Alike written lines m m'
  excused _ := False

variable {written lines} {w : (coupling written lines).World} {h : Host} {e : Expr}

theorem ends_ok (v : Value) (hm : Alike written lines m m') :
    (coupling written lines).Ends w (coupling written lines).Values (.ok v m) (.ok v m') :=
  @Coupling.Ends.ok (coupling written lines) w _ _ _ w v v m m' trivial hm (Likeness.same_self v)

theorem ends_halt (x : Halt) (hm : Alike written lines m m') :
    (coupling written lines).Ends w (coupling written lines).Values (.error x m) (.error x m') :=
  @Coupling.Ends.halt (coupling written lines) w _ _ _ w x x m m' trivial ⟨rfl, hm⟩

theorem eq_of_values {v v' : Value} (hv : (coupling written lines).Values w v v') : v = v' :=
  (Likeness.eq_and_each (Q := fun _ => True) hv).1

theorem coupling_worlds : (coupling written lines).Worlds where
  refl _ := trivial
  trans _ _ := trivial
  like _ := ⟨id, id, id⟩
  program _ he := he

theorem coupling_settles (h : Host) (e : Expr) : (coupling written lines).Settles Eq h e e where
  refl _ := rfl
  form := Or.inl
  blame hf := by
    cases hf
    rfl
  halted := Iff.rfl
  unexcused _ := id
  depth := by rintro _ m _ ⟨t, rfl, -⟩; rfl
  atDepth hm := Alike.atDepth hm
  report hm hf := by
    cases hf
    exact Alike.reportOnce hm h _
  overflow := by
    intro w m m' hm
    have hlogged : Alike written lines (m.log .error "zy.evaluator" _) (m'.log .error "zy.evaluator" _) :=
      Alike.write hm (show Entry.note? (.log .error "zy.evaluator"
        s!"Evaluation depth exceeded {h.maxDepth}, terminating") = none from rfl)
    refine ⟨_, _, rfl, rfl, ?_⟩
    rw [hlogged.source_eq]
    exact hlogged.report h _

theorem coupling_steps (h : Host) : (coupling written lines).Steps h h where
  toWorlds := coupling_worlds
  frames := by rintro _ m _ ⟨t, rfl, -⟩; rfl
  ids := by rintro _ m _ ⟨t, rfl, -⟩; rfl
  parts := by rintro _ e _ frame rfl; exact Watch.matches_self e
  resolve := by
    rintro _ e _ frame m _ rfl ⟨t, rfl, -⟩ name
    exact (Store.alike_self_iff.mpr fun _ _ _ _ _ _ _ => trivial).resolve? frame name
  global := by
    rintro _ m _ ⟨t, rfl, -⟩ name
    exact (Store.alike_self_iff.mpr fun _ _ _ _ _ _ _ => trivial).lookup? m.globals name
  declare := by
    rintro _ e _ frame name m m' v v' rfl - hm hv
    cases eq_of_values hv
    exact ⟨(), trivial, hm.define frame name v⟩
  rebind := by
    rintro _ p q name value next _ frame owner u m m' v v' rfl hm - hv
    cases eq_of_values hv
    exact ⟨(), trivial, hm.define owner name v⟩
  make := by
    rintro _ p p' name params body body' next next' frame m m' he hm
    cases he
    exact ⟨(), trivial, hm.fresh, rfl, trivial⟩
  enter := by
    rintro _ id name params body _ frame m m' v v' ⟨rfl, -⟩ - hm hv
    cases eq_of_values hv
    exact ⟨(), trivial, hm.entered frame params v, rfl⟩
  curry := by
    rintro _ id name p q more body _ frame m m' v v' ⟨rfl, -⟩ hm hv
    cases eq_of_values hv
    exact ⟨(), trivial, (hm.entered frame (p :: q :: more) v).fresh, rfl, trivial⟩
  collect := by
    rintro _ id name arity code vs _ m m' v v' ⟨rfl, -⟩ - hv - hm
    cases eq_of_values hv
    exact ⟨(), trivial, hm.fresh, rfl, trivial⟩
  write hm text := ⟨(), trivial, hm.write rfl⟩
  fault _ hm := ⟨rfl, hm⟩
  missing _ _ hm := ⟨rfl, hm⟩
  unknown _ _ hm := ⟨rfl, hm⟩
  target := by
    rintro _ p p' t t' value value' next next' frame r m m' he - hm
    cases he
    exact ⟨rfl, hm⟩
  accept _ _ := Iff.rfl
  refuse hc hc' hm := by
    cases hc.symm.trans hc'
    exact ⟨rfl, hm⟩
  exhausted hm := Or.inr ⟨rfl, hm⟩
  extension := by
    rintro _ id name arity key vs _ v v' ⟨rfl, -⟩ hargs _ _ m m' hm
    rw [← (Likeness.eq_and_each_all (Q := fun _ => True) hargs).1]
    cases h.extensions key (vs ++ [v]) with
    | value u => exact ends_ok u hm
    | fault message severity position => exact ends_halt _ hm
    | crash c => exact ends_halt _ hm
  deeper := by
    rintro _ e _ frame x x' rfl hx
    exact (coupling_settles h e).deeper coupling_worlds hx

/-! ## Reading -/

theorem exists_of_reads {f : Value} (hf : f.reads = true) :
    ∃ id name arity vs, f = .native id name arity (.standard .read) vs := by
  unfold Value.reads at hf
  split at hf
  · exact ⟨_, _, _, _, rfl⟩
  · cases hf

theorem noting_of_not_reads {f : Value} (hf : f.reads = false) (r : EStateM.Result Halt Machine Value) :
    noting f r = r := by
  cases r with
  | ok v m => simp only [noting, note, hf]
  | error x m => rfl

/-- A line is read, and noted. -/
theorem Alike.read (hm : Alike written lines m m') {line : String} {rest : List Char}
    (hline : Text.inputLines m.input = line :: Text.inputLines rest) :
    Alike written lines { m with input := rest } (Machine.log { m' with input := rest } .debug "read" line) := by
  obtain ⟨t, rfl, ht, hlines⟩ := hm
  refine ⟨t.push (.log .debug "read" line), rfl, ?_, ?_⟩
  · simp [unnoted, Entry.note?, ht]
  · simp [notes, Entry.note?, hlines, hline]

theorem read_eq {n : Machine} {line : Option String} (h : m.readLine = (line, n)) :
    Library.read m = .ok ((line.map Value.string).getD .nil) n := by
  have hread : Library.read m = .ok ((m.readLine.1.map Value.string).getD .nil) m.readLine.2 := rfl
  rw [hread, h]

theorem library_read_ends (hm : Alike written lines m m') {f : Value} (hf : f.reads = true) :
    (coupling written lines).Ends w (coupling written lines).Values (Library.read m) (noting f (Library.read m')) := by
  have hsame : m'.input = m.input := by
    obtain ⟨t, rfl, -⟩ := hm
    rfl
  by_cases hinput : m.input = []
  · rw [read_eq (Machine.readLine_of_nil hinput), read_eq (Machine.readLine_of_nil (hsame.trans hinput))]
    simp only [noting, note, hf]
    exact ends_ok .nil hm
  · have hinput' : m'.input ≠ [] := fun h => hinput (hsame.symm.trans h)
    rw [read_eq (Machine.readLine_of_ne_nil hinput), read_eq (Machine.readLine_of_ne_nil hinput'), hsame]
    simp only [noting, note, hf]
    exact ends_ok (.string _) (hm.read (Text.inputLines_takeLine hinput).1)

/-- The function that reads, applied in both runs: it waits for arguments, reads a line, or has too many. -/
theorem read_ends (k : Nat) {id : Nat} {name : String} {arity : Nat} {vs : List Value} (v : Value)
    (hm : Alike written lines m m') :
    (coupling written lines).Ends w (coupling written lines).Values
      (Curried.apply h (k + 1) (.native id name arity (.standard .read) vs) v m)
      (apply h (k + 1) (.native id name arity (.standard .read) vs) v m') := by
  have hnext : m'.nextId = m.nextId := by
    obtain ⟨t, rfl, -⟩ := hm
    rfl
  have hfresh := hm.fresh
  rw [hnext] at hfresh
  rw [Curried.apply, apply]
  show (coupling written lines).Ends w (coupling written lines).Values
    (applyNative (Curried.apply h k) h name arity (.standard .read) vs v m)
    (noting _ (applyNative (apply h k) h name arity (.standard .read) vs v m'))
  unfold applyNative
  dsimp only
  by_cases hlt : (vs ++ [v]).length < arity
  · rw [if_pos hlt, if_pos hlt]
    show (coupling written lines).Ends w (coupling written lines).Values
      (.ok (.native m.nextId name arity (.standard .read) (vs ++ [v])) _)
      (.ok (.native m'.nextId name arity (.standard .read) (vs ++ [v])) _)
    rw [hnext]
    exact ends_ok _ hfresh
  · rw [if_neg hlt, if_neg hlt]
    cases vs with
    | nil => exact library_read_ends hm rfl
    | cons _ vs =>
      cases vs with
      | nil => exact ends_halt _ hm
      | cons => exact ends_halt _ hm

/-- One induction for both, as for the evaluator alone. -/
theorem evaluates_and_applies (h : Host) (k : Nat) :
    (coupling written lines).Evaluates () (Curried.evaluate h k) (evaluate h k) ∧
      (coupling written lines).Applies () (Curried.apply h k) (apply h k) := by
  have hC : (coupling written lines).Steps h h := coupling_steps h
  induction k with
  | zero =>
    refine ⟨fun _ _ e e' frame _ => ?_, fun _ _ f f' v v' _ _ => ?_⟩
    · rw [Curried.evaluate, evaluate]
      exact fun _ _ _ _ hm => ends_halt .exhausted hm
    · rw [Curried.apply, apply]
      exact fun _ _ _ _ hm => ends_halt .exhausted hm
  | succ k ih =>
    obtain ⟨heval, happ⟩ := ih
    refine ⟨fun w₁ hw₁ e e' frame he => ?_, fun w₁ hw₁ f f' v v' hf hv w₂ hw₂ m m' hm => ?_⟩
    · rw [Curried.evaluate, evaluate]
      exact hC.deeper he (Coupling.expression_runs hC (heval.mono hC hw₁) (happ.mono hC hw₁) he)
    · cases hreads : f.reads with
      | true =>
        cases eq_of_values hf
        cases eq_of_values hv
        obtain ⟨id, name, arity, vs, rfl⟩ := exists_of_reads hreads
        exact read_ends k v hm
      | false =>
        rw [Curried.apply, apply]
        dsimp only
        rw [noting_of_not_reads ((eq_of_values hf).symm ▸ hreads)]
        exact Coupling.applied_runs hC (heval.mono hC hw₁) (happ.mono hC hw₁) hf hv
          (fun h => by rw [hreads] at h; cases h) w₂ hw₂ m m' hm

/-! ## Erasing the notes -/

def unwritten (m : Machine) : Machine := { m with reporter := ⟨m.reporter.diagnostics, #[]⟩ }

def erased (before : List Entry) (m : Machine) : Machine :=
  { m with reporter := ⟨m.reporter.diagnostics, (before ++ unnoted m.reporter.transcript.toList).toArray⟩ }

def erase (before : List Entry) : EStateM.Result Halt Machine Value → EStateM.Result Halt Machine Value
  | .ok v m => .ok v (erased before m)
  | .error x m => .error x (erased before m)

theorem Alike.unwritten (m : Machine) :
    Alike m.reporter.transcript.toList (Text.inputLines m.input) m (unwritten m) :=
  ⟨#[], rfl, (List.append_nil _).symm, rfl⟩

theorem Alike.eq_erased (hm : Alike written lines m m') : m = erased written m' := by
  obtain ⟨t, rfl, ht, -⟩ := hm
  unfold erased
  dsimp only
  rw [← ht, Array.toArray_toList]

/-- The noted run is the run with notes, and its notes are the lines that are gone from the input. -/
theorem evaluate_eq_erase (h : Host) (k : Nat) (e : Expr) (frame : FrameId) (m : Machine) :
    Curried.evaluate h k e frame m =
        erase m.reporter.transcript.toList (evaluate h k e frame (unwritten m)) ∧
      Text.inputLines m.input = notes (Eval.left (evaluate h k e frame (unwritten m))).reporter.transcript.toList ++
        Text.inputLines (Eval.left (Curried.evaluate h k e frame m)).input := by
  have hruns := (evaluates_and_applies h k).1 () trivial e e frame rfl () trivial m _ (Alike.unwritten m)
  generalize Curried.evaluate h k e frame m = r, evaluate h k e frame (unwritten m) = r' at hruns ⊢
  cases hruns with
  | ok _ hm hv =>
    cases eq_of_values hv
    refine ⟨congrArg (EStateM.Result.ok _) (Alike.eq_erased hm), ?_⟩
    obtain ⟨t, rfl, -, hlines⟩ := hm
    exact hlines
  | halt _ hx =>
    obtain ⟨rfl, hm⟩ := hx
    refine ⟨congrArg (EStateM.Result.error _) (Alike.eq_erased hm), ?_⟩
    obtain ⟨t, rfl, -, hlines⟩ := hm
    exact hlines
  | excused hx => exact hx.elim

end Noted

namespace Session

open Noted

theorem ofSettings_input (c : Settings) (args : Option (List String)) (input : List Char) :
    (ofSettings c args input).machine.input = input := by
  have hinstalled := (Machine.foldl_defineNative_frame Catalogue.standard.definitions
    (Machine.openGlobals { input := input })).1
  cases args with
  | none => exact hinstalled
  | some args => exact hinstalled

/-- A session has written one line of the log when it is opened. -/
theorem ofSettings_transcript (c : Settings) (args : Option (List String)) (input : List Char) :
    (ofSettings c args input).machine.reporter.transcript = #[.log .debug "zy.builtins" "Installed 47 builtins"] := by
  have hinstalled := (Machine.foldl_defineNative_frame Catalogue.standard.definitions
    (Machine.openGlobals { input := input })).2
  have hlogged := congrArg (fun r : Reporter => r.transcript.push (.log .debug "zy.builtins" "Installed 47 builtins"))
    hinstalled
  cases args with
  | none => exact hlogged
  | some args => exact hlogged

def noted (s : Session) (source : String) (program : Expr) : EStateM.Result Halt Machine Value :=
  Noted.evaluate s.host s.host.stackSize program (s.begun source program).globals
    (unwritten (s.begun source program))

/-- The lines that calls of `read` give in a run of a source, in order. -/
def reads (s : Session) (source : String) : List String :=
  match parseWithin s.host.maxNesting source with
  | .ok program => notes (Eval.left (s.noted source program)).reporter.transcript.toList
  | .error _ => []

theorem evaluation_eq_erase (s : Session) (source : String) (program : Expr) :
    s.evaluation source program =
      erase (s.begun source program).reporter.transcript.toList (s.noted source program) :=
  (evaluate_eq_erase ..).1

theorem finish_input (r : EStateM.Result Halt Machine Value) : (finish r).input = (Eval.left r).input := by
  cases r with
  | ok v m => rfl
  | error x m => rfl

/-- What a run reads are the first lines of the input, and it leaves the others. -/
theorem reads_append (s : Session) (source : String) :
    Text.inputLines s.machine.input = s.reads source ++ Text.inputLines (s.run source).2.machine.input := by
  unfold reads
  cases h : parseWithin s.host.maxNesting source with
  | ok program =>
    have hinput : (s.begun source program).input = s.machine.input := by
      obtain ⟨t, ht⟩ := s.begun_eq source program
      rw [ht]
      rfl
    rw [run_program h, ← hinput]
    show _ = _ ++ Text.inputLines (finish (s.evaluation source program)).input
    rw [finish_input]
    exact (evaluate_eq_erase ..).2
  | error x =>
    cases x with
    | lexical e => rw [run_lexical h]; rfl
    | grammar e => rw [run_grammar h]; rfl
    | nesting p => rw [run_nesting h]; rfl

end Session

end Curried
