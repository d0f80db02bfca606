/-
  Curried.Proofs.Prompt — the prompt loop, line by line.

  In a round of the loop the prompt is written and takes a line of the input; the line is run, which may read more of
  them and write, and its value is shown (`Round`). `Takes` says what a line does to the session, and `Plays` what the
  rounds do, one after the other. The loop plays out such rounds (`runLines_plays`), and its fuel is never used up.
  Prompt and runs take the lines of the input in order, each once (`Plays.lines`), and what is written is what the
  rounds write (`Plays.entries`). The loop comes to the end of the input, or ends with the first run that overflows the
  stack.
-/

import Curried.CommandLine
import Curried.Proofs.Identity
import Curried.Proofs.Input
import Curried.Proofs.Reports
import Curried.Proofs.Warnings

namespace Curried

/-! ## Values are shown -/

namespace Value

variable {registry : List Value}

mutual

theorem exists_render : ∀ {v : Value}, v.Each (Registered registry) → ∃ text, v.render = .ok text
  | .nil, _ | .bool _, _ | .string _, _ | .closure .., _ | .native .., _ | .regex _, _ => ⟨_, rfl⟩
  | .number x, _ => by
    obtain ⟨text, htext⟩ := Number.exists_render x
    exact ⟨text, by rw [render, htext]; rfl⟩
  | .list _, h => by
    obtain ⟨texts, htexts⟩ := exists_renderAll (each_list.mp h) []
    rw [render, htexts]
    exact ⟨_, rfl⟩
  | .foreign _, h => (each_foreign.mp h).elim

theorem exists_renderAll : ∀ {vs : List Value}, (∀ v ∈ vs, v.Each (Registered registry)) → ∀ before : List String,
    ∃ texts, renderAll vs before = .ok texts
  | [], _, _ => ⟨_, rfl⟩
  | v :: vs, h, before => by
    obtain ⟨hv, hvs⟩ := List.forall_mem_cons.mp h
    obtain ⟨text, htext⟩ := exists_render hv
    rw [renderAll, htext]
    exact exists_renderAll hvs (text :: before)

end

end Value

namespace Repl

/-! ## Rounds -/

/-- The line that the prompt took, the lines that were read by the run of it, what the run wrote, and the text of its
value. -/
structure Round where
  line : String
  reads : List String
  written : List Entry
  value : Option String

def valueLine (color : Bool) (text : String) : String :=
  if color then "\x1b[90m=> " ++ text ++ "\x1b[0m\n" else "=> " ++ text ++ "\n"

def Round.entries (c : Settings) (r : Round) : List Entry :=
  .output c.prompt :: r.written ++ (r.value.map fun text => .output (valueLine c.color text)).toList

def outputText (written : List Entry) : String :=
  String.join (written.filterMap fun entry => match entry with
    | .output text => some text
    | .errorOutput _ | .log .. => none)

def Round.output (c : Settings) (r : Round) : String :=
  c.prompt ++ outputText r.written ++ (r.value.map (valueLine c.color)).getD ""

def stripped (line : String) : String := String.ofList (Text.strip line.toList)

def put (s : Session) (text : String) : Session :=
  { s with machine := { s.machine with reporter := { s.machine.reporter with
      transcript := s.machine.reporter.transcript.push (.output text) } } }

def Prompts (c : Settings) (s : Session) (line : String) (s' : Session) : Prop :=
  s.machine.input ≠ [] ∧ line = Text.lineText (Text.takeLine s.machine.input).1 ∧
    s' = ⟨s.host, { (put s c.prompt).machine with input := (Text.takeLine s.machine.input).2 }⟩

def Writes (s : Session) (source : String) (written : List Entry) : Prop :=
  (s.run source).2.machine.reporter.transcript.toList = s.machine.reporter.transcript.toList ++ written

/-- What a line does to a session, and whether the loop goes on after it. -/
inductive Takes (c : Settings) (s : Session) : Round → Session → Bool → Prop
  | blank {line : String} : Text.strip line.toList = [] → Takes c s ⟨line, [], [], none⟩ s true
  | value {line : String} {written : List Entry} {v : Value} {text : String} {s' : Session} :
      Text.strip line.toList ≠ [] → Writes s (stripped line) written → s.run (stripped line) = (.ok v, s') →
      v.render = .ok text →
      Takes c s ⟨line, s.reads (stripped line), written, some text⟩ (put s' (valueLine c.color text)) true
  | trouble {line : String} {written : List Entry} {t : Trouble} {s' : Session} : Text.strip line.toList ≠ [] →
      Writes s (stripped line) written → t ≠ .exit → s.run (stripped line) = (.error t, s') →
      Takes c s ⟨line, s.reads (stripped line), written, none⟩ s' true
  | overflow {line : String} {written : List Entry} {s' : Session} : Text.strip line.toList ≠ [] →
      Writes s (stripped line) written → s.run (stripped line) = (.error .exit, s') →
      Takes c s ⟨line, s.reads (stripped line), written, none⟩ s' false

/-- The rounds of a session, whether they come to the end of the input, and the session then. -/
inductive Plays (c : Settings) : Session → List Round → Bool → Session → Prop
  | ended {s : Session} : s.machine.input = [] → Plays c s [] true (put (put s c.prompt) "\n")
  | stopped {s s₁ s' : Session} {r : Round} : Prompts c s r.line s₁ → Takes c s₁ r s' false → Plays c s [r] false s'
  | next {s s₁ s₂ s' : Session} {r : Round} {rounds : List Round} {finished : Bool} : Prompts c s r.line s₁ →
      Takes c s₁ r s₂ true → Plays c s₂ rounds finished s' → Plays c s (r :: rounds) finished s'

variable {c : Settings} {s s' : Session} {line : String} {r : Round} {rounds : List Round} {goesOn : Bool}

/-! ## What the rounds read -/

theorem prompts_of_ne_nil (h : s.machine.input ≠ []) : ∃ line s', Prompts c s line s' := ⟨_, _, h, rfl, rfl⟩

theorem Prompts.lines (h : Prompts c s line s') :
    Text.inputLines s.machine.input = line :: Text.inputLines s'.machine.input := by
  obtain ⟨hinput, rfl, rfl⟩ := h
  exact (Text.inputLines_takeLine hinput).1

theorem Prompts.registers {registry : List Value} (h : Prompts c s line s') (hs : s.machine.Registers registry) :
    s'.machine.Registers registry := by
  obtain ⟨-, -, rfl⟩ := h
  exact ⟨hs.length, hs.store⟩

theorem Takes.lines (h : Takes c s r s' goesOn) :
    Text.inputLines s.machine.input = r.reads ++ Text.inputLines s'.machine.input := by
  have hreads := s.reads_append (stripped r.line)
  cases h with
  | blank => rfl
  | value _ _ hrun _ | trouble _ _ _ hrun | overflow _ _ hrun =>
    rw [hrun] at hreads
    exact hreads

/-- The prompt and the runs of the lines it takes read the first lines of the input, in order. -/
theorem Plays.lines {finished : Bool} (h : Plays c s rounds finished s') :
    Text.inputLines s.machine.input =
      rounds.flatMap (fun r => r.line :: r.reads) ++ Text.inputLines s'.machine.input := by
  induction h with
  | ended => rfl
  | stopped hprompt htakes =>
    rw [hprompt.lines, htakes.lines]
    simp
  | next hprompt htakes _ ih =>
    rw [hprompt.lines, htakes.lines, ih]
    simp

theorem Plays.input_nil (h : Plays c s rounds true s') : s'.machine.input = [] := by
  generalize hfinished : true = finished at h
  induction h with
  | ended hinput => exact hinput
  | stopped => cases hfinished
  | next _ _ _ ih => exact ih hfinished

theorem Plays.length_le {finished : Bool} (h : Plays c s rounds finished s') :
    rounds.length ≤ (Text.inputLines s.machine.input).length := by
  induction h with
  | ended => exact Nat.zero_le _
  | stopped hprompt =>
    rw [hprompt.lines]
    exact Nat.succ_le_succ (Nat.zero_le _)
  | next hprompt htakes _ ih =>
    rw [hprompt.lines, htakes.lines]
    simp only [List.length_cons, List.length_append]
    omega

/-- A run that ends the program has overflowed the stack. -/
theorem overflowed_of_exit {source : String} (h : s.run source = (.error .exit, s')) :
    ∃ before p, s'.machine.reporter.diagnostics = Array.push before ⟨.fatal, p, "Stack overflow", source⟩ := by
  have hany : s.machine.store.Uses fun _ => True := fun _ _ b _ => b.2.uses_any
  obtain ⟨-, w, hw⟩ := s.run_verdict True hany (fun _ _ v => v.uses_any) (fun _ _ => trivial) source
  rw [h] at hw
  obtain rfl := Session.Verdict.eq_of_describes hw
  obtain ⟨-, before, p, hreported, -⟩ := hw
  exact ⟨before, p, hreported⟩

theorem Plays.overflowed (h : Plays c s rounds false s') :
    ∃ before p r, rounds.getLast? = some r ∧
      s'.machine.reporter.diagnostics = Array.push before ⟨.fatal, p, "Stack overflow", stripped r.line⟩ := by
  generalize hfinished : false = finished at h
  induction h with
  | ended => cases hfinished
  | stopped _ htakes =>
    cases htakes with
    | overflow _ _ hrun =>
      obtain ⟨before, p, hreported⟩ := overflowed_of_exit hrun
      exact ⟨before, p, _, rfl, hreported⟩
  | next _ _ _ ih =>
    obtain ⟨before, p, r, hlast, hreported⟩ := ih hfinished
    refine ⟨before, p, r, ?_, hreported⟩
    rw [List.getLast?_cons, hlast]
    rfl

/-! ## What the rounds write -/

theorem Takes.entries (h : Takes c s r s' goesOn) :
    s'.machine.reporter.transcript.toList = s.machine.reporter.transcript.toList ++ r.written ++
      (r.value.map fun text => .output (valueLine c.color text)).toList := by
  cases h with
  | blank => simp
  | value _ hwritten hrun _ =>
    rw [Writes, hrun] at hwritten
    show (Array.push _ _).toList = _
    rw [Array.toList_push, hwritten]
    rfl
  | trouble _ hwritten _ hrun | overflow _ hwritten hrun =>
    rw [Writes, hrun] at hwritten
    rw [hwritten]
    simp

theorem Prompts.entries (h : Prompts c s line s') :
    s'.machine.reporter.transcript.toList = s.machine.reporter.transcript.toList ++ [.output c.prompt] := by
  obtain ⟨-, -, rfl⟩ := h
  exact Array.toList_push

/-- What is written is what the rounds write, and a last prompt and a line feed at the end of the input. -/
theorem Plays.entries {finished : Bool} (h : Plays c s rounds finished s') :
    s'.machine.reporter.transcript.toList = s.machine.reporter.transcript.toList ++ rounds.flatMap (·.entries c) ++
      (if finished then [.output c.prompt, .output "\n"] else []) := by
  induction h with
  | ended =>
    show (Array.push (Array.push _ _) _).toList = _
    rw [Array.toList_push, Array.toList_push]
    simp
  | stopped hprompt htakes =>
    rw [htakes.entries, hprompt.entries]
    simp [Round.entries]
  | next hprompt htakes _ ih =>
    rw [ih, htakes.entries, hprompt.entries]
    simp [Round.entries]

theorem outputText_append (a b : List Entry) : outputText (a ++ b) = outputText a ++ outputText b := by
  unfold outputText
  rw [List.filterMap_append, String.join_append]

theorem outputText_output (text : String) : outputText [.output text] = text := by
  show String.join [text] = text
  rw [String.join_cons, String.join_nil, String.append_empty]

theorem Round.outputText_entries (r : Round) : outputText (r.entries c) = r.output c := by
  show outputText ([.output c.prompt] ++ r.written ++ _) = _
  rw [outputText_append, outputText_append, outputText_output]
  unfold Round.output
  cases r.value with
  | none => rfl
  | some text => exact congrArg (c.prompt ++ outputText r.written ++ ·) (outputText_output _)

theorem outputText_rounds (rounds : List Round) :
    outputText (rounds.flatMap (·.entries c)) = String.join (rounds.map (·.output c)) := by
  induction rounds with
  | nil => rfl
  | cons r rounds ih =>
    rw [List.flatMap_cons, outputText_append, r.outputText_entries, ih, List.map_cons, String.join_cons]

theorem outputText_end (c : Settings) (finished : Bool) :
    outputText (if finished then [.output c.prompt, .output "\n"] else []) =
      if finished then c.prompt ++ "\n" else "" := by
  cases finished with
  | false => rfl
  | true =>
    refine (outputText_append [.output c.prompt] [.output "\n"]).trans ?_
    rw [outputText_output, outputText_output]
    rfl

theorem output_eq (t : Transcript) : t.output true = outputText t.toList := by
  unfold Transcript.output outputText
  refine congrArg String.join (List.filterMap_congr fun entry _ => ?_)
  cases entry with
  | output text => rfl
  | errorOutput text => rfl
  | log level source message => rfl

/-! ## The loop -/

theorem write_eq (s : Session) (text : String) : write s text = put s text := rfl

theorem shown_eq (c : Settings) (text : String) : shown c text = valueLine c.color text := by
  have hstart : toString Text.escapeMark ++ "[" ++ toString (Text.Style.code .grey) ++ "m" = "\x1b[90m" := by decide
  have hreset : toString Text.escapeMark ++ "[0m" = "\x1b[0m" := by decide
  have hgrey : ∀ line, Text.Style.grey.apply line = "\x1b[90m" ++ line ++ "\x1b[0m" := by
    intro line
    rw [← hstart, ← hreset, ← String.append_assoc]
    rfl
  unfold shown valueLine
  cases c.color with
  | true =>
    calc Text.Style.grey.apply ("=> " ++ text) ++ "\n"
        = "\x1b[90m" ++ ("=> " ++ text) ++ "\x1b[0m" ++ "\n" := by rw [hgrey]
      _ = "\x1b[90m" ++ "=> " ++ text ++ ("\x1b[0m" ++ "\n") := by simp only [String.append_assoc]
      _ = "\x1b[90m=> " ++ text ++ "\x1b[0m\n" := rfl
  | false => rfl

theorem Takes.turn_eq (h : Takes c s r s' goesOn) :
    turn c s r.line = if goesOn then .next s' else .over s' := by
  unfold turn
  cases hstrip : Text.strip r.line.toList with
  | nil =>
    cases h with
    | blank => rfl
    | value htext | trouble htext | overflow htext => exact (htext hstrip).elim
  | cons ch chs =>
    have hstripped : String.ofList (ch :: chs) = stripped r.line := by rw [stripped, hstrip]
    dsimp only
    rw [hstripped]
    cases h with
    | blank hblank =>
      rw [hblank] at hstrip
      cases hstrip
    | value _ _ hrun hrender =>
      rw [hrun]
      simp only [showValue, hrender, write_eq, shown_eq, if_true]
    | @trouble _ _ t _ _ _ ht hrun =>
      rw [hrun]
      cases t with
      | exit => exact (ht rfl).elim
      | lexical | grammar | fault | crash => rfl
    | overflow _ _ hrun =>
      rw [hrun]
      rfl

/-- A line goes one of the ways there are. Registered values can be shown, and those of the session still are. -/
theorem exists_takes {registry : List Value} (hs : s.machine.Registers registry) (c : Settings) (line : String) :
    ∃ r s' goesOn, r.line = line ∧ Takes c s r s' goesOn ∧ ∃ later, s'.machine.Registers later := by
  by_cases htext : Text.strip line.toList = []
  · exact ⟨_, s, true, rfl, .blank htext, registry, hs⟩
  · obtain ⟨later, -, hlater, hvalue⟩ := s.run_registers hs (stripped line)
    obtain ⟨written, hwritten⟩ := s.prefix_transcript_run (stripped line)
    have hwrites : Writes s (stripped line) written := hwritten.symm
    rcases hrun : s.run (stripped line) with ⟨outcome, s'⟩
    rw [hrun] at hlater hvalue
    cases outcome with
    | ok v =>
      obtain ⟨text, hrender⟩ := Value.exists_render (hvalue v rfl)
      exact ⟨_, _, true, rfl, .value htext hwrites hrun hrender, later, hlater.length, hlater.store⟩
    | error t =>
      by_cases ht : t = .exit
      · subst ht
        exact ⟨_, s', false, rfl, .overflow htext hwrites hrun, later, hlater⟩
      · exact ⟨_, s', true, rfl, .trouble htext hwrites ht hrun, later, hlater⟩

theorem runLines_of_nil (fuel : Nat) (h : s.machine.input = []) :
    runLines c (fuel + 1) s = (true, put (put s c.prompt) "\n") := by
  rw [runLines, Machine.readLine_of_nil (m := (write s c.prompt).machine) h]
  rfl

theorem runLines_of_takes {s₁ : Session} (fuel : Nat) (hprompt : Prompts c s r.line s₁)
    (htakes : Takes c s₁ r s' goesOn) :
    runLines c (fuel + 1) s = if goesOn then runLines c fuel s' else (false, s') := by
  obtain ⟨hinput, hline, rfl⟩ := hprompt
  have hread := Machine.readLine_of_ne_nil (m := (write s c.prompt).machine) hinput
  have hturn : turn c ⟨s.host, { (write s c.prompt).machine with input := (Text.takeLine s.machine.input).2 }⟩
      (Text.lineText (Text.takeLine s.machine.input).1) = if goesOn then .next s' else .over s' :=
    hline ▸ htakes.turn_eq
  rw [runLines, hread]
  dsimp only
  rw [show (write s c.prompt).machine.input = s.machine.input from rfl, show (write s c.prompt).host = s.host from rfl,
    hturn]
  cases goesOn with
  | true => rfl
  | false => rfl

/-- The loop plays out rounds, if it has more fuel than there are lines. -/
theorem runLines_plays (c : Settings) {fuel : Nat} {s : Session} {registry : List Value}
    (hs : s.machine.Registers registry) (hfuel : (Text.inputLines s.machine.input).length < fuel) :
    ∃ rounds, Plays c s rounds (runLines c fuel s).1 (runLines c fuel s).2 := by
  induction fuel generalizing s registry with
  | zero => exact (Nat.not_lt_zero _ hfuel).elim
  | succ fuel ih =>
    by_cases hinput : s.machine.input = []
    · rw [runLines_of_nil fuel hinput]
      exact ⟨[], .ended hinput⟩
    · obtain ⟨line, s₁, hprompt⟩ := prompts_of_ne_nil (c := c) hinput
      obtain ⟨r, s₂, goesOn, rfl, htakes, later, hlater⟩ := exists_takes (hprompt.registers hs) c line
      rw [runLines_of_takes fuel hprompt htakes]
      cases goesOn with
      | false => exact ⟨[r], .stopped hprompt htakes⟩
      | true =>
        have hless : (Text.inputLines s₂.machine.input).length < fuel := by
          rw [hprompt.lines, htakes.lines, List.length_cons, List.length_append] at hfuel
          omega
        obtain ⟨rounds, hplays⟩ := ih hlater hless
        exact ⟨r :: rounds, .next hprompt htakes hplays⟩

theorem run_plays (c : Settings) (input : List Char) :
    ∃ rounds finished s', run c (.ofSettings c none input) = (finished, s') ∧
      Plays c (.ofSettings c none input) rounds finished s' := by
  obtain ⟨registry, hs⟩ := Session.ofSettings_registers c none input
  obtain ⟨rounds, hplays⟩ := runLines_plays c hs (Nat.lt_succ_of_le (Text.length_inputLines_le _))
  exact ⟨rounds, _, _, rfl, hplays⟩

theorem runRepl_eq {call : CommandLine.Call} {finished : Bool} (hstack : c.stackCrash? = none)
    (h : run c (.ofSettings c none (Text.joinNewlines call.input.toList)) = (finished, s')) :
    ∃ a, CommandLine.runRepl c call [] = .ok a ∧ a.exitCode = (if finished then 0 else 1) ∧
      a.transcript = s'.machine.reporter.transcript := by
  have hopen : CommandLine.openSession c none call.input =
      .ok (.ofSettings c none (Text.joinNewlines call.input.toList)) := by
    rw [CommandLine.openSession, hstack]
  obtain ⟨a, hbare⟩ : ∃ a, CommandLine.readBare .repl [] = .ok a := ⟨_, rfl⟩
  have hrun : CommandLine.runRepl c call [] = .ok (.ofSession (if finished then 0 else 1) s') := by
    rw [CommandLine.runRepl, hbare, hopen]
    show Except.ok (CommandLine.Answer.ofSession (if (run c _).1 then 0 else 1) (run c _).2) = _
    rw [h]
  exact ⟨_, hrun, rfl, rfl⟩

/-- The prompt loop plays out rounds, and ends at the end of the input, or with the first run that overflows the stack.
The lines that the prompt takes and those that `read` gives in the runs are the lines of the input in order, up to where
the loop ends. What `read` gives is what it is noted to have given, in an evaluation that else is the same. In each
round the prompt is written, what the run writes, and the value, if there is one; a last prompt and a line feed at the
end of the input. This is all of the answer, which is a success at the end of the input and a failure at an overflow. -/
theorem reads_each_line_once (c : Settings) (call : CommandLine.Call) :
    let s := Session.ofSettings c none (Text.joinNewlines call.input.toList)
    let lines := Text.inputLines (Text.joinNewlines call.input.toList)
    ∃ rounds finished s', run c s = (finished, s') ∧ Plays c s rounds finished s' ∧
      lines = rounds.flatMap (fun r => r.line :: r.reads) ++ Text.inputLines s'.machine.input ∧
      (finished = true → s'.machine.input = []) ∧
      (finished = false → ∃ before p r, rounds.getLast? = some r ∧
        s'.machine.reporter.diagnostics = Array.push before ⟨.fatal, p, "Stack overflow", stripped r.line⟩) ∧
      rounds.length + (if finished then 1 else 0) ≤ lines.length + 1 ∧
      (c.stackCrash? = none → ∃ a, CommandLine.runRepl c call [] = .ok a ∧ a.exitCode = (if finished then 0 else 1) ∧
        a.transcript.toList = .log .debug "zy.builtins" "Installed 47 builtins" :: rounds.flatMap (·.entries c) ++
          (if finished then [.output c.prompt, .output "\n"] else []) ∧
        a.output true = String.join (rounds.map (·.output c)) ++ (if finished then c.prompt ++ "\n" else "")) ∧
      ∀ (s : Session) (source : String) (program : Expr), s.evaluation source program =
        Noted.erase (s.begun source program).reporter.transcript.toList (s.noted source program) := by
  intro s lines
  obtain ⟨rounds, finished, s', hrun, hplays⟩ := run_plays c (Text.joinNewlines call.input.toList)
  have hlines : Text.inputLines s.machine.input = lines := by rw [Session.ofSettings_input]
  refine ⟨rounds, finished, s', hrun, hplays, ?_, ?_, ?_, ?_, ?_, Session.evaluation_eq_erase⟩
  · rw [← hlines, hplays.lines]
  · rintro rfl
    exact hplays.input_nil
  · rintro rfl
    exact hplays.overflowed
  · have hle := hplays.length_le
    rw [hlines] at hle
    split <;> omega
  · intro hstack
    obtain ⟨a, hanswer, hcode, htranscript⟩ := runRepl_eq hstack hrun
    have hentries : a.transcript.toList =
        .log .debug "zy.builtins" "Installed 47 builtins" :: rounds.flatMap (·.entries c) ++
          (if finished then [.output c.prompt, .output "\n"] else []) := by
      rw [htranscript, hplays.entries, Session.ofSettings_transcript]
      rfl
    have hlog : outputText [.log .debug "zy.builtins" "Installed 47 builtins"] = "" := rfl
    refine ⟨a, hanswer, hcode, hentries, ?_⟩
    rw [CommandLine.Answer.output, output_eq, hentries, outputText_append, ← List.singleton_append, outputText_append,
      outputText_rounds, outputText_end, hlog, String.empty_append]

/-- The second line is read by the run of the first, the fourth cannot be parsed, and the loop reads on to the end. A
run that goes too deep ends it before the next line is read. -/
theorem reads_each_line_once_shared :
    let call : CommandLine.Call := { words := ["repl"], input := "read()\nhello\n\n1 +\n2" }
    let deep : CommandLine.Call := { words := ["repl"], input := "1 + (2 + 3)\n4" }
    (∃ (rounds : List Round) (a : CommandLine.Answer), CommandLine.runRepl { color := false } call [] = .ok a ∧
      rounds.flatMap (fun r => r.line :: r.reads) = ["read()", "hello", "", "1 +", "2"] ∧ rounds.length ≤ 5 ∧
      a.exitCode = 0 ∧ String.join (rounds.map (·.output { color := false })) ++ "zy => \n" = a.output true ∧
      a.output true = "zy => => hello\nzy => " ++
        "zy => fatal error (1, 4): Expected an expression but got end of input\n1 +\n   ^\n" ++
        "zy => => 2\nzy => \n") ∧
    ∃ (rounds : List Round) (a : CommandLine.Answer),
      CommandLine.runRepl { maxDepth := 2, color := false } deep [] = .ok a ∧ a.exitCode = 1 ∧
      String.join (rounds.map (·.output { maxDepth := 2, color := false })) = a.output true ∧
      a.output true = "zy => fatal error (1, 6): Stack overflow\n1 + (2 + 3)\n     ^\n" := by
  intro call deep
  constructor
  · have hfinished : (run { color := false }
        (Session.ofSettings { color := false } none (Text.joinNewlines call.input.toList))).1 = true := by
      decide +kernel
    have htext : (CommandLine.settled (CommandLine.runRepl { color := false } call [])).output true =
        "zy => => hello\nzy => " ++
          "zy => fatal error (1, 4): Expected an expression but got end of input\n1 +\n   ^\n" ++
          "zy => => 2\nzy => \n" := by decide +kernel
    have hread : Text.inputLines (Text.joinNewlines call.input.toList) = ["read()", "hello", "", "1 +", "2"] := by
      decide +kernel
    obtain ⟨rounds, finished, s', hrun, -, hlines, hend, -, hcount, hanswer, -⟩ :=
      reads_each_line_once { color := false } call
    rw [hrun] at hfinished
    obtain rfl : finished = true := hfinished
    obtain ⟨a, ha, hcode, -, houtput⟩ := hanswer (by decide)
    rw [ha] at htext
    rw [hend rfl, Text.inputLines_nil, List.append_nil, hread] at hlines
    rw [hread] at hcount
    exact ⟨rounds, a, ha, hlines.symm, Nat.le_of_succ_le_succ hcount, hcode, houtput.symm, htext⟩
  · have hfinished : (run { maxDepth := 2, color := false } (Session.ofSettings { maxDepth := 2, color := false } none
        (Text.joinNewlines deep.input.toList))).1 = false := by decide +kernel
    have htext : (CommandLine.settled (CommandLine.runRepl { maxDepth := 2, color := false } deep [])).output true =
        "zy => fatal error (1, 6): Stack overflow\n1 + (2 + 3)\n     ^\n" := by decide +kernel
    obtain ⟨rounds, finished, s', hrun, -, -, -, -, -, hanswer, -⟩ :=
      reads_each_line_once { maxDepth := 2, color := false } deep
    rw [hrun] at hfinished
    obtain rfl : finished = false := hfinished
    obtain ⟨a, ha, hcode, -, houtput⟩ := hanswer (by decide)
    rw [ha] at htext
    exact ⟨rounds, a, ha, hcode, (String.append_empty ▸ houtput).symm, htext⟩

end Repl

end Curried
