/-
  Curried.Proofs.Crashes — what the library does not let out.

  A crash is settled as an internal error, and the texts of all other errors begin differently (`isPlain_message`). The
  library checks what it gives to operations that may crash, so the only crashes there are come from the compiler of
  regexes. An internal error that a session reports is then what the compiler makes of a pattern that the run gives it:
  were this pattern refused, its refusal would be reported in place of the crash (`exists_culprit`). As long as the
  compiler crashes in one way only, there is only one such error (`builtins_contained`).
-/

import Curried.Proofs.Compilers

namespace Curried

open Library

/-! ## Texts of errors -/

def internalMark : List Char := "Internal error".toList

/-- A text that is not the beginning of an internal error's text, nor begins like one. -/
def IsPlain (s : String) : Prop := ¬ s.toList <+: internalMark ∧ ¬ internalMark <+: s.toList

instance : DecidablePred IsPlain := fun s =>
  inferInstanceAs (Decidable (¬ s.toList <+: internalMark ∧ ¬ internalMark <+: s.toList))

theorem IsPlain.append {s : String} (h : IsPlain s) (t : String) : IsPlain (s ++ t) := by
  have hs : s.toList <+: (s ++ t).toList := by
    rw [String.toList_append]
    exact List.prefix_append _ _
  refine ⟨fun hmark => h.1 (hs.trans hmark), fun hmark => ?_⟩
  rcases List.prefix_or_prefix_of_prefix hs hmark with hle | hge
  · exact h.1 hle
  · exact h.2 hge

theorem IsPlain.append₂ {s : String} (h : IsPlain s) (t u : String) : IsPlain (s ++ t ++ u) := (h.append t).append u

theorem isPlain_of_mem_names : ∀ name ∈ Catalogue.standard.names, IsPlain name := by decide

theorem isPlain_of_isRegistered {name : String} (h : Catalogue.standard.isRegistered name = true) : IsPlain name := by
  obtain ⟨d, hd, hname⟩ := List.any_eq_true.mp h
  rw [beq_iff_eq] at hname
  exact isPlain_of_mem_names name (List.mem_map.mpr ⟨d, hd, hname⟩)

/-- The text of an error begins with words of its own, or with the name of a builtin. -/
theorem isPlain_message {r : Reason} (h : r.isOrdinary = true) : IsPlain r.message := by
  cases r with
  | undefinedVariable | unknownOperator | unknownUnaryOperator | unknownForm | crashed | raised => cases h
  | notAFunction | extraneousArgument | invalidTarget | headOfEmpty | reduceOfEmpty => decide
  | mismatch f => exact ((isPlain_of_isRegistered h).append₂ _ _).append₂ _ _
  | notWhole f | negativeCount f => exact (isPlain_of_isRegistered h).append₂ _ _
  | unsupported | invalidRegex => exact IsPlain.append (by decide) _
  | notNumeric | unsortable => exact IsPlain.append₂ (by decide) _ _
  | indexOutOfRange => exact (IsPlain.append₂ (by decide) _ _).append _
  | operatorNotFunction => exact (IsPlain.append₂ (by decide) _ _).append₂ _ _
  | sliceOutOfBounds => exact ((IsPlain.append₂ (by decide) _ _).append₂ _ _).append _
  | invalidReplacement e =>
    cases e with
    | noGroupNamed => exact IsPlain.append₂ (by decide) _ _
    | noGroup => exact IsPlain.append (by decide) _
    | trailingBackslash | unclosedName | badReference => decide

theorem isPlain_lexical (e : LexError) : IsPlain e.issue.message :=
  IsPlain.append₂ (by decide) _ _

theorem isPlain_wanted (w : Wanted) (h : w ≠ .nothing) : IsPlain w.text := by
  cases w with
  | nothing => exact absurd rfl h
  | _ => decide

theorem isPlain_grammar (e : ParseError) : IsPlain e.issue.message := by
  show IsPlain e.message
  unfold ParseError.message
  split
  · exact IsPlain.append (by decide) _
  · exact (isPlain_wanted _ ‹_›).append₂ _ _

theorem isPlain_overflow : IsPlain "Stack overflow" := by decide

/-! ## Runs -/

/-- Not a function that the host adds, nor a value that only the host knows. -/
def Value.isOfLanguage : Value → Bool
  | .native _ _ _ code _ => code.isStandard
  | .foreign _ => false
  | _ => true

abbrev Store.IsOfLanguage (s : Store) : Prop := s.Each fun v => v.isOfLanguage = true

abbrev Value.IsOfLanguage (v : Value) : Prop := v.Each fun u => u.isOfLanguage = true

/-- What the text of an error may be: plain, or that of a crash of the compiler. -/
def IsExcused (compile : Regex.Compiler) (message : String) : Prop :=
  IsPlain message ∨ ∃ pattern c, compile.Crashes pattern c ∧ message = (Reason.crashed c).message

/-- What is said of a source that the compiler fails on. -/
theorem isExcused_reasonOf {compile : Regex.Compiler} {source : String} {x : Regex.Failure}
    (h : compile source = .error x) : IsExcused compile (Library.reasonOf source x).message := by
  cases x with
  | refused e => exact Or.inl (isPlain_message (r := .invalidRegex e source) rfl)
  | countTooLarge | tooManyDigits | clashingFlags => exact Or.inr ⟨source, _, ⟨_, h, rfl⟩, rfl⟩

namespace Crashes

def invariant (T : String → Prop) : Invariant where
  value _ v := v.isOfLanguage = true
  program _ _ _ := True
  machine m := ∀ d ∈ m.reporter.diagnostics, T d.message
  fault f := T f.reason.message

theorem machine_report {T : String → Prop} {m : Machine} (hm : (invariant T).machine m) (h : Host) {d : Diagnostic}
    (hd : T d.message) : (invariant T).machine (m.report h d) := by
  intro x hx
  rcases Array.mem_push.mp hx with hx | rfl
  · exact hm x hx
  · exact hd

theorem invariant_laws {T : String → Prop} {h : Host} (hT : ∀ message, IsExcused h.compile message → T message) :
    (invariant T).Laws h where
  values _ hv := hv
  programs _ he := he
  parts _ _ _ := trivial
  make _ _ := rfl
  enter _ _ _ := trivial
  curry _ _ := rfl
  collect hn _ := hn
  fresh hm := hm
  declare _ _ hm := hm
  rebind _ hm := hm
  entered _ hm := by
    rw [Machine.entered_eq]
    exact hm
  write hm := hm
  input hm := hm
  atDepth hm := hm
  log _ hm := hm
  report {_ _ _ _ m} _ hf hm := machine_report (m := { m with hadError := true }) hm h hf
  overflow _ hm := machine_report hm h (hT _ (Or.inl isPlain_overflow))
  ordinary _ hr := hT _ (Or.inl (isPlain_message hr))
  missing _ _ _ := hT _ (Or.inl (IsPlain.append (by decide) _))
  unknown {_ e _ r} _ hr := by
    refine hT _ (Or.inl ?_)
    unfold Expr.unknown? at hr
    split at hr <;> cases hr <;> exact IsPlain.append (by decide) _
  refused hc := hT _ (isExcused_reasonOf hc)
  blame _ hf := hf
  extension hn _ := absurd hn nofun

end Crashes

namespace Session

open Crashes

/-- A run reports errors that are excused, and leaves values of the language. -/
theorem run_excused {s : Session} (hs : s.machine.store.IsOfLanguage) (source : String) :
    (invariant (IsExcused s.host.compile)).Holds (s.run source).2.machine := by
  have hstart : ∀ d ∈ (s.start source).machine.reporter.diagnostics, IsExcused s.host.compile d.message := by
    intro d hd
    simp [start, Machine.clearReports, Reporter.clear] at hd
  have hone : ∀ {d : Diagnostic}, IsPlain d.message →
      ∀ x ∈ (s.start source).machine.reporter.diagnostics.push d, IsExcused s.host.compile x.message := by
    intro d hd x hx
    rcases Array.mem_push.mp hx with hx | rfl
    · exact hstart x hx
    · exact Or.inl hd
  cases h : parseWithin s.host.maxNesting source with
  | ok program => exact (Invariant.run_ended (invariant_laws fun _ => id) id h trivial ⟨hs, hstart⟩).1
  | error x =>
    cases x with
    | lexical e =>
      rw [run_lexical h]
      exact ⟨hs, hone (isPlain_lexical e)⟩
    | grammar e =>
      rw [run_grammar h]
      exact ⟨hs, hone (isPlain_grammar e)⟩
    | nesting p =>
      rw [run_nesting h]
      exact ⟨hs, hone isPlain_overflow⟩

theorem runs_ofLanguage {s : Session} (hs : s.machine.store.IsOfLanguage)
    (sources : List String) : (s.runs sources).machine.store.IsOfLanguage := by
  induction sources generalizing s with
  | nil => exact hs
  | cons source sources ih => exact ih (run_excused hs source).store

end Session

/-! ## The pattern of a crash -/

theorem not_isPlain_crashed (c : Crash) : ¬IsPlain (Reason.crashed c).message := by
  have hmark : internalMark <+: "Internal error: ".toList := by decide
  refine fun h => h.2 ?_
  show internalMark <+: ("Internal error: " ++ c.kind ++ ": " ++ c.text).toList
  rw [String.toList_append, String.toList_append, String.toList_append, List.append_assoc, List.append_assoc]
  exact hmark.trans (List.prefix_append _ _)

theorem crashed_of_not_isPlain {source : String} {x : Regex.Failure}
    (h : ¬IsPlain (Library.reasonOf source x).message) : ∃ c, Library.reasonOf source x = .crashed c := by
  cases x with
  | refused e => exact absurd (isPlain_message (r := .invalidRegex e source) rfl) h
  | countTooLarge | tooManyDigits | clashingFlags => exact ⟨_, rfl⟩

theorem naming_inj {source source' : String}
    (h : (Reason.invalidRegex (.naming source) source).message =
      (Reason.invalidRegex (.naming source') source').message) :
    source = source' := by
  have hlists : ("Invalid regex: " ++ ("bad escape " ++ source)).toList =
      ("Invalid regex: " ++ ("bad escape " ++ source')).toList := congrArg String.toList h
  rw [String.toList_append, String.toList_append, String.toList_append, String.toList_append] at hlists
  exact String.toList_injective (List.append_cancel_left (List.append_cancel_left hlists))

/-- A run that crashed on a pattern does not go on as before if that one is refused: it would have met, and named,
another pattern before. -/
theorem not_reportAlike {compile : Regex.Compiler} {pattern : String} {c : Crash} {e : Regex.Error}
    {before : Array Diagnostic} {d : Diagnostic} (hd : d.message = (Reason.crashed c).message) :
    ¬Compilers.ReportAlike compile.calm (compile.refusing pattern e)
      (before.push { d with message := (Reason.invalidRegex (.naming pattern) pattern).message }) (before.push d) := by
  have hrefused : ∀ e source, (Reason.invalidRegex e source).message ≠ d.message := by
    intro e source h
    exact not_isPlain_crashed c (hd ▸ h ▸ isPlain_message rfl)
  rintro (heq | ⟨before', position, text, q, y, y', hy, hy', h, h'⟩)
  · exact hrefused _ _ (congrArg Diagnostic.message (Array.push_eq_push.mp heq).1)
  · have hnamed := congrArg Diagnostic.message (Array.push_eq_push.mp h).1
    have hcrashed := congrArg Diagnostic.message (Array.push_eq_push.mp h').1
    dsimp only at hnamed hcrashed
    by_cases hq : q = pattern
    · subst hq
      cases (Regex.Compiler.refusing_self e).symm.trans hy'
      exact hrefused _ _ hcrashed.symm
    · rw [Regex.Compiler.refusing_of_ne e hq] at hy'
      have hmarked : ¬IsPlain (Library.reasonOf q y').message := by
        rw [← hcrashed, hd]
        exact not_isPlain_crashed c
      obtain ⟨c', hc'⟩ := crashed_of_not_isPlain hmarked
      cases (Regex.Compiler.calm_of_crashes hy' hc').symm.trans hy
      exact hq (naming_inj hnamed.symm)

namespace Session

variable {s : Session} {source : String} {d : Diagnostic}

/-- With a compiler that does not crash, and refuses by name what the other one crashes on. -/
theorem run_calm (hs : s.machine.store.IsOfLanguage) (source : String) :
    ∀ d ∈ ((s.compiling s.host.compile.calm).run source).2.machine.reporter.diagnostics, IsPlain d.message := by
  intro d hd
  rcases (run_excused (s := s.compiling s.host.compile.calm) hs source).machine d hd with hplain | ⟨_, _, hcrash, -⟩
  · exact hplain
  · exact absurd hcrash Regex.Compiler.not_crashes_calm

/-- The compiler then refuses one of the patterns, and names it. -/
theorem run_calm_names (hs : s.machine.store.IsOfLanguage)
    (hd : d ∈ (s.run source).2.machine.reporter.diagnostics) (hmark : internalMark <+: d.message.toList) :
    ∃ (before : Array Diagnostic) (pattern : String) (x : Regex.Failure) (c : Crash),
      s.host.compile pattern = .error x ∧ Library.reasonOf pattern x = .crashed c ∧
      d.message = (Reason.crashed c).message ∧ (s.run source).2.machine.reporter.diagnostics = before.push d ∧
      ((s.compiling s.host.compile.calm).run source).2.machine.reporter.diagnostics =
        before.push { d with message := (Reason.invalidRegex (.naming pattern) pattern).message } := by
  have hcalm := run_calm hs source
  rcases s.run_compiling Regex.Compiler.agree_calm source with
    heq | ⟨before, position, text, pattern, x, x', hx, hx', h, h'⟩
  · exact absurd hmark (hcalm d (heq ▸ hd)).2
  · rw [h] at hd
    rw [h'] at hcalm
    rcases Array.mem_push.mp hd with hbefore | rfl
    · exact absurd hmark (hcalm d (Array.mem_push_of_mem _ hbefore)).2
    · obtain ⟨c, hc⟩ := crashed_of_not_isPlain fun hplain => hplain.2 hmark
      cases (Regex.Compiler.calm_of_crashes hx hc).symm.trans hx'
      exact ⟨before, pattern, x, c, hx, hc, congrArg Reason.message hc, h, h'⟩

/-- An internal error is what the compiler makes of a pattern that the run gives it: if the pattern is refused, the run
reports that instead. -/
theorem exists_culprit (hs : s.machine.store.IsOfLanguage)
    (hd : d ∈ (s.run source).2.machine.reporter.diagnostics) (hmark : internalMark <+: d.message.toList) :
    ∃ pattern c, s.host.compile.Crashes pattern c ∧ d.message = (Reason.crashed c).message ∧
      ∀ e, { d with message := (Reason.invalidRegex e pattern).message } ∈
        ((s.compiling (s.host.compile.refusing pattern e)).run source).2.machine.reporter.diagnostics := by
  obtain ⟨before, pattern, x, c, hx, hc, hmessage, hreports, hcalm⟩ := run_calm_names hs hd hmark
  refine ⟨pattern, c, ⟨x, hx, hc⟩, hmessage, fun e => ?_⟩
  have hagree := Regex.Compiler.agree_refusing hx e
  have hdiffer : ((s.compiling (s.host.compile.refusing pattern e)).run source).2.machine.reporter.diagnostics ≠
      before.push d := by
    intro hsame
    have hboth := (s.compiling s.host.compile.calm).run_compiling (Regex.Compiler.agree_calm.symm.trans hagree) source
    rw [hcalm] at hboth
    exact not_reportAlike hmessage (hsame ▸ hboth)
  rcases s.run_compiling hagree source with heq | ⟨before', position, text, q, y, y', hy, hy', h, h'⟩
  · exact absurd (heq.symm.trans hreports) hdiffer
  · obtain ⟨rfl, rfl⟩ := Array.push_eq_push.mp (hreports.symm.trans h)
    by_cases hq : q = pattern
    · subst hq
      cases (Regex.Compiler.refusing_self e).symm.trans hy'
      rw [h']
      exact Array.mem_push_self
    · rw [Regex.Compiler.refusing_of_ne e hq] at hy'
      cases hy.symm.trans hy'
      exact absurd h' hdiffer

end Session

/-! ## The library -/

theorem Catalogue.standard_code : ∀ d ∈ Catalogue.standard.definitions,
    d.parameters ≠ [] ∧ ∃ b, d.code = .standard b := by
  intro d hd
  refine ⟨?_, ?_⟩
  · revert d
    decide
  · have hcode := Catalogue.standard_isStandard d hd
    cases hc : d.code with
    | standard b => exact ⟨b, rfl⟩
    | extension key => rw [hc] at hcode; cases hcode

/-- A function of the library that is given values of the language returns one. -/
theorem Library.applyAll_ofLanguage {d : Definition} (hd : d ∈ Catalogue.standard.definitions) {args : List Value}
    (hargs : ∀ v ∈ args, v.IsOfLanguage) {m : Machine}
    (hm : m.store.IsOfLanguage) (h : Host) (k id : Nat) {v : Value} {m' : Machine}
    (hrun : applyAll (apply h k) (d.toValue id) args m = .ok v m') : v.IsOfLanguage := by
  have hlaws := Crashes.invariant_laws (T := fun _ => True) (h := h) fun _ _ => trivial
  have hf : (d.toValue id).IsOfLanguage :=
    Value.each_native.mpr ⟨Catalogue.standard_isStandard d hd, List.forall_mem_nil _⟩
  have hended := Invariant.applyAll_ended hlaws k hf hargs ⟨hm, fun _ _ => trivial⟩
  rw [hrun] at hended
  exact hended.2.1

/-- Given all its arguments, a function of the library ends in a value of the language, in a fault of its own, or as one
of the functions ended that it has applied; but `regex` crashes where the compiler does. So an internal error that a
session reports is a crash of the compiler on a pattern of the run: if this pattern is refused for any reason, the run
reports that in the same place. A compiler that only refuses sources, or cannot count their repetitions, crashes in one
way, and there is no other internal error then. -/
theorem builtins_contained :
    (∀ d ∈ Catalogue.standard.definitions, ∀ args : List Value, args.length = d.parameters.length →
      ∀ (h : Host) (k id : Nat) (m : Machine), ∃ b, d.code = .standard b ∧
        Completes h.compile (apply h k) b args (collecting m (args.length - 1))
          (applyAll (apply h (k + 1)) (d.toValue id) args m) ∧
        (m.store.IsOfLanguage → (∀ v ∈ args, v.IsOfLanguage) →
          ∀ v m', applyAll (apply h (k + 1)) (d.toValue id) args m = .ok v m' → v.IsOfLanguage)) ∧
    (∀ (c : Settings) (args : Option (List String)) (input : List Char) (compile : Regex.Compiler)
      (earlier : List String) (source : String),
      let s := ((Session.ofSettings c args input).compiling compile).runs earlier
      ∀ d ∈ (s.run source).2.machine.reporter.diagnostics, internalMark <+: d.message.toList →
        (∃ pattern crash, compile.Crashes pattern crash ∧ d.message = (Reason.crashed crash).message ∧
          ∀ e, { d with message := (Reason.invalidRegex e pattern).message } ∈
            ((s.compiling (compile.refusing pattern e)).run source).2.machine.reporter.diagnostics) ∧
        (compile.IsOrderly → d.message = "Internal error: OverflowError: the repetition number is too large")) ∧
    ∀ (compile : Regex.Compiler) (pattern : String) (crash : Crash), compile.IsOrderly →
      compile.Crashes pattern crash → crash = Regex.countOverflow := by
  refine ⟨?_, ?_, ?_⟩
  · intro d hd args harity h k id m
    obtain ⟨hparameters, b, hcode⟩ := Catalogue.standard_code d hd
    have hargs : args ≠ [] := by
      rintro rfl
      exact hparameters (List.length_eq_zero_iff.mp harity.symm)
    refine ⟨b, hcode, ?_, fun hm hvs v m' hrun => applyAll_ofLanguage hd hvs hm h (k + 1) id hrun⟩
    rw [applyAll_toValue hcode hargs harity]
    exact run_completes b args _
  · intro c args input compile earlier source s d hd hmark
    have hstart : ((Session.ofSettings c args input).compiling compile).machine.store.IsOfLanguage :=
      Session.ofSettings_each (fun d hd _ => Catalogue.standard_isStandard d hd) c args input
    have hcompile : s.host.compile = compile := congrArg Host.compile (Session.runs_host _ earlier)
    obtain ⟨pattern, crash, hcrash, hmessage, hrefused⟩ :=
      Session.exists_culprit (s := s) (Session.runs_ofLanguage hstart earlier) hd hmark
    rw [hcompile] at hcrash hrefused
    refine ⟨⟨pattern, crash, hcrash, hmessage, hrefused⟩, fun horderly => ?_⟩
    rw [hmessage, hcrash.eq_countOverflow horderly]
    rfl
  · intro compile pattern crash horderly hcrash
    exact hcrash.eq_countOverflow horderly

example : Catalogue.standard.definitions.length = 47 := rfl

def uncountable : Diagnostic :=
  ⟨.fatal, ⟨1, 1⟩, "Internal error: OverflowError: the repetition number is too large",
    "regex(\"a\x7b4294967295\x7d\")"⟩

/-- A compiler that refuses what another one crashes on, unless it cannot count a repetition. -/
def Regex.Compiler.orderly (compile : Regex.Compiler) : Regex.Compiler := fun source =>
  match compile source with
  | .ok r => .ok r
  | .error .countTooLarge => .error .countTooLarge
  | .error (.refused e) => .error (.refused e)
  | .error (.tooManyDigits _) | .error .clashingFlags => .error (.refused (.naming source))

theorem Regex.Compiler.isOrderly_orderly (compile : Regex.Compiler) : compile.orderly.IsOrderly := by
  intro source failure h
  unfold orderly at h
  cases hc : compile source with
  | ok r => rw [hc] at h; cases h
  | error x =>
    rw [hc] at h
    cases x with
    | countTooLarge => cases h; exact Or.inr rfl
    | refused | tooManyDigits | clashingFlags => cases h; exact Or.inl ⟨_, rfl⟩

theorem run_reports_uncountable :
    ((((Session.ofSettings {} none []).compiling (Regex.Compiler.orderly Regex.compile)).runs []).run
      uncountable.source).2.machine.reporter.diagnostics = #[uncountable] := by
  decide +kernel

/-- A program that runs into the limit. -/
theorem builtins_contained_uncountable :
    uncountable ∈ ((((Session.ofSettings {} none []).compiling (Regex.Compiler.orderly Regex.compile)).runs []).run
        uncountable.source).2.machine.reporter.diagnostics ∧
      (∃ pattern crash, (Regex.Compiler.orderly Regex.compile).Crashes pattern crash ∧ crash = Regex.countOverflow ∧
        ∀ e, { uncountable with message := (Reason.invalidRegex e pattern).message } ∈
          (((((Session.ofSettings {} none []).compiling (Regex.Compiler.orderly Regex.compile)).runs []).compiling
            ((Regex.Compiler.orderly Regex.compile).refusing pattern e)).run
              uncountable.source).2.machine.reporter.diagnostics) ∧
      uncountable.message = "Internal error: OverflowError: the repetition number is too large" := by
  have hd : uncountable ∈
      ((((Session.ofSettings {} none []).compiling (Regex.Compiler.orderly Regex.compile)).runs []).run
        uncountable.source).2.machine.reporter.diagnostics := by
    rw [run_reports_uncountable]
    exact Array.mem_singleton.mpr rfl
  have hmark : internalMark <+: uncountable.message.toList := by decide
  have horderly := Regex.Compiler.isOrderly_orderly Regex.compile
  obtain ⟨-, hsession, hone⟩ := builtins_contained
  obtain ⟨⟨pattern, crash, hcrash, -, hrefused⟩, hmessage⟩ :=
    hsession {} none [] (Regex.Compiler.orderly Regex.compile) [] uncountable.source uncountable hd hmark
  exact ⟨hd, ⟨pattern, crash, hcrash, hone _ pattern crash horderly hcrash, hrefused⟩, hmessage horderly⟩

end Curried
