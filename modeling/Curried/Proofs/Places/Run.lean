/-
  Curried.Proofs.Places.Run — a diagnostic of a first run points at a token.

  In a session that has run nothing all expressions are those of the program, and they stand where tokens of the source
  do. So whichever way the run fails, it reports one diagnostic, which shows the line of a token and a caret under its
  first character (`Session.run_points`).
-/

import Curried.Proofs.Blame
import Curried.Proofs.Places.Reading
import Curried.Proofs.Reports

namespace Curried.Session

/-- With the functions of the library alone, a run that fails reports one thing, and any other nothing. -/
theorem run_diagnostics {s : Session} (hs : s.machine.store.IsStandard) (source : String) :
    match (s.run source).1 with
    | .ok _ => (s.run source).2.machine.reporter.diagnostics = #[]
    | .error _ => ∃ d, (s.run source).2.machine.reporter.diagnostics = #[d] := by
  obtain ⟨-, w, hw⟩ := run_verdict False hs nofun nofun source
  cases w with
  | refused =>
    obtain ⟨i, hi, -, hreported, -⟩ := hw
    rcases hi with ⟨e, he, -⟩ | ⟨e, he, -⟩
    · rw [he]
      exact ⟨_, hreported⟩
    · rw [he]
      exact ⟨_, hreported⟩
  | value =>
    obtain ⟨v, hv, hslight⟩ := hw
    rw [hv]
    exact (slight_false hslight).2
  | fault =>
    obtain ⟨f, hf, hsettled⟩ := hw
    rw [hf]
    rcases hsettled.reported with hown | hslight
    · exact ⟨_, hown⟩
    · exact absurd hsettled.noticed (by rw [(slight_false hslight).1]; decide)
  | overflow =>
    obtain ⟨hexit, before, p, hreported, hslight⟩ := hw
    rw [hexit, hreported, (slight_false hslight).2]
    exact ⟨_, rfl⟩

/-- What a first run reports stands where a token of its source does. -/
theorem run_occupied (c : Settings) (args : Option (List String)) (input : List Char) (source : String) :
    ∀ d ∈ ((ofSettings c args input).run source).2.machine.reporter.diagnostics,
      d.source = source ∧ (Tokens.scan source).Occupied source.toList d.position := by
  intro d hd
  obtain ⟨hsource, hposition⟩ := run_blames (ofSettings_known c args input) source d hd
  have hwithin := parseWithin_within (ofSettings c args input).host.maxNesting source
  refine ⟨hsource, ?_⟩
  cases h : parseWithin (ofSettings c args input).host.maxNesting source with
  | ok program =>
    rw [h] at hposition hwithin
    obtain ⟨e, he, hp⟩ := hposition.resolve_right not_false
    exact hp ▸ hwithin e he
  | error x =>
    rw [h] at hposition hwithin
    rw [hposition]
    exact hwithin

/-- In a session that has run nothing, a run that has a value reports nothing, and any other one diagnostic. That one
points at a place of the source where a token, the end of input or a character that starts no token stands: it has the
number of a line, and a column on that line or just after it; it shows that line, and a caret under what stands there,
which for the end of input is the end of the last line. -/
theorem run_points (c : Settings) (args : Option (List String)) (input : List Char) (source : String) :
    let r := (ofSettings c args input).run source
    (∀ v, r.1 = .ok v → r.2.machine.reporter.diagnostics = #[]) ∧
    ∀ t, r.1 = .error t → ∃ d : Diagnostic, r.2.machine.reporter.diagnostics = #[d] ∧ d.source = source ∧
      (1 ≤ d.position.line ∧ d.position.line ≤ (Text.lines source.toList).length) ∧
      (1 ≤ d.position.column ∧ d.position.column ≤ d.sourceLine.length + 1) ∧
      ∃ p before after, d.position = p.position ∧ (Tokens.scan source).StartsIn source.toList p before after ∧
        (∃ above left right below, d.Points before after above left right below ∧ right.head? = after.head?) ∧
        (after = [] →
          d.position.line = (Text.lines source.toList).length ∧ d.position.column = d.sourceLine.length + 1) := by
  intro r
  have hreported := run_diagnostics (ofSettings_isStandard c args input) source
  refine ⟨fun v hv => ?_, fun t ht => ?_⟩
  · rw [show ((ofSettings c args input).run source).1 = .ok v from hv] at hreported
    exact hreported
  rw [show ((ofSettings c args input).run source).1 = .error t from ht] at hreported
  obtain ⟨d, hd⟩ := hreported
  obtain ⟨rfl, p, before, after, hposition, hp⟩ :=
    run_occupied c args input source d (hd ▸ Array.mem_singleton.mpr rfl)
  obtain ⟨above, left, right, below, hpoints⟩ := Diagnostic.points_of_splits hposition hp.splits
  have hline := hpoints.line
  have hcolumn := hpoints.column
  refine ⟨d, hd, rfl, ⟨by omega, hpoints.line_le hp.splits.text_eq⟩, ⟨by omega, hpoints.column_le⟩, p, before, after,
    hposition, hp, ⟨above, left, right, below, hpoints, hpoints.head?_right hp.visible⟩, ?_⟩
  exact hpoints.at_end hp.splits.text_eq

def unbound : Diagnostic := ⟨.fatal, ⟨2, 7⟩, "Undefined variable y", "let x :: true in\n  [x, y]"⟩

theorem run_reports_unbound :
    Except.isOk ((ofSettings {} none []).run unbound.source).1 = false ∧
      ((ofSettings {} none []).run unbound.source).2.machine.reporter.diagnostics = #[unbound] := by
  decide +kernel

theorem run_points_unbound :
    (∃ t, ((ofSettings {} none []).run unbound.source).1 = .error t) ∧
      ((ofSettings {} none []).run unbound.source).2.machine.reporter.diagnostics = #[unbound] ∧
      unbound.format false = "fatal error (2, 7): Undefined variable y\n  [x, y]\n      ^" ∧
      ∃ p before after above left right below, unbound.position = p.position ∧
        (Tokens.scan unbound.source).StartsIn unbound.source.toList p before after ∧
        unbound.Points before after above left right below ∧ right.head? = after.head? := by
  obtain ⟨hfails, hreported⟩ := run_reports_unbound
  cases h : ((ofSettings {} none []).run unbound.source).1 with
  | ok v =>
    rw [h] at hfails
    cases hfails
  | error t =>
    obtain ⟨d, hd, -, -, -, p, before, after, hp, hstarts, ⟨above, left, right, below, hpoints, hhead⟩, -⟩ :=
      (run_points {} none [] unbound.source).2 t h
    obtain rfl : unbound = d := by simpa using hreported.symm.trans hd
    exact ⟨⟨t, rfl⟩, hreported, by decide +kernel, p, before, after, above, left, right, below, hp, hstarts, hpoints,
      hhead⟩

end Curried.Session
