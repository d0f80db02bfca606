/-
  Curried.Proofs.Grammar.Accepted — the texts that are accepted.

  The parser accepts a text only once it stands at the end of input, so a text with a character that starts no token is
  never accepted (`Parser.ending_of_program`). Those that are accepted are the texts whose tokens are a program, and
  each is read as the tree of its program (`parse_eq_ok_iff`).
-/

import Curried.Proofs.Grammar.Locality
import Curried.Proofs.Grammar.Parser

namespace Curried

open Grammar

namespace Parser

/-- Where the end of input cannot come, a program is not complete. -/
theorem incomplete {ts : Tokens} (h : ts.Among fun t => t.lexeme ≠ .endOfInput) (e : Expr) (r : Expr × Tokens) :
    (sees .endOfInput >>= fun seen => if seen then pure e else unexpected .nothing) ts ≠ .ok r := by
  obtain ⟨front, ending, size, hsize⟩ := ts
  have hother : ∀ t : Token, t.lexeme ≠ .endOfInput →
      ∀ us, (if decide (t.lexeme = .endOfInput) = true then pure e else unexpected .nothing : Parser Expr) us ≠ .ok r := by
    intro t ht us hus
    rw [if_neg (by simpa using ht)] at hus
    obtain ⟨front, ending, size, hsize⟩ := us
    cases front with
    | cons u front => cases hus
    | nil =>
      cases ending with
      | ok u => cases hus
      | error e => cases hus
  cases front with
  | cons t front => exact hother t (h.front t List.mem_cons_self) _
  | nil =>
    cases ending with
    | ok t => exact hother t (h.ending t rfl) _
    | error e => exact nofun

theorem ending_of_program {depth : Nat} {ts : Tokens} {r : Expr × Tokens}
    (hfront : ∀ t ∈ ts.front, t.lexeme ≠ .endOfInput) (h : program depth ts = .ok r) : ∃ eof, ts.ending = .ok eof := by
  cases hending : ts.ending with
  | ok eof => exact ⟨eof, rfl⟩
  | error failure =>
    exfalso
    have hamong : ts.Among fun t => t.lexeme ≠ .endOfInput :=
      ⟨hfront, fun t ht => by cases hending.symm.trans ht⟩
    have hread := (sequence_follows (n := 0) (Nat.zero_le depth) (Nat.zero_le depth)).confines ts hamong
    replace h : (sequence depth ts).bind (fun r => ((remaining >>= strayEnds) r.2).bind fun r' =>
      (sees .endOfInput >>= fun seen => if seen then pure r.1 else unexpected .nothing) r'.2) = .ok r := h
    generalize sequence depth ts = x at hread h
    cases hread with
    | @ok e us hus =>
      have hends := (strayEnds_follow (n := 0)).confines us hus
      replace h : ((remaining >>= strayEnds) us).bind (fun r' =>
        (sees .endOfInput >>= fun seen => if seen then pure e else unexpected .nothing) r'.2) = .ok r := h
      generalize (remaining >>= strayEnds) us = y at hends h
      cases hends with
      | ok hvs => exact incomplete hvs e r h
      | _ => cases h
    | _ => cases h

end Parser

/-- The texts that are accepted, and what they are read as. -/
theorem parse_eq_ok_iff {source : String} {e : Expr} :
    parse source = .ok e ↔ (∃ eof, (Tokens.scan source).ending = .ok eof) ∧ Program (Tokens.scan source).front e := by
  constructor
  · intro h
    have hprogram : ∃ r, Parser.program ((Tokens.scan source).size + 1) (Tokens.scan source) = .ok r := by
      unfold parse at h
      dsimp only at h
      cases hr : Parser.program ((Tokens.scan source).size + 1) (Tokens.scan source) with
      | ok r => exact ⟨r, rfl⟩
      | error failure => rw [hr] at h; cases h
    obtain ⟨r, hr⟩ := hprogram
    obtain ⟨eof, hending⟩ := Parser.ending_of_program (Tokens.scan_front source) hr
    rcases parse_cases hending with ⟨f, hparse, hf⟩ | ⟨_, hparse, -⟩
    · cases hparse.symm.trans h
      exact ⟨⟨eof, hending⟩, hf⟩
    · cases hparse.symm.trans h
  · rintro ⟨⟨eof, hending⟩, hprogram⟩
    rcases parse_cases hending with ⟨f, hparse, hf⟩ | ⟨_, -, hnone⟩
    · rw [hparse, Parser.program_unique hf hprogram]
    · exact absurd ⟨e, hprogram⟩ hnone

end Curried
