/-
  Curried.Proofs.Respacing — white space and comments only separate.

  The spelling of a token is the text from its offset to where the next call starts (`Cursor.spellings`). A text that is
  written from the spellings of another one, with other separators between them (`Spaced`), is read as the same lexemes
  (`Tokens.scan_respaced`): a spelling is read in the same way before all that a separator can start with, and a
  separator leads to where the next spelling stands. The last separator may break off in a comment; what counts is that
  a line feed after it would end that comment.
-/

import Curried.Proofs.Spelling
import Curried.Proofs.Tokens

namespace Curried

namespace Cursor

/-! ## Spellings -/

/-- The texts that tokens are taken from, one for each token up to the end. -/
def spellings : Nat → Cursor → List (List Char)
  | 0, _ => []
  | fuel + 1, c =>
    match c.next with
    | .error _ => []
    | .ok (token, d) =>
      match token.lexeme with
      | .endOfInput => []
      | _ => (c.rest.drop (token.offset - c.offset)).take (d.offset - token.offset) :: spellings fuel d

/-- The text that a token is taken from spells its lexeme, also where nothing follows. -/
theorem spelled_of_next {c d : Cursor} {t : Token} (h : c.next = .ok (t, d)) (ht : t.lexeme ≠ .endOfInput) :
    Lexeme.Spelled t.lexeme ((c.rest.drop (t.offset - c.offset)).take (d.offset - t.offset)) [] := by
  obtain ⟨gap, spelling, hrest, hgap, hspelled⟩ := exists_of_next h ht
  have hnext := next_of_spelled hgap hspelled c.offset c.position
  rw [← hrest, h] at hnext
  obtain ⟨htoken, hcursor⟩ := Prod.mk.inj (Except.ok.inj hnext)
  have hstart : t.offset - c.offset = gap.length := by
    rw [htoken]
    dsimp only
    omega
  have hlength : d.offset - t.offset = spelling.length := by
    rw [hcursor, htoken]
    dsimp only
    omega
  rw [hstart, hlength, hrest, List.drop_left, List.take_left]
  exact hspelled.before Lexeme.breaks_nil

theorem spellings_of_next {c d : Cursor} {t : Token} (h : c.next = .ok (t, d)) (ht : t.lexeme ≠ .endOfInput)
    (fuel : Nat) : spellings (fuel + 1) c =
      (c.rest.drop (t.offset - c.offset)).take (d.offset - t.offset) :: spellings fuel d := by
  rw [spellings, h]
  dsimp only
  split
  · contradiction
  · rfl

theorem spelled_spellings (fuel : Nat) (c : Cursor) :
    List.Forall₂ (fun l spelling => Lexeme.Spelled l spelling [])
      ((Tokens.scanFrom fuel c).front.map (·.lexeme)) (spellings fuel c) := by
  induction fuel generalizing c with
  | zero => exact .nil
  | succ fuel ih =>
    cases hnext : c.next with
    | error e =>
      rw [Tokens.scanFrom, spellings, hnext]
      exact .nil
    | ok r =>
      obtain ⟨t, d⟩ := r
      by_cases ht : t.lexeme = .endOfInput
      · rw [Tokens.scanFrom, spellings, hnext]
        simp only [ht]
        exact .nil
      · rw [scanFrom_of_next hnext ht, spellings_of_next hnext ht]
        exact .cons (spelled_of_next hnext ht) (ih d)

/-! ## Separators at the end -/

/-- Where a line feed would end the last comment, only separators are left. -/
theorem skipped_of_gap {inComment : Bool} {cs : List Char} (h : Gap inComment (cs ++ ['\n'])) (offset : Nat)
    (p : Position) : (skipFrom inComment cs offset p).rest = [] := by
  induction cs generalizing inComment offset p with
  | nil => rfl
  | cons c cs ih =>
    rw [List.cons_append] at h
    cases h with
    | blank hc hcs => simp [skipFrom, hc, ih hcs]
    | «open» hcs =>
      have hquote : Text.isBlank '\'' = false := by decide
      simp [skipFrom, hquote, ih hcs]
    | comment hcs => simp [skipFrom, ih hcs]

theorem tokens_of_last {cs : List Char} (h : Gap false (cs ++ ['\n'])) (offset : Nat) (p : Position) :
    ∃ eof, tokens ⟨cs, offset, p⟩ = .nil (.ok eof) := by
  have hskip := skipped_of_gap h offset p
  have hnext : ∃ d, next ⟨cs, offset, p⟩ = .ok (⟨.endOfInput, d.offset, d.position⟩, d) := by
    refine ⟨skip ⟨cs, offset, p⟩, ?_⟩
    unfold next
    dsimp only
    split
    · rfl
    · rename_i hcons
      cases hcons.symm.trans hskip
  obtain ⟨d, hnext⟩ := hnext
  refine ⟨⟨.endOfInput, d.offset, d.position⟩, ?_⟩
  rw [tokens, Tokens.scanFrom, hnext]

theorem breaks_of_last {cs : List Char} (h : Gap false (cs ++ ['\n'])) : Lexeme.Breaks cs := by
  cases cs with
  | nil => exact Lexeme.breaks_nil
  | cons c cs =>
    have hbreaks := breaks_of_gap h (by simp) []
    intro d hd
    exact hbreaks d hd

end Cursor

/-! ## Texts written anew -/

/-- Pieces written one after the other, with separators that are not empty between them. At the end, a line feed may be
missing after the last comment. -/
inductive Spaced : List (List Char) → List Char → Prop
  | nil {last : List Char} : Cursor.Gap false (last ++ ['\n']) → Spaced [] last
  | cons {piece gap text : List Char} {pieces : List (List Char)} : Cursor.Gap false gap → (pieces ≠ [] → gap ≠ []) →
      Spaced pieces text → Spaced (piece :: pieces) (piece ++ (gap ++ text))

theorem Spaced.breaks {gap text : List Char} {pieces : List (List Char)} (h : Spaced pieces text)
    (hgap : Cursor.Gap false gap) (hne : pieces ≠ [] → gap ≠ []) : Lexeme.Breaks (gap ++ text) := by
  by_cases hempty : gap = []
  · subst hempty
    cases h with
    | nil hlast => exact Cursor.breaks_of_last hlast
    | cons _ _ _ => exact absurd rfl (hne (by simp))
  · exact Cursor.breaks_of_gap hgap hempty text

/-- Spellings are read as their lexemes, whatever separates them. -/
theorem Spaced.tokens_eq {pieces : List (List Char)} {text : List Char} (h : Spaced pieces text) {ls : List Lexeme}
    (hls : List.Forall₂ (fun l spelling => Lexeme.Spelled l spelling []) ls pieces) (offset : Nat) (p : Position) :
    (Cursor.tokens ⟨text, offset, p⟩).front.map (·.lexeme) = ls ∧
      ∃ eof, (Cursor.tokens ⟨text, offset, p⟩).ending = .ok eof := by
  induction h generalizing ls offset p with
  | nil hlast =>
    cases hls
    obtain ⟨eof, htokens⟩ := Cursor.tokens_of_last hlast offset p
    rw [htokens]
    exact ⟨rfl, eof, rfl⟩
  | @cons piece gap text pieces hgap hne htext ih =>
    cases hls with
    | cons hl hls =>
      have hspelled := hl.before (htext.breaks hgap hne)
      have hnext := Cursor.next_of_spelled .nil hspelled offset p
      rw [List.nil_append] at hnext
      obtain ⟨hfront, hending⟩ := ih hls (offset + piece.length + gap.length) ((p.after piece).after gap)
      rw [← Cursor.tokens_gap hgap] at hfront hending
      rw [Cursor.tokens_of_next hnext hspelled.ne_endOfInput]
      exact ⟨congrArg (_ :: ·) hfront, hending⟩

namespace Tokens

def spellings (source : String) : List (List Char) :=
  Cursor.spellings (source.toList.length + 1) (Cursor.start source.toList)

/-- The spellings of the tokens of a source are read as the same lexemes when they are written with other separators
around them. -/
theorem scan_respaced {source : String} {eof : Token} (hsource : (scan source).ending = .ok eof)
    {lead text : List Char} (hlead : Cursor.Gap false lead) (htext : Spaced (spellings source) text) :
    (scan (String.ofList (lead ++ text))).front.map (·.lexeme) = (scan source).front.map (·.lexeme) ∧
      ∃ eof', (scan (String.ofList (lead ++ text))).ending = .ok eof' ∧ eof'.lexeme = eof.lexeme := by
  have htokens : scan (String.ofList (lead ++ text)) =
      Cursor.tokens ⟨text, 0 + lead.length, ({} : Position).after lead⟩ := by
    rw [← Cursor.tokens_gap hlead, scan, String.toList_ofList]
    rfl
  obtain ⟨hfront, eof', hending⟩ := htext.tokens_eq (Cursor.spelled_spellings _ _) (0 + lead.length)
    (({} : Position).after lead)
  rw [← htokens] at hfront hending
  refine ⟨hfront, eof', hending, ?_⟩
  rw [scan_ending hending, scan_ending hsource]

/-- Comments that touch the tokens around them, the last one without a line feed. -/
theorem scan_respaced_comments :
    Spaced (spellings "x+1") "x'&\n+\u00a01'\"".toList ∧
      (scan "'+\nx'&\n+\u00a01'\"").front.map (·.lexeme) = (scan "x+1").front.map (·.lexeme) := by
  have hlead : Cursor.Gap false "'+\n".toList := .open (.comment (.comment .nil))
  have htext : Spaced (spellings "x+1") "x'&\n+\u00a01'\"".toList := by
    have hcomment : Cursor.Gap false "'&\n".toList := .open (.comment (.comment .nil))
    have hspace : Cursor.Gap false "\u00a0".toList := .blank rfl .nil
    have hlast : Spaced [] "'\"".toList := .nil (.open (.comment (.comment .nil)))
    exact .cons hcomment (by decide) (.cons hspace (by decide) (.cons .nil (by decide) hlast))
  obtain ⟨hfront, -⟩ := scan_respaced rfl hlead htext
  exact ⟨htext, hfront⟩

end Tokens

end Curried
