/-
  Curried.Proofs.Contexts — an expression is read in the same way wherever it stands in brackets.

  A text with a line feed after it is read as the same lexemes wherever it stands, even if it ends in a comment
  (`Cursor.Takes.writes`). If its expression takes all of its tokens (`Complete`), these are an expression before every
  lexeme that can come after it in parentheses, in a list, among arguments or in a conditional, and its tree is the same
  up to positions (`Complete.yields`). So the constructs around it are read as they should be (`parse_embedded`), and
  `end`s after it change nothing.
-/

import Curried.Proofs.FirstError
import Curried.Proofs.Grammar.Accepted
import Curried.Proofs.Grammar.Closing
import Curried.Proofs.Printing
import Curried.Proofs.Tiling

namespace Curried

open Grammar

/-! ## Texts with a line feed after them -/

namespace Cursor

/-- Where only separators are left, a line feed ends the last comment. -/
theorem gap_of_skipped {inComment : Bool} {cs : List Char} {offset : Nat} {p : Position}
    (h : (skipFrom inComment cs offset p).rest = []) : Gap inComment (cs ++ ['\n']) := by
  fun_induction skipFrom inComment cs offset p with
  | case1 inComment =>
    cases inComment with
    | false => exact .blank rfl .nil
    | true => exact .comment .nil
  | case2 c cs _ _ ih => exact .comment (ih h)
  | case3 inComment c cs _ _ hc hblank ih =>
    rw [Bool.not_eq_true] at hc
    subst hc
    exact .blank hblank (ih h)
  | case4 inComment c cs _ _ hc _ hquote ih =>
    rw [Bool.not_eq_true] at hc
    subst hc
    rw [eq_of_beq hquote]
    exact .open (ih h)
  | case5 => cases h

theorem skip_of_next {c d : Cursor} {t : Token} (h : c.next = .ok (t, d)) (ht : t.lexeme = .endOfInput) :
    c.skip.rest = [] := by
  unfold next at h
  dsimp only at h
  split at h
  · assumption
  · split at h
    · rename_i hfirst
      cases h
      exact absurd ht (Lexeme.first?_splits hfirst).2.2
    · cases h

/-- After the last token of a text there are only separators. -/
theorem exists_takes_end {source : String} {eof : Token} (h : (Tokens.scan source).ending = .ok eof) :
    ∃ d, Takes (start source.toList) (Tokens.scan source).front d ∧ Gap false (d.rest ++ ['\n']) := by
  obtain ⟨d, htakes, hlast, -⟩ := (start source.toList).exists_last
  replace hlast : d.next.map Prod.fst = .ok eof := hlast.trans h
  cases hnext : d.next with
  | error e => rw [hnext] at hlast; cases hlast
  | ok r =>
    rw [hnext] at hlast
    have heof : r.1 = eof := Except.ok.inj hlast
    exact ⟨d, htakes, gap_of_skipped (skip_of_next hnext (heof ▸ Tokens.scan_ending h))⟩

end Cursor

theorem Writes.ends (n : Nat) :
    Writes (" ".intercalate (List.replicate n "end")).toList (List.replicate n (.keyword .endWord)) := by
  have hends : List.Forall₂ (fun text ls => Writes text.toList ls) (List.replicate n "end")
      (List.replicate n [.keyword .endWord]) := by
    induction n with
    | zero => exact .nil
    | succ n ih => exact .cons (.keyword .endWord) ih
  have hwords := words hends
  rwa [List.flatten_replicate_singleton] at hwords

/-- The tokens of a text are read again wherever it stands, with a line feed after it. -/
theorem Cursor.Takes.writes {c d : Cursor} {ts : List Token} (h : Takes c ts d) (hd : Gap false (d.rest ++ ['\n'])) :
    Writes (c.rest ++ ['\n']) (ts.map (·.lexeme)) := by
  induction h with
  | nil =>
    have hgap := Writes.nil.gap hd
    rwa [List.append_nil] at hgap
  | @cons c d _ t ts hnext ht _ ih =>
    obtain ⟨gap, spelling, hrest, hgap, hspelled⟩ := exists_of_next hnext ht
    rw [hrest, List.append_assoc, List.append_assoc]
    refine Writes.gap hgap (Writes.spelled (fun rest _ => ?_) (ih hd))
    rw [← List.append_nil d.rest] at hspelled
    rw [List.append_assoc]
    exact hspelled.cut (Lexeme.breaks_cons rfl rest)

/-! ## Complete expressions -/

/-- A text that is read as an expression, with no `end` after it that closes nothing: the expression takes all tokens. -/
structure Complete (source : String) (e : Expr) : Prop where
  parse_eq : parse source = .ok e
  no_stray_end : ∀ r, Parser.sequence ((Tokens.scan source).size + 1) (Tokens.scan source) = .ok r → r.2.front = []

namespace Complete

variable {source : String} {e : Expr}

theorem ending (h : Complete source e) : ∃ eof, (Tokens.scan source).ending = .ok eof := (parse_eq_ok_iff.mp h.parse_eq).1

theorem derives (h : Complete source e) : Derives .sequence (Tokens.scan source).front .endOfInput e := by
  obtain ⟨⟨eof, hending⟩, us, ends, hfront, -, hderives⟩ := parse_eq_ok_iff.mp h.parse_eq
  have hscan := Tokens.eq_stream hending
  have hread := (Parser.sequence_recognizes (Tokens.scan_ending hending) _ _
    (Nat.lt_succ_self (Tokens.scan source).front.length)).complete us ends e hfront hderives
  have hnone := h.no_stray_end
  rw [Tokens.size_eq, hscan] at hnone
  obtain rfl : ends = [] := hnone _ hread
  rw [hfront, List.append_nil]
  exact hderives

/-- The tokens are an expression before all that can come after it in brackets, and so are others with the same
lexemes. -/
theorem yields (h : Complete source e) {next : Lexeme} (hnext : Bounds next) :
    Yields (Derives .sequence) Expr.Alike ((Tokens.scan source).front.map (·.lexeme)) next e := by
  intro ts hts
  obtain ⟨eof, hending⟩ := h.ending
  have hrecognizes := Parser.sequence_recognizes (Tokens.scan_ending hending) (ts.length + 1)
  have hlength : (Tokens.scan source).front.length < ts.length + 1 := by
    rw [← List.length_map, ← hts, List.length_map]
    exact Nat.lt_succ_self _
  have hread := (hrecognizes _ hlength).complete _ [] e (List.append_nil _).symm h.derives
  have hsame := Parser.sequence_agrees (ts.length + 1) _ _ (Parser.alike_stream eof hts)
  rw [hread] at hsame
  cases hts' : Parser.sequence (ts.length + 1) (Parser.stream eof ts) with
  | error failure => rw [hts'] at hsame; cases hsame
  | ok r =>
    obtain ⟨e', rest⟩ := r
    rw [hts'] at hsame
    cases hsame with
    | ok hlike hrest =>
      obtain ⟨used, left, rfl, rfl, hderives⟩ := (hrecognizes ts (Nat.lt_succ_self _)).sound e' rest hts'
      obtain rfl : left = [] := List.forall₂_nil_right_iff.mp hrest.front
      rw [List.append_nil]
      exact ⟨e', hderives.rebound .endOfInput hnext, hlike⟩

theorem writes (h : Complete source e) :
    Writes (source ++ "\n").toList ((Tokens.scan source).front.map (·.lexeme)) := by
  obtain ⟨eof, hending⟩ := h.ending
  obtain ⟨d, htakes, hgap⟩ := Cursor.exists_takes_end hending
  rw [String.toList_append]
  exact htakes.writes hgap

/-- `end`s after it, however many, change nothing. -/
theorem parse_ends (h : Complete source e) (n : Nat) :
    parse (source ++ "\n" ++ " ".intercalate (List.replicate n "end")) = .ok e := by
  obtain ⟨eof, hending⟩ := h.ending
  obtain ⟨d, htakes, hgap⟩ := Cursor.exists_takes_end hending
  obtain ⟨cs, hcs⟩ := htakes.rest_eq
  have hwrites := Writes.ends n
  generalize " ".intercalate (List.replicate n "end") = ends at hwrites ⊢
  have hscan : Tokens.scan (source ++ "\n" ++ ends) =
      Cursor.tokens ⟨cs ++ (d.rest ++ ['\n'] ++ ends.toList), 0, {}⟩ := by
    have htext : (source ++ "\n" ++ ends).toList = cs ++ (d.rest ++ ['\n'] ++ ends.toList) := by
      rw [String.toList_append, String.toList_append, show source.toList = cs ++ d.rest from hcs]
      simp only [List.append_assoc]
      rfl
    rw [← htext]
    rfl
  -- the tokens are those of the text, where they were, and then one for each `end`
  have hbreaks := Cursor.breaks_of_gap hgap (List.append_ne_nil_of_right_ne_nil _ nofun) ends.toList
  obtain ⟨hfront, hending'⟩ := (htakes.cut hcs hbreaks).tokens_eq
  rw [Cursor.tokens_gap hgap] at hfront hending'
  obtain ⟨hlexemes, eof', heof'⟩ := hwrites.tokens_eq (d.offset + (d.rest ++ ['\n']).length)
    (d.position.after (d.rest ++ ['\n']))
  have hends := (List.eq_replicate_iff.mp hlexemes).2
  rw [List.forall_mem_map] at hends
  rw [parse_eq_ok_iff, hscan]
  refine ⟨⟨eof', hending'.trans heof'⟩, ?_⟩
  change Program (Cursor.tokens ⟨_, (Cursor.start source.toList).offset, (Cursor.start source.toList).position⟩).front e
  rw [hfront]
  exact h.derives.program .endOfInput hends

end Complete

/-! ## Constructs -/

def ReadsAs (text : String) (e : Expr) : Prop := ∃ e', parse text = .ok e' ∧ e'.Alike e

theorem readsAs_of_writes {text : String} {ls : List Lexeme} {n : Nonterminal} {e : Expr} (hwrites : Writes text.toList ls)
    (hyields : Yields (Derives n) Expr.Alike ls .endOfInput e) : ReadsAs text e := by
  obtain ⟨hlexemes, eof, hending⟩ := hwrites.tokens_eq 0 {}
  obtain ⟨e', he', hlike⟩ := hyields.to_sequence .endOfInput _ hlexemes
  exact ⟨e', parse_eq_ok_iff.mpr ⟨⟨eof, hending⟩, _, [], (List.append_nil _).symm, nofun, he'⟩, hlike⟩

def listed (sources : List String) : String := ", ".intercalate (sources.map (· ++ "\n"))

theorem readsAs_parens {source : String} {e : Expr} (h : Complete source e) : ReadsAs (parens (source ++ "\n")) e :=
  readsAs_of_writes h.writes.parens ((h.yields .closeParen).group .endOfInput)

section Items

variable {sources : List String} {es : List Expr} (h : List.Forall₂ Complete sources es)
include h

theorem writes_listed : Writes (listed sources).toList
    ([.symbol .comma].intercalate (sources.map fun s => (Tokens.scan s).front.map (·.lexeme))) := by
  refine Writes.commas ?_
  induction h with
  | nil => exact .nil
  | cons hs _ ih => exact .cons hs.writes ih

theorem yields_items {close : Symbol} (hclose : Bounds (.symbol close)) :
    List.Forall₂ (fun ls e => Yields (Derives .sequence) Expr.Alike ls (.symbol .comma) e ∧
      Yields (Derives .sequence) Expr.Alike ls (.symbol close) e)
      (sources.map fun s => (Tokens.scan s).front.map (·.lexeme)) es := by
  rw [List.forall₂_map_left_iff]
  exact h.imp fun s e hs => ⟨hs.yields .comma, hs.yields hclose⟩

theorem readsAs_list (p : Position) : ReadsAs ("[" ++ listed sources ++ "]") (.list p es) :=
  readsAs_of_writes (writes_listed h).brackets (.list (yields_items h .closeBracket) p .endOfInput)

theorem readsAs_call {f : String} (hf : IsName f) (p q : Position) :
    ReadsAs (f ++ parens (listed sources)) (.call p (.ref q f) es) := by
  have hwrites := (Writes.single hf.spelled).append (writes_listed h).parens Writes.breaks_parens
  rw [← String.toList_append] at hwrites
  have hcallee : Yields (Derives .atom) Expr.Alike [.name f] (.symbol .openParen) (.ref q f) := by
    intro ts hts
    obtain ⟨t, rfl, ht⟩ := List.map_eq_singleton_iff.mp hts
    exact ⟨_, .ref ht, .of .ref .none⟩
  exact readsAs_of_writes hwrites (hcallee.call (yields_items h .closeParen) p nofun)

end Items

theorem readsAs_branch {s t u : String} {a b c : Expr} (hs : Complete s a) (ht : Complete t b) (hu : Complete u c)
    (p : Position) :
    ReadsAs (" ".intercalate ["if", s ++ "\n", "then", t ++ "\n", "else", u ++ "\n"]) (.branch p a b c) := by
  have hwrites := Writes.words (.cons (.keyword .ifWord) (.cons hs.writes (.cons (.keyword .thenWord) (.cons ht.writes
    (.cons (.keyword .elseWord) (.cons hu.writes .nil))))))
  exact readsAs_of_writes hwrites (.branch (hs.yields .thenWord) (ht.yields .elseWord) (hu.yields .endOfInput) p)

/-- An expression is read in the same way in parentheses, in a list, among arguments and in a conditional, and with any
number of `end`s after it. -/
theorem parse_embedded {f s t u : String} {sources : List String} {a b c : Expr} {es : List Expr} (hf : IsName f)
    (hs : Complete s a) (ht : Complete t b) (hu : Complete u c) (hsources : List.Forall₂ Complete sources es) (n : Nat) :
    ReadsAs (parens (s ++ "\n")) a ∧
    ReadsAs ("[" ++ listed sources ++ "]") (.list {} es) ∧
    ReadsAs (f ++ parens (listed sources)) (.call {} (.ref {} f) es) ∧
    ReadsAs (" ".intercalate ["if", s ++ "\n", "then", t ++ "\n", "else", u ++ "\n"]) (.branch {} a b c) ∧
    parse (s ++ "\n" ++ " ".intercalate (List.replicate n "end")) = .ok a :=
  ⟨readsAs_parens hs, readsAs_list hsources {}, readsAs_call hsources hf {} {}, readsAs_branch hs ht hu {},
    hs.parse_ends n⟩

/-- A `let` without a body before a comment, and a function that no `end` closes. -/
theorem parse_embedded_open : ∃ a b,
    ReadsAs "(let x :: y 'z\n)" a ∧
    ReadsAs "[let x :: y 'z\n, fn(x) :: x\n]" (.list {} [a, b]) ∧
    ReadsAs "f(let x :: y 'z\n, fn(x) :: x\n)" (.call {} (.ref {} "f") [a, b]) ∧
    ReadsAs "if let x :: y 'z\n then fn(x) :: x\n else let x :: y 'z\n" (.branch {} a b a) ∧
    parse "let x :: y 'z\nend end" = .ok a := by
  have hf : IsName "f" := ⟨⟨'f', [], rfl, by decide, nofun⟩, by decide⟩
  have ha : ∃ a, Complete "let x :: y 'z" a := ⟨_, rfl, fun r hr => by cases hr; rfl⟩
  have hb : ∃ b, Complete "fn(x) :: x" b := ⟨_, rfl, fun r hr => by cases hr; rfl⟩
  obtain ⟨a, ha⟩ := ha
  obtain ⟨b, hb⟩ := hb
  exact ⟨a, b, parse_embedded hf ha hb ha (.cons ha (.cons hb .nil)) 2⟩

end Curried
