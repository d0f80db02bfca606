/-
  Curried.Proofs.LongestMatch — of all that fits, the lexer takes the longest.

  What a text is cut into is given by 27 patterns: two for separators, one each for words, numerals and strings, and one
  for each symbol. A round of the lexer (`Cursor.round`) tries them in a fixed order and passes over what the first one
  that fits takes; `Cursor.next` is round after round until there is a token (`Cursor.next_eq_round`).

  The first pattern that fits is the one that takes most (`Pattern.longest_of_firstOf`), for two reasons. The first
  character tells all patterns apart but the symbols (`Pattern.startedBy?_of_matches`), and of two symbols of which one
  starts the other, the longer one is tried before (`Pattern.symbols_ordered`).
-/

import Curried.Proofs.Spelling
import Mathlib.Data.List.Pairwise

namespace Curried

/-! ## Patterns -/

/-- What a text is cut into: separators of two sorts, and what lexemes are spelled as. -/
inductive Pattern where
  | blanks | comment | word | numeral | string
  | symbol (s : Symbol)
  deriving DecidableEq

namespace Pattern

def symbols : List Symbol :=
  [.unequal, .lessEqual, .greaterEqual, .andAnd, .orOr, .dotDot, .doubleColon,
   .plus, .minus, .times, .divide, .equal, .less, .greater, .bang, .dot, .semicolon,
   .openParen, .closeParen, .openBracket, .closeBracket, .comma]

def all : List Pattern := [.blanks, .comment, .word, .numeral, .string] ++ symbols.map .symbol

inductive Matches : Pattern → List Char → Prop
  | blanks {run : List Char} : run ≠ [] → (∀ c ∈ run, Text.isBlank c = true) → Matches .blanks run
  | comment {body : List Char} : '\n' ∉ body → Matches .comment ('\'' :: body)
  | word {c : Char} {cs : List Char} : Lexeme.isNameStart c = true → (∀ d ∈ cs, Lexeme.isNamePart d = true) →
      Matches .word (c :: cs)
  | whole {digits : List Char} : digits ≠ [] → (∀ d ∈ digits, Text.isDigit d = true) → Matches .numeral digits
  | fraction {whole fraction : List Char} : whole ≠ [] → (∀ d ∈ whole, Text.isDigit d = true) → fraction ≠ [] →
      (∀ d ∈ fraction, Text.isDigit d = true) → Matches .numeral (whole ++ '.' :: fraction)
  | string {body : List Char} : '"' ∉ body → Matches .string ('"' :: body ++ ['"'])
  | symbol {s : Symbol} : Matches (.symbol s) s.text.toList

def run (p : Char → Bool) (cs : List Char) : Option (List Char) :=
  match cs.takeWhile p with
  | [] => none
  | run => some run

/-- What a pattern takes from the start of a text: as much as it can. -/
def take? : Pattern → List Char → Option (List Char)
  | .blanks, cs => run Text.isBlank cs
  | .comment, '\'' :: cs => some ('\'' :: cs.takeWhile (· != '\n'))
  | .word, c :: cs => if Lexeme.isNameStart c then some (c :: cs.takeWhile Lexeme.isNamePart) else none
  | .numeral, cs => (run Text.isDigit cs).map fun whole => whole ++ (Lexeme.fractionAt (cs.drop whole.length)).1
  | .string, '"' :: cs =>
    if '"' ∈ cs then some ('"' :: cs.takeWhile (· != '"') ++ ['"']) else none
  | .symbol s, cs => if s.text.toList <+: cs then some s.text.toList else none
  | _, _ => none

def firstOf (cs : List Char) : Option (Pattern × List Char) :=
  all.findSome? fun p => (p.take? cs).map (p, ·)

/-- The lexeme that the text of a pattern spells; separators spell none. -/
def lexeme? : Pattern → List Char → Option Lexeme
  | .blanks, _ => none
  | .comment, _ => none
  | .word, cs => some (.ofWord (String.ofList cs))
  | .numeral, cs =>
    let (whole, fraction) := cs.span Text.isDigit
    some (.number (Decimal.ofNumeral whole (fraction.drop 1) 0))
  | .string, cs => some (.string (String.ofList (cs.drop 1).dropLast))
  | .symbol s, _ => some (.symbol s)

/-- A text starts with `spelling`, nothing longer that it starts with matches any pattern, and of all patterns `p` alone
matches `spelling`. -/
structure Longest (p : Pattern) (spelling text : List Char) : Prop where
  starts : spelling <+: text
  longest : ∀ (q : Pattern) (s : List Char), q.Matches s → s <+: text → s.length ≤ spelling.length
  only : ∀ q : Pattern, q.Matches spelling ↔ q = p

/-! ## What a pattern takes -/

theorem run_eq_some {p : Char → Bool} {cs front : List Char} (h : run p cs = some front) :
    front ≠ [] ∧ front = cs.takeWhile p := by
  unfold run at h
  split at h
  · cases h
  · rename_i hne
    simp only [Option.some.injEq] at h
    exact ⟨fun he => hne (h.trans he), h.symm⟩

theorem run_of_ne_nil {p : Char → Bool} {cs : List Char} (h : cs.takeWhile p ≠ []) :
    run p cs = some (cs.takeWhile p) := by
  unfold run
  split
  · rename_i hnil
    exact absurd hnil h
  · rfl

theorem forall_mem_takeWhile {p : Char → Bool} (cs : List Char) : ∀ c ∈ cs.takeWhile p, p c = true :=
  fun c hc => List.all_eq_true.mp List.all_takeWhile c hc

/-- The text up to the first double quote. -/
theorem takeWhile_of_mem {cs : List Char} (h : '"' ∈ cs) :
    ∃ body rest, '"' ∉ body ∧ cs = body ++ '"' :: rest ∧ cs.takeWhile (· != '"') = body := by
  obtain ⟨body, rest, rfl, hbody⟩ := List.eq_append_cons_of_mem h
  refine ⟨body, rest, hbody, rfl, ?_⟩
  rw [List.takeWhile_append_of_pos fun c hc => by simpa using fun he : c = '"' => hbody (he ▸ hc)]
  simp

/-- What a pattern takes is a prefix that it matches. -/
theorem matches_of_take? {p : Pattern} {cs s : List Char} (h : p.take? cs = some s) : p.Matches s ∧ s <+: cs := by
  unfold take? at h
  split at h
  · obtain ⟨hne, rfl⟩ := run_eq_some h
    exact ⟨.blanks hne (forall_mem_takeWhile cs), List.takeWhile_prefix _⟩
  · rename_i cs
    cases h
    refine ⟨.comment fun hmem => ?_, List.cons_prefix_cons.mpr ⟨rfl, List.takeWhile_prefix _⟩⟩
    simpa using forall_mem_takeWhile cs _ hmem
  · rename_i c cs
    split at h
    · rename_i hc
      cases h
      exact ⟨.word hc (forall_mem_takeWhile cs), List.cons_prefix_cons.mpr ⟨rfl, List.takeWhile_prefix _⟩⟩
    · cases h
  · obtain ⟨whole, hwhole, rfl⟩ := Option.map_eq_some_iff.mp h
    obtain ⟨hne, hw⟩ := run_eq_some hwhole
    have hdigits : ∀ d ∈ whole, Text.isDigit d = true := hw ▸ forall_mem_takeWhile cs
    have hstarts : whole <+: cs := hw ▸ List.takeWhile_prefix Text.isDigit
    have hsplit : whole ++ cs.drop whole.length = cs := (List.prefix_iff_eq_append.mp hstarts).symm ▸ rfl
    rcases Lexeme.fractionAt_split (cs.drop whole.length) with
      ⟨hnone, -⟩ | ⟨fraction, rest, hsome, hrest, hne', hfraction, -⟩
    · rw [hnone, List.append_nil]
      exact ⟨.whole hne hdigits, hstarts⟩
    · rw [hsome]
      refine ⟨.fraction hne hdigits hne' hfraction, rest, ?_⟩
      rw [List.append_assoc, List.cons_append, ← hrest, hsplit]
  · rename_i cs
    split at h
    · rename_i hmem
      obtain ⟨body, rest, hbody, rfl, htake⟩ := takeWhile_of_mem hmem
      rw [htake] at h
      cases h
      exact ⟨.string hbody, rest, by simp⟩
    · cases h
  · split at h
    · rename_i hstarts
      cases h
      exact ⟨.symbol, hstarts⟩
    · cases h
  · cases h

/-- A pattern takes at least as much as any prefix that it matches. -/
theorem take?_of_matches {p : Pattern} {cs s : List Char} (h : p.Matches s) (hs : s <+: cs) :
    ∃ t, p.take? cs = some t ∧ s.length ≤ t.length := by
  obtain ⟨rest, rfl⟩ := hs
  cases h with
  | blanks hne hblank =>
    have htake : (s ++ rest).takeWhile Text.isBlank = s ++ rest.takeWhile Text.isBlank :=
      List.takeWhile_append_of_pos hblank
    refine ⟨_, run_of_ne_nil ?_, ?_⟩
    · simp [htake, hne]
    · simp [htake]
  | @comment body hbody =>
    have htake : (body ++ rest).takeWhile (· != '\n') = body ++ rest.takeWhile (· != '\n') :=
      List.takeWhile_append_of_pos fun c hc => by simpa using fun he : c = '\n' => hbody (he ▸ hc)
    exact ⟨_, rfl, by simp [htake]⟩
  | @word c cs hc hcs =>
    have htake : (cs ++ rest).takeWhile Lexeme.isNamePart = cs ++ rest.takeWhile Lexeme.isNamePart :=
      List.takeWhile_append_of_pos hcs
    exact ⟨_, if_pos hc, by simp [htake]⟩
  | whole hne hdigits =>
    have htake : (s ++ rest).takeWhile Text.isDigit = s ++ rest.takeWhile Text.isDigit :=
      List.takeWhile_append_of_pos hdigits
    have hrun : run Text.isDigit (s ++ rest) = _ := run_of_ne_nil (by simp [htake, hne])
    refine ⟨_, congrArg (Option.map _) hrun, ?_⟩
    simp only [htake, List.length_append]
    omega
  | @fraction whole fraction hne hwhole hne' hfraction =>
    have htake : (whole ++ '.' :: fraction ++ rest).takeWhile Text.isDigit = whole := by
      rw [List.append_assoc, List.takeWhile_append_of_pos hwhole]
      have hpoint : ¬ Text.isDigit '.' = true := by decide
      simp [hpoint]
    have hrun : run Text.isDigit (whole ++ '.' :: fraction ++ rest) = _ := run_of_ne_nil (by rw [htake]; exact hne)
    refine ⟨_, congrArg (Option.map _) hrun, ?_⟩
    have hdrop : (whole ++ '.' :: fraction ++ rest).drop whole.length = '.' :: (fraction ++ rest) := by simp
    rw [htake]
    dsimp only
    rw [hdrop, Lexeme.fractionAt, List.span_eq_takeWhile_dropWhile]
    have hdigits : (fraction ++ rest).takeWhile Text.isDigit = fraction ++ rest.takeWhile Text.isDigit :=
      List.takeWhile_append_of_pos hfraction
    simp [hdigits, hne']
  | @string body hbody =>
    have hmem : '"' ∈ body ++ '"' :: rest := by simp
    have htext : '"' :: body ++ ['"'] ++ rest = '"' :: (body ++ '"' :: rest) := by simp
    rw [htext]
    refine ⟨_, if_pos hmem, ?_⟩
    rw [List.takeWhile_append_of_pos fun c hc => by simpa using fun he : c = '"' => hbody (he ▸ hc)]
    simp
  | @symbol s => exact ⟨_, if_pos ⟨rest, rfl⟩, Nat.le_refl _⟩

/-! ## Which pattern comes first -/

/-- The pattern that only texts starting with a character match; none where at most symbols do. -/
def startedBy? (c : Char) : Option Pattern :=
  if Text.isBlank c then some .blanks
  else if c = '\'' then some .comment
  else if Lexeme.isNameStart c then some .word
  else if Text.isDigit c then some .numeral
  else if c = '"' then some .string
  else none

def plain? : Pattern → Option Pattern
  | .symbol _ => none
  | p => some p

/-- Patterns that are not symbols' are told apart by the first character. -/
theorem startedBy?_of_matches {p : Pattern} {c : Char} {cs : List Char} (h : p.Matches (c :: cs)) :
    startedBy? c = p.plain? := by
  have hdigit : Text.isDigit c = true → startedBy? c = some .numeral := by
    intro hc
    have hvisible := Lexeme.isVisible_of_isBreak (Lexeme.isBreak_of_isDigit hc)
    simp only [Lexeme.isVisible, Bool.and_eq_true, Bool.not_eq_true', bne_iff_ne] at hvisible
    simp [startedBy?, hvisible, Lexeme.isNameStart_of_isDigit hc, hc]
  generalize hs : c :: cs = s at h
  cases h with
  | blanks _ hblank =>
    have hc := hblank c (hs ▸ List.mem_cons_self)
    simp [startedBy?, hc, plain?]
  | comment _ =>
    cases hs
    decide
  | word hc _ =>
    cases hs
    have hbreak := Lexeme.isBreak_of_isNamePart (Lexeme.isNamePart_of_isNameStart hc)
    have hvisible := Lexeme.isVisible_of_isBreak hbreak
    simp only [Lexeme.isVisible, Bool.and_eq_true, Bool.not_eq_true', bne_iff_ne] at hvisible
    simp [startedBy?, hvisible, hc, plain?]
  | whole _ hdigits => exact hdigit (hdigits c (hs ▸ List.mem_cons_self))
  | @fraction whole _ hne hdigits _ _ =>
    obtain ⟨d, ds, rfl⟩ := List.exists_cons_of_ne_nil hne
    cases hs
    exact hdigit (hdigits c List.mem_cons_self)
  | string _ =>
    cases hs
    decide
  | @symbol m => cases m <;> cases hs <;> decide

theorem Matches.ne_nil {p : Pattern} {s : List Char} (h : p.Matches s) : s ≠ [] := by
  cases h with
  | blanks hne _ => exact hne
  | whole hne _ => exact hne
  | @symbol m => cases m <;> decide
  | _ => simp

/-- Two patterns that match where a text starts are the same, or both are symbols'. -/
theorem eq_or_symbols {p q : Pattern} {s t cs : List Char} (hp : p.Matches s) (hs : s <+: cs) (hq : q.Matches t)
    (ht : t <+: cs) : q = p ∨ ∃ a b, p = .symbol a ∧ q = .symbol b := by
  obtain ⟨c, s, rfl⟩ := List.exists_cons_of_ne_nil hp.ne_nil
  obtain ⟨d, t, rfl⟩ := List.exists_cons_of_ne_nil hq.ne_nil
  have hcd : d = c := by
    obtain ⟨_, rfl⟩ := hs
    exact (List.cons_prefix_cons.mp ht).1
  subst hcd
  have hplain : p.plain? = q.plain? := (startedBy?_of_matches hp).symm.trans (startedBy?_of_matches hq)
  cases p <;> cases q <;> simp [plain?] at hplain ⊢

/-- A symbol is tried before those that it starts with. -/
theorem symbols_ordered : symbols.Pairwise fun a b => ¬ a.text.toList <+: b.text.toList := by decide

theorem all_ordered : all.Pairwise fun p q =>
    ∀ a b, p = .symbol a → q = .symbol b → ¬ a.text.toList <+: b.text.toList := by
  have hplain : ∀ p ∈ [Pattern.blanks, .comment, .word, .numeral, .string], ∀ a, p ≠ .symbol a := by simp
  refine List.pairwise_append.mpr ⟨?_, ?_, ?_⟩
  · exact List.pairwise_of_forall_mem_list fun p hp q _ a b ha => absurd ha (hplain p hp a)
  · refine List.pairwise_map.mpr (symbols_ordered.imp ?_)
    intro a b hab _ _ ha hb
    cases ha
    cases hb
    exact hab
  · intro p hp q _ a b ha
    exact absurd ha (hplain p hp a)

theorem mem_all (p : Pattern) : p ∈ all := by
  cases p with
  | symbol s => cases s <;> decide
  | _ => decide

/-- The first pattern that takes anything takes the most. -/
theorem longest_of_firstOf {cs s : List Char} {p : Pattern} (h : firstOf cs = some (p, s)) : Longest p s cs := by
  obtain ⟨before, p', after, hall, htake, hbefore⟩ := List.findSome?_eq_some_iff.mp h
  obtain ⟨_, htake, heq⟩ := Option.map_eq_some_iff.mp htake
  cases heq
  obtain ⟨hmatches, hstarts⟩ := matches_of_take? htake
  -- another pattern that matches is a symbol's, tried later, and so it is shorter
  have hother : ∀ q t, q.Matches t → t <+: cs → q = p ∨ t.length < s.length := by
    intro q t hq ht
    by_cases hqp : q = p
    · exact Or.inl hqp
    refine Or.inr ?_
    rcases eq_or_symbols hmatches hstarts hq ht with heq | ⟨a, b, rfl, rfl⟩
    · exact absurd heq hqp
    have hafter : Pattern.symbol b ∈ after := by
      have hmem := mem_all (.symbol b)
      rw [hall, List.mem_append, List.mem_cons] at hmem
      rcases hmem with hmem | hmem | hmem
      · obtain ⟨t', ht', -⟩ := take?_of_matches hq ht
        have hnone := hbefore _ hmem
        rw [ht'] at hnone
        cases hnone
      · exact absurd hmem hqp
      · exact hmem
    have hordered := all_ordered
    rw [hall] at hordered
    have hnot := (List.pairwise_cons.mp (List.pairwise_append.mp hordered).2.1).1 _ hafter a b rfl rfl
    cases hmatches
    cases hq
    rcases List.prefix_or_prefix_of_prefix hstarts ht with hst | hts
    · exact absurd hst hnot
    · refine Nat.lt_of_le_of_ne hts.length_le fun hlength => hnot ?_
      exact hts.eq_of_length hlength ▸ List.prefix_rfl
  refine ⟨hstarts, fun q t hq ht => ?_, fun q => ⟨fun hq => ?_, fun hq => hq ▸ hmatches⟩⟩
  · rcases hother q t hq ht with rfl | hlt
    · obtain ⟨t', ht', hle⟩ := take?_of_matches hq ht
      rw [htake] at ht'
      cases ht'
      exact hle
    · exact Nat.le_of_lt hlt
  · rcases hother q s hq hstarts with heq | hlt
    · exact heq
    · exact absurd hlt (Nat.lt_irrefl _)

/-- No pattern takes anything exactly where none matches. -/
theorem firstOf_eq_none_iff {cs : List Char} :
    firstOf cs = none ↔ ∀ (p : Pattern) (s : List Char), p.Matches s → ¬ s <+: cs := by
  rw [firstOf, List.findSome?_eq_none_iff]
  constructor
  · intro h p s hp hs
    obtain ⟨t, ht, -⟩ := take?_of_matches hp hs
    have hnone := h p (mem_all p)
    rw [ht] at hnone
    cases hnone
  · intro h p _
    cases htake : p.take? cs with
    | none => rfl
    | some s =>
      obtain ⟨hp, hs⟩ := matches_of_take? htake
      exact absurd hs (h p s hp)

/-- A character is refused where it stands: a double quote that is never closed, half of a symbol that is written with a
character twice, or a character that starts nothing. -/
def Refused (ch : Char) (cs : List Char) : Prop :=
  ch = '"' ∧ '"' ∉ cs ∨ ch ∈ ['&', '|', ':'] ∧ cs.head? ≠ some ch ∨
    ∀ (p : Pattern) (s : List Char), ¬ p.Matches (ch :: s)

/-- But for these three, a character that starts a symbol is one. -/
theorem exists_symbol_of_start {m : Symbol} {ch : Char} {s : List Char} (h : m.text.toList = ch :: s)
    (hch : ch ∉ ['&', '|', ':']) : ∃ n ∈ symbols, n.text.toList = [ch] := by
  cases m <;> cases h <;> first | exact absurd (by decide) hch | decide

theorem refused_of_unmatched {ch : Char} {cs : List Char}
    (h : ∀ (p : Pattern) (s : List Char), p.Matches s → ¬ s <+: ch :: cs) : Refused ch cs := by
  have hone : ∀ p : Pattern, ¬ p.Matches [ch] := fun p hp => h p [ch] hp ⟨cs, rfl⟩
  by_cases hstarts : ∀ (p : Pattern) (s : List Char), ¬ p.Matches (ch :: s)
  · exact Or.inr (Or.inr hstarts)
  push Not at hstarts
  obtain ⟨p, s, hp⟩ := hstarts
  generalize hs : ch :: s = t at hp
  cases hp with
  | blanks _ hblank =>
    have hch := hblank ch (hs ▸ List.mem_cons_self)
    exact absurd (.blanks (by simp) (List.forall_mem_singleton.mpr hch)) (hone .blanks)
  | comment _ =>
    cases hs
    exact absurd (.comment List.not_mem_nil) (hone .comment)
  | word hc _ =>
    cases hs
    exact absurd (.word hc fun d hd => by cases hd) (hone .word)
  | whole _ hdigits =>
    have hch := hdigits ch (hs ▸ List.mem_cons_self)
    exact absurd (.whole (by simp) (List.forall_mem_singleton.mpr hch)) (hone .numeral)
  | @fraction whole _ hne hdigits _ _ =>
    obtain ⟨d, ds, rfl⟩ := List.exists_cons_of_ne_nil hne
    cases hs
    exact absurd (.whole (by simp) (List.forall_mem_singleton.mpr (hdigits ch List.mem_cons_self))) (hone .numeral)
  | string _ =>
    cases hs
    refine Or.inl ⟨rfl, fun hmem => ?_⟩
    obtain ⟨body, rest, hbody, rfl, -⟩ := takeWhile_of_mem hmem
    exact h .string _ (.string hbody) ⟨rest, by simp⟩
  | @symbol m =>
    by_cases hch : ch ∈ ['&', '|', ':']
    · refine Or.inr (Or.inl ⟨hch, fun hhead => ?_⟩)
      obtain ⟨rest, rfl⟩ := List.head?_eq_some_iff.mp hhead
      have htwice : ∃ n ∈ symbols, n.text.toList = [ch, ch] := by
        cases m <;> cases hs <;> first | decide | exact absurd hch (by decide)
      obtain ⟨n, -, hn⟩ := htwice
      exact h (.symbol n) _ .symbol ⟨rest, by rw [hn]; rfl⟩
    · obtain ⟨n, -, hn⟩ := exists_symbol_of_start hs.symm hch
      have hsymbol : (Pattern.symbol n).Matches n.text.toList := .symbol
      rw [hn] at hsymbol
      exact absurd hsymbol (hone (.symbol n))

theorem unmatched_of_refused {ch : Char} {cs : List Char} (h : Refused ch cs) (p : Pattern) (s : List Char)
    (hp : p.Matches s) : ¬ s <+: ch :: cs := by
  intro hstart
  obtain ⟨c, s, rfl⟩ := List.exists_cons_of_ne_nil hp.ne_nil
  obtain ⟨rfl, hs⟩ := List.cons_prefix_cons.mp hstart
  have hplain := startedBy?_of_matches hp
  rcases h with ⟨rfl, hnone⟩ | ⟨hch, hhead⟩ | hstarts
  · have hstarted : startedBy? '"' = some .string := by decide
    rw [hstarted] at hplain
    generalize htext : '"' :: s = t at hp
    cases hp with
    | @string body _ =>
      cases htext
      have hclosing : '"' ∈ body ++ ['"'] := by simp
      exact hnone (hs.subset hclosing)
    | _ => cases hplain
  · have hstarted : startedBy? c = none := by
      simp only [List.mem_cons, List.not_mem_nil, or_false] at hch
      rcases hch with rfl | rfl | rfl <;> decide
    rw [hstarted] at hplain
    generalize htext : c :: s = t at hp
    cases hp with
    | @symbol m =>
      have hagain : s = [c] := by cases m <;> cases htext <;> first | rfl | exact absurd hch (by decide)
      subst hagain
      obtain ⟨rest, rfl⟩ := hs
      exact hhead rfl
    | _ => cases hplain
  · exact hstarts p s hp

theorem firstOf_eq_none_iff_refused {ch : Char} {cs : List Char} : firstOf (ch :: cs) = none ↔ Refused ch cs :=
  firstOf_eq_none_iff.trans ⟨refused_of_unmatched, unmatched_of_refused⟩

/-! ## What a pattern's text spells -/

/-- No pattern matches more than the longest match. -/
theorem Longest.not_longer {p q : Pattern} {s rest more : List Char} (h : Longest p s (s ++ rest)) (hne : more ≠ [])
    (hmore : more <+: rest) : ¬ q.Matches (s ++ more) := by
  intro hq
  have hle := h.longest q _ hq ((List.prefix_append_right_inj s).mpr hmore)
  have hpos := List.length_pos_iff.mpr hne
  simp only [List.length_append] at hle
  omega

/-- What may not follow the longest match: a character with which it would still match. -/
theorem Longest.head?_rest {p q : Pattern} {s rest : List Char} (h : Longest p s (s ++ rest)) {f : Char → Bool}
    (hf : ∀ d, f d = true → q.Matches (s ++ [d])) : ∀ d ∈ rest.head?, f d = false := by
  intro d hd
  obtain ⟨after, rfl⟩ := List.head?_eq_some_iff.mp hd
  rw [← Bool.not_eq_true]
  intro hfd
  exact h.not_longer (List.cons_ne_nil d []) (List.cons_prefix_cons.mpr ⟨rfl, List.nil_prefix⟩) (hf d hfd)

/-- The longest match spells a lexeme where it stands. -/
theorem Longest.spelled {p : Pattern} {s rest : List Char} {l : Lexeme} (h : Longest p s (s ++ rest))
    (hl : p.lexeme? s = some l) : Lexeme.Spelled l s rest := by
  cases (h.only p).mpr rfl with
  | blanks _ _ => cases hl
  | comment _ => cases hl
  | @word c cs hc hcs =>
    cases hl
    refine .word hc hcs (h.head?_rest (q := .word) fun d hd => .word hc ?_)
    exact List.forall_mem_append.mpr ⟨hcs, List.forall_mem_singleton.mpr hd⟩
  | whole hne hdigits =>
    have hspan : (s ++ []).span Text.isDigit = (s, []) := Text.span_append hdigits (fun d hd => by cases hd)
    rw [List.append_nil] at hspan
    rw [lexeme?, hspan] at hl
    cases hl
    refine .whole hne hdigits (h.head?_rest (q := .numeral) fun d hd => .whole (by simp) ?_) ?_
    · exact List.forall_mem_append.mpr ⟨hdigits, List.forall_mem_singleton.mpr hd⟩
    · intro cs hcs d hd
      obtain ⟨after, rfl⟩ := List.head?_eq_some_iff.mp hd
      subst hcs
      rw [← Bool.not_eq_true]
      intro hdigit
      have hmore : ['.', d] <+: '.' :: d :: after := ⟨after, rfl⟩
      refine h.not_longer (q := .numeral) (List.cons_ne_nil _ _) hmore ?_
      exact .fraction hne hdigits (by simp) (List.forall_mem_singleton.mpr hdigit)
  | @fraction whole fraction hne hwhole hne' hfraction =>
    have hspan : (whole ++ '.' :: fraction).span Text.isDigit = (whole, '.' :: fraction) := by
      refine Text.span_append hwhole fun d hd => ?_
      cases hd
      decide
    rw [lexeme?, hspan] at hl
    cases hl
    refine .fraction hne hwhole hne' hfraction (h.head?_rest (q := .numeral) fun d hd => ?_)
    rw [List.append_assoc, List.cons_append]
    exact .fraction hne hwhole (by simp) (List.forall_mem_append.mpr ⟨hfraction, List.forall_mem_singleton.mpr hd⟩)
  | @string body hbody =>
    have hinner : (('"' :: body ++ ['"']).drop 1).dropLast = body := by simp
    rw [lexeme?, hinner] at hl
    cases hl
    exact .string hbody
  | @symbol m =>
    cases hl
    refine .symbol fun t d hd ht => ?_
    obtain ⟨after, rfl⟩ := List.head?_eq_some_iff.mp hd
    refine h.not_longer (q := .symbol t) (List.cons_ne_nil d []) ⟨after, rfl⟩ ?_
    rw [← ht]
    exact .symbol

theorem exists_matches_of_spelled {l : Lexeme} {s rest : List Char} (h : Lexeme.Spelled l s rest) :
    ∃ p : Pattern, p.Matches s := by
  cases h with
  | word hc hcs _ => exact ⟨_, .word hc hcs⟩
  | whole hne hdigits _ _ => exact ⟨_, .whole hne hdigits⟩
  | fraction hne hwhole hne' hfraction _ => exact ⟨_, .fraction hne hwhole hne' hfraction⟩
  | string hbody => exact ⟨_, .string hbody⟩
  | symbol _ => exact ⟨_, .symbol⟩

end Pattern

/-! ## Rounds -/

namespace Cursor

/-- One round of the lexer: what the first pattern that fits takes is passed over. A separator makes no token of it. -/
def round (c : Cursor) : Except LexError (Option Token × Cursor) :=
  match c.rest with
  | [] => .ok (some ⟨.endOfInput, c.offset, c.position⟩, c)
  | ch :: _ =>
    match Pattern.firstOf c.rest with
    | none => .error ⟨ch, c.offset, c.position⟩
    | some (p, spelling) =>
      .ok ((p.lexeme? spelling).map (⟨·, c.offset, c.position⟩), c.past spelling (c.rest.drop spelling.length))

/-- Where the lexer stands after a call: one that fails leaves it at the character that is refused. -/
def afterCall (c : Cursor) : Cursor :=
  match c.next with
  | .ok (_, d) => d
  | .error _ => c.skip

theorem gap_of_blanks {run : List Char} (h : ∀ c ∈ run, Text.isBlank c = true) : Gap false run := by
  induction run with
  | nil => exact .nil
  | cons c run ih =>
    obtain ⟨hc, hrun⟩ := List.forall_mem_cons.mp h
    exact .blank hc (ih hrun)

/-- A comment goes up to the end of its line, or of the text. -/
theorem skipFrom_comment {body rest : List Char} (hbody : '\n' ∉ body) (hrest : ∀ d ∈ rest.head?, d = '\n')
    (offset : Nat) (p : Position) :
    skipFrom true (body ++ rest) offset p = skipFrom false rest (offset + body.length) (p.after body) := by
  induction body generalizing offset p with
  | nil =>
    cases rest with
    | nil => rfl
    | cons d rest =>
      obtain rfl := hrest d rfl
      rfl
  | cons c body ih =>
    have hc : (c != '\n') = true := by simpa using (List.ne_of_not_mem_cons hbody).symm
    rw [List.cons_append, skipFrom, if_pos rfl, hc, ih (List.not_mem_of_not_mem_cons hbody), List.length_cons,
      Nat.add_assoc, Nat.add_comm 1]
    rfl

theorem skip_of_visible {ch : Char} {cs : List Char} (h : Lexeme.isVisible ch = true) (offset : Nat) (p : Position) :
    skip ⟨ch :: cs, offset, p⟩ = ⟨ch :: cs, offset, p⟩ := by
  have hhead : ∀ c ∈ (ch :: cs).head?, Lexeme.isVisible c = true := by
    intro c hc
    cases hc
    exact h
  exact skipFrom_gap .nil hhead offset p

/-- Where no pattern matches, there is nothing to skip and no lexeme. -/
theorem next_of_refused {ch : Char} {cs : List Char} (h : Pattern.firstOf (ch :: cs) = none) (offset : Nat)
    (p : Position) : next ⟨ch :: cs, offset, p⟩ = .error ⟨ch, offset, p⟩ := by
  rw [Pattern.firstOf_eq_none_iff] at h
  have hvisible : Lexeme.isVisible ch = true := by
    by_cases hblank : Text.isBlank ch = true
    · exact absurd ⟨cs, rfl⟩ (h .blanks [ch] (.blanks (by simp) (List.forall_mem_singleton.mpr hblank)))
    by_cases hquote : ch = '\''
    · subst hquote
      exact absurd ⟨cs, rfl⟩ (h .comment ['\''] (.comment List.not_mem_nil))
    simp [Lexeme.isVisible, hblank, hquote]
  cases hfirst : Lexeme.first? (ch :: cs) with
  | some r =>
    obtain ⟨l, spelling, rest⟩ := r
    obtain ⟨hsplit, hspelled⟩ := Lexeme.first?_eq_some_iff.mp hfirst
    obtain ⟨q, hq⟩ := Pattern.exists_matches_of_spelled hspelled
    exact absurd ⟨rest, hsplit.symm⟩ (h q spelling hq)
  | none =>
    rw [next, skip_of_visible hvisible]
    simp only [hfirst]

/-- What a pattern takes leads to a token, or is passed over. -/
theorem next_of_longest {q : Pattern} {spelling rest : List Char} (h : q.Longest spelling (spelling ++ rest))
    (offset : Nat) (p : Position) :
    next ⟨spelling ++ rest, offset, p⟩ =
      match q.lexeme? spelling with
      | some l => .ok (⟨l, offset, p⟩, ⟨rest, offset + spelling.length, p.after spelling⟩)
      | none => next ⟨rest, offset + spelling.length, p.after spelling⟩ := by
  cases hl : q.lexeme? spelling with
  | some l => exact next_of_spelled .nil (h.spelled hl) offset p
  | none =>
    cases (h.only q).mpr rfl with
    | blanks _ hblank => exact next_gap (gap_of_blanks hblank) rest offset p
    | @comment body hbody =>
      have hline : ∀ d ∈ rest.head?, (d != '\n') = false := by
        refine h.head?_rest (q := .comment) fun d hd => .comment (List.not_mem_append hbody ?_)
        simpa using (bne_iff_ne.mp hd).symm
      have hskip := skipFrom_comment hbody (fun d hd => by simpa using hline d hd) (offset + 1) (p.step '\'')
      have hstart : skipFrom false ('\'' :: body ++ rest) offset p =
          skipFrom true (body ++ rest) (offset + 1) (p.step '\'') := rfl
      rw [next, skip, hstart, hskip, next, skip, List.length_cons, Nat.add_assoc, Nat.add_comm 1]
      rfl
    | _ => cases hl

/-- A call is round after round, until one of them makes a token. -/
theorem next_eq_round (c : Cursor) :
    c.next = match c.round with
      | .error e => .error e
      | .ok (some t, d) => .ok (t, d)
      | .ok (none, d) => d.next := by
  obtain ⟨text, offset, p⟩ := c
  cases text with
  | nil => rfl
  | cons ch cs =>
    unfold round
    dsimp only
    cases hfirst : Pattern.firstOf (ch :: cs) with
    | none => exact next_of_refused hfirst offset p
    | some r =>
      obtain ⟨q, spelling⟩ := r
      have hlongest := Pattern.longest_of_firstOf hfirst
      obtain ⟨rest, hrest⟩ := hlongest.starts
      rw [← hrest] at hlongest ⊢
      rw [next_of_longest hlongest]
      dsimp only
      rw [List.drop_left]
      cases q.lexeme? spelling <;> rfl

theorem skip_skipFrom (inComment : Bool) (cs : List Char) (offset : Nat) (p : Position) :
    (skipFrom inComment cs offset p).skip = skipFrom inComment cs offset p := by
  fun_induction skipFrom inComment cs offset p with
  | case1 => rfl
  | case2 _ _ _ _ ih => exact ih
  | case3 _ _ _ _ _ _ _ ih => exact ih
  | case4 _ _ _ _ _ _ _ _ ih => exact ih
  | case5 _ _ _ _ _ _ hblank hquote => simp [skip, skipFrom, hblank, hquote]

theorem skip_skip (c : Cursor) : c.skip.skip = c.skip := skip_skipFrom false c.rest c.offset c.position

/-- After a call that fails every call fails in the same way. -/
theorem next_afterCall {c : Cursor} {e : LexError} (h : c.next = .error e) (n : Nat) :
    (afterCall^[n] c).next = .error e := by
  induction n generalizing c with
  | zero => exact h
  | succ n ih =>
    refine ih ?_
    have hskip : c.skip.next = c.next := by rw [next, skip_skip, next]
    rw [afterCall, h]
    exact hskip.trans h

/-- Before the end of a text a call is round after round. What a round passes over is the longest prefix of the text
that any pattern matches, and only one pattern matches that; it fails exactly where no pattern matches any prefix. After
a call that fails every further one fails in the same way. -/
theorem round_takes_longest (ch : Char) (cs : List Char) (offset : Nat) (position : Position) :
    let c : Cursor := ⟨ch :: cs, offset, position⟩
    (c.next = match c.round with
      | .error e => .error e
      | .ok (some t, d) => .ok (t, d)
      | .ok (none, d) => d.next) ∧
    ((∃ (p : Pattern) (spelling rest : List Char), p.Longest spelling (ch :: cs) ∧ ch :: cs = spelling ++ rest ∧
        c.round = .ok ((p.lexeme? spelling).map (⟨·, offset, position⟩), c.past spelling rest)) ∨
      c.round = .error ⟨ch, offset, position⟩) ∧
    (c.round = .error ⟨ch, offset, position⟩ ↔
      ∀ (p : Pattern) (s : List Char), p.Matches s → ¬ s <+: ch :: cs) ∧
    (c.round = .error ⟨ch, offset, position⟩ ↔ Pattern.Refused ch cs) ∧
    ∀ e, c.next = .error e → ∀ n, (afterCall^[n] c).next = .error e := by
  intro c
  have hfails : c.round = .error ⟨ch, offset, position⟩ ↔ Pattern.firstOf (ch :: cs) = none := by
    unfold round
    dsimp only [c]
    cases Pattern.firstOf (ch :: cs) <;> simp
  refine ⟨next_eq_round c, ?_, hfails.trans Pattern.firstOf_eq_none_iff,
    hfails.trans Pattern.firstOf_eq_none_iff_refused, fun e he => next_afterCall he⟩
  cases hfirst : Pattern.firstOf (ch :: cs) with
  | none => exact Or.inr (hfails.mpr hfirst)
  | some r =>
    obtain ⟨p, spelling⟩ := r
    have hlongest := Pattern.longest_of_firstOf hfirst
    obtain ⟨rest, hrest⟩ := hlongest.starts
    refine Or.inl ⟨p, spelling, rest, hlongest, hrest.symm, ?_⟩
    have hdrop : (ch :: cs).drop spelling.length = rest := by rw [← hrest, List.drop_left]
    unfold round
    dsimp only [c]
    rw [hfirst]
    dsimp only
    rw [hdrop]

/-- Half of a symbol is refused, as often as one asks. -/
theorem round_takes_longest_half :
    Pattern.Refused '&' ['x'] ∧ ∀ n, (afterCall^[n] (start "&x".toList)).next = .error ⟨'&', 0, {}⟩ := by
  obtain ⟨-, -, -, hrefused, hagain⟩ := round_takes_longest '&' ['x'] 0 {}
  exact ⟨hrefused.mp rfl, hagain _ rfl⟩

end Cursor

end Curried
