/-
  Curried.Proofs.Spelling — how lexemes are spelled.

  `Lexeme.Spelled l spelling rest` says that `spelling`, with `rest` after it, is read as the lexeme `l`; this is what
  `Lexeme.first?` computes (`Lexeme.first?_eq_some_iff`). How much a spelling depends on what follows it is then plain:
  a lexeme is read in the same way before any text that starts with white space, an apostrophe, a bracket, a comma or a
  semicolon (`Lexeme.Spelled.cut`).

  `Cursor.Takes c ts d` says that the tokens `ts` are taken between the cursors `c` and `d`. What stands behind `d` can
  be replaced by any text that starts in one of these ways, and the tokens stay as they are (`Cursor.Takes.cut`). A
  text is written from spellings with `Writes`.
-/

import Curried.Proofs.Places
import Mathlib.Data.List.Forall2

namespace Curried

/-! ## Characters -/

namespace Text

theorem exists_zero_of_isDigit {c : Char} (h : isDigit c = true) : ∃ z ∈ zeros, ∃ d < 10, c.toNat = z + d := by
  rw [isDigit, digitValue?, Option.isSome_map] at h
  obtain ⟨z, hz⟩ := Option.isSome_iff_exists.mp h
  have hrange := List.find?_some hz
  simp only [Bool.and_eq_true, decide_eq_true_eq] at hrange
  exact ⟨z, List.mem_of_find?_eq_some hz, c.toNat - z, by omega, by omega⟩

/-- A property of codes that no digit of any script has. -/
theorem not_of_isDigit {p : Nat → Bool} (hp : ∀ z ∈ zeros, ∀ d < 10, p (z + d) = false) {c : Char}
    (h : isDigit c = true) : p c.toNat = false := by
  obtain ⟨z, hz, d, hd, hc⟩ := exists_zero_of_isDigit h
  rw [hc]
  exact hp z hz d hd

theorem span_append {p : Char → Bool} {cs rest : List Char} (hcs : ∀ c ∈ cs, p c = true)
    (hrest : ∀ c ∈ rest.head?, p c = false) : (cs ++ rest).span p = (cs, rest) := by
  rw [List.span_eq_takeWhile_dropWhile, List.takeWhile_append_of_pos hcs, List.dropWhile_append_of_pos hcs]
  cases rest with
  | nil => simp
  | cons c rest =>
    have hc : ¬ p c = true := by simp [hrest c rfl]
    rw [List.takeWhile_cons_of_neg hc, List.dropWhile_cons_of_neg hc, List.append_nil]

theorem span_split {p : Char → Bool} {cs front rest : List Char} (h : cs.span p = (front, rest)) :
    cs = front ++ rest ∧ (∀ c ∈ front, p c = true) ∧ ∀ c ∈ rest.head?, p c = false := by
  rw [List.span_eq_takeWhile_dropWhile] at h
  cases h
  refine ⟨List.takeWhile_append_dropWhile.symm, fun c hc => List.all_eq_true.mp List.all_takeWhile c hc,
    fun c hc => ?_⟩
  have hhead := List.head?_dropWhile_not p cs
  rw [Option.mem_def.mp hc] at hhead
  exact hhead

theorem span_cons {p : Char → Bool} {c : Char} {cs front rest : List Char} (hc : p c = true)
    (h : (c :: cs).span p = (front, rest)) : ∃ ds, front = c :: ds := by
  rw [List.span_eq_takeWhile_dropWhile, List.takeWhile_cons_of_pos hc] at h
  exact ⟨_, (congrArg Prod.fst h).symm⟩

end Text

namespace Lexeme

theorem beq_eq_code (c d : Char) : (c == d) = (c.toNat == d.toNat) := by
  rw [Bool.eq_iff_iff, beq_iff_eq, beq_iff_eq]
  exact Char.toNat_inj.symm

def isNameStartCode (n : Nat) : Bool := (65 ≤ n && n ≤ 90) || (97 ≤ n && n ≤ 122) || n == 95

theorem isNameStart_eq (c : Char) : isNameStart c = isNameStartCode c.toNat := by
  have hupper : c.isUpper = (decide (65 ≤ c.toNat) && decide (c.toNat ≤ 90)) :=
    Bool.decide_and (65 ≤ c.toNat) (c.toNat ≤ 90)
  have hlower : c.isLower = (decide (97 ≤ c.toNat) && decide (c.toNat ≤ 122)) := rfl
  show (c.isUpper || c.isLower || c == '_') = isNameStartCode c.toNat
  rw [hupper, hlower, beq_eq_code]
  rfl

theorem isNamePart_eq (c : Char) :
    isNamePart c = (isNameStartCode c.toNat || (48 ≤ c.toNat && c.toNat ≤ 57)) := by
  rw [← isNameStart_eq, isNamePart, isNameStart, Char.isAlphanum, Bool.or_right_comm]
  simp only [Char.isDigit, ge_iff_le, UInt32.le_iff_toNat_le, Char.toNat]
  congr

theorem isNameStart_of_isDigit {c : Char} (h : Text.isDigit c = true) : isNameStart c = false := by
  rw [isNameStart_eq]
  exact Text.not_of_isDigit (by decide +kernel) h

def isBreakCode (n : Nat) : Bool :=
  Text.isBlankCode n || (['\'', '(', ')', '[', ']', ',', ';'].map Char.toNat).contains n

/-- The characters before which every lexeme ends: white space, the apostrophe of a comment, brackets, commas and
semicolons. -/
def isBreak (c : Char) : Bool := isBreakCode c.toNat

theorem isBreak_of_isNamePart {c : Char} (h : isNamePart c = true) : isBreak c = false := by
  rw [isNamePart_eq] at h
  rw [isBreak]
  generalize c.toNat = n at h
  simp [isNameStartCode, isBreakCode, Text.isBlankCode] at h ⊢
  omega

theorem isBreak_of_isDigit {c : Char} (h : Text.isDigit c = true) : isBreak c = false :=
  Text.not_of_isDigit (p := isBreakCode) (by decide +kernel) h

theorem isNamePart_of_isBreak {c : Char} (h : isBreak c = true) : isNamePart c = false :=
  Bool.eq_false_iff.mpr fun hc => by cases (isBreak_of_isNamePart hc).symm.trans h

theorem isDigit_of_isBreak {c : Char} (h : isBreak c = true) : Text.isDigit c = false :=
  Bool.eq_false_iff.mpr fun hc => by cases (isBreak_of_isDigit hc).symm.trans h

def Breaks (cs : List Char) : Prop := ∀ c ∈ cs.head?, isBreak c = true

theorem breaks_nil : Breaks [] := by
  intro c hc
  cases hc

theorem breaks_cons {c : Char} (hc : isBreak c = true) (cs : List Char) : Breaks (c :: cs) := by
  intro d hd
  cases hd
  exact hc

/-! ## Lexemes -/

/-- A lexeme, a spelling of it, and what may follow that spelling. -/
inductive Spelled : Lexeme → List Char → List Char → Prop
  | word {c : Char} {cs rest : List Char} : isNameStart c = true → (∀ d ∈ cs, isNamePart d = true) →
      (∀ d ∈ rest.head?, isNamePart d = false) → Spelled (ofWord (String.ofList (c :: cs))) (c :: cs) rest
  /-- A numeral without a fraction; a point after it that has a digit after it would start one. -/
  | whole {digits rest : List Char} : digits ≠ [] → (∀ d ∈ digits, Text.isDigit d = true) →
      (∀ d ∈ rest.head?, Text.isDigit d = false) →
      (∀ cs, rest = '.' :: cs → ∀ d ∈ cs.head?, Text.isDigit d = false) →
      Spelled (.number (Decimal.ofNumeral digits [] 0)) digits rest
  | fraction {whole fraction rest : List Char} : whole ≠ [] → (∀ d ∈ whole, Text.isDigit d = true) →
      fraction ≠ [] → (∀ d ∈ fraction, Text.isDigit d = true) → (∀ d ∈ rest.head?, Text.isDigit d = false) →
      Spelled (.number (Decimal.ofNumeral whole fraction 0)) (whole ++ '.' :: fraction) rest
  | string {body rest : List Char} : '"' ∉ body → Spelled (.string (String.ofList body)) ('"' :: body ++ ['"']) rest
  /-- A symbol that is not the start of a longer one. -/
  | symbol {s : Symbol} {rest : List Char} : (∀ t : Symbol, ∀ d ∈ rest.head?, t.text.toList ≠ s.text.toList ++ [d]) →
      Spelled (.symbol s) s.text.toList rest

theorem fractionAt_of_whole {rest : List Char}
    (h : ∀ cs, rest = '.' :: cs → ∀ d ∈ cs.head?, Text.isDigit d = false) : fractionAt rest = ([], rest) := by
  unfold fractionAt
  split
  · rename_i cs
    have hspan : ([] ++ cs).span Text.isDigit = ([], cs) := Text.span_append nofun (h cs rfl)
    rw [List.nil_append] at hspan
    rw [hspan]
    rfl
  · rfl

theorem fractionAt_of_fraction {fraction rest : List Char} (hne : fraction ≠ [])
    (hdigits : ∀ d ∈ fraction, Text.isDigit d = true) (hrest : ∀ d ∈ rest.head?, Text.isDigit d = false) :
    fractionAt ('.' :: (fraction ++ rest)) = ('.' :: fraction, rest) := by
  rw [fractionAt, Text.span_append hdigits hrest]
  simp [hne]

theorem fractionAt_split (cs : List Char) :
    (fractionAt cs = ([], cs) ∧ ∀ ds, cs = '.' :: ds → ∀ d ∈ ds.head?, Text.isDigit d = false) ∨
      ∃ fraction rest, fractionAt cs = ('.' :: fraction, rest) ∧ cs = '.' :: (fraction ++ rest) ∧ fraction ≠ [] ∧
        (∀ d ∈ fraction, Text.isDigit d = true) ∧ ∀ d ∈ rest.head?, Text.isDigit d = false := by
  by_cases h : ∀ ds, cs = '.' :: ds → ∀ d ∈ ds.head?, Text.isDigit d = false
  · exact Or.inl ⟨fractionAt_of_whole h, h⟩
  · push Not at h
    obtain ⟨ds, rfl, d, hd, hdigit⟩ := h
    obtain ⟨es, rfl⟩ := List.head?_eq_some_iff.mp hd
    cases hspan : (d :: es).span Text.isDigit with
    | mk fraction rest =>
      obtain ⟨hsplit, hfront, hrest⟩ := Text.span_split hspan
      obtain ⟨fraction, rfl⟩ := Text.span_cons (Bool.of_not_eq_false hdigit) hspan
      refine Or.inr ⟨_, rest, ?_, congrArg ('.' :: ·) hsplit, nofun, hfront, hrest⟩
      rw [hsplit]
      exact fractionAt_of_fraction nofun hfront hrest

theorem text_length (s : Symbol) : s.text.toList.length = 1 ∨ s.text.toList.length = 2 := by
  cases s <;> decide

theorem symbolAt_text {s : Symbol} {rest : List Char}
    (h : ∀ t : Symbol, ∀ d ∈ rest.head?, t.text.toList ≠ s.text.toList ++ [d]) :
    symbolAt (s.text.toList ++ rest) = some (s, s.text.toList.length) := by
  cases rest with
  | nil => cases s <;> rfl
  | cons d rest =>
    have hd : ∀ t : Symbol, t.text.toList = s.text.toList ++ [d] → False := fun t => h t d rfl
    cases s with
    -- only these four are the start of a longer symbol
    | less =>
      have hne : d ≠ '=' := fun he => hd .lessEqual (he ▸ rfl)
      simp [Symbol.text, symbolAt, hne]
    | greater =>
      have hne : d ≠ '=' := fun he => hd .greaterEqual (he ▸ rfl)
      simp [Symbol.text, symbolAt, hne]
    | bang =>
      have hne : d ≠ '=' := fun he => hd .unequal (he ▸ rfl)
      simp [Symbol.text, symbolAt, hne]
    | dot =>
      have hne : d ≠ '.' := fun he => hd .dotDot (he ▸ rfl)
      simp [Symbol.text, symbolAt, hne]
    | _ => rfl

theorem symbolAt_split {cs : List Char} {s : Symbol} {n : Nat} (h : symbolAt cs = some (s, n)) :
    ∃ rest, cs = s.text.toList ++ rest ∧ n = s.text.toList.length ∧
      ∀ t : Symbol, ∀ d ∈ rest.head?, t.text.toList ≠ s.text.toList ++ [d] := by
  have hsplit : ∃ rest, cs = s.text.toList ++ rest ∧ n = s.text.toList.length := by
    unfold symbolAt at h
    split at h <;> cases h <;> exact ⟨_, rfl, rfl⟩
  obtain ⟨rest, hcs, hn⟩ := hsplit
  refine ⟨rest, hcs, hn, fun t d hd ht => ?_⟩
  -- of a longer symbol that fits, the lexer would have taken that one
  obtain ⟨rest, rfl⟩ := List.head?_eq_some_iff.mp hd
  have hlong : symbolAt (t.text.toList ++ rest) = some (t, t.text.toList.length) := by
    refine symbolAt_text fun u e _ hu => ?_
    have hs := text_length s
    have hu' := text_length u
    have h1 := congrArg List.length ht
    have h2 := congrArg List.length hu
    simp only [List.length_append, List.length_cons, List.length_nil] at h1 h2
    omega
  rw [ht, List.append_assoc] at hlong
  have heq := h.symm.trans (hcs ▸ hlong)
  have hst : s = t := congrArg Prod.fst (Option.some.inj heq)
  have hlength := congrArg List.length ht
  rw [hst] at hlength
  simp at hlength

theorem exists_cons_of_digits {cs : List Char} (hne : cs ≠ []) (hdigits : ∀ d ∈ cs, Text.isDigit d = true) :
    ∃ d ds, cs = d :: ds ∧ Text.isDigit d = true ∧ isNameStart d = false := by
  obtain ⟨d, ds, rfl⟩ := List.exists_cons_of_ne_nil hne
  have hd := hdigits d List.mem_cons_self
  exact ⟨d, ds, rfl, hd, isNameStart_of_isDigit hd⟩

/-- A text that starts with digits is read as a numeral. -/
theorem first?_of_digits {digits rest : List Char} (hne : digits ≠ [])
    (hdigits : ∀ d ∈ digits, Text.isDigit d = true) (hrest : ∀ d ∈ rest.head?, Text.isDigit d = false) :
    first? (digits ++ rest) = some (.number (Decimal.ofNumeral digits ((fractionAt rest).1.drop 1) 0),
      digits ++ (fractionAt rest).1, (fractionAt rest).2) := by
  have hspan := Text.span_append hdigits hrest
  obtain ⟨d, ds, rfl, hd, hname⟩ := exists_cons_of_digits hne hdigits
  rw [List.cons_append] at hspan ⊢
  unfold first?
  dsimp only
  rw [if_neg (Bool.eq_false_iff.mp hname), if_pos hd, hspan]

theorem first?_of_spelled {l : Lexeme} {spelling rest : List Char} (h : Spelled l spelling rest) :
    first? (spelling ++ rest) = some (l, spelling, rest) := by
  cases h with
  | @word c cs _ hc hcs hrest =>
    have hall : ∀ d ∈ c :: cs, isNamePart d = true :=
      List.forall_mem_cons.mpr ⟨isNamePart_of_isNameStart hc, hcs⟩
    have hspan := Text.span_append hall hrest
    rw [List.cons_append] at hspan ⊢
    unfold first?
    dsimp only
    rw [if_pos hc, hspan]
  | whole hne hdigits hrest hpoint =>
    rw [first?_of_digits hne hdigits hrest, fractionAt_of_whole hpoint, List.append_nil]
    rfl
  | @fraction whole fraction _ hne hwhole hne' hfraction hrest =>
    have hpoint : ∀ d ∈ ('.' :: (fraction ++ rest)).head?, Text.isDigit d = false := by
      intro d hd
      cases hd
      decide
    rw [List.append_assoc, List.cons_append, first?_of_digits hne hwhole hpoint,
      fractionAt_of_fraction hne' hfraction hrest]
    rfl
  | @string body _ hbody =>
    have hspan : (body ++ '"' :: rest).span (· != '"') = (body, '"' :: rest) := by
      refine Text.span_append (fun d hd => ?_) fun d hd => ?_
      · rw [bne_iff_ne]
        exact fun he => hbody (he ▸ hd)
      · cases hd
        rfl
    have htext : '"' :: body ++ ['"'] ++ rest = '"' :: (body ++ '"' :: rest) := by simp
    rw [htext]
    unfold first?
    dsimp only
    rw [if_neg (by decide), if_neg (by decide), if_pos (by decide), hspan]
  | @symbol s _ hrest =>
    have hat := symbolAt_text hrest
    obtain ⟨c, cs, hcs, hname, hdigit, hquote⟩ : ∃ c cs, s.text.toList = c :: cs ∧ isNameStart c = false ∧
        Text.isDigit c = false ∧ c ≠ '"' := by
      cases s <;> exact ⟨_, _, rfl, by decide, by decide, by decide⟩
    have htake : (s.text.toList ++ rest).take s.text.toList.length = s.text.toList := List.take_left
    have hdrop : (s.text.toList ++ rest).drop s.text.toList.length = rest := List.drop_left
    rw [hcs] at hat htake hdrop ⊢
    rw [List.cons_append] at hat htake hdrop ⊢
    unfold first?
    dsimp only
    rw [if_neg (Bool.eq_false_iff.mp hname), if_neg (Bool.eq_false_iff.mp hdigit), if_neg (by simpa using hquote), hat]
    simp only [Option.map_some, htake, hdrop]

theorem spelled_of_first? {cs : List Char} {l : Lexeme} {spelling rest : List Char}
    (h : first? cs = some (l, spelling, rest)) : Spelled l spelling rest := by
  unfold first? at h
  split at h
  · cases h
  · rename_i c tail
    split at h
    · rename_i hname
      cases hspan : (c :: tail).span isNamePart with
      | mk word after =>
        rw [hspan] at h
        cases h
        obtain ⟨-, hfront, hrest⟩ := Text.span_split hspan
        obtain ⟨cs, rfl⟩ := Text.span_cons (isNamePart_of_isNameStart hname) hspan
        exact .word hname (List.forall_mem_cons.mp hfront).2 hrest
    · split at h
      · rename_i hdigit
        cases hspan : (c :: tail).span Text.isDigit with
        | mk whole after =>
          rw [hspan] at h
          dsimp only at h
          obtain ⟨-, hfront, hrest⟩ := Text.span_split hspan
          have hne : whole ≠ [] := by
            obtain ⟨cs, rfl⟩ := Text.span_cons hdigit hspan
            exact nofun
          rcases fractionAt_split after with ⟨hnone, hpoint⟩ | ⟨fraction, rest', hsome, hafter, hne', hfraction, hrest'⟩
          · rw [hnone] at h
            cases h
            rw [List.append_nil]
            exact .whole hne hfront hrest hpoint
          · rw [hsome] at h
            cases h
            exact .fraction hne hfront hne' hfraction hrest'
      · split at h
        · rename_i hquote
          split at h
          · rename_i body q after hspan
            obtain ⟨hsplit, hfront, hrest⟩ := Text.span_split hspan
            have hq := hrest q rfl
            cases h
            rw [bne_eq_false_iff_eq.mp hq, eq_of_beq hquote]
            refine .string fun hmem => ?_
            cases hfront _ hmem
          · cases h
        · obtain ⟨⟨s, n⟩, hs, hsplit⟩ := Option.map_eq_some_iff.mp h
          obtain ⟨after, hcs, hn, hlonger⟩ := symbolAt_split hs
          cases hsplit
          rw [hcs, hn, List.take_left, List.drop_left]
          exact .symbol hlonger

/-- What the lexer takes from the start of a text. -/
theorem first?_eq_some_iff {cs : List Char} {l : Lexeme} {spelling rest : List Char} :
    first? cs = some (l, spelling, rest) ↔ cs = spelling ++ rest ∧ Spelled l spelling rest := by
  refine ⟨fun h => ⟨(first?_splits h).1, spelled_of_first? h⟩, fun ⟨hcs, h⟩ => ?_⟩
  rw [hcs]
  exact first?_of_spelled h

/-- No symbol is longer than another by a break. -/
theorem isBreak_of_longer {s t : Symbol} {d : Char} (h : t.text.toList = s.text.toList ++ [d]) : isBreak d = false := by
  have hd : t.text.toList.getLast? = some d := by rw [h, List.getLast?_concat]
  have hlength : t.text.toList.length = s.text.toList.length + 1 := by rw [h, List.length_append]; rfl
  have hs := text_length s
  cases t <;> first | (cases hd; decide) | (exfalso; change 1 = _ at hlength; omega)

namespace Spelled

variable {l : Lexeme} {spelling : List Char}

theorem ne_nil {rest : List Char} (h : Spelled l spelling rest) : spelling ≠ [] :=
  (first?_splits (first?_of_spelled h)).2.1

theorem ne_endOfInput {rest : List Char} (h : Spelled l spelling rest) : l ≠ .endOfInput :=
  (first?_splits (first?_of_spelled h)).2.2

theorem keyword (k : Keyword) : Spelled (.keyword k) k.text.toList [] := by
  have hfirst : first? k.text.toList = some (.keyword k, k.text.toList, []) := by cases k <;> rfl
  exact spelled_of_first? hfirst

end Spelled

theorem head?_cut {p : Char → Bool} (hp : ∀ c, isBreak c = true → p c = false) {cs old new : List Char}
    (h : ∀ c ∈ (cs ++ old).head?, p c = false) (hnew : Breaks new) : ∀ c ∈ (cs ++ new).head?, p c = false := by
  cases cs with
  | nil => exact fun c hc => hp c (hnew c hc)
  | cons d cs => exact h

/-- What follows a lexeme can be cut short before a break. -/
theorem Spelled.cut {l : Lexeme} {spelling cs old new : List Char} (h : Spelled l spelling (cs ++ old))
    (hnew : Breaks new) : Spelled l spelling (cs ++ new) := by
  have hdigit := @head?_cut Text.isDigit fun _ => isDigit_of_isBreak
  cases h with
  | word hc hcs hrest => exact .word hc hcs (head?_cut (fun _ => isNamePart_of_isBreak) hrest hnew)
  | whole hne hdigits hrest hpoint =>
    refine .whole hne hdigits (hdigit hrest hnew) fun ds hds => ?_
    cases cs with
    | nil => cases hnew '.' (by rw [List.nil_append] at hds; rw [hds]; rfl)
    | cons c cs =>
      cases hds
      exact hdigit (hpoint (cs ++ old) rfl) hnew
  | fraction hne hwhole hne' hfraction hrest => exact .fraction hne hwhole hne' hfraction (hdigit hrest hnew)
  | string hbody => exact .string hbody
  | @symbol s _ hlonger =>
    refine .symbol fun t d hd ht => ?_
    cases cs with
    | nil => cases (isBreak_of_longer ht).symm.trans (hnew d hd)
    | cons c cs => exact hlonger t d hd ht

theorem Spelled.before {l : Lexeme} {spelling old new : List Char} (h : Spelled l spelling old) (hnew : Breaks new) :
    Spelled l spelling new := by
  have h' : Spelled l spelling ([] ++ old) := h
  exact h'.cut hnew

def isVisible (c : Char) : Bool := !Text.isBlank c && c != '\''

theorem isVisible_of_isBreak {c : Char} (h : isBreak c = false) : isVisible c = true := by
  rw [isBreak, isBreakCode, Bool.or_eq_false_iff] at h
  have hquote : c ≠ '\'' := by
    intro he
    subst he
    cases h.2
  simp [isVisible, Text.isBlank, h.1, hquote]

theorem Spelled.visible {l : Lexeme} {spelling rest : List Char} (h : Spelled l spelling rest) :
    ∀ c ∈ (spelling ++ rest).head?, isVisible c = true := by
  intro c hc
  cases h with
  | word hname _ _ =>
    cases hc
    exact isVisible_of_isBreak (isBreak_of_isNamePart (isNamePart_of_isNameStart hname))
  | whole hne hdigits _ _ =>
    obtain ⟨d, ds, rfl, hd, -⟩ := exists_cons_of_digits hne hdigits
    cases hc
    exact isVisible_of_isBreak (isBreak_of_isDigit hd)
  | fraction hne hwhole _ _ _ =>
    obtain ⟨d, ds, rfl, hd, -⟩ := exists_cons_of_digits hne hwhole
    cases hc
    exact isVisible_of_isBreak (isBreak_of_isDigit hd)
  | string _ =>
    cases hc
    decide
  | @symbol s _ _ => cases s <;> cases hc <;> decide

end Lexeme

/-! ## Tokens -/

namespace Cursor

/-- White space and comments, from outside a comment or from inside one, up to where the lexer stands outside. -/
inductive Gap : Bool → List Char → Prop
  | nil : Gap false []
  | blank {c : Char} {cs : List Char} : Text.isBlank c = true → Gap false cs → Gap false (c :: cs)
  | open {cs : List Char} : Gap true cs → Gap false ('\'' :: cs)
  | comment {c : Char} {cs : List Char} : Gap (c != '\n') cs → Gap true (c :: cs)

theorem skipFrom_gap {inComment : Bool} {gap rest : List Char} (h : Gap inComment gap)
    (hrest : ∀ c ∈ rest.head?, Lexeme.isVisible c = true) (offset : Nat) (p : Position) :
    skipFrom inComment (gap ++ rest) offset p = ⟨rest, offset + gap.length, p.after gap⟩ := by
  induction h generalizing offset p with
  | nil =>
    cases rest with
    | nil => rfl
    | cons c rest =>
      have hc := hrest c rfl
      simp only [Lexeme.isVisible, Bool.and_eq_true, Bool.not_eq_true', bne_iff_ne] at hc
      simp [skipFrom, hc.1, hc.2, Position.after]
  | @blank c cs hc _ ih =>
    rw [List.cons_append, skipFrom, if_neg Bool.false_ne_true, if_pos hc, ih]
    simp only [List.length_cons, mk.injEq, true_and]
    exact ⟨by omega, rfl⟩
  | @«open» cs _ ih =>
    rw [List.cons_append, skipFrom, if_neg Bool.false_ne_true, if_neg (by decide), if_pos (by decide), ih]
    simp only [List.length_cons, mk.injEq, true_and]
    exact ⟨by omega, rfl⟩
  | @comment c cs _ ih =>
    rw [List.cons_append, skipFrom, if_pos rfl, ih]
    simp only [List.length_cons, mk.injEq, true_and]
    exact ⟨by omega, rfl⟩

theorem gap_of_skipFrom {inComment : Bool} {cs : List Char} {offset : Nat} {p : Position} {c : Char}
    {rest : List Char} (h : (skipFrom inComment cs offset p).rest = c :: rest) :
    ∃ gap, cs = gap ++ c :: rest ∧ Gap inComment gap := by
  fun_induction skipFrom inComment cs offset p with
  | case1 => cases h
  | case2 d ds _ _ ih =>
    obtain ⟨gap, rfl, hgap⟩ := ih h
    exact ⟨d :: gap, rfl, .comment hgap⟩
  | case3 inComment d ds _ _ hc hblank ih =>
    obtain ⟨gap, rfl, hgap⟩ := ih h
    rw [Bool.not_eq_true] at hc
    subst hc
    exact ⟨d :: gap, rfl, .blank hblank hgap⟩
  | case4 inComment d ds _ _ hc _ hquote ih =>
    obtain ⟨gap, rfl, hgap⟩ := ih h
    rw [Bool.not_eq_true] at hc
    subst hc
    rw [eq_of_beq hquote]
    exact ⟨'\'' :: gap, rfl, .open hgap⟩
  | case5 inComment d ds _ _ hc _ _ =>
    rw [Bool.not_eq_true] at hc
    subst hc
    exact ⟨[], h, .nil⟩

/-- A token is taken after white space and comments, where its lexeme is spelled. -/
theorem next_of_spelled {gap spelling rest : List Char} {l : Lexeme} (hgap : Gap false gap)
    (hl : Lexeme.Spelled l spelling rest) (offset : Nat) (p : Position) :
    next ⟨gap ++ (spelling ++ rest), offset, p⟩ = .ok (⟨l, offset + gap.length, p.after gap⟩,
      ⟨rest, offset + gap.length + spelling.length, (p.after gap).after spelling⟩) := by
  have hskip := skipFrom_gap hgap hl.visible offset p
  obtain ⟨c, cs, rfl⟩ := List.exists_cons_of_ne_nil hl.ne_nil
  have hfirst := Lexeme.first?_of_spelled hl
  unfold next skip
  dsimp only
  rw [hskip]
  rw [List.cons_append] at hfirst ⊢
  dsimp only
  rw [hfirst]
  rfl

theorem exists_of_next {c d : Cursor} {t : Token} (h : c.next = .ok (t, d)) (ht : t.lexeme ≠ .endOfInput) :
    ∃ gap spelling, c.rest = gap ++ (spelling ++ d.rest) ∧ Gap false gap ∧
      Lexeme.Spelled t.lexeme spelling d.rest := by
  unfold next at h
  dsimp only at h
  split at h
  · cases h
    exact absurd rfl ht
  · rename_i ch cs hrest
    split at h
    · rename_i lexeme spelling rest hfirst
      cases h
      rw [hrest] at hfirst
      obtain ⟨hcs, hspelled⟩ := Lexeme.first?_eq_some_iff.mp hfirst
      obtain ⟨gap, hgap, hg⟩ := gap_of_skipFrom hrest
      exact ⟨gap, spelling, by rw [hgap, hcs]; rfl, hg, hspelled⟩
    · cases h

theorem length_of_next {c d : Cursor} {t : Token} (h : c.next = .ok (t, d)) (ht : t.lexeme ≠ .endOfInput) :
    d.rest.length < c.rest.length := by
  obtain ⟨gap, spelling, hrest, -, hspelled⟩ := exists_of_next h ht
  have hpos := List.length_pos_iff.mpr hspelled.ne_nil
  rw [hrest]
  simp only [List.length_append]
  omega

def tokens (c : Cursor) : Tokens := Tokens.scanFrom (c.rest.length + 1) c

/-- More fuel than there are characters changes nothing. -/
theorem scanFrom_eq_tokens {fuel : Nat} {c : Cursor} (hfuel : c.rest.length < fuel) :
    Tokens.scanFrom fuel c = c.tokens := by
  have hany : ∀ n m (c : Cursor), c.rest.length < n → c.rest.length < m →
      Tokens.scanFrom n c = Tokens.scanFrom m c := by
    intro n
    induction n with
    | zero => exact fun _ _ hn => absurd hn (Nat.not_lt_zero _)
    | succ n ih =>
      intro m c hn hm
      obtain ⟨m, rfl⟩ := Nat.exists_eq_succ_of_ne_zero (Nat.ne_zero_of_lt hm)
      unfold Tokens.scanFrom
      split
      · rfl
      · rename_i t d hnext
        split
        · rfl
        · rename_i ht
          have hless := length_of_next hnext ht
          rw [ih m d (by omega) (by omega)]
  exact hany _ _ c hfuel (Nat.lt_succ_self _)

theorem scanFrom_of_next {c d : Cursor} {t : Token} (h : c.next = .ok (t, d)) (ht : t.lexeme ≠ .endOfInput)
    (fuel : Nat) : Tokens.scanFrom (fuel + 1) c = .cons t (Tokens.scanFrom fuel d) := by
  rw [Tokens.scanFrom, h]
  dsimp only
  split
  · rename_i he
    exact absurd he ht
  · rfl

theorem tokens_of_next {c d : Cursor} {t : Token} (h : c.next = .ok (t, d)) (ht : t.lexeme ≠ .endOfInput) :
    c.tokens = .cons t d.tokens := by
  rw [tokens, scanFrom_of_next h ht, scanFrom_eq_tokens (length_of_next h ht)]

theorem exists_next_of_tokens {c : Cursor} {t : Token} {ts : List Token} (h : c.tokens.front = t :: ts) :
    ∃ d, c.next = .ok (t, d) ∧ t.lexeme ≠ .endOfInput ∧ d.tokens.front = ts ∧
      d.tokens.ending = c.tokens.ending := by
  cases hnext : c.next with
  | error e =>
    rw [tokens, Tokens.scanFrom, hnext] at h
    cases h
  | ok r =>
    obtain ⟨u, d⟩ := r
    by_cases hu : u.lexeme = .endOfInput
    · rw [tokens, Tokens.scanFrom, hnext] at h
      dsimp only at h
      rw [hu] at h
      cases h
    · rw [tokens_of_next hnext hu] at h
      cases h
      exact ⟨d, rfl, hu, rfl, by rw [tokens_of_next hnext hu]; rfl⟩

inductive Takes : Cursor → List Token → Cursor → Prop
  | nil {c : Cursor} : Takes c [] c
  | cons {c d e : Cursor} {t : Token} {ts : List Token} : c.next = .ok (t, d) → t.lexeme ≠ .endOfInput →
      Takes d ts e → Takes c (t :: ts) e

namespace Takes

variable {c d : Cursor} {ts : List Token}

theorem rest_eq (h : Takes c ts d) : ∃ cs, c.rest = cs ++ d.rest := by
  induction h with
  | nil => exact ⟨[], rfl⟩
  | cons hnext ht _ ih =>
    obtain ⟨gap, spelling, hrest, -, -⟩ := exists_of_next hnext ht
    obtain ⟨cs, hcs⟩ := ih
    exact ⟨gap ++ (spelling ++ cs), by rw [hrest, hcs]; simp only [List.append_assoc]⟩

theorem tokens_eq (h : Takes c ts d) :
    c.tokens.front = ts ++ d.tokens.front ∧ c.tokens.ending = d.tokens.ending := by
  induction h with
  | nil => exact ⟨rfl, rfl⟩
  | cons hnext ht _ ih =>
    rw [tokens_of_next hnext ht]
    exact ⟨congrArg (_ :: ·) ih.1, ih.2⟩

/-- What follows the tokens can be replaced by anything that starts with a break. -/
theorem cut (h : Takes c ts d) {cs new : List Char} (hrest : c.rest = cs ++ d.rest) (hnew : Lexeme.Breaks new) :
    Takes ⟨cs ++ new, c.offset, c.position⟩ ts ⟨new, d.offset, d.position⟩ := by
  induction h generalizing cs with
  | @nil c =>
    obtain rfl : cs = [] := List.self_eq_append_left.mp hrest
    exact .nil
  | @cons c d e t ts hnext ht htakes ih =>
    obtain ⟨gap, spelling, hc, hgap, hspelled⟩ := exists_of_next hnext ht
    obtain ⟨ds, hds⟩ := htakes.rest_eq
    have hcs : cs = gap ++ (spelling ++ ds) := by
      have hsame : cs ++ e.rest = gap ++ (spelling ++ ds) ++ e.rest := by
        rw [← hrest, hc, hds]
        simp only [List.append_assoc]
      exact List.append_cancel_right hsame
    have hold := next_of_spelled hgap hspelled c.offset c.position
    rw [← hc, hnext] at hold
    rw [hds] at hspelled
    have hcut := next_of_spelled hgap (hspelled.cut hnew) c.offset c.position
    -- the token and the cursor after it do not depend on what follows
    obtain ⟨htoken, hcursor⟩ := Prod.mk.inj (Except.ok.inj hold)
    have hoffset := congrArg offset hcursor
    have hposition := congrArg position hcursor
    dsimp only at hoffset hposition
    rw [← htoken, ← hoffset, ← hposition] at hcut
    rw [hcs]
    simp only [List.append_assoc]
    exact .cons hcut ht (ih hds)

end Takes

theorem exists_takes (c : Cursor) {ts us : List Token} (h : c.tokens.front = ts ++ us) : ∃ d, Takes c ts d := by
  induction ts generalizing c with
  | nil => exact ⟨c, .nil⟩
  | cons t ts ih =>
    obtain ⟨d, hnext, ht, hfront, -⟩ := exists_next_of_tokens h
    obtain ⟨e, htakes⟩ := ih d hfront
    exact ⟨e, .cons hnext ht htakes⟩

/-- After white space and comments the lexer goes on outside a comment. -/
theorem skipFrom_append {inComment : Bool} {gap : List Char} (h : Gap inComment gap) (rest : List Char) (offset : Nat)
    (p : Position) :
    skipFrom inComment (gap ++ rest) offset p = skipFrom false rest (offset + gap.length) (p.after gap) := by
  have hstep : ∀ (c : Char) (cs : List Char) (offset : Nat) (p : Position),
      skipFrom false rest (offset + 1 + cs.length) ((p.step c).after cs) =
        skipFrom false rest (offset + (c :: cs).length) (p.after (c :: cs)) := by
    intro c cs offset p
    rw [List.length_cons, Nat.add_assoc, Nat.add_comm 1]
    rfl
  induction h generalizing offset p with
  | nil => rfl
  | @blank c cs hc _ ih =>
    rw [List.cons_append, skipFrom, if_neg Bool.false_ne_true, if_pos hc, ih, hstep]
  | @«open» cs _ ih =>
    rw [List.cons_append, skipFrom, if_neg Bool.false_ne_true, if_neg (by decide), if_pos (by decide), ih, hstep]
  | @comment c cs _ ih => rw [List.cons_append, skipFrom, if_pos rfl, ih, hstep]

theorem next_gap {gap : List Char} (h : Gap false gap) (rest : List Char) (offset : Nat) (p : Position) :
    next ⟨gap ++ rest, offset, p⟩ = next ⟨rest, offset + gap.length, p.after gap⟩ := by
  rw [next, skip, skipFrom_append h, next, skip]

theorem tokens_gap {gap : List Char} (h : Gap false gap) (rest : List Char) (offset : Nat) (p : Position) :
    tokens ⟨gap ++ rest, offset, p⟩ = tokens ⟨rest, offset + gap.length, p.after gap⟩ := by
  have hfuel : rest.length < (gap ++ rest).length + 1 := by
    rw [List.length_append]
    omega
  rw [← scanFrom_eq_tokens (c := ⟨rest, offset + gap.length, p.after gap⟩) hfuel, tokens]
  unfold Tokens.scanFrom
  rw [next_gap h]

theorem breaks_of_gap {gap : List Char} (h : Gap false gap) (hne : gap ≠ []) (rest : List Char) :
    Lexeme.Breaks (gap ++ rest) := by
  cases h with
  | nil => exact absurd rfl hne
  | @blank c cs hc _ =>
    refine Lexeme.breaks_cons ?_ _
    rw [Lexeme.isBreak, Lexeme.isBreakCode, Bool.or_eq_true]
    exact Or.inl hc
  | «open» _ => exact Lexeme.breaks_cons rfl _

end Cursor

/-! ## Writing -/

def Writes (cs : List Char) (ls : List Lexeme) : Prop :=
  ∀ rest, Lexeme.Breaks rest → ∀ offset p, ∃ ts offset' p',
    (Cursor.tokens ⟨cs ++ rest, offset, p⟩).front = ts ++ (Cursor.tokens ⟨rest, offset', p'⟩).front ∧
      (Cursor.tokens ⟨cs ++ rest, offset, p⟩).ending = (Cursor.tokens ⟨rest, offset', p'⟩).ending ∧
      ts.map (·.lexeme) = ls

namespace Writes

variable {cs ds : List Char} {ls ms : List Lexeme}

theorem nil : Writes [] [] := fun _ _ offset p => ⟨[], offset, p, rfl, rfl, rfl⟩

/-- White space and comments before a text are skipped. -/
theorem gap {gap : List Char} (hgap : Cursor.Gap false gap) (h : Writes cs ls) : Writes (gap ++ cs) ls := by
  intro rest hrest offset p
  rw [List.append_assoc, Cursor.tokens_gap hgap]
  exact h rest hrest _ _

theorem blank {c : Char} (hc : Text.isBlank c = true) (h : Writes cs ls) : Writes (c :: cs) ls :=
  h.gap (.blank hc .nil)

/-- A lexeme, given how it is spelled before each text that may follow. -/
theorem spelled {l : Lexeme} {spelling : List Char}
    (hl : ∀ rest, Lexeme.Breaks rest → Lexeme.Spelled l spelling (cs ++ rest)) (h : Writes cs ls) :
    Writes (spelling ++ cs) (l :: ls) := by
  intro rest hrest offset p
  have hspelled := hl rest hrest
  have hnext := Cursor.next_of_spelled .nil hspelled offset p
  rw [List.append_assoc]
  rw [List.nil_append] at hnext
  rw [Cursor.tokens_of_next hnext hspelled.ne_endOfInput]
  obtain ⟨ts, offset', p', hfront, hending, hts⟩ := h rest hrest (offset + spelling.length) (p.after spelling)
  exact ⟨_ :: ts, offset', p', congrArg (_ :: ·) hfront, hending, congrArg (l :: ·) hts⟩

/-- A lexeme before a break. -/
theorem lexeme {l : Lexeme} {spelling : List Char} (hl : Lexeme.Spelled l spelling []) (hcs : Lexeme.Breaks cs)
    (h : Writes cs ls) : Writes (spelling ++ cs) (l :: ls) := by
  refine h.spelled fun rest hrest => ?_
  have hbreaks : Lexeme.Breaks (cs ++ rest) := by
    cases cs with
    | nil => exact hrest
    | cons c cs => exact hcs
  exact hl.before hbreaks

theorem single {l : Lexeme} {spelling : List Char} (hl : Lexeme.Spelled l spelling []) : Writes spelling [l] := by
  have h := lexeme hl Lexeme.breaks_nil nil
  rwa [List.append_nil] at h

/-- A bracket, a comma or a semicolon is read in the same way whatever follows. -/
theorem mark {s : Symbol} {c : Char} (hs : s.text.toList = [c]) (hc : Lexeme.isBreak c = true) (h : Writes cs ls) :
    Writes (c :: cs) (.symbol s :: ls) := by
  have hspelled : ∀ rest, Lexeme.Spelled (.symbol s) s.text.toList rest := fun rest => .symbol fun t d _ ht => by
    rw [hs] at ht
    cases t <;> cases ht <;> cases hc
  have hmark := h.spelled fun rest _ => hspelled (cs ++ rest)
  rw [hs] at hmark
  exact hmark

theorem append (h : Writes cs ls) (h' : Writes ds ms) (hds : Lexeme.Breaks ds) : Writes (cs ++ ds) (ls ++ ms) := by
  intro rest hrest offset p
  have hbreaks : Lexeme.Breaks (ds ++ rest) := by
    cases ds with
    | nil => exact hrest
    | cons c cs => exact hds
  obtain ⟨ts, offset', p', hfront, hending, hts⟩ := h (ds ++ rest) hbreaks offset p
  obtain ⟨us, offset'', p'', hfront', hending', hus⟩ := h' rest hrest offset' p'
  refine ⟨ts ++ us, offset'', p'', ?_, ?_, ?_⟩
  · rw [List.append_assoc, hfront, hfront', List.append_assoc]
  · rw [List.append_assoc, hending, hending']
  · rw [List.map_append, hts, hus]

/-- Pieces with white space between them. -/
theorem words {texts : List String} {lss : List (List Lexeme)}
    (h : List.Forall₂ (fun text ls => Writes text.toList ls) texts lss) :
    Writes (" ".intercalate texts).toList lss.flatten := by
  rw [String.toList_intercalate]
  induction h with
  | nil => exact nil
  | @cons text ls texts lss htext hrest ih =>
    cases hrest with
    | nil =>
      rw [List.map_cons, List.map_nil, List.intercalate_singleton, List.flatten_singleton]
      exact htext
    | cons _ _ =>
      rw [List.map_cons, List.map_cons, List.intercalate_cons_cons, List.append_assoc]
      exact htext.append (ih.blank rfl) (Lexeme.breaks_cons rfl _)

/-- Pieces with commas between them. -/
theorem commas {texts : List String} {lss : List (List Lexeme)}
    (h : List.Forall₂ (fun text ls => Writes text.toList ls) texts lss) :
    Writes (", ".intercalate texts).toList ([.symbol .comma].intercalate lss) := by
  rw [String.toList_intercalate]
  induction h with
  | nil => exact nil
  | @cons text ls texts lss htext hrest ih =>
    cases hrest with
    | nil =>
      rw [List.map_cons, List.map_nil, List.intercalate_singleton, List.intercalate_singleton]
      exact htext
    | cons _ _ =>
      rw [List.map_cons, List.map_cons, List.intercalate_cons_cons, List.intercalate_cons_cons, List.append_assoc,
        List.append_assoc]
      exact htext.append ((ih.blank rfl).mark rfl rfl) (Lexeme.breaks_cons rfl _)

/-- Lexemes that can be spelled are written with white space between them. -/
theorem exists_of_spelled {ls : List Lexeme} (h : ∀ l ∈ ls, ∃ spelling, Lexeme.Spelled l spelling []) :
    ∃ cs, Writes cs ls := by
  induction ls with
  | nil => exact ⟨[], nil⟩
  | cons l ls ih =>
    obtain ⟨⟨spelling, hl⟩, hls⟩ := List.forall_mem_cons.mp h
    obtain ⟨cs, hcs⟩ := ih hls
    exact ⟨spelling ++ ' ' :: cs, lexeme hl (Lexeme.breaks_cons rfl _) (hcs.blank rfl)⟩

theorem tokens_eq (h : Writes cs ls) (offset : Nat) (p : Position) :
    (Cursor.tokens ⟨cs, offset, p⟩).front.map (·.lexeme) = ls ∧
      ∃ eof, (Cursor.tokens ⟨cs, offset, p⟩).ending = .ok eof := by
  obtain ⟨ts, offset', p', hfront, hending, hts⟩ := h [] Lexeme.breaks_nil offset p
  rw [List.append_nil] at hfront hending
  refine ⟨?_, _, hending⟩
  rw [hfront, List.map_append, hts]
  exact List.append_nil ls

end Writes

end Curried
