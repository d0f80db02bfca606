/-
  Curried.Proofs.Tiling — the tokens of a text tile it.

  One call of `Cursor.next` passes separators, which are runs of white space and comments, and then takes a spelling, or
  is at the end, or refuses a character (`Cursor.next_cases`). So the text from one cursor to another consists of the
  spellings of the tokens taken on the way, each at its token's offset, and of separators (`Cursor.Takes.tiles`); the
  text up to the end of input, or up to the character that is refused, is tiled in this way (`Tokens.scan_tiles`).

  Positions are kept by counting characters one at a time; what they amount to is the number of line feeds before an
  offset and the number of characters after the last of these (`Text.positionAt`).
-/

import Curried.Proofs.Printing
import Mathlib.Data.List.Induction

namespace Curried

/-! ## Separators and positions -/

namespace Text

/-- Runs of white space, and comments, each up to the end of its line or of the text. The second text is what follows. -/
inductive Separates : List Char → List Char → Prop
  | nil {rest : List Char} : Separates [] rest
  | blanks {run cs rest : List Char} : run ≠ [] → (∀ c ∈ run, isBlank c = true) → Separates cs rest →
      Separates (run ++ cs) rest
  | comment {body cs rest : List Char} : '\n' ∉ body → (∀ c ∈ (cs ++ rest).head?, c = '\n') → Separates cs rest →
      Separates ('\'' :: (body ++ cs)) rest

theorem Separates.blank {c : Char} {cs rest : List Char} (hc : isBlank c = true) (h : Separates cs rest) :
    Separates (c :: cs) rest :=
  .blanks (List.cons_ne_nil c []) (List.forall_mem_singleton.mpr hc) h

/-- The line feeds before an offset, and the characters between the last of them, or the start, and the offset. -/
def positionAt (text : List Char) (offset : Nat) : Position :=
  ⟨1 + (text.take offset).count '\n', 1 + ((text.take offset).reverse.takeWhile (· != '\n')).length⟩

def Trails (cs rest : List Char) : Prop :=
  ∃ body ds, cs = body ++ ds ∧ '\n' ∉ body ∧ (∀ c ∈ (ds ++ rest).head?, c = '\n') ∧ Separates ds rest

theorem Trails.step {c : Char} {cs rest : List Char}
    (h : if (c != '\n') = true then Trails cs rest else Separates cs rest) : Trails (c :: cs) rest := by
  by_cases hc : c = '\n'
  · rw [if_neg (by simp [hc])] at h
    refine ⟨[], c :: cs, rfl, List.not_mem_nil, fun d hd => ?_, ?_⟩
    · cases hd
      exact hc
    · exact h.blank (hc ▸ rfl)
  · rw [if_pos (by simp [hc])] at h
    obtain ⟨body, ds, rfl, hbody, hds, hseparates⟩ := h
    exact ⟨c :: body, ds, rfl, List.not_mem_cons_of_ne_of_not_mem (Ne.symm hc) hbody, hds, hseparates⟩

theorem Trails.separates {cs rest : List Char} (h : Trails cs rest) : Separates ('\'' :: cs) rest := by
  obtain ⟨body, ds, rfl, hbody, hds, hseparates⟩ := h
  exact .comment hbody hds hseparates

theorem after_eq_positionAt (before : List Char) :
    ({} : Position).after before = positionAt before before.length := by
  unfold positionAt
  rw [List.take_length]
  induction before using List.reverseRecOn with
  | nil => rfl
  | append_singleton cs c ih =>
    rw [Position.after_append, ih, List.reverse_append, List.count_append]
    by_cases hc : c = '\n'
    · subst hc
      simp [Position.after, Position.step]
      omega
    · simp [Position.after, Position.step, hc]
      omega

end Text

theorem Place.Splits.position_eq {p : Place} {text before after : List Char} (h : p.Splits text before after) :
    p.position = Text.positionAt text p.offset := by
  rw [h.position, h.offset, Text.after_eq_positionAt, Text.positionAt, Text.positionAt, h.text_eq, List.take_length,
    List.take_left]

/-! ## Spellings -/

namespace Lexeme

def IsSpelling : Lexeme → List Char → Prop
  | .number x, cs => IsNumeral (String.ofList cs) x
  | .string s, cs => cs = '"' :: (s.toList ++ ['"'])
  | .boolean b, cs => cs = (if b then "true" else "false").toList
  | .name n, cs => cs = n.toList
  | .keyword k, cs => cs = k.text.toList
  | .symbol s, cs => cs = s.text.toList
  | .endOfInput, cs => cs = []

theorem ofWord_isSpelling (cs : List Char) : IsSpelling (ofWord (String.ofList cs)) cs := by
  have hword : ∀ {s : String}, String.ofList cs = s → cs = s.toList := by
    intro s hs
    rw [← hs, String.toList_ofList]
  unfold ofWord
  split
  · rename_i htrue
    exact hword (eq_of_beq htrue)
  · split
    · rename_i hfalse
      exact hword (eq_of_beq hfalse)
    · split
      · rename_i k hk
        have htext := List.find?_some hk
        exact hword (eq_of_beq htext).symm
      · exact hword rfl

theorem Spelled.isSpelling {l : Lexeme} {spelling rest : List Char} (h : Spelled l spelling rest) :
    l.IsSpelling spelling := by
  cases h with
  | @word c cs _ _ _ _ => exact ofWord_isSpelling (c :: cs)
  | whole hne hdigits _ _ => exact .whole hne hdigits
  | fraction hne hwhole hne' hfraction _ => exact .fraction hne hwhole hne' hfraction
  | @string body _ _ =>
    show _ = '"' :: ((String.ofList body).toList ++ ['"'])
    rw [String.toList_ofList]
    rfl
  | symbol _ => rfl

end Lexeme

/-! ## One token -/

namespace Cursor

theorem skipFrom_separates (inComment : Bool) (cs : List Char) (offset : Nat) (p : Position) :
    ∃ gap rest, cs = gap ++ rest ∧ skipFrom inComment cs offset p = ⟨rest, offset + gap.length, p.after gap⟩ ∧
      if inComment then Text.Trails gap rest else Text.Separates gap rest := by
  have hstep : ∀ (offset : Nat) (p : Position) (c : Char) (gap rest : List Char),
      (⟨rest, offset + 1 + gap.length, (p.step c).after gap⟩ : Cursor) =
        ⟨rest, offset + (c :: gap).length, p.after (c :: gap)⟩ := by
    intro offset p c gap rest
    rw [List.length_cons, Nat.add_assoc, Nat.add_comm 1]
    rfl
  fun_induction skipFrom inComment cs offset p with
  | case1 inComment offset p =>
    refine ⟨[], [], rfl, rfl, ?_⟩
    cases inComment with
    | false => exact .nil
    | true =>
      refine ⟨[], [], rfl, List.not_mem_nil, fun d hd => ?_, .nil⟩
      cases hd
  | case2 c cs offset p ih =>
    obtain ⟨gap, rest, rfl, hskip, hgap⟩ := ih
    exact ⟨c :: gap, rest, rfl, by rw [hskip, hstep], .step hgap⟩
  | case3 inComment c cs offset p hc hblank ih =>
    obtain ⟨gap, rest, rfl, hskip, hgap⟩ := ih
    rw [if_neg Bool.false_ne_true] at hgap
    refine ⟨c :: gap, rest, rfl, by rw [hskip, hstep], ?_⟩
    rw [if_neg hc]
    exact hgap.blank hblank
  | case4 inComment c cs offset p hc _ hquote ih =>
    obtain ⟨gap, rest, rfl, hskip, hgap⟩ := ih
    rw [if_pos rfl] at hgap
    refine ⟨c :: gap, rest, rfl, by rw [hskip, hstep], ?_⟩
    rw [if_neg hc, eq_of_beq hquote]
    exact hgap.separates
  | case5 inComment c cs offset p hc _ _ =>
    refine ⟨[], c :: cs, rfl, rfl, ?_⟩
    rw [if_neg hc]
    exact .nil

/-- What one call does: after separators it is at the end, or takes a spelling, or refuses a character. -/
theorem next_cases (c : Cursor) : ∃ gap rest, c.rest = gap ++ rest ∧ Text.Separates gap rest ∧
    ((rest = [] ∧ c.next = .ok (⟨.endOfInput, c.offset + gap.length, c.position.after gap⟩,
        ⟨[], c.offset + gap.length, c.position.after gap⟩)) ∨
      (∃ l spelling after, rest = spelling ++ after ∧ Lexeme.Spelled l spelling after ∧
        c.next = .ok (⟨l, c.offset + gap.length, c.position.after gap⟩,
          ⟨after, c.offset + gap.length + spelling.length, (c.position.after gap).after spelling⟩)) ∨
      ∃ ch after, rest = ch :: after ∧ c.next = .error ⟨ch, c.offset + gap.length, c.position.after gap⟩) := by
  obtain ⟨gap, rest, hrest, hskip, hgap⟩ := skipFrom_separates false c.rest c.offset c.position
  refine ⟨gap, rest, hrest, hgap, ?_⟩
  unfold next skip
  rw [hskip]
  cases rest with
  | nil => exact Or.inl ⟨rfl, rfl⟩
  | cons ch tail =>
    refine Or.inr ?_
    cases hfirst : Lexeme.first? (ch :: tail) with
    | none => exact Or.inr ⟨ch, tail, rfl, by simp only [hfirst]⟩
    | some r =>
      obtain ⟨l, spelling, after⟩ := r
      obtain ⟨hsplit, hspelled⟩ := Lexeme.first?_eq_some_iff.mp hfirst
      exact Or.inl ⟨l, spelling, after, hsplit, hspelled, by simp only [hfirst]; rfl⟩

/-- Where no more tokens can be taken, the end of input or a character that is refused comes after separators. -/
theorem next_stops {c : Cursor} {r : Except LexError Token} (h : c.next.map Prod.fst = r)
    (hend : ∀ t, r = .ok t → t.lexeme = .endOfInput) :
    ∃ gap rest, c.rest = gap ++ rest ∧ Text.Separates gap rest ∧
      ((rest = [] ∧ r = .ok ⟨.endOfInput, c.offset + gap.length, c.position.after gap⟩) ∨
        ∃ ch after, rest = ch :: after ∧ r = .error ⟨ch, c.offset + gap.length, c.position.after gap⟩) := by
  obtain ⟨gap, rest, hrest, hgap, hcases⟩ := c.next_cases
  refine ⟨gap, rest, hrest, hgap, ?_⟩
  rcases hcases with ⟨hnil, hnext⟩ | ⟨l, spelling, after, -, hspelled, hnext⟩ | ⟨ch, after, hcons, hnext⟩
  · rw [hnext] at h
    exact Or.inl ⟨hnil, h.symm⟩
  · rw [hnext] at h
    exact absurd (hend _ h.symm) hspelled.ne_endOfInput
  · rw [hnext] at h
    exact Or.inr ⟨ch, after, hcons, h.symm⟩

end Cursor

/-! ## All tokens -/

/-- From offset `n` to offset `m` a text consists of the spellings of tokens, each at its token's offset, and of
separators before each of them. -/
inductive Tiles (text : List Char) : Nat → List (Token × List Char) → Nat → Prop
  | nil {n : Nat} : Tiles text n [] n
  | cons {n m : Nat} {t : Token} {gap spelling rest : List Char} {tiles : List (Token × List Char)} :
      text.drop n = gap ++ (spelling ++ rest) → Text.Separates gap (spelling ++ rest) → t.offset = n + gap.length →
      t.lexeme.IsSpelling spelling → spelling ≠ [] → Tiles text (t.offset + spelling.length) tiles m →
      Tiles text n ((t, spelling) :: tiles) m

namespace Tiles

variable {text : List Char} {n m : Nat} {tiles : List (Token × List Char)}

theorem spelled (h : Tiles text n tiles m) :
    ∀ s ∈ tiles, s.2 <+: text.drop s.1.offset ∧ s.1.lexeme.IsSpelling s.2 := by
  induction h with
  | nil => exact nofun
  | @cons n m t gap spelling rest tiles hdrop _ hoffset hspelling _ _ ih =>
    refine List.forall_mem_cons.mpr ⟨⟨⟨rest, ?_⟩, hspelling⟩, ih⟩
    rw [hoffset, ← List.drop_drop, hdrop, List.drop_left]

theorem le (h : Tiles text n tiles m) : n ≤ m := by
  induction h with
  | nil => exact Nat.le_refl _
  | cons _ _ hoffset _ _ _ ih => omega

/-- Spellings lie between the two offsets, and one ends before the next starts. -/
theorem apart (h : Tiles text n tiles m) :
    (∀ s ∈ tiles, n ≤ s.1.offset ∧ s.1.offset + s.2.length ≤ m ∧ s.2 ≠ []) ∧
      tiles.Pairwise fun s u => s.1.offset + s.2.length ≤ u.1.offset := by
  induction h with
  | nil => exact ⟨nofun, .nil⟩
  | cons _ _ hoffset _ hne htiles ih =>
    have hle := htiles.le
    refine ⟨List.forall_mem_cons.mpr ⟨⟨?_, hle, hne⟩, fun s hs => ?_⟩, List.pairwise_cons.mpr ⟨fun s hs => ?_, ih.2⟩⟩
    · dsimp only
      omega
    · obtain ⟨hfrom, hto, hne⟩ := ih.1 s hs
      exact ⟨by omega, hto, hne⟩
    · exact (ih.1 s hs).1

/-- Offsets increase, up to one at or after the end. -/
theorem increasing (h : Tiles text n tiles m) {k : Nat} (hk : m ≤ k) :
    (tiles.map (·.1.offset) ++ [k]).Pairwise (· < ·) := by
  obtain ⟨hwithin, hapart⟩ := h.apart
  refine List.pairwise_append.mpr ⟨List.pairwise_map.mpr ?_, List.pairwise_singleton _ _, ?_⟩
  · refine hapart.imp_of_mem fun {s u} hs _ hle => ?_
    have hpos := List.length_pos_iff.mpr (hwithin s hs).2.2
    omega
  · intro a ha b hb
    obtain ⟨s, hs, rfl⟩ := List.mem_map.mp ha
    obtain ⟨-, hto, hne⟩ := hwithin s hs
    have hpos := List.length_pos_iff.mpr hne
    rw [List.mem_singleton.mp hb]
    omega

end Tiles

theorem Place.Splits.drop_eq {p : Place} {text before after : List Char} (h : p.Splits text before after) :
    text.drop p.offset = after := by
  rw [h.text_eq, h.offset, List.drop_left]

/-- The tokens that are taken tile the text between the two cursors. -/
theorem Cursor.Takes.tiles {text before : List Char} {c d : Cursor} {ts : List Token} (h : Takes c ts d)
    (hc : c.place.Splits text before c.rest) :
    ∃ tiles, tiles.map Prod.fst = ts ∧ Tiles text c.offset tiles d.offset ∧
      (∃ before', d.place.Splits text before' d.rest) ∧ ∀ t ∈ ts, t.position = Text.positionAt text t.offset := by
  induction h generalizing before with
  | nil => exact ⟨[], rfl, .nil, ⟨before, hc⟩, nofun⟩
  | @cons c d _ t ts hnext ht _ ih =>
    obtain ⟨gap, rest, hrest, hgap, ⟨-, hend⟩ | ⟨l, spelling, after, rfl, hspelled, htaken⟩ | ⟨_, _, -, hrefused⟩⟩ :=
      c.next_cases
    · cases hend.symm.trans hnext
      exact absurd rfl ht
    · cases htaken.symm.trans hnext
      rw [hrest] at hc
      have hstart := hc.past gap
      obtain ⟨tiles, hfst, htiles, hsplits, hpositions⟩ := ih (hstart.past spelling)
      refine ⟨(_, spelling) :: tiles, congrArg (_ :: ·) hfst, ?_, hsplits, List.forall_mem_cons.mpr ⟨?_, hpositions⟩⟩
      · exact .cons hc.drop_eq hgap rfl hspelled.isSpelling hspelled.ne_nil htiles
      · exact hstart.position_eq
    · cases hrefused.symm.trans hnext

namespace Tokens

def endPlace (ts : Tokens) : Place :=
  match ts.ending with
  | .ok t => t.place
  | .error e => e.place

def places (ts : Tokens) : List Place := ts.front.map Token.place ++ [ts.endPlace]

/-- Tokens tile a text: up to the offset `n` it consists of their spellings, each at its token's offset, and of
separators; from there on, of the separators `gap` and of what ends the tokens. -/
structure Tiling (text : List Char) (ts : Tokens) (tiles : List (Token × List Char)) (n : Nat)
    (gap rest : List Char) : Prop where
  tokens : tiles.map Prod.fst = ts.front
  tiled : Tiles text 0 tiles n
  spelled : ∀ s ∈ tiles, s.2 <+: text.drop s.1.offset ∧ s.1.lexeme.IsSpelling s.2
  apart : tiles.Pairwise fun s u => s.1.offset + s.2.length ≤ u.1.offset
  increasing : (ts.places.map (·.offset)).Pairwise (· < ·)
  after_last : text.drop n = gap ++ rest
  separates : Text.Separates gap rest
  end_offset : ts.endPlace.offset = n + gap.length
  ending : ∀ t, ts.ending = .ok t → t.lexeme = .endOfInput ∧ rest = [] ∧ t.offset = text.length
  refused : ∀ e, ts.ending = .error e → rest.head? = some e.char
  positions : ∀ p ∈ ts.places, p.position = Text.positionAt text p.offset

end Tokens

/-- The tokens from a cursor on are taken one after another, up to where no more can be taken. -/
theorem Cursor.exists_last (c : Cursor) :
    ∃ d, Takes c c.tokens.front d ∧ d.next.map Prod.fst = c.tokens.ending ∧
      ∀ t, c.tokens.ending = .ok t → t.lexeme = .endOfInput := by
  induction hn : c.rest.length using Nat.strongRecOn generalizing c with
  | ind n ih =>
    have hstop : ∀ r, c.next.map Prod.fst = r → c.tokens = .nil r → (∀ t, r = .ok t → t.lexeme = .endOfInput) →
        ∃ d, Takes c c.tokens.front d ∧ d.next.map Prod.fst = c.tokens.ending ∧
          ∀ t, c.tokens.ending = .ok t → t.lexeme = .endOfInput := by
      intro r hr htokens hend
      rw [htokens]
      exact ⟨c, .nil, hr, hend⟩
    cases hnext : c.next with
    | error e =>
      refine hstop (.error e) (by rw [hnext]; rfl) ?_ nofun
      rw [tokens, Tokens.scanFrom, hnext]
    | ok r =>
      obtain ⟨t, d⟩ := r
      by_cases ht : t.lexeme = .endOfInput
      · refine hstop (.ok t) (by rw [hnext]; rfl) ?_ (fun u hu => by cases hu; exact ht)
        rw [tokens, Tokens.scanFrom, hnext]
        simp only [ht]
      · obtain ⟨e, htakes, hlast, hend⟩ := ih _ (hn ▸ length_of_next hnext ht) d rfl
        rw [tokens_of_next hnext ht]
        exact ⟨e, .cons hnext ht htakes, hlast, hend⟩

namespace Tokens

/-- The tokens of a text are what one call after another gives, and they tile it. -/
theorem scan_tiles (source : String) :
    (∃ c, (Cursor.start source.toList).Takes (scan source).front c ∧ c.next.map Prod.fst = (scan source).ending) ∧
      ∃ tiles n gap rest, Tiling source.toList (scan source) tiles n gap rest := by
  obtain ⟨d, htakes, hlast, hend⟩ : ∃ d, (Cursor.start source.toList).Takes (scan source).front d ∧
      d.next.map Prod.fst = (scan source).ending ∧ ∀ t, (scan source).ending = .ok t → t.lexeme = .endOfInput :=
    (Cursor.start source.toList).exists_last
  have hstart : (Cursor.start source.toList).place.Splits source.toList [] source.toList := ⟨rfl, rfl, rfl⟩
  obtain ⟨tiles, hfst, htiles, ⟨before, hd⟩, hpositions⟩ := htakes.tiles hstart
  obtain ⟨gap, rest, hrest, hgap, hcases⟩ := Cursor.next_stops hlast hend
  rw [hrest] at hd
  have hafter := hd.past gap
  have hplace : (scan source).endPlace = ⟨d.offset + gap.length, d.position.after gap⟩ := by
    rcases hcases with ⟨-, hending⟩ | ⟨_, _, -, hending⟩ <;> rw [endPlace, hending] <;> rfl
  refine ⟨⟨d, htakes, hlast⟩, tiles, d.offset, gap, rest, ?_⟩
  refine ⟨hfst, htiles, htiles.spelled, htiles.apart.2, ?_, hd.drop_eq, hgap, by rw [hplace], fun t ht => ?_,
    fun e he => ?_, ?_⟩
  · have hincreasing := htiles.increasing (Nat.le_add_right d.offset gap.length)
    rw [places, hplace, ← hfst, List.map_append, List.map_map, List.map_map]
    exact hincreasing
  · rcases hcases with ⟨rfl, hending⟩ | ⟨_, _, -, hending⟩ <;> cases hending.symm.trans ht
    refine ⟨rfl, rfl, ?_⟩
    rw [hafter.text_eq, List.append_nil]
    exact hafter.offset
  · rcases hcases with ⟨-, hending⟩ | ⟨_, _, rfl, hending⟩ <;> cases hending.symm.trans he
    rfl
  · rw [places, hplace]
    refine List.forall_mem_append.mpr ⟨fun p hp => ?_, List.forall_mem_singleton.mpr hafter.position_eq⟩
    obtain ⟨t, ht, rfl⟩ := List.mem_map.mp hp
    exact hpositions t ht

end Tokens

end Curried
