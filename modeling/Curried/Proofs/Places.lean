/-
  Curried.Proofs.Places — where the tokens of a text stand.

  A line of a text is what is between two line feeds. The position to which the text before an offset leads has the
  number of the line around the offset, and counts the characters that this line has before it (`Text.Around.position`,
  `Text.Around.getElem?_lines`).

  A place is an offset into a text and the position that goes with it. The tokens of a text stand at places of it where
  their lexemes start, the end of input at its end, and so does a character that starts no token
  (`Tokens.scan_standIn`). A diagnostic with such a position shows the line around it, and a caret under what stands
  there (`Diagnostic.points_of_splits`, `Diagnostic.Points.head?_right`).
-/

import Curried.Diagnostic
import Curried.Token.Lexer
import Mathlib.Data.List.TakeDrop

namespace Curried

/-! ## Lines -/

namespace Text

theorem lines_ne_nil (cs : List Char) : lines cs ≠ [] := by
  cases cs with
  | nil => exact nofun
  | cons c cs =>
    rw [lines]
    split
    · exact nofun
    · split
      · exact nofun
      · exact nofun

/-- A line feed ends a line. -/
theorem lines_append (cs ds : List Char) : lines (cs ++ '\n' :: ds) = lines cs ++ lines ds := by
  induction cs with
  | nil => simp [lines]
  | cons c cs ih =>
    simp only [List.cons_append, lines, ih]
    split
    · rfl
    · obtain ⟨line, rest, h⟩ := List.exists_cons_of_ne_nil (lines_ne_nil cs)
      rw [h]
      rfl

/-- A text without line feeds is one line. -/
theorem lines_of_not_mem {cs : List Char} (h : '\n' ∉ cs) : lines cs = [cs] := by
  induction cs with
  | nil => rfl
  | cons c cs ih =>
    have hc : c ≠ '\n' := (List.ne_of_not_mem_cons h).symm
    rw [lines, if_neg hc, ih (List.not_mem_of_not_mem_cons h)]

theorem length_lines (cs : List Char) : (lines cs).length = cs.count '\n' + 1 := by
  induction cs with
  | nil => rfl
  | cons c cs ih =>
    rw [lines]
    split
    · rename_i hc
      rw [List.length_cons, ih, hc, List.count_cons_self]
    · rename_i hc
      obtain ⟨line, rest, h⟩ := List.exists_cons_of_ne_nil (lines_ne_nil cs)
      rw [h] at ih ⊢
      rw [List.count_cons_of_ne hc]
      exact ih

end Text

namespace Position

theorem after_append (p : Position) (cs ds : List Char) : p.after (cs ++ ds) = (p.after cs).after ds :=
  List.foldl_append

theorem after_of_not_mem {cs : List Char} (h : '\n' ∉ cs) (p : Position) :
    p.after cs = ⟨p.line, p.column + cs.length⟩ := by
  induction cs generalizing p with
  | nil => simp [after]
  | cons c cs ih =>
    have hstep : p.step c = ⟨p.line, p.column + 1⟩ := if_neg (List.ne_of_not_mem_cons h).symm
    show (p.step c).after cs = _
    rw [hstep, ih (List.not_mem_of_not_mem_cons h)]
    simp only [List.length_cons, mk.injEq, true_and]
    omega

theorem line_after (p : Position) (cs : List Char) : (p.after cs).line = p.line + cs.count '\n' := by
  induction cs generalizing p with
  | nil => simp [after]
  | cons c cs ih =>
    show ((p.step c).after cs).line = _
    rw [ih, step]
    split
    · rename_i hc
      rw [hc, List.count_cons_self]
      dsimp only
      omega
    · rename_i hc
      rw [List.count_cons_of_ne hc]

/-- A line feed leads to the start of the next line. -/
theorem after_newline (p : Position) (cs : List Char) :
    p.after (cs ++ ['\n']) = ⟨p.line + (cs ++ ['\n']).count '\n', 1⟩ := by
  have hcolumn : (p.after (cs ++ ['\n'])).column = 1 := by
    rw [after_append]
    rfl
  rw [← line_after, ← hcolumn]

end Position

namespace Text

/-- An offset into a text, given by what comes before and after it, and the line around it: `left` and `right` are what
that line has before and after the offset, `above` and `below` the rest of the text. -/
structure Around (before after above left right below : List Char) : Prop where
  before_eq : before = above ++ left
  after_eq : after = right ++ below
  starts : above = [] ∨ ∃ cs, above = cs ++ ['\n']
  unbroken : '\n' ∉ left ++ right
  stops : below = [] ∨ ∃ cs, below = '\n' :: cs

theorem exists_above (before : List Char) :
    ∃ above left, before = above ++ left ∧ (above = [] ∨ ∃ cs, above = cs ++ ['\n']) ∧ '\n' ∉ left := by
  induction before with
  | nil => exact ⟨[], [], rfl, Or.inl rfl, nofun⟩
  | cons c cs ih =>
    obtain ⟨above, left, rfl, habove, hleft⟩ := ih
    rcases habove with rfl | ⟨ds, rfl⟩
    · by_cases hc : c = '\n'
      · exact ⟨[c], left, rfl, Or.inr ⟨[], by rw [hc]; rfl⟩, hleft⟩
      · exact ⟨[], c :: left, rfl, Or.inl rfl, List.not_mem_cons_of_ne_of_not_mem (Ne.symm hc) hleft⟩
    · exact ⟨c :: (ds ++ ['\n']), left, rfl, Or.inr ⟨c :: ds, rfl⟩, hleft⟩

theorem exists_below (after : List Char) :
    ∃ right below, after = right ++ below ∧ '\n' ∉ right ∧ (below = [] ∨ ∃ cs, below = '\n' :: cs) := by
  induction after with
  | nil => exact ⟨[], [], rfl, nofun, Or.inl rfl⟩
  | cons c cs ih =>
    by_cases hc : c = '\n'
    · exact ⟨[], c :: cs, rfl, nofun, Or.inr ⟨cs, by rw [hc]⟩⟩
    · obtain ⟨right, below, rfl, hright, hbelow⟩ := ih
      exact ⟨c :: right, below, rfl, List.not_mem_cons_of_ne_of_not_mem (Ne.symm hc) hright, hbelow⟩

theorem exists_around (before after : List Char) :
    ∃ above left right below, Around before after above left right below := by
  obtain ⟨above, left, hbefore, hstarts, hleft⟩ := exists_above before
  obtain ⟨right, below, hafter, hright, hstops⟩ := exists_below after
  refine ⟨above, left, right, below, hbefore, hafter, hstarts, ?_, hstops⟩
  exact fun h => (List.mem_append.mp h).elim hleft hright

namespace Around

variable {before after above left right below : List Char} (h : Around before after above left right below)
include h

theorem position : ({} : Position).after before = ⟨above.count '\n' + 1, left.length + 1⟩ := by
  have hleft : '\n' ∉ left := fun hl => h.unbroken (List.mem_append_left _ hl)
  rw [h.before_eq, Position.after_append, Position.after_of_not_mem hleft]
  have habove : ({} : Position).after above = ⟨above.count '\n' + 1, 1⟩ := by
    rcases h.starts with rfl | ⟨cs, rfl⟩
    · rfl
    · rw [Position.after_newline, Position.mk.injEq]
      exact ⟨by dsimp only; omega, rfl⟩
  rw [habove, Position.mk.injEq]
  exact ⟨rfl, by dsimp only; omega⟩

/-- The line around an offset is the one with the number that the position has. -/
theorem getElem?_lines : (lines (before ++ after))[above.count '\n']? = some (left ++ right) := by
  have hline : lines (left ++ right ++ below) = (left ++ right) :: (lines (left ++ right ++ below)).tail := by
    rcases h.stops with hb | ⟨cs, hb⟩
    · rw [hb, List.append_nil, lines_of_not_mem h.unbroken]
      rfl
    · rw [hb, lines_append, lines_of_not_mem h.unbroken]
      rfl
  have htext : before ++ after = above ++ (left ++ right ++ below) := by
    rw [h.before_eq, h.after_eq]
    simp only [List.append_assoc]
  rw [htext]
  rcases h.starts with ha | ⟨cs, ha⟩
  · rw [ha, List.nil_append, hline]
    rfl
  · have hsplit : above ++ (left ++ right ++ below) = cs ++ '\n' :: (left ++ right ++ below) := by
      rw [ha, List.append_assoc]
      rfl
    have hcount : above.count '\n' = (lines cs).length := by
      rw [length_lines, ha, List.count_append]
      rfl
    rw [hsplit, lines_append, hcount, List.getElem?_append_right (Nat.le_refl _), Nat.sub_self, hline]
    rfl

end Around

end Text

/-! ## Places -/

structure Place where
  offset : Nat
  position : Position
  deriving DecidableEq

def Token.place (t : Token) : Place := ⟨t.offset, t.position⟩

def LexError.place (e : LexError) : Place := ⟨e.offset, e.position⟩

def Cursor.place (c : Cursor) : Place := ⟨c.offset, c.position⟩

structure Place.Splits (p : Place) (text before after : List Char) : Prop where
  text_eq : text = before ++ after
  offset : p.offset = before.length
  position : p.position = ({} : Position).after before

theorem Place.Splits.past {p : Place} {text before rest : List Char} (spelling : List Char)
    (h : p.Splits text before (spelling ++ rest)) :
    Place.Splits ⟨p.offset + spelling.length, p.position.after spelling⟩ text (before ++ spelling) rest where
  text_eq := by rw [h.text_eq, List.append_assoc]
  offset := by rw [h.offset, List.length_append]
  position := by rw [h.position, Position.after_append]

namespace Cursor

variable {text before : List Char}

theorem skipFrom_splits (inComment : Bool) (cs : List Char) (offset : Nat) (p : Position)
    (h : Place.Splits ⟨offset, p⟩ text before cs) :
    ∃ before', (skipFrom inComment cs offset p).place.Splits text before' (skipFrom inComment cs offset p).rest := by
  fun_induction skipFrom inComment cs offset p generalizing before with
  | case1 => exact ⟨before, h⟩
  | case2 c _ _ _ ih => exact ih (h.past [c])
  | case3 _ c _ _ _ _ _ ih => exact ih (h.past [c])
  | case4 _ c _ _ _ _ _ _ ih => exact ih (h.past [c])
  | case5 => exact ⟨before, h⟩

theorem length_skipFrom (inComment : Bool) (cs : List Char) (offset : Nat) (p : Position) :
    (skipFrom inComment cs offset p).rest.length ≤ cs.length := by
  fun_induction skipFrom inComment cs offset p with
  | case1 => exact Nat.le_refl _
  | case2 _ _ _ _ ih => exact Nat.le_succ_of_le ih
  | case3 _ _ _ _ _ _ _ ih => exact Nat.le_succ_of_le ih
  | case4 _ _ _ _ _ _ _ _ ih => exact Nat.le_succ_of_le ih
  | case5 => exact Nat.le_refl _

theorem skipFrom_not_blank (inComment : Bool) (cs : List Char) (offset : Nat) (p : Position) :
    ∀ c ∈ (skipFrom inComment cs offset p).rest.head?, Text.isBlank c = false := by
  fun_induction skipFrom inComment cs offset p with
  | case1 => exact nofun
  | case2 _ _ _ _ ih => exact ih
  | case3 _ _ _ _ _ _ _ ih => exact ih
  | case4 _ _ _ _ _ _ _ _ ih => exact ih
  | case5 _ _ _ _ _ _ hblank _ =>
    intro d hd
    cases hd
    exact Bool.not_eq_true _ ▸ hblank

end Cursor

namespace Lexeme

theorem fractionAt_append (cs : List Char) : (fractionAt cs).1 ++ (fractionAt cs).2 = cs := by
  unfold fractionAt
  split
  · rw [List.span_eq_takeWhile_dropWhile]
    dsimp only
    split
    · rfl
    · exact congrArg ('.' :: ·) List.takeWhile_append_dropWhile
  · rfl

theorem symbolAt_pos {cs : List Char} {s : Symbol} {n : Nat} (h : symbolAt cs = some (s, n)) : 0 < n := by
  unfold symbolAt at h
  split at h <;> cases h <;> decide

theorem isNamePart_of_isNameStart {c : Char} (h : isNameStart c = true) : isNamePart c = true := by
  rcases Bool.or_eq_true _ _ |>.mp h with ha | hu
  · simp [isNamePart, Char.isAlphanum, ha]
  · simp [isNamePart, hu]

theorem ofWord_ne_endOfInput (word : String) : ofWord word ≠ .endOfInput := by
  unfold ofWord
  split
  · exact nofun
  · split
    · exact nofun
    · split <;> exact nofun

theorem takeWhile_cons_ne_nil {p : Char → Bool} {c : Char} (cs : List Char) (hc : p c = true) :
    (c :: cs).takeWhile p ≠ [] := by
  rw [List.takeWhile_cons_of_pos hc]
  exact nofun

/-- A lexeme takes some characters from the start of a text. -/
theorem first?_splits {cs : List Char} {l : Lexeme} {spelling rest : List Char}
    (h : first? cs = some (l, spelling, rest)) : cs = spelling ++ rest ∧ spelling ≠ [] ∧ l ≠ .endOfInput := by
  unfold first? at h
  simp only [List.span_eq_takeWhile_dropWhile] at h
  split at h
  · cases h
  · rename_i c tail
    split at h
    · rename_i hname
      cases h
      exact ⟨List.takeWhile_append_dropWhile.symm, takeWhile_cons_ne_nil tail (isNamePart_of_isNameStart hname),
        ofWord_ne_endOfInput _⟩
    · split at h
      · rename_i hdigit
        cases h
        refine ⟨?_, fun hnil => takeWhile_cons_ne_nil tail hdigit (List.append_eq_nil_iff.mp hnil).1, nofun⟩
        rw [List.append_assoc, fractionAt_append, List.takeWhile_append_dropWhile]
      · split at h
        · split at h
          · rename_i body q _ hspan
            cases h
            obtain ⟨hbody, hafter⟩ := Prod.mk.inj hspan
            have htail : tail = body ++ q :: rest := by
              rw [← hbody, ← hafter, List.takeWhile_append_dropWhile]
            exact ⟨by simp [htail], nofun, nofun⟩
          · cases h
        · obtain ⟨⟨s, n⟩, hs, hsplit⟩ := Option.map_eq_some_iff.mp h
          cases hsplit
          refine ⟨(List.take_append_drop _ _).symm, fun hnil => ?_, nofun⟩
          have hpos := symbolAt_pos hs
          rcases List.take_eq_nil_iff.mp hnil with h0 | h0
          · omega
          · cases h0

end Lexeme

namespace Tokens

/-- Tokens stand in a text: each where its lexeme starts, the end of input at the end, and a character that starts no
token where it is. No white space stands there. -/
structure StandIn (text : List Char) (ts : Tokens) : Prop where
  front : ∀ t ∈ ts.front, ∃ before c after spelling rest, t.place.Splits text before (c :: after) ∧
    Text.isBlank c = false ∧ Lexeme.first? (c :: after) = some (t.lexeme, spelling, rest)
  ending : ∀ t, ts.ending = .ok t → t.place.Splits text text []
  refused : ∀ e, ts.ending = .error e → ∃ before after, e.place.Splits text before (e.char :: after) ∧
    Text.isBlank e.char = false ∧ Lexeme.first? (e.char :: after) = none

theorem scanFrom_standIn {text before : List Char} (fuel : Nat) (c : Cursor)
    (hc : c.place.Splits text before c.rest) (hfuel : c.rest.length < fuel) : (scanFrom fuel c).StandIn text := by
  induction fuel generalizing c before with
  | zero => exact absurd hfuel (Nat.not_lt_zero _)
  | succ fuel ih =>
    obtain ⟨before', hskip⟩ := Cursor.skipFrom_splits false c.rest c.offset c.position hc
    have hlength := Cursor.length_skipFrom false c.rest c.offset c.position
    have hblank := Cursor.skipFrom_not_blank false c.rest c.offset c.position
    unfold scanFrom Cursor.next Cursor.skip
    generalize Cursor.skipFrom false c.rest c.offset c.position = d at hskip hlength hblank ⊢
    obtain ⟨rest, offset, position⟩ := d
    dsimp only at hskip hlength hblank ⊢
    cases rest with
    | nil =>
      have htext : text = before' := by rw [hskip.text_eq, List.append_nil]
      exact ⟨nofun, fun t ht => by cases ht; exact htext ▸ hskip, nofun⟩
    | cons ch tail =>
      have hch : Text.isBlank ch = false := hblank ch rfl
      cases hfirst : Lexeme.first? (ch :: tail) with
      | none => exact ⟨nofun, nofun, fun e he => by cases he; exact ⟨before', tail, hskip, hch, hfirst⟩⟩
      | some r =>
        obtain ⟨lexeme, spelling, rest⟩ := r
        obtain ⟨hsplit, hspelling, hlexeme⟩ := Lexeme.first?_splits hfirst
        have hpast := Place.Splits.past spelling (hsplit ▸ hskip)
        -- a token takes a character, so the fuel that is left is enough for the rest
        have hshorter : rest.length < fuel := by
          have hpos := List.length_pos_iff.mpr hspelling
          have hsum := congrArg List.length hsplit
          rw [List.length_append] at hsum
          omega
        have hrest := ih (Cursor.past ⟨ch :: tail, offset, position⟩ spelling rest) hpast hshorter
        dsimp only
        split
        · exact absurd rfl hlexeme
        · refine ⟨List.forall_mem_cons.mpr ⟨?_, hrest.front⟩, hrest.ending, hrest.refused⟩
          exact ⟨before', ch, tail, spelling, rest, hskip, hch, hfirst⟩

theorem scan_standIn (source : String) : (scan source).StandIn source.toList := by
  have hstart : (Cursor.start source.toList).place.Splits source.toList [] source.toList := ⟨rfl, rfl, rfl⟩
  exact scanFrom_standIn _ _ hstart (Nat.lt_succ_self _)

/-- What stands at a place from which a text goes on with `after`: a token, the end of input, or a character that starts
no token. -/
inductive Starts (ts : Tokens) (p : Place) (after : List Char) : Prop
  | token {t : Token} {spelling rest : List Char} : t ∈ ts.front → p = t.place →
      Lexeme.first? after = some (t.lexeme, spelling, rest) → Starts ts p after
  | ending {t : Token} : ts.ending = .ok t → p = t.place → after = [] → Starts ts p after
  | refused {e : LexError} : ts.ending = .error e → p = e.place → after.head? = some e.char →
      Lexeme.first? after = none → Starts ts p after

structure StartsIn (text : List Char) (ts : Tokens) (p : Place) (before after : List Char) : Prop where
  splits : p.Splits text before after
  starts : ts.Starts p after
  visible : ∀ c ∈ after.head?, Text.isBlank c = false

def Occupied (text : List Char) (ts : Tokens) (position : Position) : Prop :=
  ∃ p before after, position = p.position ∧ ts.StartsIn text p before after

namespace StandIn

variable {text : List Char} {ts : Tokens} (h : ts.StandIn text)
include h

theorem occupied_front {t : Token} (ht : t ∈ ts.front) : ts.Occupied text t.position := by
  obtain ⟨before, c, after, spelling, rest, hsplits, hc, hfirst⟩ := h.front t ht
  exact ⟨t.place, before, c :: after, rfl, hsplits, .token ht rfl hfirst, fun d hd => by cases hd; exact hc⟩

theorem occupied_ending {t : Token} (ht : ts.ending = .ok t) : ts.Occupied text t.position :=
  ⟨t.place, text, [], rfl, h.ending t ht, .ending ht rfl rfl, nofun⟩

theorem occupied_refused {e : LexError} (he : ts.ending = .error e) : ts.Occupied text e.position := by
  obtain ⟨before, after, hsplits, hc, hfirst⟩ := h.refused e he
  exact ⟨e.place, before, e.char :: after, rfl, hsplits, .refused he rfl rfl hfirst, fun d hd => by cases hd; exact hc⟩

end StandIn

end Tokens

/-! ## Diagnostics -/

namespace Diagnostic

/-- What a diagnostic shows of its source at an offset, given by what comes before and after it: the line around the
offset, and a caret under what stands there. -/
structure Points (d : Diagnostic) (before after above left right below : List Char) : Prop extends
    Text.Around before after above left right below where
  line : d.position.line = above.count '\n' + 1
  column : d.position.column = left.length + 1
  sourceLine : d.sourceLine = String.ofList (left ++ right)
  shown : ∀ color, d.format color = (if color then d.style.apply d.header else d.header) ++ "\n" ++
    String.ofList (left ++ right) ++ "\n" ++ (String.ofList (List.replicate left.length ' ') ++ "^")

theorem points_of_splits {d : Diagnostic} {p : Place} {before after : List Char} (hposition : d.position = p.position)
    (hp : p.Splits d.source.toList before after) :
    ∃ above left right below, d.Points before after above left right below := by
  obtain ⟨above, left, right, below, h⟩ := Text.exists_around before after
  have hd : d.position = ⟨above.count '\n' + 1, left.length + 1⟩ := by rw [hposition, hp.position, h.position]
  have hline : d.position.line = above.count '\n' + 1 := congrArg Position.line hd
  have hcolumn : d.position.column = left.length + 1 := congrArg Position.column hd
  have hshows : d.sourceLine = String.ofList (left ++ right) := by
    have hindex : (d.position.line - 1).toNat = above.count '\n' := by omega
    rw [Diagnostic.sourceLine, if_neg (by omega), hindex, List.getD_eq_getElem?_getD, hp.text_eq, h.getElem?_lines]
    rfl
  refine ⟨above, left, right, below, h, hline, hcolumn, hshows, fun color => ?_⟩
  have hindent : (d.position.column - 1).toNat = left.length := by omega
  rw [format, hshows, caret, hindent]
  rfl

namespace Points

variable {d : Diagnostic} {before after above left right below : List Char}
  (h : d.Points before after above left right below)
include h

theorem line_le (htext : d.source.toList = before ++ after) :
    d.position.line ≤ (Text.lines d.source.toList).length := by
  rw [Text.length_lines, htext, h.before_eq, h.line, List.append_assoc, List.count_append]
  omega

theorem column_le : d.position.column ≤ d.sourceLine.length + 1 := by
  rw [h.sourceLine, h.column, String.length_ofList, List.length_append]
  omega

/-- At the end of a text is the end of its last line. -/
theorem at_end (htext : d.source.toList = before ++ after) (hafter : after = []) :
    d.position.line = (Text.lines d.source.toList).length ∧ d.position.column = d.sourceLine.length + 1 := by
  obtain ⟨rfl, -⟩ := List.append_eq_nil_iff.mp (h.after_eq.symm.trans hafter)
  have hleft : left.count '\n' = 0 := List.count_eq_zero.mpr fun hl => h.unbroken (List.mem_append_left _ hl)
  constructor
  · rw [Text.length_lines, htext, h.before_eq, hafter, h.line, List.append_nil, List.count_append, hleft]
    rfl
  · rw [h.sourceLine, h.column, String.length_ofList, List.append_nil]

/-- What stands at an offset is on the line around it, unless a line feed does. -/
theorem head?_right (hafter : ∀ c ∈ after.head?, Text.isBlank c = false) : right.head? = after.head? := by
  rw [h.after_eq] at hafter ⊢
  cases hr : right with
  | cons c cs => rfl
  | nil =>
    rcases h.stops with hb | ⟨cs, hb⟩
    · rw [hb]
      rfl
    · rw [hr, hb] at hafter
      exact absurd (hafter '\n' rfl) (by decide)

end Points

end Diagnostic

end Curried
