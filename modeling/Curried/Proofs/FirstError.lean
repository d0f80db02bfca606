/-
  Curried.Proofs.FirstError — a program is refused at its first impossible token.

  The token that an error of grammar names is where no program can go on (`parse_refuses_impossible`). A text that has
  the same lexemes up to this token is refused there, too, whatever comes after it: up to this token the parser has
  seen nothing else. And what comes before it is the beginning of a program: on these tokens alone the parser comes to
  the end (`Parser.exhausts_before`), so they can be completed, and the completion can be written after them
  (`exists_accepted`).
-/

import Curried.Proofs.Grammar.Completion
import Curried.Proofs.Grammar.Locality
import Curried.Proofs.Layout.Reading
import Curried.Proofs.Spelling
import Mathlib.Data.List.Nodup

namespace Curried

/-! ## Streams of tokens -/

/-- No two tokens are taken at one offset. -/
theorem Cursor.Takes.offsets {c d : Cursor} {ts : List Token} (h : Takes c ts d) :
    (∀ t ∈ ts, c.offset ≤ t.offset) ∧ ts.Pairwise fun t u => t.offset < u.offset := by
  induction h with
  | nil => exact ⟨nofun, .nil⟩
  | @cons c d _ t ts hnext ht _ ih =>
    obtain ⟨gap, spelling, hrest, hgap, hspelled⟩ := exists_of_next hnext ht
    have hstep := next_of_spelled hgap hspelled c.offset c.position
    rw [← hrest, hnext] at hstep
    obtain ⟨htoken, hcursor⟩ := Prod.mk.inj (Except.ok.inj hstep)
    have ht : t.offset = c.offset + gap.length := congrArg Token.offset htoken
    have hd : d.offset = c.offset + gap.length + spelling.length := congrArg Cursor.offset hcursor
    have hpos := List.length_pos_iff.mpr hspelled.ne_nil
    refine ⟨List.forall_mem_cons.mpr ⟨by omega, fun u hu => ?_⟩, List.pairwise_cons.mpr ⟨fun u hu => ?_, ih.2⟩⟩
    · have := ih.1 u hu
      omega
    · have := ih.1 u hu
      omega

namespace Tokens

def all (ts : Tokens) : List Token := ts.front ++ ts.ending.toOption.toList

theorem eq_of_front {ts ts' : Tokens} (hfront : ts.front = ts'.front) (hending : ts.ending = ts'.ending) :
    ts = ts' := by
  obtain ⟨front, ending, size, hsize⟩ := ts
  obtain ⟨front', ending', size', hsize'⟩ := ts'
  cases hfront
  cases hending
  cases hsize
  cases hsize'
  rfl

theorem eq_cons {ts : Tokens} {t : Token} {us : List Token} (h : ts.front = t :: us) : ts = .cons t ts.tail :=
  eq_of_front (h.trans (congrArg (t :: ·) (congrArg List.tail h).symm)) rfl

theorem mem_all {ts : Tokens} {t : Token} : t ∈ ts.all ↔ t ∈ ts.front ∨ ts.ending = .ok t := by
  unfold all
  rw [List.mem_append]
  cases ts.ending with
  | error e => simp [Except.toOption]
  | ok u => simp [Except.toOption, eq_comm]

/-- A token of a text is one of those before the end, or the end of input. -/
theorem scan_split {source : String} {before after : List Token} {t : Token}
    (h : (scan source).all = before ++ t :: after) :
    (t.lexeme ≠ .endOfInput ∧ ∃ us, (scan source).front = before ++ t :: us ∧
      after = us ++ (scan source).ending.toOption.toList) ∨
    t.lexeme = .endOfInput ∧ (scan source).front = before ∧ (scan source).ending = .ok t := by
  have hfront : ∀ us, (scan source).front = before ++ t :: us → t.lexeme ≠ .endOfInput := by
    intro us hus
    exact scan_front source t (by rw [hus]; exact List.mem_append_right _ List.mem_cons_self)
  unfold all at h
  cases hending : (scan source).ending with
  | error e =>
    rw [hending] at h
    replace h : (scan source).front = before ++ t :: after := (List.append_nil _).symm.trans h
    exact Or.inl ⟨hfront after h, after, h, (List.append_nil _).symm⟩
  | ok last =>
    rw [hending] at h
    replace h : (scan source).front ++ [last] = before ++ t :: after := h
    rcases List.eq_nil_or_concat after with rfl | ⟨us, u, rfl⟩
    · obtain ⟨hbefore, hlast⟩ := List.append_inj' h rfl
      cases hlast
      exact Or.inr ⟨scan_ending hending, hbefore, rfl⟩
    · rw [List.concat_eq_append] at h ⊢
      have hsplit : (scan source).front ++ [last] = (before ++ t :: us) ++ [u] := by rw [h, List.append_assoc]; rfl
      obtain ⟨hbefore, hlast⟩ := List.append_inj' hsplit rfl
      cases hlast
      exact Or.inl ⟨hfront us hbefore, us, hbefore, rfl⟩

theorem front_of_all {source : String} {before after : List Token} {t : Token}
    (h : (scan source).all = before ++ t :: after) : ∃ rest, (scan source).front = before ++ rest := by
  rcases scan_split h with ⟨-, us, hfront, -⟩ | ⟨-, hfront, -⟩
  · exact ⟨_, hfront⟩
  · exact ⟨[], hfront.trans (List.append_nil _).symm⟩

theorem nodup_scan (source : String) : (scan source).all.Nodup := by
  have hfront : (scan source).front.Nodup := by
    have hwhole : (Cursor.start source.toList).tokens.front = (scan source).front ++ [] := (List.append_nil _).symm
    obtain ⟨d, htakes⟩ := Cursor.exists_takes _ hwhole
    exact htakes.offsets.2.imp fun hlt heq => absurd (congrArg Token.offset heq) (Nat.ne_of_lt hlt)
  cases hending : (scan source).ending with
  | error e => rwa [all, hending, Except.toOption, Option.toList, List.append_nil]
  | ok last =>
    rw [all, hending]
    refine hfront.append (List.nodup_singleton last) (List.disjoint_singleton.mpr fun hlast => ?_)
    exact scan_front source last hlast (scan_ending hending)

/-- No token comes twice. -/
theorem once {source : String} {before after : List Token} {t : Token}
    (h : (scan source).all = before ++ t :: after) : t ∉ before ∧ t ∉ after := by
  have hnodup := nodup_scan source
  rw [h, List.nodup_middle, List.nodup_cons, List.mem_append, not_or] at hnodup
  exact hnodup.1

end Tokens

/-! ## Refusals -/

namespace Parser

open Grammar

/-- Streams that start with the same tokens share them. -/
theorem Shared.of_front {T : Token → Prop} {ts ts' : Tokens} {us vs vs' : List Token} (h : ts.front = us ++ vs)
    (h' : ts'.front = us ++ vs') (hvs : ∀ t ∈ vs, T t) (hending : ∀ t, ts.ending = .ok t → T t) :
    Shared T us.length ts ts' := by
  induction us generalizing ts ts' with
  | nil =>
    rw [List.nil_append] at h
    exact .beyond ⟨by rwa [h], hending⟩
  | cons t us ih =>
    rw [Tokens.eq_cons h, Tokens.eq_cons h']
    exact .cons (ih (congrArg List.tail h) (congrArg List.tail h') hending)

theorem parse_eq_error_iff {source : String} {failure : ParseFailure} :
    parse source = .error failure ↔
      program ((Tokens.scan source).size + 1) (Tokens.scan source) = .error failure := by
  unfold parse
  dsimp only
  cases program ((Tokens.scan source).size + 1) (Tokens.scan source) with
  | ok r => exact ⟨nofun, nofun⟩
  | error failure' => exact ⟨fun h => congrArg _ (Except.error.inj h), fun h => congrArg _ (Except.error.inj h)⟩

variable {e : ParseError}

/-- A token that two streams share is refused on both, however they go on. -/
theorem program_refuses_shared {ts ts' : Tokens} {us vs vs' : List Token} (h : ts.front = us ++ vs)
    (h' : ts'.front = us ++ vs') (hread : program (ts.size + 1) ts = .error (.grammar e)) (hvs : e.token ∉ vs)
    (hending : ts.ending ≠ .ok e.token) : program (ts'.size + 1) ts' = .error (.grammar e) := by
  have hshared : Shared (· ≠ e.token) us.length ts ts' :=
    .of_front h h' (fun t ht he => hvs (he ▸ ht)) fun t ht he => hending (he ▸ ht)
  obtain ⟨hsize, hsize'⟩ := hshared.le_size
  exact program_refuses hshared (Nat.le_succ_of_le hsize) (Nat.le_succ_of_le hsize') hread fun he => he rfl

/-- On streams with the same lexemes the same is wanted in place of the same lexeme. -/
theorem program_refuses_alike {ts ts' : Tokens} (hts : ts.Alike ts')
    (h : program (ts.size + 1) ts = .error (.grammar e)) :
    ∃ t, t.lexeme = e.token.lexeme ∧ program (ts'.size + 1) ts' = .error (.grammar ⟨e.wanted, t⟩) := by
  have hsize : ts'.size = ts.size := by rw [ts.size_eq, ts'.size_eq, hts.front.length_eq]
  have hsame := program_agrees (ts.size + 1) ts ts' hts
  rw [hsize]
  rw [h] at hsame
  generalize program (ts.size + 1) ts' = r at hsame ⊢
  cases hsame with
  | error hx =>
    cases hx with
    | grammar ht => exact ⟨_, ht.symm, rfl⟩

theorem alike_stream (eof : Token) {ts ts' : List Token} (h : ts.map (·.lexeme) = ts'.map (·.lexeme)) :
    (stream eof ts).Alike (stream eof ts') where
  front := by rwa [← List.forall₂_eq_eq_eq, List.forall₂_map_left_iff, List.forall₂_map_right_iff] at h
  ending := ⟨eof, eof, rfl, rfl, rfl⟩

theorem front_stream (eof : Token) (ts : List Token) : (stream eof ts).front = ts ++ [] := (List.append_nil ts).symm

theorem among_stream (eof : Token) (ts : List Token) : (stream eof ts).Among fun t => t ∈ ts ∨ t = eof :=
  ⟨fun _ ht => Or.inl ht, fun _ ht => Or.inr (Except.ok.inj ht).symm⟩

variable {source : String} (h : parse source = .error (.grammar e))
include h

theorem token_mem_all : e.token ∈ (Tokens.scan source).all :=
  program_refuses_among (T := (· ∈ (Tokens.scan source).all))
    ⟨fun _ ht => Tokens.mem_all.mpr (Or.inl ht), fun _ ht => Tokens.mem_all.mpr (Or.inr ht)⟩
    (parse_eq_error_iff.mp h)

variable {before after : List Token} (hall : (Tokens.scan source).all = before ++ e.token :: after)
  {eof : Token} (heof : eof.lexeme = .endOfInput)
include hall heof

/-- On the tokens before the refused one the parser comes to the end: none of them is refused, as it would be refused
on the whole text, too. -/
theorem exhausts_before : Exhausts eof (program ((stream eof before).size + 1) (stream eof before)) := by
  obtain ⟨rest, hfront⟩ := Tokens.front_of_all hall
  have hrec := program_recognizes heof ((stream eof before).size + 1) before (Nat.lt_succ_self _)
  cases hread : program ((stream eof before).size + 1) (stream eof before) with
  | ok r =>
    obtain ⟨t, ts⟩ := r
    obtain ⟨used, left, hsplit, rfl, -, hnext⟩ := hrec.sound t ts hread
    cases left with
    | nil => exact .ok
    | cons t left =>
      have hmem : t ∈ (Tokens.scan source).front := by simp [hfront, hsplit]
      exact absurd hnext (Tokens.scan_front source t hmem)
  | error failure =>
    obtain ⟨e', rfl⟩ := hrec.refuses failure hread
    refine .error (Classical.byContradiction fun hproper => ?_)
    have hne : e'.token ≠ eof := fun he => hproper (he ▸ heof)
    have hagain := program_refuses_shared (front_stream eof before) hfront hread List.not_mem_nil
      fun he => hne (Except.ok.inj he).symm
    rw [parse_eq_error_iff, hagain] at h
    cases h
    have hmem := (program_refuses_among (among_stream eof before) hread).resolve_right hne
    exact (Tokens.once hall).1 hmem

/-- The first token that is refused after the same lexemes is the one that comes after them. -/
theorem refused_last {before' : List Token} {t : Token} {e' : ParseError}
    (hbefore : before.map (·.lexeme) = before'.map (·.lexeme))
    (hread : program ((stream eof (before' ++ [t])).size + 1) (stream eof (before' ++ [t])) = .error (.grammar e'))
    (hproper : e'.token.lexeme ≠ .endOfInput) : e'.token = t := by
  refine Classical.byContradiction fun hne => hproper ?_
  have halone := program_refuses_shared rfl (front_stream eof before') hread
    (fun hmem => hne (List.mem_singleton.mp hmem)) fun he => hproper (Except.ok.inj he ▸ heof)
  obtain ⟨u, hu, halone'⟩ := program_refuses_alike (alike_stream eof hbefore.symm) halone
  have hend := exhausts_before h hall heof
  rw [halone'] at hend
  cases hend with
  | error he => exact hu.symm.trans he

omit eof heof in
/-- Where the same lexemes come, the same is wanted in place of the same token, whatever comes after it. -/
theorem refused_alike {source' : String} {before' after' : List Token} {t : Token}
    (hall' : (Tokens.scan source').all = before' ++ t :: after')
    (hbefore : before.map (·.lexeme) = before'.map (·.lexeme)) (ht : e.token.lexeme = t.lexeme) :
    parse source' = .error (.grammar ⟨e.wanted, t⟩) := by
  obtain ⟨eof, heof⟩ : ∃ eof : Token, eof.lexeme = .endOfInput := ⟨⟨.endOfInput, 0, {}⟩, rfl⟩
  have hread := parse_eq_error_iff.mp h
  rw [parse_eq_error_iff]
  rcases Tokens.scan_split hall with ⟨hend, us, hfront, hafter⟩ | ⟨hend, hfront, hending⟩ <;>
  rcases Tokens.scan_split hall' with ⟨hend', us', hfront', -⟩ | ⟨hend', hfront', hending'⟩
  · have hlexemes : (before ++ [e.token]).map (·.lexeme) = (before' ++ [t]).map (·.lexeme) := by
      rw [List.map_append, List.map_append, hbefore, List.map_singleton, List.map_singleton, ht]
    have hus : e.token ∉ us := fun hmem => (Tokens.once hall).2 (by rw [hafter]; exact List.mem_append_left _ hmem)
    rw [List.append_cons] at hfront hfront'
    -- up to the token alone, then with the other tokens, then with what comes after those
    have halone := program_refuses_shared hfront (front_stream eof (before ++ [e.token])) hread hus
      fun he => hend (Tokens.scan_ending he)
    obtain ⟨u, hu, halone'⟩ := program_refuses_alike (alike_stream eof hlexemes) halone
    obtain rfl : u = t := refused_last h hall heof hbefore halone' (hu ▸ hend)
    exact program_refuses_shared (front_stream eof _) hfront' halone' List.not_mem_nil
      fun he => hend' ((congrArg Token.lexeme (Except.ok.inj he)).symm.trans heof)
  · exact absurd (ht ▸ hend') hend
  · exact absurd (ht ▸ hend) hend'
  · rw [← hfront, ← hfront'] at hbefore
    have halike : (Tokens.scan source).Alike (Tokens.scan source') := ⟨(alike_stream eof hbefore).front,
      e.token, t, hending, hending', ht⟩
    obtain ⟨u, hu, hread'⟩ := program_refuses_alike halike hread
    rcases Tokens.mem_all.mp (token_mem_all (parse_eq_error_iff.mpr hread')) with hmem | hlast
    · exact absurd (hu.trans hend) (Tokens.scan_front source' u hmem)
    · cases hending'.symm.trans hlast
      exact hread'

omit eof heof in
/-- What comes before the refused token can be completed. -/
theorem completes_before :
    Completes (· = .endOfInput) (fun ts next t => Program ts t ∧ next = .endOfInput) before := by
  obtain ⟨rest, hfront⟩ := Tokens.front_of_all hall
  have hproper : ∀ t ∈ before, t.lexeme ≠ .endOfInput :=
    fun t ht => Tokens.scan_front source t (by rw [hfront]; exact List.mem_append_left _ ht)
  have heof : (Token.mk .endOfInput 0 {}).lexeme = .endOfInput := rfl
  exact program_viable heof _ before (Nat.lt_succ_self _) hproper (exhausts_before h hall heof)

end Parser

/-! ## Texts -/

theorem Lexeme.exists_spelled_of_isFiller {l : Lexeme} (h : Grammar.isFiller l = true) :
    ∃ spelling, Spelled l spelling [] := by
  cases l with
  | symbol s => exact ⟨_, .symbol nofun⟩
  | keyword k => exact ⟨_, .keyword k⟩
  | name n =>
    obtain rfl : n = "x" := eq_of_beq h
    have hfirst : first? ['x'] = some (.name "x", ['x'], []) := rfl
    exact ⟨_, spelled_of_first? hfirst⟩
  | _ => cases h

open Grammar

/-- Tokens at the start of a text that can be completed are the start of a text that is accepted. -/
theorem exists_accepted {source : String} {before rest : List Token}
    (hfront : (Tokens.scan source).front = before ++ rest)
    (h : Completes (· = .endOfInput) (fun ts next t => Program ts t ∧ next = .endOfInput) before) :
    ∃ source' t, parse source' = .ok t ∧ before <+: (Tokens.scan source').all := by
  obtain ⟨fillers, hfill, hcomplete⟩ := h
  obtain ⟨text, htext⟩ := Writes.exists_of_spelled fun l hl => Lexeme.exists_spelled_of_isFiller (hfill l hl)
  obtain ⟨d, htakes⟩ := Cursor.exists_takes (Cursor.start source.toList) hfront
  obtain ⟨cs, hcs⟩ := htakes.rest_eq
  -- after the last of these tokens the text goes on with the completion
  have hscan : Tokens.scan (String.ofList (cs ++ ' ' :: text)) = Cursor.tokens ⟨cs ++ ' ' :: text, 0, {}⟩ := by
    rw [Tokens.scan, String.toList_ofList]
    rfl
  obtain ⟨hfront', hending'⟩ := (htakes.cut hcs (Lexeme.breaks_cons (c := ' ') rfl text)).tokens_eq
  obtain ⟨hlexemes, eof, heof⟩ := (htext.blank (c := ' ') rfl).tokens_eq d.offset d.position
  obtain ⟨t, ht, -⟩ := hcomplete _ hlexemes .endOfInput rfl
  rw [Cursor.start, ← hscan] at hfront' hending'
  rw [← hfront'] at ht
  rcases parse_cases (hending'.trans heof) with ⟨t', hparse, -⟩ | ⟨_, -, hnone⟩
  · exact ⟨_, t', hparse, _, by rw [Tokens.all, hfront', List.append_assoc]⟩
  · exact absurd ⟨t, ht⟩ hnone

/-- An error of grammar names the first token that is impossible. Where the same lexemes come, the same is wanted in
place of the same token, whatever comes after it; where the same tokens come, it is the same error. And the tokens
before the one that is refused are the beginning of a program. -/
theorem parse_refuses_impossible {source : String} {e : ParseError} (h : parse source = .error (.grammar e)) :
    (∃ before, before ++ [e.token] <+: (Tokens.scan source).all) ∧
    ∀ before, before ++ [e.token] <+: (Tokens.scan source).all →
      (∀ source' before' t, before' ++ [t] <+: (Tokens.scan source').all →
        before.map (·.lexeme) = before'.map (·.lexeme) → e.token.lexeme = t.lexeme →
        parse source' = .error (.grammar ⟨e.wanted, t⟩)) ∧
      ∃ source' t, parse source' = .ok t ∧ before <+: (Tokens.scan source').all := by
  have hsplit : ∀ {source before t}, before ++ [t] <+: (Tokens.scan source).all →
      ∃ after, (Tokens.scan source).all = before ++ t :: after := by
    intro source before t hbefore
    obtain ⟨after, hall⟩ := hbefore
    exact ⟨after, hall.symm.trans (List.append_cons _ _ _).symm⟩
  refine ⟨?_, fun before hbefore => ?_⟩
  · obtain ⟨before, after, hall⟩ := List.append_of_mem (Parser.token_mem_all h)
    exact ⟨before, after, (List.append_cons _ _ _).symm.trans hall.symm⟩
  · obtain ⟨after, hall⟩ := hsplit hbefore
    refine ⟨fun source' before' t hbefore' hlexemes ht => ?_, ?_⟩
    · obtain ⟨after', hall'⟩ := hsplit hbefore'
      exact Parser.refused_alike h hall hall' hlexemes ht
    · obtain ⟨rest, hfront⟩ := Tokens.front_of_all hall
      exact exists_accepted hfront (Parser.completes_before h hall)

/-- After `(a` no `b` can come, even before a character that starts no token. -/
theorem parse_refuses_impossible_group :
    parse "(a b" = .error (.grammar ⟨.closeAfterExpression, ⟨.name "b", 3, ⟨1, 4⟩⟩⟩) ∧
    parse "(a b $" = .error (.grammar ⟨.closeAfterExpression, ⟨.name "b", 3, ⟨1, 4⟩⟩⟩) ∧
    parse "( a\nb )" = .error (.grammar ⟨.closeAfterExpression, ⟨.name "b", 4, ⟨2, 1⟩⟩⟩) ∧
    ∃ source t, parse source = .ok t ∧
      [⟨.symbol .openParen, 0, ⟨1, 1⟩⟩, ⟨.name "a", 1, ⟨1, 2⟩⟩] <+: (Tokens.scan source).all := by
  have hparse : parse "(a b" = .error (.grammar ⟨.closeAfterExpression, ⟨.name "b", 3, ⟨1, 4⟩⟩⟩) := rfl
  obtain ⟨hagain, hviable⟩ := (parse_refuses_impossible hparse).2
    [⟨.symbol .openParen, 0, ⟨1, 1⟩⟩, ⟨.name "a", 1, ⟨1, 2⟩⟩] ⟨[⟨.endOfInput, 4, ⟨1, 5⟩⟩], rfl⟩
  refine ⟨hparse, ?_, ?_, hviable⟩
  · exact hagain "(a b $" _ _ ⟨[], rfl⟩ rfl rfl
  · exact hagain "( a\nb )" [⟨.symbol .openParen, 0, ⟨1, 1⟩⟩, ⟨.name "a", 2, ⟨1, 3⟩⟩] ⟨.name "b", 4, ⟨2, 1⟩⟩
      ⟨[⟨.symbol .closeParen, 6, ⟨2, 3⟩⟩, ⟨.endOfInput, 7, ⟨2, 4⟩⟩], rfl⟩ rfl rfl

end Curried
