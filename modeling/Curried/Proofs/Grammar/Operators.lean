/-
  Curried.Proofs.Grammar.Operators — lists and operators.

  What phrases start with, and the parts of the parser that repeat something: items with commas between them, operands
  with operators between them, unary operators, sequences.
-/

import Curried.Proofs.Grammar.Recognizer

namespace Curried

namespace Grammar

/-! ## First tokens -/

def startsDeclaration : Lexeme → Bool
  | .keyword .letWord | .keyword .fnWord => true
  | _ => false

def startsAtom : Lexeme → Bool
  | .number _ | .string _ | .boolean _ | .name _ => true
  | .keyword .ifWord => true
  | .symbol .openParen | .symbol .openBracket => true
  | l => startsDeclaration l

theorem startsAtom_of_startsDeclaration {l : Lexeme} (h : startsDeclaration l = true) : startsAtom l = true := by
  cases l with
  | keyword word =>
    cases word with
    | letWord => rfl
    | fnWord => rfl
    | _ => cases h
  | _ => cases h

def startsExpression (l : Lexeme) : Bool := startsAtom l || (unaryOperator? l).isSome

theorem unaryOperator?_of_startsAtom {l : Lexeme} (h : startsAtom l = true) : unaryOperator? l = none := by
  cases l with
  | symbol s =>
    cases s with
    | bang => cases h
    | minus => cases h
    | _ => rfl
  | _ => rfl

variable {ts : List Token} {next : Lexeme} {e : Expr}

theorem declaration_starts (h : Derives .declaration ts next e) : Starts startsDeclaration ts := by
  cases h with
  | binding hlet => exact ⟨_, _, rfl, by rw [hlet]; rfl⟩
  | function hfn => exact ⟨_, _, rfl, by rw [hfn]; rfl⟩

theorem atom_starts (h : Derives .atom ts next e) : Starts startsAtom ts := by
  cases h with
  | declared h =>
    obtain ⟨t, us, rfl, ht⟩ := declaration_starts h
    exact ⟨t, us, rfl, startsAtom_of_startsDeclaration ht⟩
  | branch h | number h | string h | boolean h | ref h | nil h | group h | list h => exact ⟨_, _, rfl, by rw [h]; rfl⟩

theorem assignment_starts (h : Derives .assignment ts next e) : Starts startsAtom ts := by
  have happlication : ∀ {ts next e}, Derives .application ts next e → Starts startsAtom ts := by
    intro ts next e h
    cases h with
    | application hatom _ => exact (atom_starts hatom).append _
  cases h with
  | target h => exact happlication h
  | assign h => exact (happlication h).append _

theorem unary_starts (h : Derives .unary ts next e) : Starts startsExpression ts := by
  cases h with
  | unary hop => exact ⟨_, _, rfl, by simp [startsExpression, hop]⟩
  | unsigned h =>
    obtain ⟨t, us, rfl, ht⟩ := assignment_starts h
    exact ⟨t, us, rfl, by simp [startsExpression, ht]⟩

theorem tier_starts {tier : Tier} (hop : ∀ {ts next e}, Derives tier.operand ts next e → Starts startsExpression ts)
    (h : Derives (.tier tier) ts next e) : Starts startsExpression ts := by
  cases h with
  | left _ h => exact (hop h).append _
  | operand _ h => exact hop h
  | right _ h => exact (hop h).append _

theorem sequence_starts (h : Derives .sequence ts next e) : Starts startsExpression ts := by
  have hpipe : ∀ {ts next e}, Derives (.tier .pipe) ts next e → Starts startsExpression ts :=
    tier_starts <| tier_starts <| tier_starts <| tier_starts <| tier_starts <| tier_starts <| tier_starts unary_starts
  cases h with
  | single h => exact hpipe h
  | sequence h => exact (hpipe h).append _

end Grammar

namespace Parser

open Grammar

variable {α β : Type} {eof : Token} (heof : eof.lexeme = .endOfInput)

/-! ## Lists -/

/-- `(, P)*`. -/
def MoreItems (P : Phrase α) : Phrase (List α) := (Items P).optional (.symbol .comma) []

theorem items_iff {P : Phrase α} {ts : List Token} {next : Lexeme} {ys : List α} :
    Items P ts next ys ↔ P.andThen (fun x us next ys => ∃ xs, MoreItems P us next xs ∧ ys = x :: xs) ts next ys := by
  constructor
  · intro h
    cases h with
    | one hx hnext => exact ⟨ts, [], _, (List.append_nil ts).symm, hx, [], Or.inr ⟨hnext, rfl, rfl⟩, rfl⟩
    | @more us vs comma _ x xs hx hcomma hxs =>
      rw [← hcomma] at hx
      exact ⟨us, comma :: vs, x, rfl, hx, xs, Or.inl ⟨comma, vs, rfl, hcomma, hxs⟩, rfl⟩
  · rintro ⟨us, vs, x, rfl, hx, xs, ⟨comma, ws, rfl, hcomma, hxs⟩ | ⟨hnext, rfl, rfl⟩, rfl⟩
    · rw [following_cons, hcomma] at hx
      exact .more hx hcomma hxs
    · rw [List.append_nil]
      exact .one hx hnext

include heof

theorem moreItems_recognizes {item : Parser α} {P : Phrase α} {n : Nat} (hitem : Recognizes eof n item P) :
    Recognizes eof n (remaining >>= moreItems item) (MoreItems P) := by
  refine .loop ?_ fun rounds k hk hmore => ?_
  · exact .noRounds (.symbol .comma) nofun (Items P) []
  · have hitems : Recognizes eof k (item >>= fun x => moreItems item rounds >>= fun xs => pure (x :: xs)) (Items P) :=
      ((hitem.mono (Nat.le_of_lt hk)).bind fun x => hmore.map (x :: ·)).congr fun _ _ _ => items_iff.symm
    exact hitems.optional heof (.symbol .comma) nofun []

omit heof in
theorem items_start {P : Phrase α} {p : Lexeme → Bool} (hstart : ∀ ts next x, P ts next x → Starts p ts)
    {ts : List Token} {next : Lexeme} {xs : List α} (h : Items P ts next xs) : Starts p ts := by
  cases h with
  | one hx => exact hstart _ _ _ hx
  | more hx => exact (hstart _ _ _ hx).append _

theorem items_recognize {item : Parser α} {P : Phrase α} {n : Nat} (hitem : Recognizes eof n item P) :
    Recognizes eof n (do
      let x ← item
      let xs ← moreItems item (← remaining)
      return x :: xs) (Items P) := by
  refine (hitem.bind fun x => ?_).congr fun _ _ _ => items_iff.symm
  exact (moreItems_recognizes heof hitem).map (x :: ·)

/-- `[P (, P)*]`, which is empty exactly when the closing bracket comes next. -/
def Until (P : Phrase α) (close : Symbol) : Phrase (List α) := fun ts next xs =>
  following ts next = .symbol close ∧ ts = [] ∧ xs = [] ∨ following ts next ≠ .symbol close ∧ Items P ts next xs

theorem until_recognizes {item : Parser α} {P : Phrase α} (close : Symbol) {n : Nat}
    (hitem : Recognizes eof n item P) : Recognizes eof n (itemsUntil item close) (Until P close) :=
  Recognizes.seen heof (.symbol close) (fun front _ => .pure [] front) (items_recognize heof hitem)

omit heof in
theorem listed_of_until {P : Phrase α} {close : Symbol} {ts : List Token} {xs : List α}
    (h : Until P close ts (.symbol close) xs) : Listed P close ts xs := by
  rcases h with ⟨-, rfl, rfl⟩ | ⟨-, hxs⟩
  · exact .none
  · exact .some hxs

/-- `[P (, P)*]` and the closing bracket, and what comes after that. -/
theorem itemsUntil_recognizes {item : Parser α} {P : Phrase α} {p : Lexeme → Bool} (close : Symbol) (wanted : Wanted)
    {n : Nat} (hitem : Recognizes eof n item P) (hstart : ∀ ts next x, P ts next x → Starts p ts)
    (hclose : p (.symbol close) = false) {f : List α → Parser β} {Q : List α → Phrase β}
    (hf : ∀ xs, Recognizes eof n (f xs) (Q xs)) :
    Recognizes eof n (itemsUntil item close >>= fun xs => expect (.symbol close) wanted >>= fun _ => f xs)
      fun ts next a => ∃ us closing vs xs, ts = us ++ closing :: vs ∧ Listed P close us xs ∧
        closing.lexeme = .symbol close ∧ Q xs vs next a := by
  have huntil := until_recognizes heof close hitem
  have hexpect := fun xs =>
    ((hf xs).expected heof (.symbol close) nofun wanted).mono (Nat.le_succ n)
  refine (huntil.bind hexpect).congr fun ts next a => ⟨?_, ?_⟩
  · rintro ⟨us, _, xs, rfl, hxs, closing, vs, rfl, hclosing, hQ⟩
    rw [following_cons, hclosing] at hxs
    exact ⟨us, closing, vs, xs, rfl, listed_of_until hxs, hclosing, hQ⟩
  · rintro ⟨us, closing, vs, xs, rfl, hxs, hclosing, hQ⟩
    refine ⟨us, closing :: vs, xs, rfl, ?_, closing, vs, rfl, hclosing, hQ⟩
    rw [following_cons, hclosing]
    cases hxs with
    | none => exact Or.inl ⟨rfl, rfl, rfl⟩
    | some hxs =>
      refine Or.inr ⟨fun hnext => ?_, hxs⟩
      have hfirst := (items_start hstart hxs).following (.symbol close)
      rw [hnext, hclose] at hfirst
      cases hfirst

/-! ## Operators -/

omit heof

def levelOf (tier : Tier) : Level :=
  ⟨if tier.groupsLeft then .left else .right, fun s => tier.operator? (.symbol s)⟩

theorem levels_eq :
    levels = [Tier.pipe, .disjunction, .conjunction, .equality, .comparison, .sum, .product].map levelOf := by
  have hlevel : ∀ (g : Grouping) (f h : Symbol → Option BinaryOp), (∀ s, f s = h s) → Level.mk g f = ⟨g, h⟩ := by
    intro g f h hfh
    rw [funext hfh]
  unfold levels
  simp only [List.map_cons, List.map_nil, List.cons.injEq, and_true]
  refine ⟨?_, ?_, ?_, ?_, ?_, ?_, ?_⟩ <;> exact hlevel _ _ _ fun s => by cases s <;> rfl

theorem operatorAt_eq (tier : Tier) (t : Token) :
    operatorAt (levelOf tier).operator? t = (tier.operator? t.lexeme).map (·, t.position) := by
  unfold operatorAt
  cases t.lexeme with
  | symbol s => rfl
  | _ => cases tier <;> rfl

/-- `(op operand)*`, operation by operation. -/
def Tails (tier : Tier) : List Tail → List Token → Lexeme → Prop
  | [], ts, next => ts = [] ∧ tier.operator? next = none
  | x :: xs, ts, next => ∃ operator us vs, ts = operator :: (us ++ vs) ∧ tier.operator? operator.lexeme = some x.op ∧
      x.position = operator.position ∧ Derives tier.operand us (following vs next) x.operand ∧ Tails tier xs vs next

theorem tails_left {tier : Tier} (rest : List Tail) {ts : List Token} {next : Lexeme} {e : Expr}
    (h : Tails tier rest ts next) : Operations tier e ts next (groupLeft e rest) := by
  induction rest generalizing ts e with
  | nil =>
    obtain ⟨rfl, hnext⟩ := h
    exact .none hnext
  | cons x xs ih =>
    obtain ⟨operator, us, vs, rfl, hop, hp, hx, hxs⟩ := h
    refine .more hop hx ?_
    rw [← hp]
    exact ih hxs

theorem operations_tails {tier : Tier} (n : Nat) {ts : List Token} (hn : ts.length < n) {next : Lexeme} {e f : Expr}
    (h : Operations tier e ts next f) : ∃ rest, Tails tier rest ts next ∧ f = groupLeft e rest := by
  induction n generalizing ts e with
  | zero => exact absurd hn (Nat.not_lt_zero _)
  | succ n ih =>
    cases h with
    | none hnext => exact ⟨[], ⟨rfl, hnext⟩, rfl⟩
    | @more _ us vs operator op _ _ x _ hop hx hrest =>
      rw [List.length_cons, List.length_append] at hn
      obtain ⟨rest, htails, rfl⟩ := ih (by omega) hrest
      exact ⟨⟨op, operator.position, x⟩ :: rest, ⟨operator, us, vs, rfl, hop, rfl, hx, htails⟩, rfl⟩

/-- A right operand of a tier that groups to the right. -/
theorem tails_right {tier : Tier} (hright : tier.groupsLeft = false) (rest : List Tail) {ts us : List Token}
    {next : Lexeme} {e : Expr} (he : Derives tier.operand ts (following us next) e) (h : Tails tier rest us next) :
    Derives (.tier tier) (ts ++ us) next (groupRight e rest) := by
  induction rest generalizing ts us e with
  | nil =>
    obtain ⟨rfl, hnext⟩ := h
    rw [List.append_nil]
    exact .operand hright he hnext
  | cons x xs ih =>
    obtain ⟨operator, us, vs, rfl, hop, hp, hx, hxs⟩ := h
    rw [groupRight, hp]
    exact .right hright he hop (ih hx hxs)

theorem right_tails {tier : Tier} (hright : tier.groupsLeft = false) (n : Nat) {ts : List Token} (hn : ts.length < n)
    {next : Lexeme} {f : Expr} (h : Derives (.tier tier) ts next f) :
    ∃ us vs e rest, ts = us ++ vs ∧ Derives tier.operand us (following vs next) e ∧ Tails tier rest vs next ∧
      f = groupRight e rest := by
  induction n generalizing ts f with
  | zero => exact absurd hn (Nat.not_lt_zero _)
  | succ n ih =>
    cases h with
    | left hleft => rw [hright] at hleft; cases hleft
    | operand _ he hnext => exact ⟨ts, [], f, [], (List.append_nil ts).symm, he, ⟨rfl, hnext⟩, rfl⟩
    | @right _ us vs operator op _ e g _ he hop hg =>
      rw [List.length_append, List.length_cons] at hn
      obtain ⟨us', vs', x, rest, rfl, hx, hrest, rfl⟩ := ih (by omega) hg
      exact ⟨us, operator :: (us' ++ vs'), e, ⟨op, operator.position, x⟩ :: rest, rfl, he,
        ⟨operator, us', vs', rfl, hop, rfl, hx, hrest⟩, rfl⟩

/-- A tier is its operands with its operations between them. -/
theorem tier_iff (tier : Tier) {ts : List Token} {next : Lexeme} {f : Expr} :
    Derives (.tier tier) ts next f ↔
      Phrase.andThen (Derives tier.operand)
        (fun e us next f => ∃ rest, Tails tier rest us next ∧ f = (levelOf tier).grouping.apply e rest) ts next f := by
  cases hgroup : tier.groupsLeft with
  | true =>
    have happly : (levelOf tier).grouping.apply = groupLeft := by
      rw [levelOf, hgroup]
      rfl
    rw [happly]
    constructor
    · intro h
      cases h with
      | left _ he hf => exact ⟨_, _, _, rfl, he, operations_tails _ (Nat.lt_succ_self _) hf⟩
      | operand hright => rw [hgroup] at hright; cases hright
      | right hright => rw [hgroup] at hright; cases hright
    · rintro ⟨us, vs, e, rfl, he, rest, hrest, rfl⟩
      exact .left hgroup he (tails_left rest hrest)
  | false =>
    have happly : (levelOf tier).grouping.apply = groupRight := by
      rw [levelOf, hgroup]
      rfl
    rw [happly]
    constructor
    · intro h
      obtain ⟨us, vs, e, rest, hts, he, hrest, hf⟩ := right_tails hgroup _ (Nat.lt_succ_self _) h
      exact ⟨us, vs, e, hts, he, rest, hrest, hf⟩
    · rintro ⟨us, vs, e, rfl, he, rest, hrest, rfl⟩
      exact tails_right hgroup rest he hrest

include heof

omit heof in
theorem tails_none {tier : Tier} {used rest : List Token} {xs : List Tail}
    (hnext : tier.operator? (following (used ++ rest) .endOfInput) = none) :
    used = [] ∧ xs = [] ↔ Tails tier xs used (following rest .endOfInput) := by
  constructor
  · rintro ⟨rfl, rfl⟩
    exact ⟨rfl, hnext⟩
  · intro h
    cases xs with
    | nil => exact ⟨h.1, rfl⟩
    | cons x xs =>
      obtain ⟨operator, us, vs, rfl, hop, -⟩ := h
      cases hnext.symm.trans hop

omit heof in
theorem tails_some {tier : Tier} {t : Token} {op : BinaryOp} (hop : tier.operator? t.lexeme = some op)
    {ts : List Token} {next : Lexeme} {xs : List Tail} :
    Tails tier xs (t :: ts) next ↔ Phrase.andThen (Derives tier.operand)
      (fun x us next xs => ∃ rest, Tails tier rest us next ∧ xs = ⟨op, t.position, x⟩ :: rest) ts next xs := by
  constructor
  · intro h
    cases xs with
    | nil => cases h.1
    | cons x xs =>
      obtain ⟨_, us, vs, ⟨⟩, hop', hp, hx, hxs⟩ := h
      obtain ⟨op', p', x'⟩ := x
      cases hp
      cases hop.symm.trans hop'
      exact ⟨us, vs, x', rfl, hx, xs, hxs, rfl⟩
  · rintro ⟨us, vs, x, rfl, hx, xs, hxs, rfl⟩
    exact ⟨t, us, vs, rfl, hop, rfl, hx, hxs⟩

theorem tails_recognizes {tier : Tier} {operand : Parser Expr} {n : Nat}
    (hoperand : Recognizes eof n operand (Derives tier.operand)) :
    Recognizes eof n (remaining >>= tails (levelOf tier).operator? operand)
      fun ts next rest => Tails tier rest ts next := by
  refine .loop ?_ fun rounds k hk hrest => ?_
  · intro front hfront
    obtain rfl : front = [] := List.length_eq_zero_iff.mp (by omega)
    refine (RecognizesAt.pure [] []).congr fun used rest xs hsplit => tails_none ?_
    rw [← hsplit]
    cases tier <;> rfl
  · intro front hfront
    have hpeek : tails (levelOf tier).operator? operand (rounds + 1) (stream eof front) = _ := peek_bind eof _ front
    rw [operatorAt_eq, headD_lexeme heof] at hpeek
    cases hop : tier.operator? (following front .endOfInput) with
    | none =>
      rw [hop] at hpeek
      refine ((RecognizesAt.pure [] front).of_eq hpeek).congr fun used rest xs hsplit => tails_none ?_
      rw [← hsplit, hop]
    | some op =>
      rw [hop] at hpeek
      cases front with
      | nil => cases tier <;> cases hop
      | cons t front =>
        have hmore := (hoperand.mono (Nat.le_of_lt hk)).bind fun x => hrest.map (⟨op, t.position, x⟩ :: ·)
        refine (hmore front (by simpa using hfront)).token hpeek (fun _ _ _ => tails_some hop) fun xs h => ?_
        cases xs with
        | nil => cases hop.symm.trans h.2
        | cons x xs => obtain ⟨_, _, _, ⟨⟩, -⟩ := h

theorem level_recognizes (tier : Tier) {operand : Parser Expr} {n : Nat}
    (hoperand : Recognizes eof n operand (Derives tier.operand)) :
    Recognizes eof n ((levelOf tier).read operand) (Derives (.tier tier)) := by
  refine (hoperand.bind fun first => ?_).congr fun _ _ _ => (tier_iff tier).symm
  exact (tails_recognizes heof hoperand).map _

theorem climb_recognizes {operand : Parser Expr} {n : Nat} (hoperand : Recognizes eof n operand (Derives .unary)) :
    Recognizes eof n (climb operand levels) (Derives (.tier .pipe)) := by
  rw [levels_eq]
  have hproduct := level_recognizes heof .product hoperand
  have hsum := level_recognizes heof .sum hproduct
  have hcomparison := level_recognizes heof .comparison hsum
  have hequality := level_recognizes heof .equality hcomparison
  have hconjunction := level_recognizes heof .conjunction hequality
  have hdisjunction := level_recognizes heof .disjunction hconjunction
  exact level_recognizes heof .pipe hdisjunction

omit heof in
theorem unaryAt_eq (t : Token) : unaryAt t = (unaryOperator? t.lexeme).map (·, t.position) := by
  unfold unaryAt
  cases t.lexeme with
  | symbol s => cases s <;> rfl
  | _ => rfl

omit heof in
/-- An assignment starts with an atom, and no atom with a unary operator. -/
theorem unary_iff {t : Token} {op : UnaryOp} (hop : unaryOperator? t.lexeme = some op) {ts : List Token}
    {next : Lexeme} {e : Expr} :
    Derives .unary (t :: ts) next e ↔ ∃ x, Derives .unary ts next x ∧ e = .unary t.position op x := by
  constructor
  · intro h
    cases h with
    | unary hop' hx =>
      cases hop.symm.trans hop'
      exact ⟨_, hx, rfl⟩
    | unsigned h =>
      obtain ⟨_, _, ⟨⟩, ht⟩ := assignment_starts h
      cases (unaryOperator?_of_startsAtom ht).symm.trans hop
  · rintro ⟨x, hx, rfl⟩
    exact .unary hop hx

omit heof in
theorem unary_iff_assignment {used rest : List Token} {e : Expr}
    (hnext : unaryOperator? (following (used ++ rest) .endOfInput) = none) :
    Derives .assignment used (following rest .endOfInput) e ↔ Derives .unary used (following rest .endOfInput) e := by
  refine ⟨.unsigned, fun h => ?_⟩
  cases h with
  | unary hop => cases hnext.symm.trans hop
  | unsigned h => exact h

theorem unary_recognizes {operand : Parser Expr} {n : Nat}
    (hoperand : Recognizes eof (n + 1) operand (Derives .assignment)) :
    Recognizes eof (n + 1) (remaining >>= unary operand) (Derives .unary) := by
  refine .loop ?_ fun rounds k hk hrest => ?_
  · intro front hfront
    obtain rfl : front = [] := List.length_eq_zero_iff.mp (by omega)
    refine (hoperand [] (Nat.succ_pos n)).congr fun used rest e hsplit => unary_iff_assignment ?_
    rw [← hsplit]
    rfl
  · intro front hfront
    have hpeek : unary operand (rounds + 1) (stream eof front) = _ := peek_bind eof _ front
    rw [unaryAt_eq, headD_lexeme heof] at hpeek
    cases hop : unaryOperator? (following front .endOfInput) with
    | none =>
      rw [hop] at hpeek
      refine ((hoperand.mono hk front hfront).of_eq hpeek).congr fun used rest e hsplit => unary_iff_assignment ?_
      rw [← hsplit, hop]
    | some op =>
      rw [hop] at hpeek
      cases front with
      | nil => cases hop
      | cons t front =>
        have hmore := hrest.map (Expr.unary t.position op)
        refine (hmore front (by simpa using hfront)).token hpeek (fun _ _ _ => unary_iff hop) fun e h => ?_
        obtain ⟨_, _, ⟨⟩, -⟩ := unary_starts h

/-- `[; Sequence]` after the tree of what comes before it. -/
def SequenceTail (first : Expr) : Phrase Expr :=
  Phrase.optional (fun ts next e => ∃ f, Derives .sequence ts next f ∧ e = .sequence first.position first f)
    (.symbol .semicolon) first

omit heof in
theorem sequence_iff {ts : List Token} {next : Lexeme} {e : Expr} :
    Derives .sequence ts next e ↔ Phrase.andThen (Derives (.tier .pipe)) SequenceTail ts next e := by
  constructor
  · intro h
    cases h with
    | single h hnext => exact ⟨ts, [], e, (List.append_nil ts).symm, h, Or.inr ⟨hnext, rfl, rfl⟩⟩
    | @sequence us vs semicolon _ first f h hsemi hf =>
      rw [← hsemi] at h
      exact ⟨us, semicolon :: vs, first, rfl, h, Or.inl ⟨semicolon, vs, rfl, hsemi, f, hf, rfl⟩⟩
  · rintro ⟨us, vs, first, rfl, h, ⟨semicolon, ws, rfl, hsemi, f, hf, rfl⟩ | ⟨hnext, rfl, rfl⟩⟩
    · rw [following_cons, hsemi] at h
      exact .sequence h hsemi hf
    · rw [List.append_nil]
      exact .single h hnext

theorem sequenceTail_recognizes {operand : Parser Expr} {n : Nat}
    (hoperand : Recognizes eof n operand (Derives (.tier .pipe))) (first : Expr) :
    Recognizes eof n (remaining >>= fun rounds => sequenceTail operand rounds first) (SequenceTail first) := by
  refine .loopFrom (fun first => ?_) (fun rounds k hk htail first => ?_) first
  · exact .noRounds (.symbol .semicolon) nofun _ first
  · have hsequence : Recognizes eof k (operand >>= fun next => sequenceTail operand rounds next) (Derives .sequence) :=
      ((hoperand.mono (Nat.le_of_lt hk)).bind htail).congr fun _ _ _ => sequence_iff.symm
    have hmapped := hsequence.map (Expr.sequence first.position first)
    rw [bind_assoc] at hmapped
    exact hmapped.optional heof (.symbol .semicolon) nofun first

end Parser

end Curried
