/-
  Curried.Proofs.Grammar.Recognizer — parsers that recognize a kind of phrase.

  A parser recognizes a kind of phrase when it succeeds on exactly those tokens that start with such a phrase, gives
  what the phrase stands for and leaves the tokens after it; and when its only failure otherwise is an error of grammar.
  That is both soundness and completeness, so what recognizes phrases composes: `bind` recognizes one phrase after
  another, `loop` phrases as often as they come, and the lemmas after it are about single tokens and optional parts.
-/

import Curried.Expr.Parser
import Curried.Proofs.Grammar

namespace Curried

namespace Grammar

@[simp] theorem following_nil (next : Lexeme) : following [] next = next := rfl

@[simp] theorem following_cons (t : Token) (ts : List Token) (next : Lexeme) :
    following (t :: ts) next = t.lexeme := rfl

@[simp] theorem following_append (ts us : List Token) (next : Lexeme) :
    following (ts ++ us) next = following ts (following us next) := by
  cases ts with
  | nil => rfl
  | cons t ts => rfl

def Phrase.andThen {α β : Type} (P : Phrase α) (Q : α → Phrase β) : Phrase β :=
  fun ts next b => ∃ us vs a, ts = us ++ vs ∧ P us (following vs next) a ∧ Q a vs next b

/-- `[l P]`: without it the phrase stands for `a`. -/
def Phrase.optional {α : Type} (P : Phrase α) (l : Lexeme) (a : α) : Phrase α := fun ts next b =>
  (∃ t us, ts = t :: us ∧ t.lexeme = l ∧ P us next b) ∨ following ts next ≠ l ∧ ts = [] ∧ b = a

def isName : Lexeme → Bool
  | .name _ => true
  | _ => false

def Starts (p : Lexeme → Bool) (ts : List Token) : Prop := ∃ t us, ts = t :: us ∧ p t.lexeme = true

theorem Starts.append {p : Lexeme → Bool} {ts : List Token} (h : Starts p ts) (us : List Token) :
    Starts p (ts ++ us) := by
  obtain ⟨t, vs, rfl, ht⟩ := h
  exact ⟨t, vs ++ us, rfl, ht⟩

theorem Starts.following {p : Lexeme → Bool} {ts : List Token} (h : Starts p ts) (next : Lexeme) :
    p (following ts next) = true := by
  obtain ⟨t, us, rfl, ht⟩ := h
  exact ht

end Grammar

namespace Parser

open Grammar

variable {α β : Type} {eof : Token} {n : Nat}

def stream (eof : Token) (front : List Token) : Tokens := ⟨front, .ok eof, front.length, rfl⟩

structure RecognizesAt (eof : Token) (x : Parser α) (P : Phrase α) (front : List Token) : Prop where
  sound : ∀ a ts, x (stream eof front) = .ok (a, ts) →
    ∃ used rest, front = used ++ rest ∧ ts = stream eof rest ∧ P used (following rest .endOfInput) a
  complete : ∀ used rest a, front = used ++ rest → P used (following rest .endOfInput) a →
    x (stream eof front) = .ok (a, stream eof rest)
  refuses : ∀ failure, x (stream eof front) = .error failure → ∃ e, failure = .grammar e

def Recognizes (eof : Token) (n : Nat) (x : Parser α) (P : Phrase α) : Prop :=
  ∀ front, front.length < n → RecognizesAt eof x P front

/-! ## Rules -/

theorem RecognizesAt.congr {x : Parser α} {P Q : Phrase α} {front : List Token} (h : RecognizesAt eof x P front)
    (hPQ : ∀ used rest a, front = used ++ rest →
      (P used (following rest .endOfInput) a ↔ Q used (following rest .endOfInput) a)) :
    RecognizesAt eof x Q front where
  sound a ts hx := by
    obtain ⟨used, rest, hfront, hts, hP⟩ := h.sound a ts hx
    exact ⟨used, rest, hfront, hts, (hPQ used rest a hfront).mp hP⟩
  complete used rest a hfront hQ := h.complete used rest a hfront ((hPQ used rest a hfront).mpr hQ)
  refuses := h.refuses

theorem RecognizesAt.of_eq {x y : Parser α} {P : Phrase α} {front : List Token} (h : RecognizesAt eof y P front)
    (hxy : x (stream eof front) = y (stream eof front)) : RecognizesAt eof x P front :=
  ⟨by rw [hxy]; exact h.sound, by rw [hxy]; exact h.complete, by rw [hxy]; exact h.refuses⟩

theorem RecognizesAt.pure (a : α) (front : List Token) :
    RecognizesAt eof (pure a) (fun ts _ b => ts = [] ∧ b = a) front where
  sound b ts hx := by
    cases hx
    exact ⟨[], front, rfl, rfl, rfl, rfl⟩
  complete used rest b hfront hb := by
    obtain ⟨rfl, rfl⟩ := hb
    rw [hfront]
    rfl
  refuses failure hx := by cases hx

theorem RecognizesAt.never (wanted : Wanted) (front : List Token) :
    RecognizesAt eof (unexpected wanted) (fun _ _ (_ : α) => False) front where
  sound a ts hx := by
    cases front with
    | nil => cases hx
    | cons t rest => cases hx
  complete used rest a _ hP := hP.elim
  refuses failure hx := by
    cases front with
    | nil => cases hx; exact ⟨_, rfl⟩
    | cons t rest => cases hx; exact ⟨_, rfl⟩

theorem RecognizesAt.bind {x : Parser α} {f : α → Parser β} {P : Phrase α} {Q : α → Phrase β} {front : List Token}
    (hx : RecognizesAt eof x P front)
    (hf : ∀ used rest a, front = used ++ rest → RecognizesAt eof (f a) (Q a) rest) :
    RecognizesAt eof (x >>= f) (P.andThen Q) front := by
  have heq : (x >>= f) (stream eof front) = (x (stream eof front)).bind fun r => f r.1 r.2 := rfl
  refine ⟨fun b ts h => ?_, fun used rest b hfront h => ?_, fun failure h => ?_⟩
  · rw [heq] at h
    cases hr : x (stream eof front) with
    | error failure => rw [hr] at h; cases h
    | ok r =>
      obtain ⟨us, vs, hfront, hrest, hP⟩ := hx.sound r.1 r.2 hr
      rw [hr] at h
      replace h : f r.1 r.2 = .ok (b, ts) := h
      rw [hrest] at h
      obtain ⟨vs, rest, rfl, hts, hQ⟩ := (hf us vs r.1 hfront).sound b ts h
      rw [following_append] at hP
      exact ⟨us ++ vs, rest, by rw [hfront, List.append_assoc], hts, us, vs, r.1, rfl, hP, hQ⟩
  · obtain ⟨us, vs, a, rfl, hP, hQ⟩ := h
    rw [List.append_assoc] at hfront
    rw [← following_append] at hP
    rw [heq, hx.complete us (vs ++ rest) a hfront hP]
    exact (hf us (vs ++ rest) a hfront).complete vs rest b rfl hQ
  · rw [heq] at h
    cases hr : x (stream eof front) with
    | error failure' =>
      rw [hr] at h
      cases h
      exact hx.refuses failure hr
    | ok r =>
      obtain ⟨us, vs, hfront, hrest, -⟩ := hx.sound r.1 r.2 hr
      rw [hr] at h
      replace h : f r.1 r.2 = .error failure := h
      rw [hrest] at h
      exact (hf us vs r.1 hfront).refuses failure h

/-- A parser that refuses the next lexeme, with which no phrase of its kind starts. -/
theorem RecognizesAt.refused {x : Parser α} {P : Phrase α} {p : Lexeme → Bool} {front : List Token} (wanted : Wanted)
    (hx : x (stream eof front) = Parser.unexpected wanted (stream eof front))
    (hstart : ∀ used next a, P used next a → Starts p used) (hp : p (following front .endOfInput) = false) :
    RecognizesAt eof x P front := by
  refine ((RecognizesAt.never wanted front).of_eq hx).congr fun used rest a hsplit => ⟨False.elim, fun h => ?_⟩
  have hfirst := (hstart used _ a h).following (following rest .endOfInput)
  rw [← following_append, ← hsplit, hp] at hfirst
  cases hfirst

/-- A parser that takes one token, and goes on as another one: that has to read what the phrases with this token first
go on with. -/
theorem RecognizesAt.token {x y : Parser α} {P Q : Phrase α} {t : Token} {front : List Token}
    (h : RecognizesAt eof y P front) (hxy : x (stream eof (t :: front)) = y (stream eof front))
    (hcons : ∀ us next a, Q (t :: us) next a ↔ P us next a) (hnil : ∀ a, ¬ Q [] t.lexeme a) :
    RecognizesAt eof x Q (t :: front) := by
  refine ⟨fun a ts hx => ?_, fun used rest a hfront hQ => ?_, fun failure hx => ?_⟩
  · rw [hxy] at hx
    obtain ⟨used, rest, rfl, hts, hP⟩ := h.sound a ts hx
    exact ⟨t :: used, rest, rfl, hts, (hcons used _ a).mpr hP⟩
  · cases used with
    | nil =>
      rw [← show t :: front = rest from hfront] at hQ
      exact absurd hQ (hnil a)
    | cons t' us =>
      obtain ⟨rfl, hsplit⟩ := List.cons.inj hfront
      rw [hxy]
      exact h.complete us rest a hsplit ((hcons us _ a).mp hQ)
  · rw [hxy] at hx
    exact h.refuses failure hx

theorem Recognizes.mono {m : Nat} {x : Parser α} {P : Phrase α} (h : Recognizes eof n x P) (hm : m ≤ n) :
    Recognizes eof m x P :=
  fun front hfront => h front (Nat.lt_of_lt_of_le hfront hm)

theorem Recognizes.congr {x : Parser α} {P Q : Phrase α} (h : Recognizes eof n x P)
    (hPQ : ∀ ts next a, P ts next a ↔ Q ts next a) : Recognizes eof n x Q :=
  fun front hfront => (h front hfront).congr fun used _ a _ => hPQ used _ a

theorem Recognizes.bind {x : Parser α} {f : α → Parser β} {P : Phrase α} {Q : α → Phrase β}
    (hx : Recognizes eof n x P) (hf : ∀ a, Recognizes eof n (f a) (Q a)) :
    Recognizes eof n (x >>= f) (P.andThen Q) := by
  intro front hfront
  refine (hx front hfront).bind fun used rest a hsplit => hf a rest ?_
  rw [hsplit, List.length_append] at hfront
  omega

/-- What a phrase stands for, changed by a function. -/
theorem Recognizes.map {x : Parser α} {P : Phrase α} (hx : Recognizes eof n x P) (g : α → β) :
    Recognizes eof n (x >>= fun a => Pure.pure (g a)) (fun ts next b => ∃ a, P ts next a ∧ b = g a) := by
  refine (hx.bind fun a front _ => .pure (g a) front).congr fun ts next b => ⟨?_, ?_⟩
  · rintro ⟨us, vs, a, rfl, hP, rfl, hb⟩
    rw [List.append_nil]
    exact ⟨a, hP, hb⟩
  · rintro ⟨a, hP, hb⟩
    exact ⟨ts, [], a, (List.append_nil ts).symm, hP, rfl, hb⟩

theorem Recognizes.zero {x : Parser α} {P : Phrase α} : Recognizes eof 0 x P :=
  fun _ hfront => absurd hfront (Nat.not_lt_zero _)

/-- A loop that hands something on from round to round. A round takes a token at least, so the loop is not cut short
while it has more rounds than there are tokens. -/
theorem Recognizes.within {ι : Type} {f : Nat → ι → Parser α} {P : ι → Phrase α}
    (hnone : ∀ i, Recognizes eof 1 (f 0 i) (P i))
    (hround : ∀ rounds k, k < n → (∀ i, Recognizes eof k (f rounds i) (P i)) →
      ∀ i, Recognizes eof (k + 1) (f (rounds + 1) i) (P i)) :
    ∀ rounds k, k ≤ rounds → k < n → ∀ i, Recognizes eof (k + 1) (f rounds i) (P i) := by
  intro rounds
  induction rounds with
  | zero =>
    intro k hk _
    obtain rfl := Nat.le_zero.mp hk
    exact hnone
  | succ rounds ih =>
    intro k hk hkn
    refine hround rounds k hkn ?_
    cases k with
    | zero => exact fun _ => .zero
    | succ k => exact ih k (by omega) (by omega)

/-- As many rounds as there are tokens are enough. -/
theorem Recognizes.loopFrom {ι : Type} {f : Nat → ι → Parser α} {P : ι → Phrase α}
    (hnone : ∀ i, Recognizes eof 1 (f 0 i) (P i))
    (hround : ∀ rounds k, k < n → (∀ i, Recognizes eof k (f rounds i) (P i)) →
      ∀ i, Recognizes eof (k + 1) (f (rounds + 1) i) (P i))
    (i : ι) : Recognizes eof n (remaining >>= fun rounds => f rounds i) (P i) := by
  intro front hfront
  have henough := Recognizes.within hnone hround front.length front.length (Nat.le_refl _) hfront i
  exact (henough front (Nat.lt_succ_self _)).of_eq rfl

theorem Recognizes.loop {f : Nat → Parser α} {P : Phrase α} (hnone : Recognizes eof 1 (f 0) P)
    (hround : ∀ rounds k, k < n → Recognizes eof k (f rounds) P → Recognizes eof (k + 1) (f (rounds + 1)) P) :
    Recognizes eof n (remaining >>= f) P :=
  .loopFrom (f := fun rounds (_ : Unit) => f rounds) (P := fun _ => P) (fun _ => hnone)
    (fun rounds k hk hf _ => hround rounds k hk (hf ())) ()

/-! ## Single tokens -/

theorem accept_taken {l : Lexeme} {t : Token} (h : t.lexeme = l) (front : List Token) :
    accept l (stream eof (t :: front)) = .ok (true, stream eof front) := by
  show (if decide (t.lexeme = l) = true then _ else _ : Parser Bool) _ = _
  rw [if_pos (by simpa using h)]
  rfl

section

variable (heof : eof.lexeme = .endOfInput)
include heof

theorem accept_left {l : Lexeme} {front : List Token} (h : following front .endOfInput ≠ l) :
    accept l (stream eof front) = .ok (false, stream eof front) := by
  cases front with
  | nil =>
    show (if decide (eof.lexeme = l) = true then _ else _ : Parser Bool) _ = _
    rw [heof, if_neg (by simpa using h)]
    rfl
  | cons t rest =>
    show (if decide (t.lexeme = l) = true then _ else _ : Parser Bool) _ = _
    rw [if_neg (by simpa using h)]
    rfl

omit heof in
theorem option_taken {l : Lexeme} {t : Token} (h : t.lexeme = l) (x y : Parser α) (front : List Token) :
    (accept l >>= fun taken => if taken then x else y) (stream eof (t :: front)) = x (stream eof front) := by
  show ((accept l (stream eof (t :: front))).bind fun r => _) = _
  rw [accept_taken h]
  rfl

theorem option_left {l : Lexeme} {front : List Token} (h : following front .endOfInput ≠ l) (x y : Parser α) :
    (accept l >>= fun taken => if taken then x else y) (stream eof front) = y (stream eof front) := by
  show ((accept l (stream eof front)).bind fun r => _) = _
  rw [accept_left heof h]
  rfl

omit heof in
theorem unexpected_bind (wanted : Wanted) (f : α → Parser β) : (unexpected wanted >>= f) = unexpected wanted := by
  funext ts
  show ((peek ts).bind _).bind _ = (peek ts).bind _
  cases peek ts <;> rfl

omit heof in
theorem expect_bind (l : Lexeme) (wanted : Wanted) (x : Parser α) :
    (expect l wanted >>= fun _ => x) = (accept l >>= fun taken => if taken then x else unexpected wanted) := by
  show ((accept l >>= fun taken => (if !taken then unexpected wanted else Pure.pure () : Parser Unit)) >>=
    fun _ => x) = _
  rw [bind_assoc]
  congr 1
  funext taken
  cases taken with
  | true => rfl
  | false => exact unexpected_bind wanted _

omit heof in
theorem peek_bind (eof : Token) (f : Token → Parser α) (front : List Token) :
    (peek >>= f) (stream eof front) = f (front.headD eof) (stream eof front) := by
  cases front with
  | nil => rfl
  | cons t front => rfl

/-- The lexeme that a parser looks at. -/
theorem headD_lexeme (front : List Token) : (front.headD eof).lexeme = following front .endOfInput := by
  cases front with
  | nil => exact heof
  | cons t front => rfl

/-- An optional part, taken when its first lexeme comes next. -/
theorem Recognizes.option (l : Lexeme) (hl : l ≠ .endOfInput) {x y : Parser α} {P Q : Phrase α}
    (hx : Recognizes eof n x P) (hy : Recognizes eof (n + 1) y Q) :
    Recognizes eof (n + 1) (accept l >>= fun taken => if taken then x else y) fun ts next a =>
      (∃ t us, ts = t :: us ∧ t.lexeme = l ∧ P us next a) ∨ following ts next ≠ l ∧ Q ts next a := by
  intro front hfront
  by_cases hnext : following front .endOfInput = l
  · cases front with
    | nil => exact absurd hnext.symm hl
    | cons t front =>
      have hread := hx front (by simpa using hfront)
      refine hread.token (option_taken hnext x y front) (fun us next a => ⟨?_, ?_⟩) fun a => ?_
      · rintro (⟨_, _, ⟨⟩, -, hP⟩ | ⟨hne, -⟩)
        · exact hP
        · exact absurd hnext hne
      · exact fun hP => Or.inl ⟨t, us, rfl, hnext, hP⟩
      · rintro (⟨_, _, ⟨⟩, -⟩ | ⟨hne, -⟩)
        exact absurd hnext hne
  · have hread := (hy front hfront).of_eq (option_left heof hnext x y)
    refine hread.congr fun used rest a hsplit => ⟨fun hQ => Or.inr ⟨?_, hQ⟩, ?_⟩
    · rw [← following_append, ← hsplit]
      exact hnext
    · rintro (⟨t, us, rfl, ht, -⟩ | ⟨-, hQ⟩)
      · rw [hsplit] at hnext
        exact absurd ht hnext
      · exact hQ

theorem Recognizes.optional (l : Lexeme) (hl : l ≠ .endOfInput) {x : Parser α} {P : Phrase α}
    (hx : Recognizes eof n x P) (a : α) :
    Recognizes eof (n + 1) (accept l >>= fun taken => if taken then x else Pure.pure a) (P.optional l a) :=
  hx.option heof l hl fun front _ => .pure a front

omit heof in
/-- A loop without rounds is for no tokens at all, where there is no optional part. -/
theorem Recognizes.noRounds (l : Lexeme) (hl : l ≠ .endOfInput) (P : Phrase α) (a : α) :
    Recognizes eof 1 (Pure.pure a) (P.optional l a) := by
  intro front hfront
  obtain rfl : front = [] := List.length_eq_zero_iff.mp (by omega)
  refine (RecognizesAt.pure a []).congr fun used rest b hsplit => ⟨fun h => Or.inr ⟨?_, h⟩, ?_⟩
  · rw [← following_append, ← hsplit]
    exact hl.symm
  · rintro (⟨t, us, rfl, -⟩ | ⟨-, h⟩)
    · cases hsplit
    · exact h

theorem sees_bind (l : Lexeme) (x y : Parser α) (front : List Token) :
    (sees l >>= fun seen => if seen then x else y) (stream eof front) =
      (if decide (following front .endOfInput = l) then x else y) (stream eof front) := by
  rw [← headD_lexeme heof, sees, bind_assoc, peek_bind]
  rfl

/-- Two ways to go on, chosen by the next lexeme, which is left. -/
theorem Recognizes.seen (l : Lexeme) {x y : Parser α} {P Q : Phrase α} (hx : Recognizes eof n x P)
    (hy : Recognizes eof n y Q) :
    Recognizes eof n (sees l >>= fun seen => if seen then x else y) fun ts next a =>
      following ts next = l ∧ P ts next a ∨ following ts next ≠ l ∧ Q ts next a := by
  intro front hfront
  have hsees := sees_bind heof l x y front
  by_cases hnext : following front .endOfInput = l
  · rw [decide_eq_true hnext] at hsees
    refine ((hx front hfront).of_eq hsees).congr fun used rest a hsplit => ?_
    rw [hsplit, following_append] at hnext
    simp only [hnext, ne_eq, not_true_eq_false, false_and, or_false, true_and]
  · rw [decide_eq_false hnext] at hsees
    refine ((hy front hfront).of_eq hsees).congr fun used rest a hsplit => ?_
    rw [hsplit, following_append] at hnext
    simp only [hnext, ne_eq, not_false_eq_true, false_and, false_or, true_and]

/-- A lexeme that has to come next. -/
theorem Recognizes.expected (l : Lexeme) (hl : l ≠ .endOfInput) (wanted : Wanted) {x : Parser α} {P : Phrase α}
    (hx : Recognizes eof n x P) :
    Recognizes eof (n + 1) (expect l wanted >>= fun _ => x) fun ts next a =>
      ∃ t us, ts = t :: us ∧ t.lexeme = l ∧ P us next a := by
  have hoption := Recognizes.option heof l hl hx fun front _ => .never wanted front
  refine fun front hfront => ((hoption front hfront).of_eq ?_).congr fun used rest a _ => ?_
  · rw [expect_bind]
  · simp only [and_false, or_false]

theorem expectName_bind (wanted : Wanted) (f : String → Parser α) (front : List Token) :
    (expectName wanted >>= f) (stream eof front) = (match following front .endOfInput with
      | .name n => f n (stream eof front.tail)
      | _ => unexpected wanted (stream eof front)) := by
  have hpeek : (expectName wanted >>= f) (stream eof front) =
      ((match (front.headD eof).lexeme with
        | .name n => do advance; return n
        | _ => unexpected wanted : Parser String) >>= f) (stream eof front) := by
    rw [expectName, bind_assoc]
    exact peek_bind eof _ front
  rw [hpeek, headD_lexeme heof]
  cases following front .endOfInput with
  | name n => cases front <;> rfl
  | _ => exact congrFun (unexpected_bind wanted f) _

/-- A name that has to come next. -/
theorem Recognizes.named (wanted : Wanted) {f : String → Parser α} {P : String → Phrase α}
    (hf : ∀ name, Recognizes eof n (f name) (P name)) :
    Recognizes eof (n + 1) (expectName wanted >>= f) fun ts next a =>
      ∃ t us name, ts = t :: us ∧ t.lexeme = .name name ∧ P name us next a := by
  intro front hfront
  have hread := expectName_bind heof wanted f front
  cases hl : following front .endOfInput with
  | name name =>
    rw [hl] at hread
    cases front with
    | nil => cases hl
    | cons t front =>
      refine (hf name front (by simpa using hfront)).token hread (fun us next a => ⟨?_, ?_⟩) ?_
      · rintro ⟨_, _, name', ⟨⟩, ht, hP⟩
        cases ht.symm.trans hl
        exact hP
      · exact fun hP => ⟨t, us, name, rfl, hl, hP⟩
      · rintro a ⟨_, _, _, ⟨⟩, -⟩
  | _ =>
    rw [hl] at hread
    refine .refused (p := isName) wanted hread ?_ (by rw [hl]; rfl)
    rintro _ _ _ ⟨t, us, name, rfl, ht, -⟩
    exact ⟨t, us, rfl, by rw [ht]; rfl⟩

end

end Parser

end Curried
