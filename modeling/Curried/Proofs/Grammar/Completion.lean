/-
  Curried.Proofs.Grammar.Completion — what a parser has taken can be completed.

  A parser comes to the end of its tokens when it takes all of them, or refuses the end of input. Then what it was
  given can be completed: with a few more tokens after it, it is a phrase of the kind that the parser reads
  (`Viable`). Their lexemes are chosen so that no optional part inside captures them: before `in` a pending `let` gets
  an `in` of its own, and no completion starts with `and` or `end`. The completed phrase can stand before any lexeme
  that brings an expression to an end (`Closes`).
-/

import Curried.Proofs.Grammar.Parser
import Curried.Proofs.Grammar.Phrases

namespace Curried

namespace Grammar

structure Closes (next : Lexeme) : Prop extends Stops next where
  chain : next ≠ .keyword .andWord
  finish : next ≠ .keyword .endWord

def isFiller : Lexeme → Bool
  | .symbol _ | .keyword _ => true
  | .name n => n == "x"
  | _ => false

variable {α β ι κ : Type} {C D E : Lexeme → Prop}

/-- Tokens that can be completed to a phrase, whatever of `D` comes next. -/
def Completes (D : Lexeme → Prop) (P : Phrase α) (front : List Token) : Prop :=
  ∃ fillers : List Lexeme, (∀ l ∈ fillers, isFiller l = true) ∧
    ∀ us : List Token, us.map (·.lexeme) = fillers → ∀ next, D next → ∃ a, P (front ++ us) next a

/-- Phrases of several kinds that can all be written in one way, with a first lexeme in `C`, before any lexeme
in `D`. -/
def Continues (D C : Lexeme → Prop) (P : ι → Phrase α) : Prop :=
  ∃ fillers : List Lexeme, (∀ l ∈ fillers, isFiller l = true) ∧
    ∀ us : List Token, us.map (·.lexeme) = fillers → ∀ next, D next → C (following us next) ∧ ∀ i, ∃ a, P i us next a

theorem Completes.imp {P : Phrase α} {Q : Phrase β} {ts us : List Token} (h : Completes D P ts)
    (hPQ : ∀ vs next a, D next → P (ts ++ vs) next a → ∃ b, Q (us ++ vs) next b) : Completes D Q us := by
  obtain ⟨fillers, hfill, hP⟩ := h
  refine ⟨fillers, hfill, fun vs hvs next hnext => ?_⟩
  obtain ⟨a, ha⟩ := hP vs hvs next hnext
  exact hPQ vs next a hnext ha

theorem Completes.whole {P : Phrase α} {ts : List Token} (h : ∀ next, D next → ∃ a, P ts next a) :
    Completes D P ts := by
  refine ⟨[], nofun, fun us hus next hnext => ?_⟩
  obtain rfl := List.map_eq_nil_iff.mp hus
  rw [List.append_nil]
  exact h next hnext

theorem Completes.token {P : Phrase α} (h : Completes D P []) {l : Lexeme} (hl : isFiller l = true) :
    Completes D (fun ts next a => ∃ t us, ts = t :: us ∧ t.lexeme = l ∧ P us next a) [] := by
  obtain ⟨fillers, hfill, hP⟩ := h
  refine ⟨l :: fillers, List.forall_mem_cons.mpr ⟨hl, hfill⟩, fun ts hts next hnext => ?_⟩
  obtain ⟨t, us, rfl, ht, hus⟩ := List.map_eq_cons_iff.mp hts
  obtain ⟨a, ha⟩ := hP us hus next hnext
  exact ⟨a, t, us, rfl, ht, ha⟩

/-- A completed phrase, and after it one that can be written from nothing. -/
theorem Completes.andThen {P : Phrase α} {Q : α → Phrase β} {front : List Token} (hP : Completes E P front)
    (hQ : Continues D E Q) : Completes D (P.andThen Q) front := by
  obtain ⟨fillers, hfill, hP⟩ := hP
  obtain ⟨fillers', hfill', hQ⟩ := hQ
  refine ⟨fillers ++ fillers', List.forall_mem_append.mpr ⟨hfill, hfill'⟩, fun ts hts next hnext => ?_⟩
  obtain ⟨us, vs, rfl, hus, hvs⟩ := List.map_eq_append_iff.mp hts
  obtain ⟨hfirst, hQ⟩ := hQ vs hvs next hnext
  obtain ⟨a, ha⟩ := hP us hus _ hfirst
  obtain ⟨b, hb⟩ := hQ a
  exact ⟨b, front ++ us, vs, a, (List.append_assoc _ _ _).symm, ha, hb⟩

/-! ## Writing phrases from nothing -/

namespace Continues

theorem nothing {P : ι → Phrase α} (h : ∀ next, D next → C next ∧ ∀ i, ∃ a, P i [] next a) : Continues D C P := by
  refine ⟨[], nofun, fun us hus next hnext => ?_⟩
  obtain rfl := List.map_eq_nil_iff.mp hus
  exact h next hnext

theorem done (g : ι → α) : Continues D (fun _ => True) fun i ts _ a => ts = [] ∧ a = g i :=
  nothing fun _ _ => ⟨trivial, fun i => ⟨g i, rfl, rfl⟩⟩

theorem imp {P : ι → Phrase α} {Q : κ → Phrase β} (h : Continues D C P)
    (hPQ : ∀ j, ∃ i, ∀ ts next a, D next → P i ts next a → ∃ b, Q j ts next b) : Continues D C Q := by
  obtain ⟨fillers, hfill, hP⟩ := h
  refine ⟨fillers, hfill, fun us hus next hnext => ?_⟩
  obtain ⟨hfirst, hP⟩ := hP us hus next hnext
  refine ⟨hfirst, fun j => ?_⟩
  obtain ⟨i, hPQ⟩ := hPQ j
  obtain ⟨a, ha⟩ := hP i
  exact hPQ us next a hnext ha

theorem token {P : ι → Phrase α} (h : Continues D (fun _ => True) P) {l : Lexeme} (hl : isFiller l = true)
    (hC : C l) : Continues D C fun i ts next a => ∃ t us, ts = t :: us ∧ t.lexeme = l ∧ P i us next a := by
  obtain ⟨fillers, hfill, hP⟩ := h
  refine ⟨l :: fillers, List.forall_mem_cons.mpr ⟨hl, hfill⟩, fun ts hts next hnext => ?_⟩
  obtain ⟨t, us, rfl, ht, hus⟩ := List.map_eq_cons_iff.mp hts
  rw [following_cons, ht]
  refine ⟨hC, fun i => ?_⟩
  obtain ⟨a, ha⟩ := (hP us hus next hnext).2 i
  exact ⟨a, t, us, rfl, ht, ha⟩

theorem andThen {P : ι → Phrase α} {Q : ι → α → Phrase β} (hP : Continues E C P)
    (hQ : Continues D E fun i : ι × α => Q i.1 i.2) : Continues D C fun i => (P i).andThen (Q i) := by
  obtain ⟨fillers, hfill, hP⟩ := hP
  obtain ⟨fillers', hfill', hQ⟩ := hQ
  refine ⟨fillers ++ fillers', List.forall_mem_append.mpr ⟨hfill, hfill'⟩, fun ts hts next hnext => ?_⟩
  obtain ⟨us, vs, rfl, hus, hvs⟩ := List.map_eq_append_iff.mp hts
  obtain ⟨hfirst, hQ⟩ := hQ vs hvs next hnext
  obtain ⟨hfirst', hP⟩ := hP us hus _ hfirst
  rw [following_append]
  refine ⟨hfirst', fun i => ?_⟩
  obtain ⟨a, ha⟩ := hP i
  obtain ⟨b, hb⟩ := hQ (i, a)
  exact ⟨b, us, vs, a, rfl, ha, hb⟩

theorem completes {P : ι → Phrase α} (h : Continues D C P) (i : ι) : Completes D (P i) [] := by
  obtain ⟨fillers, hfill, hP⟩ := h
  exact ⟨fillers, hfill, fun us hus next hnext => (hP us hus next hnext).2 i⟩

end Continues

namespace Closes

theorem inWord : Closes (.keyword .inWord) := ⟨.keyword _, nofun, nofun⟩

theorem thenWord : Closes (.keyword .thenWord) := ⟨.keyword _, nofun, nofun⟩

theorem elseWord : Closes (.keyword .elseWord) := ⟨.keyword _, nofun, nofun⟩

theorem closeParen : Closes (.symbol .closeParen) := ⟨.closeParen, nofun, nofun⟩

theorem closeBracket : Closes (.symbol .closeBracket) := ⟨.closeBracket, nofun, nofun⟩

theorem endOfInput : Closes .endOfInput := ⟨.endOfInput, nofun, nofun⟩

end Closes

/-- Wherever an atom is wanted, `()` is one. -/
theorem continues_atom : Continues D (fun _ => True) fun _ : ι => Derives .atom := by
  refine ⟨[.symbol .openParen, .symbol .closeParen], by decide, fun us hus next _ => ⟨trivial, fun _ => ?_⟩⟩
  obtain ⟨opening, vs, rfl, hopen, hvs⟩ := List.map_eq_cons_iff.mp hus
  obtain ⟨closing, rfl, hclose⟩ := List.map_eq_singleton_iff.mp hvs
  exact ⟨_, .nil hopen hclose⟩

theorem continues_sequence : Continues Closes (fun _ => True) fun _ : ι => Derives .sequence := by
  refine continues_atom.imp fun i => ⟨i, fun ts next e hnext he => ?_⟩
  exact ⟨e, he.to_sequence hnext.toStops⟩

end Grammar

namespace Parser

open Grammar

variable {α β ι : Type} {C D E : Lexeme → Prop} {eof : Token} {n : Nat}

/-- A parser comes to the end of its tokens: it takes them all, or refuses the end of input. -/
inductive Exhausts (eof : Token) : Except ParseFailure (α × Tokens) → Prop
  | ok {a : α} : Exhausts eof (.ok (a, stream eof []))
  | error {e : ParseError} : e.token.lexeme = .endOfInput → Exhausts eof (.error (.grammar e))

def ViableAt (eof : Token) (D : Lexeme → Prop) (x : Parser α) (P : Phrase α) (front : List Token) : Prop :=
  Exhausts eof (x (stream eof front)) → Completes D P front

def Viable (eof : Token) (n : Nat) (D : Lexeme → Prop) (x : Parser α) (P : Phrase α) : Prop :=
  ∀ front, front.length < n → (∀ t ∈ front, t.lexeme ≠ .endOfInput) → ViableAt eof D x P front

/-! ## Rules -/

theorem ViableAt.of_eq {x y : Parser α} {P : Phrase α} {front : List Token} (h : ViableAt eof D y P front)
    (hxy : x (stream eof front) = y (stream eof front)) : ViableAt eof D x P front := by
  intro hx
  rw [hxy] at hx
  exact h hx

theorem ViableAt.imp {x : Parser α} {P Q : Phrase α} {front : List Token} (h : ViableAt eof D x P front)
    (hPQ : ∀ vs next a, D next → P (front ++ vs) next a → Q (front ++ vs) next a) : ViableAt eof D x Q front :=
  fun hx => (h hx).imp fun vs next a hnext ha => ⟨a, hPQ vs next a hnext ha⟩

/-- A parser that takes one token, and goes on as another one. -/
theorem ViableAt.token {x y : Parser α} {P Q : Phrase α} {t : Token} {front : List Token}
    (h : ViableAt eof D y P front) (hxy : x (stream eof (t :: front)) = y (stream eof front))
    (hcons : ∀ us next a, P us next a → Q (t :: us) next a) : ViableAt eof D x Q (t :: front) := by
  intro hx
  rw [hxy] at hx
  exact (h hx).imp fun vs next a _ ha => ⟨a, hcons (front ++ vs) next a ha⟩

/-- A parser that refuses a token which is not the end of input has not come to the end. -/
theorem ViableAt.refused {x : Parser α} {P : Phrase α} {front : List Token} (wanted : Wanted)
    (hx : x (stream eof front) = unexpected wanted (stream eof front)) (hnil : front = [] → Completes D P [])
    (hfront : ∀ t ∈ front, t.lexeme ≠ .endOfInput) : ViableAt eof D x P front := by
  intro hend
  cases front with
  | nil => exact hnil rfl
  | cons t front =>
    rw [hx] at hend
    cases hend with
    | error he => exact absurd he (hfront t List.mem_cons_self)

theorem ViableAt.pure {a : α} {P : Phrase α} {front : List Token} (hnil : ∀ next, D next → P [] next a) :
    ViableAt eof D (pure a) P front := by
  intro hend
  cases hend
  exact .whole fun next hnext => ⟨a, hnil next hnext⟩

namespace Viable

theorem zero {x : Parser α} {P : Phrase α} : Viable eof 0 D x P := fun _ hfront => absurd hfront (Nat.not_lt_zero _)

theorem done (a : α) : Viable eof n D (Pure.pure a) fun ts _ b => ts = [] ∧ b = a :=
  fun _ _ _ => .pure fun _ _ => ⟨rfl, rfl⟩

theorem mono {m : Nat} {x : Parser α} {P : Phrase α} (h : Viable eof n D x P) (hm : m ≤ n) : Viable eof m D x P :=
  fun front hfront => h front (Nat.lt_of_lt_of_le hfront hm)

theorem imp {x : Parser α} {P Q : Phrase α} (h : Viable eof n D x P)
    (hPQ : ∀ ts next a, P ts next a → Q ts next a) : Viable eof n D x Q :=
  fun front hfront hproper => (h front hfront hproper).imp fun _ _ _ _ => hPQ _ _ _

theorem bind {x : Parser α} {f : α → Parser β} {P : Phrase α} {Q : α → Phrase β} (hx : Viable eof n E x P)
    (hrec : Recognizes eof n x P) (hf : ∀ a, Viable eof n D (f a) (Q a)) (hQ : Continues D E Q) :
    Viable eof n D (x >>= f) (P.andThen Q) := by
  intro front hfront hproper hend
  have heq : (x >>= f) (stream eof front) = (x (stream eof front)).bind fun r => f r.1 r.2 := rfl
  rw [heq] at hend
  cases hr : x (stream eof front) with
  | error failure =>
    rw [hr] at hend
    cases hend with
    | error he =>
      have hcomplete := hx front hfront hproper (by rw [hr]; exact .error he)
      exact hcomplete.andThen hQ
  | ok r =>
    obtain ⟨a, ts⟩ := r
    obtain ⟨used, rest, hsplit, rfl, hP⟩ := (hrec front hfront).sound a ts hr
    cases rest with
    | nil =>
      -- the first part has taken everything, and may still be continued by what completes the second
      have hcomplete := hx front hfront hproper (by rw [hr]; exact .ok)
      exact hcomplete.andThen hQ
    | cons t rest =>
      have hrest : Exhausts eof (f a (stream eof (t :: rest))) := by
        rw [hr] at hend
        exact hend
      rw [hsplit, List.length_append] at hfront
      have hlater : ∀ u ∈ t :: rest, u.lexeme ≠ .endOfInput :=
        fun u hu => hproper u (by rw [hsplit]; exact List.mem_append_right _ hu)
      refine (hf a (t :: rest) (by omega) hlater hrest).imp fun vs next b _ hb => ?_
      exact ⟨b, used, t :: rest ++ vs, a, by rw [hsplit, List.append_assoc], hP, hb⟩

theorem map {x : Parser α} {P : Phrase α} (h : Viable eof n D x P) (g : α → β) :
    Viable eof n D (x >>= fun a => Pure.pure (g a)) fun ts next b => ∃ a, P ts next a ∧ b = g a := by
  intro front hfront hproper hend
  have heq : (x >>= fun a => Pure.pure (g a)) (stream eof front) =
    (x (stream eof front)).bind fun r => (Pure.pure (g r.1) : Parser β) r.2 := rfl
  rw [heq] at hend
  have hx : Exhausts eof (x (stream eof front)) := by
    generalize x (stream eof front) = r at hend
    cases r with
    | error failure =>
      cases hend with
      | error he => exact .error he
    | ok r =>
      obtain ⟨a, ts⟩ := r
      replace hend : Exhausts eof (.ok (g a, ts)) := hend
      cases hend
      exact .ok
  exact (h front hfront hproper hx).imp fun vs next a _ ha => ⟨g a, a, ha, rfl⟩

theorem loopFrom {f : Nat → ι → Parser α} {P : ι → Phrase α} (hnone : ∀ i, Viable eof 1 D (f 0 i) (P i))
    (hround : ∀ rounds k, k < n → k ≤ rounds + 1 → (∀ i, Viable eof k D (f rounds i) (P i)) →
      ∀ i, Viable eof (k + 1) D (f (rounds + 1) i) (P i))
    (i : ι) : Viable eof n D (remaining >>= fun rounds => f rounds i) (P i) := by
  have henough : ∀ rounds k, k ≤ rounds → k < n → ∀ i, Viable eof (k + 1) D (f rounds i) (P i) := by
    intro rounds
    induction rounds with
    | zero =>
      intro k hk _
      obtain rfl := Nat.le_zero.mp hk
      exact hnone
    | succ rounds ih =>
      intro k hk hkn
      refine hround rounds k hkn hk ?_
      cases k with
      | zero => exact fun _ => .zero
      | succ k => exact ih k (by omega) (by omega)
  intro front hfront hproper
  exact (henough front.length front.length (Nat.le_refl _) hfront i front (Nat.lt_succ_self _) hproper).of_eq rfl

theorem loop {f : Nat → Parser α} {P : Phrase α} (hnone : Viable eof 1 D (f 0) P)
    (hround : ∀ rounds k, k < n → k ≤ rounds + 1 → Viable eof k D (f rounds) P →
      Viable eof (k + 1) D (f (rounds + 1)) P) :
    Viable eof n D (remaining >>= f) P :=
  loopFrom (f := fun rounds (_ : Unit) => f rounds) (P := fun _ => P) (fun _ => hnone)
    (fun rounds k hk hrounds hf _ => hround rounds k hk hrounds (hf ())) ()

/-! ## Single tokens -/

variable (heof : eof.lexeme = .endOfInput)
include heof

/-- An optional part, taken when its first lexeme comes next. -/
theorem option (l : Lexeme) {x y : Parser α} {P Q : Phrase α} (hx : Viable eof n D x P) (hy : Viable eof (n + 1) D y Q)
    (hnil : Completes D (fun ts next a =>
      (∃ t us, ts = t :: us ∧ t.lexeme = l ∧ P us next a) ∨ following ts next ≠ l ∧ Q ts next a) []) :
    Viable eof (n + 1) D (accept l >>= fun taken => if taken then x else y) fun ts next a =>
      (∃ t us, ts = t :: us ∧ t.lexeme = l ∧ P us next a) ∨ following ts next ≠ l ∧ Q ts next a := by
  intro front hfront hproper
  cases front with
  | nil => exact fun _ => hnil
  | cons t front =>
    by_cases ht : t.lexeme = l
    · have hread := hx front (by simpa using hfront) (List.forall_mem_cons.mp hproper).2
      exact hread.token (option_taken ht x y front) fun us next a ha => Or.inl ⟨t, us, rfl, ht, ha⟩
    · have hfirst : following (t :: front) .endOfInput ≠ l := ht
      exact ((hy _ hfront hproper).of_eq (option_left heof hfirst x y)).imp fun vs next a _ ha => Or.inr ⟨ht, ha⟩

/-- An optional part that need not be there. -/
theorem optional (l : Lexeme) {x : Parser α} {P : Phrase α} (hx : Viable eof n D x P) (a : α)
    (hD : ∀ next, D next → next ≠ l) :
    Viable eof (n + 1) D (accept l >>= fun taken => if taken then x else Pure.pure a) (P.optional l a) := by
  refine hx.option heof l (done a) ?_
  exact .whole fun next hnext => ⟨a, Or.inr ⟨hD next hnext, rfl, rfl⟩⟩

/-- Two ways to go on, chosen by the next lexeme, which is left. -/
theorem seen (l : Lexeme) {x y : Parser α} {P Q : Phrase α} (hx : Viable eof n D x P) (hy : Viable eof n D y Q)
    (hnil : Completes D (fun ts next a =>
      following ts next = l ∧ P ts next a ∨ following ts next ≠ l ∧ Q ts next a) []) :
    Viable eof n D (sees l >>= fun seen => if seen then x else y) fun ts next a =>
      following ts next = l ∧ P ts next a ∨ following ts next ≠ l ∧ Q ts next a := by
  intro front hfront hproper
  have hsees := sees_bind heof l x y front
  cases front with
  | nil => exact fun _ => hnil
  | cons t front =>
    rw [following_cons] at hsees
    by_cases ht : t.lexeme = l
    · rw [decide_eq_true ht] at hsees
      exact ((hx _ hfront hproper).of_eq hsees).imp fun vs next a _ ha => Or.inl ⟨ht, ha⟩
    · rw [decide_eq_false ht] at hsees
      exact ((hy _ hfront hproper).of_eq hsees).imp fun vs next a _ ha => Or.inr ⟨ht, ha⟩

/-- A lexeme that has to come next. -/
theorem expected (l : Lexeme) (wanted : Wanted) (hl : isFiller l = true) {x : Parser α} {P : Phrase α}
    (hx : Viable eof n D x P) (hP : Completes D P []) :
    Viable eof (n + 1) D (expect l wanted >>= fun _ => x) fun ts next a =>
      ∃ t us, ts = t :: us ∧ t.lexeme = l ∧ P us next a := by
  intro front hfront hproper
  rw [expect_bind]
  cases front with
  | nil => exact fun _ => hP.token hl
  | cons t front =>
    by_cases ht : t.lexeme = l
    · have hread := hx front (by simpa using hfront) (List.forall_mem_cons.mp hproper).2
      exact hread.token (option_taken ht x _ front) fun us next a ha => ⟨t, us, rfl, ht, ha⟩
    · have hfirst : following (t :: front) .endOfInput ≠ l := ht
      exact .refused wanted (option_left heof hfirst x _) nofun hproper

/-- A name that has to come next. -/
theorem named (wanted : Wanted) {f : String → Parser α} {P : String → Phrase α}
    (hf : ∀ name, Viable eof n D (f name) (P name)) (hP : Completes D (P "x") []) :
    Viable eof (n + 1) D (expectName wanted >>= f) fun ts next a =>
      ∃ t us name, ts = t :: us ∧ t.lexeme = .name name ∧ P name us next a := by
  intro front hfront hproper
  have hread := expectName_bind heof wanted f front
  cases front with
  | nil =>
    refine fun _ => (hP.token (l := .name "x") rfl).imp fun vs next a _ h => ?_
    obtain ⟨t, us, hts, ht, ha⟩ := h
    exact ⟨a, t, us, "x", hts, ht, ha⟩
  | cons t front =>
    rw [following_cons] at hread
    cases ht : t.lexeme with
    | name name =>
      rw [ht] at hread
      have hrest := hf name front (by simpa using hfront) (List.forall_mem_cons.mp hproper).2
      exact hrest.token hread fun us next a ha => ⟨t, us, name, rfl, ht, ha⟩
    | _ =>
      rw [ht] at hread
      exact .refused wanted hread nofun hproper

end Viable

/-! ## Lists -/

variable (heof : eof.lexeme = .endOfInput)
include heof

omit heof in
theorem continues_moreItems {P : Phrase α} {close : Symbol} (hclose : close ≠ .comma) (hC : C (.symbol close)) :
    Continues (· = .symbol close) C fun x us next ys => ∃ xs, MoreItems P us next xs ∧ ys = x :: xs := by
  refine .nothing fun next hnext => ⟨hnext ▸ hC, fun x => ⟨[x], [], Or.inr ⟨?_, rfl, rfl⟩, rfl⟩⟩
  rw [following_nil, hnext]
  exact fun he => hclose (Lexeme.symbol.inj he)

theorem moreItems_viable {item : Parser α} {P : Phrase α} {close : Symbol} (hclose : close ≠ .comma)
    (hrec : Recognizes eof n item P) (hitem : Viable eof n C item P) (hC : C (.symbol close)) :
    Viable eof n (· = .symbol close) (remaining >>= moreItems item) (MoreItems P) := by
  have hD : ∀ next : Lexeme, next = .symbol close → next ≠ .symbol .comma :=
    fun next hnext he => hclose (Lexeme.symbol.inj (hnext.symm.trans he))
  refine .loop (fun front _ _ => .pure fun next hnext => Or.inr ⟨hD next hnext, rfl, rfl⟩) fun rounds k hk _ hmore => ?_
  have hk := Nat.le_of_lt hk
  have hitems := (hitem.mono hk).bind (hrec.mono hk) (fun x => hmore.map (x :: ·)) (continues_moreItems hclose hC)
  exact (hitems.imp fun _ _ _ => items_iff.mpr).optional heof (.symbol .comma) [] hD

theorem until_viable {item : Parser α} {P : Phrase α} {close : Symbol} (hclose : close ≠ .comma)
    (hrec : Recognizes eof n item P) (hitem : Viable eof n C item P) (hC : C (.symbol close)) :
    Viable eof n (· = .symbol close) (itemsUntil item close) (Until P close) := by
  have hmore := moreItems_viable heof hclose hrec hitem hC
  have hitems := hitem.bind hrec (fun x => hmore.map (x :: ·)) (continues_moreItems hclose hC)
  refine .seen heof (.symbol close) (.done []) (hitems.imp fun _ _ _ => items_iff.mpr) ?_
  exact .whole fun next hnext => ⟨[], Or.inl ⟨hnext, rfl, rfl⟩⟩

/-- Items with the closing bracket, and what comes after that. -/
theorem itemsUntil_viable {item : Parser α} {P : Phrase α} (close : Symbol) (wanted : Wanted) (hclose : close ≠ .comma)
    (hrec : Recognizes eof n item P) (hitem : Viable eof n C item P) (hC : C (.symbol close)) {f : List α → Parser β}
    {Q : List α → Phrase β} (hf : ∀ xs, Viable eof n D (f xs) (Q xs)) (hQ : Continues D (fun _ => True) Q) :
    Viable eof n D (itemsUntil item close >>= fun xs => expect (.symbol close) wanted >>= fun _ => f xs)
      fun ts next a => ∃ us closing vs xs, ts = us ++ closing :: vs ∧ Listed P close us xs ∧
        closing.lexeme = .symbol close ∧ Q xs vs next a := by
  have huntil := until_viable heof hclose hrec hitem hC
  have hexpect := fun xs => ((hf xs).expected heof (.symbol close) wanted rfl (hQ.completes xs)).mono (Nat.le_succ n)
  refine (huntil.bind (until_recognizes heof close hrec) hexpect (hQ.token rfl rfl)).imp fun ts next a h => ?_
  obtain ⟨us, _, xs, rfl, hxs, closing, vs, rfl, hclosing, hQ⟩ := h
  rw [following_cons, hclosing] at hxs
  exact ⟨us, closing, vs, xs, rfl, listed_of_until hxs, hclosing, hQ⟩

/-! ## Operators -/

omit heof in
theorem tails_viable {tier : Tier} {operand : Parser Expr} (hrec : Recognizes eof n operand (Derives tier.operand))
    (hoperand : Viable eof n Closes operand (Derives tier.operand)) :
    Viable eof n Closes (remaining >>= tails (levelOf tier).operator? operand)
      fun ts next rest => Tails tier rest ts next := by
  have hnone : ∀ next, Closes next → Tails tier [] [] next := fun next hnext => ⟨rfl, hnext.operator tier⟩
  refine .loop (fun front _ _ => .pure hnone) fun rounds k hk _ htails front hfront hproper => ?_
  cases front with
  | nil => exact fun _ => .whole fun next hnext => ⟨[], hnone next hnext⟩
  | cons t front =>
    have hpeek : tails (levelOf tier).operator? operand (rounds + 1) (stream eof (t :: front)) = _ :=
      peek_bind eof _ (t :: front)
    rw [operatorAt_eq, List.headD_cons] at hpeek
    cases hop : tier.operator? t.lexeme with
    | none =>
      rw [hop] at hpeek
      exact .of_eq (.pure hnone) hpeek
    | some op =>
      rw [hop] at hpeek
      have hk := Nat.le_of_lt hk
      have hmore := (hoperand.mono hk).bind (hrec.mono hk) (fun x => htails.map (⟨op, t.position, x⟩ :: ·))
        (.nothing fun next hnext => ⟨hnext, fun x => ⟨_, [], hnone next hnext, rfl⟩⟩)
      have hrest := hmore front (by simpa using hfront) (List.forall_mem_cons.mp hproper).2
      exact hrest.token hpeek fun _ _ _ => (tails_some hop).mpr

omit heof in
theorem level_viable (tier : Tier) {operand : Parser Expr} (hrec : Recognizes eof n operand (Derives tier.operand))
    (hoperand : Viable eof n Closes operand (Derives tier.operand)) :
    Viable eof n Closes ((levelOf tier).read operand) (Derives (.tier tier)) := by
  have htails := fun first => (tails_viable hrec hoperand).map ((levelOf tier).grouping.apply first)
  refine (hoperand.bind hrec htails (.nothing fun next hnext => ⟨hnext, fun first => ?_⟩)).imp
    fun _ _ _ => (tier_iff tier).mpr
  exact ⟨_, [], ⟨rfl, hnext.operator tier⟩, rfl⟩

theorem climb_viable {operand : Parser Expr} (hrec : Recognizes eof n operand (Derives .unary))
    (hoperand : Viable eof n Closes operand (Derives .unary)) :
    Viable eof n Closes (climb operand levels) (Derives (.tier .pipe)) := by
  rw [levels_eq]
  have hproduct := level_viable .product hrec hoperand
  have hproduct' := level_recognizes heof .product hrec
  have hsum := level_viable .sum hproduct' hproduct
  have hsum' := level_recognizes heof .sum hproduct'
  have hcomparison := level_viable .comparison hsum' hsum
  have hcomparison' := level_recognizes heof .comparison hsum'
  have hequality := level_viable .equality hcomparison' hcomparison
  have hequality' := level_recognizes heof .equality hcomparison'
  have hconjunction := level_viable .conjunction hequality' hequality
  have hconjunction' := level_recognizes heof .conjunction hequality'
  have hdisjunction := level_viable .disjunction hconjunction' hconjunction
  exact level_viable .pipe (level_recognizes heof .disjunction hconjunction') hdisjunction

theorem unary_viable {operand : Parser Expr} (hoperand : Viable eof (n + 1) Closes operand (Derives .assignment)) :
    Viable eof (n + 1) Closes (remaining >>= unary operand) (Derives .unary) := by
  have hunsigned := hoperand.imp fun _ _ _ => Derives.unsigned
  refine .loop (hunsigned.mono (Nat.succ_le_succ (Nat.zero_le n))) fun rounds k hk _ hunary front hfront hproper => ?_
  have hpeek : unary operand (rounds + 1) (stream eof front) = _ := peek_bind eof _ front
  rw [unaryAt_eq, headD_lexeme heof] at hpeek
  cases hop : unaryOperator? (following front .endOfInput) with
  | none =>
    rw [hop] at hpeek
    exact (hunsigned front (Nat.lt_of_lt_of_le hfront hk) hproper).of_eq hpeek
  | some op =>
    rw [hop] at hpeek
    cases front with
    | nil => cases hop
    | cons t front =>
      have hrest := (hunary.map (Expr.unary t.position op)) front (by simpa using hfront)
        (List.forall_mem_cons.mp hproper).2
      exact hrest.token hpeek fun _ _ _ => (unary_iff hop).mpr

theorem sequenceTail_viable {operand : Parser Expr} (hrec : Recognizes eof n operand (Derives (.tier .pipe)))
    (hoperand : Viable eof n Closes operand (Derives (.tier .pipe))) (first : Expr) :
    Viable eof n Closes (remaining >>= fun rounds => sequenceTail operand rounds first) (SequenceTail first) := by
  have hnone : ∀ first next, Closes next → SequenceTail first [] next first :=
    fun first next hnext => Or.inr ⟨hnext.semicolon, rfl, rfl⟩
  refine .loopFrom (fun first front _ _ => .pure (hnone first)) (fun rounds k hk _ htail first => ?_) first
  have hk := Nat.le_of_lt hk
  have hsequence := (hoperand.mono hk).bind (hrec.mono hk) htail
    (.nothing fun next hnext => ⟨hnext, fun first => ⟨first, hnone first next hnext⟩⟩)
  have hmapped := (hsequence.imp fun _ _ _ => sequence_iff.mpr).map (Expr.sequence first.position first)
  rw [bind_assoc] at hmapped
  exact hmapped.optional heof (.symbol .semicolon) first fun next hnext => hnext.semicolon

/-! ## Constructs -/

variable {inner : Parser Expr} (hrec : Recognizes eof n inner (Derives .sequence))
  (hi : Viable eof n Closes inner (Derives .sequence))

omit heof in
/-- `()`, for any part that an expression is made with. -/
theorem continues_part (g : ι → Expr → Expr) :
    Continues Closes (fun _ => True) fun i ts next e => ∃ x, Derives .sequence ts next x ∧ e = g i x :=
  continues_sequence.imp fun i => ⟨i, fun _ _ x _ hx => ⟨g i x, x, hx, rfl⟩⟩

include hrec hi

theorem assignment_viable {target : Parser Expr} (htarget : Recognizes eof (n + 1) target (Derives .application))
    (h : Viable eof (n + 1) Closes target (Derives .application)) :
    Viable eof (n + 1) Closes (assignment inner target) (Derives .assignment) := by
  have hbody := fun t v : Expr => (hi.map (Expr.assign t.position t v)).expected heof (.keyword .inWord) .inAfterValue
    rfl ((continues_part fun (_ : Unit) => Expr.assign t.position t v).completes ())
  have hvalue := fun t : Expr => hi.bind hrec (fun v => (hbody t v).mono (Nat.le_succ n))
    ((continues_part fun v => Expr.assign t.position t v).token rfl .inWord)
  have hassign := fun t : Expr => (hvalue t).optional heof (.symbol .doubleColon) t fun next hnext => hnext.colons
  refine (h.bind htarget hassign (.nothing fun next hnext => ⟨hnext, fun t => ?_⟩)).imp fun _ _ _ => assignment_iff.mpr
  exact ⟨t, Or.inr ⟨hnext.colons, rfl, rfl⟩⟩

theorem calls_viable (callee : Expr) :
    Viable eof (n + 1) Closes (remaining >>= fun rounds => calls inner rounds callee) (Calls callee) := by
  have hnone : ∀ callee next, Closes next → Calls callee [] next callee :=
    fun callee next hnext => .none hnext.arguments
  refine .loopFrom (fun callee front _ _ => .pure (hnone callee)) (fun rounds k hk _ hcalls callee => ?_) callee
  have hk := Nat.le_of_lt_succ hk
  have hargs := itemsUntil_viable heof .closeParen .closeAfterArguments nofun (hrec.mono hk) (hi.mono hk) .closeParen
    (fun args => hcalls (.call callee.position callee args))
    (.nothing fun next hnext => ⟨trivial, fun args => ⟨_, hnone _ next hnext⟩⟩)
  exact (hargs.optional heof (.symbol .openParen) callee fun next hnext => hnext.arguments).imp
    fun _ _ _ => calls_iff.mpr

omit hrec hi

/-! ## Declarations -/

theorem optionalName_viable :
    Viable eof n (fun next => ∀ name, next ≠ .name name) optionalName
      fun ts next o => OptionalName ts o ∧ (o = none → ∀ name, next ≠ .name name) := by
  intro front _ _
  have hpeek : optionalName (stream eof front) = _ := peek_bind eof _ front
  rw [headD_lexeme heof] at hpeek
  cases hl : following front .endOfInput with
  | name name =>
    rw [hl] at hpeek
    cases front with
    | nil => cases hl
    | cons t front =>
      have hrest : ViableAt eof (fun next => ∀ name, next ≠ .name name) (pure (some name))
          (fun ts _ o => ts = [] ∧ o = some name) front := .pure fun _ _ => ⟨rfl, rfl⟩
      refine hrest.token hpeek fun us next o h => ?_
      obtain ⟨rfl, rfl⟩ := h
      exact ⟨.some hl, nofun⟩
  | _ =>
    rw [hl] at hpeek
    exact .of_eq (.pure fun next hnext => ⟨.none, fun _ => hnext⟩) hpeek

theorem name_viable (wanted : Wanted) : Viable eof n D (expectName wanted) Name := by
  have hname := Viable.named heof wanted (n := n) (D := D) .done ((Continues.done id).completes "x")
  rw [bind_pure] at hname
  refine (hname.mono (Nat.le_succ n)).imp fun ts next name h => ?_
  obtain ⟨t, _, _, rfl, ht, rfl, rfl⟩ := h
  exact .name ht

theorem parameters_viable :
    Viable eof (n + 1) (· ≠ .symbol .openParen) parameters
      fun ts next names => Parameters ts names ∧ (ts = [] → next ≠ .symbol .openParen) := by
  have hnames := itemsUntil_viable heof .closeParen .closeAfterParameters (n := n) (C := fun _ => True)
    (D := (· ≠ .symbol .openParen)) nofun (name_recognizes heof .parameter) (name_viable heof .parameter) trivial
    .done (.done id)
  exact (hnames.optional heof (.symbol .openParen) [] fun next hnext => hnext).imp fun _ _ _ => parameters_iff.mpr

omit heof in
/-- `fn :: ()` declares something. -/
theorem continues_declaration : Continues Closes (fun _ => True) fun _ : ι => Derives .declaration := by
  have hbody : Continues Closes (fun _ => True) fun _ : ι => Derives .sequence := continues_sequence
  have hcolons := hbody.token (l := .symbol .doubleColon) (C := fun _ => True) rfl trivial
  refine (hcolons.token (l := .keyword .fnWord) rfl trivial).imp fun i => ⟨i, fun ts next body hnext h => ?_⟩
  obtain ⟨fnWord, _, rfl, hfn, colons, us, rfl, hcolons, hbody⟩ := h
  have hfunction : Derives .declaration (fnWord :: ([] ++ ([] ++ colons :: (us ++ ([] ++ []))))) next
      (.function fnWord.position none [] body none) :=
    .function hfn .none .none hcolons hbody (.none hnext.chain) (.none hnext.finish)
  simp only [List.nil_append, List.append_nil] at hfunction
  exact ⟨_, hfunction⟩

theorem chained_viable {decl : Parser Expr} (hd : Viable eof n Closes decl (Derives .declaration)) :
    Viable eof (n + 1) Closes (chained decl) (Continued .andWord .declaration) := by
  refine (Viable.optional heof (n := n) (.keyword .andWord) (P := fun ts next o => ∃ e, Derives .declaration ts next e ∧
    o = some e) (fun front hfront hproper => ?_) none fun next hnext => hnext.chain).imp fun _ _ _ => continued_iff.mpr
  have hnil : Completes Closes (fun ts next o => ∃ e, Derives .declaration ts next e ∧ o = some e) [] :=
    (continues_declaration.completes ()).imp fun _ _ e _ he => ⟨some e, e, he, rfl⟩
  refine .of_eq ?_ (peek_bind eof _ front)
  rw [headD_lexeme heof]
  cases following front .endOfInput with
  | keyword word =>
    cases word with
    | letWord | fnWord => exact hd.map some front hfront hproper
    | _ => exact .refused .declaration rfl (fun _ => hnil) hproper
  | _ => exact .refused .declaration rfl (fun _ => hnil) hproper

omit heof in
/-- A function is complete after its body. -/
theorem continues_finish (g : ι → Option Expr → Expr) :
    Continues Closes Closes fun i => Phrase.andThen (Continued .andWord .declaration) fun chained ts next e =>
      OptionalEnd ts next ∧ e = g i chained :=
  .nothing fun _ hnext => ⟨hnext, fun _ => ⟨_, [], [], none, rfl, .none hnext.chain, .none hnext.finish, rfl⟩⟩

omit heof in
/-- `()`, for the body of a function. -/
theorem continues_function (g : ι → Expr → Option Expr → Expr) :
    Continues Closes (fun _ => True) fun i => Phrase.andThen (Derives .sequence) fun body =>
      Phrase.andThen (Continued .andWord .declaration) fun chained ts next e =>
        OptionalEnd ts next ∧ e = g i body chained :=
  continues_sequence.andThen (Q := fun (i : ι) body => Phrase.andThen (Continued .andWord .declaration)
    fun chained ts next e => OptionalEnd ts next ∧ e = g i body chained)
    (continues_finish fun i : ι × Expr => g i.1 i.2)

omit heof in
/-- `in ()`, which may also stand before another `in`. -/
theorem continues_in : Continues Closes Closes fun _ : ι => Continued .inWord .sequence := by
  refine ((continues_part fun (_ : ι) e => e).token rfl .inWord).imp fun i => ⟨i, fun ts next e _ h => ?_⟩
  obtain ⟨t, us, rfl, ht, x, hx, -⟩ := h
  exact ⟨some x, .some ht hx⟩

omit heof in
theorem continues_body (g : ι → Option Expr → Option Expr → Expr) :
    Continues Closes Closes fun i => Phrase.andThen (Continued .inWord .sequence) fun body ts next e =>
      ∃ chained, Continued .andWord .declaration ts next chained ∧ e = g i body chained :=
  continues_in.andThen (.nothing fun _ hnext => ⟨hnext, fun _ => ⟨_, none, .none hnext.chain, rfl⟩⟩)

include hrec hi

omit hrec in
theorem body_viable :
    Viable eof (n + 1) Closes (accept (.keyword .inWord) >>= fun taken =>
      if taken then inner >>= fun e => pure (some e) else pure none) (Continued .inWord .sequence) := by
  have hnil := (continues_in.completes ()).imp fun _ _ o _ h => ⟨o, continued_iff.mp h⟩
  have hoption := (hi.map some).option heof (.keyword .inWord) (.done none) hnil
  exact hoption.imp fun _ _ _ => continued_iff.mpr

theorem letRest_viable {decl : Parser Expr} (hd : Viable eof n Closes decl (Derives .declaration)) (p : Position) :
    Viable eof n Closes (letRest inner decl p) (LetRest p) := by
  have hchained := (chained_viable heof hd).mono (Nat.le_succ n)
  have hin := (body_viable heof hi).mono (Nat.le_succ n)
  have hin' := (body_recognizes heof hrec).mono (Nat.le_succ n)
  have hbody := fun (name : String) (value : Expr) => hin.bind hin'
    (fun body => hchained.map fun next => Expr.binding p name value (body.getD (.nil value.position)) next)
    (.nothing fun _ hnext => ⟨hnext, fun _ => ⟨_, none, .none hnext.chain, rfl⟩⟩)
  have hvalue := fun name : String => hi.bind hrec (hbody name) (continues_body _)
  have hdefault := fun name : String => (continues_sequence.completes ()).andThen
    (continues_body fun value body next => Expr.binding p name value (body.getD (.nil value.position)) next)
  have hcolons := fun name : String =>
    ((hvalue name).expected heof (.symbol .doubleColon) .colonsAfterLetName rfl (hdefault name)).mono (Nat.le_succ n)
  have hname := (Viable.named heof .letName hcolons ((hdefault "x").token rfl)).mono (Nat.le_succ n)
  rw [letRest_eq]
  exact hname

theorem fnRest_viable {decl : Parser Expr} (hd : Viable eof n Closes decl (Derives .declaration))
    (hd' : Recognizes eof n decl (Derives .declaration)) (p : Position) :
    Viable eof n Closes (fnRest inner decl p) (FnRest p) := by
  have hchained := (chained_viable heof hd).mono (Nat.le_succ n)
  have hchained' := (chained_recognizes heof hd').mono (Nat.le_succ n)
  have hend : ∀ e : Expr, Viable eof n Closes (accept (.keyword .endWord) >>= fun _ => pure e)
      fun ts next f => OptionalEnd ts next ∧ f = e := by
    intro e
    have hoption := Viable.option heof (.keyword .endWord) (.done (n := n) (D := Closes) e) (.done e)
      (.whole fun next hnext => ⟨e, Or.inr ⟨hnext.finish, rfl, rfl⟩⟩)
    simp only [ite_self] at hoption
    refine (hoption.mono (Nat.le_succ n)).imp fun ts next f h => ?_
    rcases h with ⟨t, _, rfl, ht, rfl, hf⟩ | ⟨hnext, rfl, hf⟩
    · exact ⟨.some ht, hf⟩
    · exact ⟨.none hnext, hf⟩
  have hnext := fun (name : Option String) (params : List String) (body : Expr) =>
    hchained.bind hchained' (fun next => hend (.function p name params body next))
      (.nothing fun _ hnext => ⟨hnext, fun _ => ⟨_, .none hnext.finish, rfl⟩⟩)
  have hbody := fun (name : Option String) (params : List String) =>
    hi.bind hrec (hnext name params) (continues_finish _)
  have hcolons := fun (name : Option String) (params : List String) =>
    ((hbody name params).expected heof (.symbol .doubleColon) .colonsBeforeBody rfl
      ((continues_function fun _ => Expr.function p name params).completes ())).mono (Nat.le_succ n)
  have hparams := fun name : Option String =>
    ((parameters_viable heof).mono (Nat.le_succ n)).bind ((parameters_recognize heof).mono (Nat.le_succ n))
      (hcolons name) ((continues_function fun params => Expr.function p name params).token rfl nofun)
  refine (optionalName_viable heof).bind (optionalName_recognizes heof) hparams ?_
  -- no name and no parameters: `::` comes first
  refine .andThen (E := (· = .symbol .doubleColon)) (.nothing fun next hnext => ?_)
    ((continues_function fun i : Option String × List String => Expr.function p i.1 i.2).token rfl rfl)
  rw [hnext]
  exact ⟨nofun, fun _ => ⟨[], .none, nofun⟩⟩

theorem declaration_viable : Viable eof (n + 1) Closes (remaining >>= declaration inner) (Derives .declaration) := by
  have hnil := continues_declaration.completes ()
  refine .loop (fun front hfront hproper => .refused .declaration rfl (fun _ => hnil) hproper) ?_
  intro rounds k hk hrounds hdecl front hfront hproper
  have hrec' := hrec.mono (Nat.le_of_lt_succ hk)
  have hi' := hi.mono (Nat.le_of_lt_succ hk)
  have hdecl' : Recognizes eof k (declaration inner rounds) (Derives .declaration) := by
    cases k with
    | zero => exact .zero
    | succ k => exact declaration_within heof hrec rounds k (by omega) (by omega)
  have hpeek : declaration inner (rounds + 1) (stream eof front) = _ := peek_bind eof _ front
  rw [headD_lexeme heof] at hpeek
  cases hl : following front .endOfInput with
  | keyword word =>
    rw [hl] at hpeek
    cases front with
    | nil => cases hl
    | cons t front =>
      have hfront' : front.length < k := by simpa using hfront
      obtain ⟨-, hproper'⟩ := List.forall_mem_cons.mp hproper
      cases word with
      | letWord =>
        have hrest := letRest_viable heof hrec' hi' hdecl t.position front hfront' hproper'
        exact hrest.token hpeek fun _ _ _ => (binding_iff hl).mpr
      | fnWord =>
        have hrest := fnRest_viable heof hrec' hi' hdecl hdecl' t.position front hfront' hproper'
        exact hrest.token hpeek fun _ _ _ => (function_iff hl).mpr
      | _ => exact .refused .declaration hpeek nofun hproper
  | _ =>
    rw [hl] at hpeek
    exact .refused .declaration hpeek (fun _ => hnil) hproper

/-! ## Atoms -/

theorem branchRest_viable (p : Position) : Viable eof n Closes (branchRest inner p) (BranchRest p) := by
  have helse := fun test yes : Expr => ((hi.map (Expr.branch p test yes)).expected heof (.keyword .elseWord)
    .elseAfterBranch rfl ((continues_part fun _ : Unit => Expr.branch p test yes).completes ())).mono (Nat.le_succ n)
  have hno := fun test : Expr =>
    (continues_part fun yes => Expr.branch p test yes).token (l := .keyword .elseWord) (C := Closes) rfl .elseWord
  have hyes := fun test : Expr => ((hi.bind hrec (helse test) (hno test)).expected heof (.keyword .thenWord)
    .thenAfterCondition rfl ((continues_sequence.completes ()).andThen (hno test))).mono (Nat.le_succ n)
  refine hi.bind hrec hyes (.token ?_ rfl .thenWord)
  exact continues_sequence.andThen
    ((continues_part fun i : Expr × Expr => Expr.branch p i.1 i.2).token rfl .elseWord)

theorem parenRest_viable (p : Position) : Viable eof n Closes (parenRest inner p) (ParenRest p) := by
  cases n with
  | zero => exact .zero
  | succ n =>
    have hclose := fun e : Expr => Viable.expected heof (.symbol .closeParen) .closeAfterExpression rfl (n := n)
      (D := Closes) (.done e) ((Continues.done id).completes e)
    have hgroup := hi.bind hrec hclose ((Continues.done id).token rfl .closeParen)
    have hnil := ((Continues.done (D := Closes) fun _ => Expr.nil p).completes ()).token (l := .symbol .closeParen) rfl
    have hparen := Viable.option heof (.symbol .closeParen) (.done (.nil p)) hgroup
      (hnil.imp fun _ _ e _ h => ⟨e, Or.inl h⟩)
    refine hparen.imp fun ts next e h => ?_
    rcases h with ⟨closing, _, rfl, hclosing, rfl, rfl⟩ | ⟨-, us, _, e, rfl, he, closing, _, rfl, hclosing, rfl, rfl⟩
    · exact Or.inl ⟨closing, rfl, hclosing, rfl⟩
    · rw [following_cons, hclosing] at he
      exact Or.inr ⟨us, closing, rfl, he, hclosing⟩

theorem listRest_viable (p : Position) : Viable eof n Closes (listRest inner p) (ListRest p) := by
  have hitems := itemsUntil_viable heof .closeBracket .closeAfterItems nofun hrec hi .closeBracket (D := Closes)
    (fun es => .done (Expr.list p es)) (.done (Expr.list p))
  refine hitems.imp fun ts next e h => ?_
  obtain ⟨us, closing, _, es, rfl, hes, hclosing, rfl, rfl⟩ := h
  exact ⟨us, closing, es, rfl, hes, hclosing, rfl⟩

theorem atom_viable : Viable eof (n + 1) Closes (atom inner) (Derives .atom) := by
  intro front hfront hproper
  have hpeek : atom inner (stream eof front) = _ := peek_bind eof _ front
  cases front with
  | nil => exact fun _ => continues_atom.completes ()
  | cons t front =>
    have hfront' : front.length < n := by simpa using hfront
    obtain ⟨-, hproper'⟩ := List.forall_mem_cons.mp hproper
    have htoken : ∀ {y : Parser Expr}, ViableAt eof Closes y (AtomRest t) front →
        atom inner (stream eof (t :: front)) = y (stream eof front) →
        ViableAt eof Closes (atom inner) (Derives .atom) (t :: front) :=
      fun hy hxy => hy.token hxy fun _ _ _ => atom_iff.mpr
    have hdeclared : atom inner (stream eof (t :: front)) =
        (remaining >>= declaration inner) (stream eof (t :: front)) →
        ViableAt eof Closes (atom inner) (Derives .atom) (t :: front) :=
      fun hxy => ((declaration_viable heof hrec hi _ hfront hproper).of_eq hxy).imp fun _ _ _ _ => .declared
    have hrefused : atom inner (stream eof (t :: front)) = unexpected .expression (stream eof (t :: front)) →
        ViableAt eof Closes (atom inner) (Derives .atom) (t :: front) :=
      fun hxy => .refused .expression hxy nofun hproper
    unfold AtomRest at htoken
    cases hl : t.lexeme with
    | number x | string x | boolean x | name x =>
      simp only [List.headD_cons, hl] at hpeek htoken
      exact htoken (.pure fun _ _ => ⟨rfl, rfl⟩) hpeek
    | keyword word =>
      cases word with
      | letWord | fnWord =>
        simp only [List.headD_cons, hl] at hpeek
        exact hdeclared hpeek
      | ifWord =>
        simp only [List.headD_cons, hl] at hpeek htoken
        exact htoken (branchRest_viable heof hrec hi t.position front hfront' hproper') hpeek
      | _ =>
        simp only [List.headD_cons, hl] at hpeek
        exact hrefused hpeek
    | symbol s =>
      cases s with
      | openParen =>
        simp only [List.headD_cons, hl] at hpeek htoken
        exact htoken (parenRest_viable heof hrec hi t.position front hfront' hproper') hpeek
      | openBracket =>
        simp only [List.headD_cons, hl] at hpeek htoken
        exact htoken (listRest_viable heof hrec hi t.position front hfront' hproper') hpeek
      | _ =>
        simp only [List.headD_cons, hl] at hpeek
        exact hrefused hpeek
    | endOfInput => exact absurd hl (hproper t List.mem_cons_self)

/-! ## Expressions -/

theorem application_viable : Viable eof (n + 1) Closes (application inner) (Derives .application) := by
  have hcalls := (atom_viable heof hrec hi).bind (atom_recognizes heof hrec) (calls_viable heof hrec hi)
    (.nothing fun next hnext => ⟨hnext, fun callee => ⟨callee, .none hnext.arguments⟩⟩)
  refine hcalls.imp fun ts next e h => ?_
  obtain ⟨us, vs, callee, rfl, hatom, hcalls⟩ := h
  exact .application hatom hcalls

theorem operand_viable : Viable eof (n + 1) Closes (operand inner) (Derives .unary) :=
  unary_viable heof
    (assignment_viable heof hrec hi (application_recognizes heof hrec) (application_viable heof hrec hi))

theorem expression_viable : Viable eof (n + 1) Closes (expression inner) (Derives .sequence) := by
  have hpipe := climb_viable heof (operand_recognizes heof hrec) (operand_viable heof hrec hi)
  have hpipe' := climb_recognizes heof (operand_recognizes heof hrec)
  have htail := hpipe.bind hpipe' (sequenceTail_viable heof hpipe' hpipe)
    (.nothing fun next hnext => ⟨hnext, fun first => ⟨first, Or.inr ⟨hnext.semicolon, rfl, rfl⟩⟩⟩)
  exact htail.imp fun _ _ _ => sequence_iff.mpr

omit hrec hi

theorem sequence_viable (depth : Nat) : Viable eof depth Closes (sequence depth) (Derives .sequence) := by
  induction depth with
  | zero => exact .zero
  | succ depth ih => exact expression_viable heof (sequence_recognizes heof depth) ih

/-! ## Programs -/

theorem strayEnds_viable : Viable eof n (· = .endOfInput) (remaining >>= strayEnds) Ends := by
  have hD : ∀ next : Lexeme, next = .endOfInput → next ≠ .keyword .endWord := fun next hnext => hnext ▸ nofun
  refine .loop (fun front _ _ => .pure fun next hnext => ⟨nofun, hD next hnext⟩) fun rounds k _ _ hends => ?_
  exact (hends.optional heof (.keyword .endWord) () hD).imp fun _ _ _ => ends_iff.mpr

/-- What the parser of programs takes before it comes to the end of the tokens is the beginning of a program. -/
theorem program_viable (depth : Nat) :
    Viable eof depth (· = .endOfInput) (program depth) fun ts next e => Program ts e ∧ next = .endOfInput := by
  have hdone : ∀ e : Expr, Viable eof depth (· = .endOfInput)
      (sees .endOfInput >>= fun done => if done then pure e else unexpected .nothing)
      fun ts next f => ts = [] ∧ next = .endOfInput ∧ f = e := by
    intro e front _ hproper
    have hsees := sees_bind heof .endOfInput (pure e) (unexpected .nothing) front
    cases front with
    | nil => exact fun _ => .whole fun next hnext => ⟨e, rfl, hnext, rfl⟩
    | cons t front =>
      rw [following_cons, decide_eq_false (hproper t List.mem_cons_self)] at hsees
      exact .refused .nothing hsees nofun hproper
  have hends := fun e : Expr => (strayEnds_viable heof).bind (strayEnds_recognize heof) (fun _ => hdone e)
    (.nothing fun next hnext => ⟨hnext, fun _ => ⟨e, rfl, hnext, rfl⟩⟩)
  have hprogram := (sequence_viable heof depth).bind (sequence_recognizes heof depth) hends
    (.nothing fun next hnext => ⟨hnext ▸ .endOfInput, fun e => ⟨e, [], [], (), rfl, ⟨nofun, hnext ▸ nofun⟩, rfl, hnext,
      rfl⟩⟩)
  refine hprogram.imp fun ts next f h => ?_
  obtain ⟨us, _, e, rfl, he, ends, _, _, rfl, ⟨hends, -⟩, rfl, rfl, rfl⟩ := h
  rw [List.append_nil] at he ⊢
  exact ⟨⟨us, ends, rfl, hends, he⟩, rfl⟩

end Parser

end Curried
