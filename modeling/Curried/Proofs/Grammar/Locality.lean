/-
  Curried.Proofs.Grammar.Locality — a parser has seen no more than the token it stands at.

  Two streams share their first `n` tokens. A parser reads both in the same way for as long as it stands at one of
  these (`Follows`): how much comes after them shows only in how often a loop may go round and how deep expressions may
  nest, and both are always enough for the tokens that are shared. Once it has taken them all, it can refuse only
  tokens that come after them (`Confines`). So a refusal of a shared token is the same on both streams
  (`program_follows`).
-/

import Curried.Proofs.Grammar.Recognizer

namespace Curried

structure Tokens.Among (T : Token → Prop) (ts : Tokens) : Prop where
  front : ∀ t ∈ ts.front, T t
  ending : ∀ t, ts.ending = .ok t → T t

namespace Parser

variable {α β : Type} {T : Token → Prop} {n : Nat}

/-- What becomes of tokens in a set: what is left is among them, and so is a token that is refused. -/
inductive Confined (T : Token → Prop) : Except ParseFailure (α × Tokens) → Prop
  | ok {a : α} {ts : Tokens} : ts.Among T → Confined T (.ok (a, ts))
  | grammar {e : ParseError} : T e.token → Confined T (.error (.grammar e))
  | lexical {e : LexError} : Confined T (.error (.lexical e))
  | nesting {p : Position} : Confined T (.error (.nesting p))

def Confines (T : Token → Prop) (x : Parser α) : Prop := ∀ ts, ts.Among T → Confined T (x ts)

/-- Streams with the same first `n` tokens, after which the first has tokens of a set only. -/
inductive Shared (T : Token → Prop) : Nat → Tokens → Tokens → Prop
  | beyond {ts ts' : Tokens} : ts.Among T → Shared T 0 ts ts'
  | cons {n : Nat} {t : Token} {ts ts' : Tokens} : Shared T n ts ts' → Shared T (n + 1) (.cons t ts) (.cons t ts')

/-- What becomes of two such streams: the same, or the first run has gone beyond what they share. -/
inductive Abreast (T : Token → Prop) (n : Nat) :
    Except ParseFailure (α × Tokens) → Except ParseFailure (α × Tokens) → Prop
  | ok {m : Nat} {a : α} {ts ts' : Tokens} : Shared T m ts ts' → m ≤ n → Abreast T n (.ok (a, ts)) (.ok (a, ts'))
  | error {x : ParseFailure} : Abreast T n (.error x) (.error x)
  | beyond {r r' : Except ParseFailure (α × Tokens)} : Confined T r → Abreast T n r r'

structure Follows (T : Token → Prop) (n : Nat) (x y : Parser α) : Prop where
  confines : Confines T x
  shared : ∀ m < n, ∀ t ts ts', Shared T m ts ts' → Abreast T (m + 1) (x (.cons t ts)) (y (.cons t ts'))

/-! ## Rules -/

theorem Confines.bind {x : Parser α} {f : α → Parser β} (h : Confines T x) (hf : ∀ a, Confines T (f a)) :
    Confines T (x >>= f) := by
  intro ts hts
  have hx := h ts hts
  show Confined T ((x ts).bind fun r => f r.1 r.2)
  generalize x ts = r at hx
  cases hx with
  | ok hrest => exact hf _ _ hrest
  | grammar ht => exact .grammar ht
  | lexical => exact .lexical
  | nesting => exact .nesting

theorem Abreast.mono {m : Nat} {r r' : Except ParseFailure (α × Tokens)} (h : Abreast T m r r') (hm : m ≤ n) :
    Abreast T n r r' := by
  cases h with
  | ok hshared hle => exact .ok hshared (Nat.le_trans hle hm)
  | error => exact .error
  | beyond hr => exact .beyond hr

namespace Follows

theorem mono {m : Nat} {x y : Parser α} (h : Follows T n x y) (hm : m ≤ n) : Follows T m x y :=
  ⟨h.confines, fun k hk => h.shared k (Nat.lt_of_lt_of_le hk hm)⟩

/-- On streams that share nothing only the first parser matters. -/
theorem apart {x y : Parser α} (h : Confines T x) : Follows T 0 x y := ⟨h, fun _ hk => absurd hk (Nat.not_lt_zero _)⟩

theorem at_shared {x y : Parser α} (h : Follows T n x y) {m : Nat} (hm : m ≤ n) {ts ts' : Tokens}
    (hts : Shared T m ts ts') : Abreast T m (x ts) (y ts') := by
  cases hts with
  | beyond hts => exact .beyond (h.confines _ hts)
  | cons hts => exact h.shared _ hm _ _ _ hts

theorem pure (a : α) : Follows T n (pure a) (pure a) :=
  ⟨fun _ hts => .ok hts, fun _ _ _ _ _ hts => .ok (.cons hts) (Nat.le_refl _)⟩

theorem bind {x y : Parser α} {f g : α → Parser β} (h : Follows T n x y) (hf : ∀ a, Follows T n (f a) (g a)) :
    Follows T n (x >>= f) (y >>= g) := by
  refine ⟨h.confines.bind fun a => (hf a).confines, fun m hm t ts ts' hts => ?_⟩
  have hx := h.shared m hm t ts ts' hts
  show Abreast T (m + 1) ((x (.cons t ts)).bind fun r => f r.1 r.2) ((y (.cons t ts')).bind fun r => g r.1 r.2)
  generalize x (.cons t ts) = r, y (.cons t ts') = r' at hx
  cases hx with
  | ok hrest hle => exact ((hf _).at_shared (Nat.le_trans hle hm) hrest).mono hle
  | error => exact .error
  | beyond hr =>
    cases hr with
    | ok hrest => exact .beyond ((hf _).confines _ hrest)
    | grammar ht => exact .beyond (.grammar ht)
    | lexical => exact .beyond .lexical
    | nesting => exact .beyond .nesting

theorem map {x y : Parser α} (h : Follows T n x y) (f : α → β) :
    Follows T n (x >>= fun a => Pure.pure (f a)) (y >>= fun a => Pure.pure (f a)) :=
  h.bind fun a => .pure (f a)

/-- A fuel that is enough for what is shared: each unit pays for one token at least. -/
theorem fuelled {ι : Type} {L M : Nat → ι → Parser α} {N : Nat} (hzero : ∀ i, Confines T (L 0 i))
    (hstep : ∀ n ≤ N, ∀ fuel fuel', (∀ i, Follows T n (L fuel i) (M fuel' i)) →
      ∀ i, Follows T (n + 1) (L (fuel + 1) i) (M (fuel' + 1) i)) :
    ∀ fuel fuel' n, n ≤ N + 1 → n ≤ fuel → n ≤ fuel' → ∀ i, Follows T n (L fuel i) (M fuel' i) := by
  intro fuel
  induction fuel with
  | zero =>
    intro fuel' n _ hn _ i
    obtain rfl := Nat.le_zero.mp hn
    exact .apart (hzero i)
  | succ fuel ih =>
    intro fuel' n hN hn hn' i
    cases n with
    | zero =>
      have hone := hstep 0 (Nat.zero_le _) fuel 0 (ih 0 0 (Nat.zero_le _) (Nat.zero_le _) (Nat.le_refl _))
      exact .apart (hone i).confines
    | succ n =>
      obtain ⟨fuel', rfl⟩ := Nat.exists_eq_succ_of_ne_zero (Nat.ne_zero_of_lt hn')
      refine hstep n (by omega) fuel fuel' (ih fuel' n ?_ ?_ ?_) i
      · omega
      · omega
      · omega

end Follows

/-! ## Single tokens -/

theorem Shared.le_size {ts ts' : Tokens} (h : Shared T n ts ts') : n ≤ ts.size ∧ n ≤ ts'.size := by
  induction h with
  | beyond _ => exact ⟨Nat.zero_le _, Nat.zero_le _⟩
  | cons _ ih => exact ⟨Nat.succ_le_succ ih.1, Nat.succ_le_succ ih.2⟩

theorem peek_follows : Follows T n peek peek := by
  refine ⟨?_, fun _ _ _ _ _ hts => .ok (.cons hts) (Nat.le_refl _)⟩
  rintro ⟨front, ending, size, hsize⟩ hts
  cases front with
  | cons t front => exact .ok hts
  | nil =>
    cases ending with
    | ok t => exact .ok hts
    | error e => exact .lexical

theorem unexpected_follows (wanted : Wanted) : Follows T n (unexpected wanted : Parser α) (unexpected wanted) := by
  refine ⟨?_, fun _ _ _ _ _ _ => .error⟩
  rintro ⟨front, ending, size, hsize⟩ ⟨hfront, hending⟩
  cases front with
  | cons t front => exact .grammar (hfront t List.mem_cons_self)
  | nil =>
    cases ending with
    | ok t => exact .grammar (hending t rfl)
    | error e => exact .lexical

theorem advance_confines : Confines T advance :=
  fun _ hts => .ok ⟨fun t ht => hts.front t (List.mem_of_mem_tail ht), hts.ending⟩

namespace Follows

/-- After a token one less is shared. -/
theorem advance {x y : Parser α} (h : Follows T n x y) :
    Follows T (n + 1) (Parser.advance >>= fun _ => x) (Parser.advance >>= fun _ => y) := by
  refine ⟨advance_confines.bind fun _ => h.confines, fun m hm t ts ts' hts => ?_⟩
  exact (h.at_shared (Nat.le_of_lt_succ hm) hts).mono (Nat.le_succ m)

/-- A loop with as many rounds as there are tokens, which hands something on from round to round. -/
theorem loopFrom {ι : Type} {L M : Nat → ι → Parser α} (hzero : ∀ i, Confines T (L 0 i))
    (hround : ∀ k ≤ n, ∀ fuel fuel', (∀ i, Follows T k (L fuel i) (M fuel' i)) →
      ∀ i, Follows T (k + 1) (L (fuel + 1) i) (M (fuel' + 1) i)) (i : ι) :
    Follows T (n + 1) (remaining >>= fun fuel => L fuel i) (remaining >>= fun fuel => M fuel i) := by
  have henough := fuelled hzero hround
  refine ⟨fun ts hts => ?_, fun m hm t ts ts' hts => ?_⟩
  · exact (henough ts.size 0 0 (Nat.zero_le _) (Nat.zero_le _) (Nat.le_refl _) i).confines ts hts
  · obtain ⟨hsize, hsize'⟩ := (Shared.cons (t := t) hts).le_size
    exact (henough _ _ (m + 1) hm hsize hsize' i).at_shared (Nat.le_refl _) (.cons hts)

theorem loop {L M : Nat → Parser α} (hzero : Confines T (L 0))
    (hround : ∀ k ≤ n, ∀ fuel fuel', Follows T k (L fuel) (M fuel') →
      Follows T (k + 1) (L (fuel + 1)) (M (fuel' + 1))) :
    Follows T (n + 1) (remaining >>= L) (remaining >>= M) :=
  loopFrom (L := fun fuel (_ : Unit) => L fuel) (M := fun fuel _ => M fuel) (fun _ => hzero)
    (fun k hk fuel fuel' h _ => hround k hk fuel fuel' (h ())) ()

/-- An optional part, taken when its first lexeme comes next. -/
theorem option (l : Lexeme) {m : Nat} {a a' b b' : Parser α} (ha : Follows T n a a') (hb : Follows T m b b')
    (hm : m ≤ n + 1) :
    Follows T m (accept l >>= fun taken => if taken then a else b)
      (accept l >>= fun taken => if taken then a' else b') := by
  have haccept : ∀ x y : Parser α, (accept l >>= fun taken => if taken then x else y) =
      peek >>= fun t => if t.lexeme = l then Parser.advance >>= fun _ => x else y := by
    intro x y
    rw [accept, sees, bind_assoc, bind_assoc]
    refine bind_congr fun t => ?_
    by_cases ht : t.lexeme = l
    · simp [ht]
    · simp [ht]
  rw [haccept, haccept]
  refine peek_follows.bind fun t => ?_
  by_cases ht : t.lexeme = l
  · rw [if_pos ht, if_pos ht]
    exact ha.advance.mono hm
  · rw [if_neg ht, if_neg ht]
    exact hb

/-- A lexeme that has to come next. -/
theorem expected (l : Lexeme) (wanted : Wanted) {m : Nat} {x y : Parser α} (h : Follows T n x y)
    (hm : m ≤ n + 1) :
    Follows T m (expect l wanted >>= fun _ => x) (expect l wanted >>= fun _ => y) := by
  rw [expect_bind, expect_bind]
  exact h.option l (unexpected_follows wanted) hm

end Follows

theorem sees_follows (l : Lexeme) : Follows T n (sees l) (sees l) := peek_follows.bind fun _ => .pure _

theorem accept_follows (l : Lexeme) : Follows T n (accept l) (accept l) := by
  refine (sees_follows l).bind fun seen => ?_
  cases seen with
  | true => exact (Follows.advance (.pure true)).mono (Nat.le_succ n)
  | false => exact .pure false

theorem expectName_follows (wanted : Wanted) : Follows T n (expectName wanted) (expectName wanted) := by
  refine peek_follows.bind fun t => ?_
  cases t.lexeme with
  | name name => exact (Follows.advance (.pure name)).mono (Nat.le_succ n)
  | _ => exact unexpected_follows wanted

theorem optionalName_follows : Follows T n optionalName optionalName := by
  refine peek_follows.bind fun t => ?_
  cases t.lexeme with
  | name name => exact (Follows.advance (.pure (some name))).mono (Nat.le_succ n)
  | _ => exact .pure none

/-! ## Lists and operators -/

theorem moreItems_follows {item item' : Parser α} (h : Follows T n item item') :
    Follows T n (remaining >>= moreItems item) (remaining >>= moreItems item') := by
  refine (Follows.loop (fun _ hts => .ok hts) fun k hk fuel fuel' hmore => ?_).mono (Nat.le_succ n)
  exact .option _ ((h.mono hk).bind fun x => hmore.map (x :: ·)) (.pure []) (Nat.le_refl _)

theorem itemsUntil_follows {item item' : Parser α} (h : Follows T n item item') (close : Symbol) :
    Follows T n (itemsUntil item close) (itemsUntil item' close) := by
  refine (sees_follows _).bind fun seen => ?_
  cases seen with
  | true => exact .pure []
  | false => exact h.bind fun x => (moreItems_follows h).map (x :: ·)

theorem tails_follow (operator? : Symbol → Option BinaryOp) {operand operand' : Parser Expr}
    (h : Follows T n operand operand') :
    Follows T n (remaining >>= tails operator? operand) (remaining >>= tails operator? operand') := by
  refine (Follows.loop (fun _ hts => .ok hts) fun k hk fuel fuel' htails => ?_).mono (Nat.le_succ n)
  refine peek_follows.bind fun t => ?_
  cases operatorAt operator? t with
  | none => exact .pure []
  | some o => exact ((h.mono hk).bind fun x => htails.map (⟨o.1, o.2, x⟩ :: ·)).advance

theorem climb_follows {operand operand' : Parser Expr} (h : Follows T n operand operand') (ls : List Level) :
    Follows T n (climb operand ls) (climb operand' ls) := by
  induction ls with
  | nil => exact h
  | cons l ls ih => exact ih.bind fun first => (tails_follow l.operator? ih).map (l.grouping.apply first)

theorem unary_follows {operand operand' : Parser Expr} (h : Follows T (n + 1) operand operand') :
    Follows T (n + 1) (remaining >>= unary operand) (remaining >>= unary operand') := by
  refine .loop h.confines fun k hk fuel fuel' hunary => ?_
  refine peek_follows.bind fun t => ?_
  cases unaryAt t with
  | none => exact h.mono (Nat.succ_le_succ hk)
  | some o => exact (hunary.map (Expr.unary o.2 o.1)).advance

theorem sequenceTail_follows {operand operand' : Parser Expr} (h : Follows T n operand operand') (first : Expr) :
    Follows T n (remaining >>= fun fuel => sequenceTail operand fuel first)
      (remaining >>= fun fuel => sequenceTail operand' fuel first) := by
  refine (Follows.loopFrom (fun _ _ hts => .ok hts) (fun k hk fuel fuel' htail first => ?_) first).mono (Nat.le_succ n)
  exact .option _ ((h.mono hk).bind fun next => (htail next).map (Expr.sequence first.position first)) (.pure first)
    (Nat.le_refl _)

/-! ## Constructs -/

variable {inner inner' : Parser Expr} (hi : Follows T n inner inner')
include hi

theorem assignment_follows {target target' : Parser Expr} (h : Follows T (n + 1) target target') :
    Follows T (n + 1) (assignment inner target) (assignment inner' target') := by
  refine h.bind fun t => .option _ (hi.bind fun v => ?_) (.pure t) (Nat.le_refl _)
  exact (hi.map (Expr.assign t.position t v)).expected _ _ (Nat.le_succ n)

theorem calls_follow (callee : Expr) :
    Follows T (n + 1) (remaining >>= fun fuel => calls inner fuel callee)
      (remaining >>= fun fuel => calls inner' fuel callee) := by
  refine .loopFrom (fun _ _ hts => .ok hts) (fun k hk fuel fuel' hcalls callee => ?_) callee
  refine .option _ ((itemsUntil_follows (hi.mono hk) _).bind fun args => ?_) (.pure callee) (Nat.le_refl _)
  exact (hcalls (.call callee.position callee args)).expected _ _ (Nat.le_succ k)

omit hi in
theorem parameters_follow : Follows T n parameters parameters := by
  refine .option _ ((itemsUntil_follows (expectName_follows _) _).bind fun names => ?_) (.pure []) (Nat.le_succ n)
  exact .expected _ _ (.pure names) (Nat.le_succ n)

omit hi in
theorem chained_follows {decl decl' : Parser Expr} (h : Follows T n decl decl') :
    Follows T n (chained decl) (chained decl') := by
  refine .option _ (peek_follows.bind fun t => ?_) (.pure none) (Nat.le_succ n)
  match t.lexeme with
  | .keyword .letWord | .keyword .fnWord => exact h.map some
  | .keyword .inWord | .keyword .ifWord | .keyword .thenWord | .keyword .elseWord | .keyword .andWord
  | .keyword .endWord | .number _ | .string _ | .boolean _ | .name _ | .symbol _ | .endOfInput =>
    exact unexpected_follows _

theorem letRest_follows {decl decl' : Parser Expr} (h : Follows T n decl decl') (p : Position) :
    Follows T n (letRest inner decl p) (letRest inner' decl' p) := by
  refine (expectName_follows _).bind fun name => .expected _ _ (hi.bind fun v => ?_) (Nat.le_succ n)
  have hrest := fun body : Expr => (chained_follows h).map (Expr.binding p name v body)
  exact (hi.bind hrest).option _ (hrest (.nil v.position)) (Nat.le_succ n)

theorem fnRest_follows {decl decl' : Parser Expr} (h : Follows T n decl decl') (p : Position) :
    Follows T n (fnRest inner decl p) (fnRest inner' decl' p) := by
  refine optionalName_follows.bind fun name => parameters_follow.bind fun params => ?_
  refine .expected _ _ (hi.bind fun body => (chained_follows h).bind fun next => ?_) (Nat.le_succ n)
  exact (accept_follows _).bind fun _ => .pure _

theorem declaration_follows :
    Follows T (n + 1) (remaining >>= declaration inner) (remaining >>= declaration inner') := by
  refine .loop (unexpected_follows (n := 0) _).confines fun k hk fuel fuel' hdecl => ?_
  refine peek_follows.bind fun t => ?_
  have hi' := hi.mono hk
  match t.lexeme with
  | .keyword .letWord => exact (letRest_follows hi' hdecl _).advance
  | .keyword .fnWord => exact (fnRest_follows hi' hdecl _).advance
  | .keyword .inWord | .keyword .ifWord | .keyword .thenWord | .keyword .elseWord | .keyword .andWord
  | .keyword .endWord | .number _ | .string _ | .boolean _ | .name _ | .symbol _ | .endOfInput =>
    exact unexpected_follows _

theorem branchRest_follows (p : Position) : Follows T n (branchRest inner p) (branchRest inner' p) := by
  refine hi.bind fun test => .expected _ _ (hi.bind fun yes => ?_) (Nat.le_succ n)
  exact (hi.map (Expr.branch p test yes)).expected _ _ (Nat.le_succ n)

theorem parenRest_follows (p : Position) : Follows T n (parenRest inner p) (parenRest inner' p) := by
  refine .option _ (.pure (Expr.nil p)) (hi.bind fun e => ?_) (Nat.le_succ n)
  exact .expected _ _ (.pure e) (Nat.le_succ n)

theorem listRest_follows (p : Position) : Follows T n (listRest inner p) (listRest inner' p) := by
  refine (itemsUntil_follows hi _).bind fun items => ?_
  exact .expected _ _ (.pure (Expr.list p items)) (Nat.le_succ n)

theorem atom_follows : Follows T (n + 1) (atom inner) (atom inner') := by
  refine peek_follows.bind fun t => ?_
  match t.lexeme with
  | .keyword .letWord | .keyword .fnWord => exact declaration_follows hi
  | .keyword .ifWord => exact (branchRest_follows hi _).advance
  | .number x => exact Follows.advance (.pure _)
  | .string s => exact Follows.advance (.pure _)
  | .boolean b => exact Follows.advance (.pure _)
  | .name n => exact Follows.advance (.pure _)
  | .symbol s =>
    cases s with
    | openParen => exact (parenRest_follows hi _).advance
    | openBracket => exact (listRest_follows hi _).advance
    | _ => exact unexpected_follows _
  | .keyword .inWord | .keyword .thenWord | .keyword .elseWord | .keyword .andWord | .keyword .endWord
  | .endOfInput => exact unexpected_follows _

theorem expression_follows : Follows T (n + 1) (expression inner) (expression inner') := by
  have happlication : Follows T (n + 1) (application inner) (application inner') :=
    (atom_follows hi).bind fun callee => calls_follow hi callee
  have hpipe := climb_follows (unary_follows (assignment_follows hi happlication)) levels
  exact hpipe.bind fun first => sequenceTail_follows hpipe first

omit hi

/-! ## Programs -/

theorem sequence_follows {depth depth' : Nat} (h : n ≤ depth) (h' : n ≤ depth') :
    Follows T n (sequence depth) (sequence depth') := by
  have hzero : Confines T (sequence 0) := (peek_follows (n := 0)).confines.bind fun _ _ _ => .nesting
  have henough := Follows.fuelled (N := n) (L := fun depth (_ : Unit) => sequence depth)
    (M := fun depth _ => sequence depth) (fun _ => hzero) fun k _ depth depth' hi _ => expression_follows (hi ())
  exact henough depth depth' n (Nat.le_succ n) h h' ()

theorem strayEnds_follow : Follows T n (remaining >>= strayEnds) (remaining >>= strayEnds) := by
  refine (Follows.loop (fun _ hts => .ok hts) fun k _ fuel fuel' hends => ?_).mono (Nat.le_succ n)
  exact hends.option _ (.pure ()) (Nat.le_refl _)

theorem program_follows {depth depth' : Nat} (h : n ≤ depth) (h' : n ≤ depth') :
    Follows T n (program depth) (program depth') := by
  have hdone : ∀ e : Expr, Follows T n (sees .endOfInput >>= fun seen => if seen then pure e else unexpected .nothing)
      (sees .endOfInput >>= fun seen => if seen then pure e else unexpected .nothing) := by
    intro e
    refine (sees_follows _).bind fun seen => ?_
    cases seen with
    | true => exact .pure e
    | false => exact unexpected_follows _
  have hprogram := (sequence_follows h h').bind fun e => strayEnds_follow.bind fun _ => hdone e
  exact hprogram

/-- A token that is refused is one of the tokens. -/
theorem program_refuses_among {depth : Nat} {ts : Tokens} {e : ParseError} (hts : ts.Among T)
    (h : program depth ts = .error (.grammar e)) : T e.token := by
  have hconfined := (program_follows (Nat.zero_le depth) (Nat.zero_le depth)).confines ts hts
  rw [h] at hconfined
  cases hconfined with
  | grammar ht => exact ht

/-- A token that two streams share is refused on both or on neither. -/
theorem program_refuses {depth depth' : Nat} {ts ts' : Tokens} {e : ParseError} (hts : Shared T n ts ts')
    (h : n ≤ depth) (h' : n ≤ depth') (hprogram : program depth ts = .error (.grammar e)) (he : ¬ T e.token) :
    program depth' ts' = .error (.grammar e) := by
  have hsame := (program_follows h h').at_shared (Nat.le_refl n) hts
  rw [hprogram] at hsame
  generalize program depth' ts' = r at hsame ⊢
  cases hsame with
  | error => rfl
  | beyond hr =>
    cases hr with
    | grammar ht => exact absurd ht he

end Parser

end Curried
