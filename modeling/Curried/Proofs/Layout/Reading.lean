/-
  Curried.Proofs.Layout.Reading — programs that differ in layout read alike.

  Two streams of tokens are alike when they have the same lexemes in the same order, wherever these stand. A parser
  looks at lexemes only, and uses positions only to mark what it has read. So on streams that are alike it reads trees
  that differ in positions at most (`Expr.Alike`), or fails at the same lexeme wanting the same thing
  (`program_agrees`).
-/

import Curried.Expr.Parser
import Curried.Proofs.Coupling

namespace Curried

def Expr.body? : Expr → Option Expr
  | .function _ _ _ body _ => some body
  | _ => none

inductive Expr.Alike : Expr → Expr → Prop
  | of {e e' : Expr} : Expr.Matches Alike e e' → Option.Rel Alike e.body? e'.body? → Alike e e'

mutual

theorem Expr.Alike.refl : ∀ e : Expr, e.Alike e
  | .number .. => .of .number .none
  | .string .. => .of .string .none
  | .boolean .. => .of .boolean .none
  | .nil _ => .of .nil .none
  | .ref .. => .of .ref .none
  | .list _ items => .of (.list (Expr.Alike.reflAll items)) .none
  | .binary _ _ left right => .of (.binary (.refl left) (.refl right)) .none
  | .unary _ _ operand => .of (.unary (.refl operand)) .none
  | .call _ callee args => .of (.call (.refl callee) (Expr.Alike.reflAll args)) .none
  | .assign _ target value next => .of (.assign (.refl target) (.refl value) (.refl next)) .none
  | .sequence _ first second => .of (.sequence (.refl first) (.refl second)) .none
  | .branch _ test yes no => .of (.branch (.refl test) (.refl yes) (.refl no)) .none
  | .binding _ _ value body next => .of (.binding (.refl value) (.refl body) (Expr.Alike.reflOption next)) .none
  | .function _ _ _ body next => .of (.function (Expr.Alike.reflOption next)) (.some (.refl body))
  | .strange .. => .of .strange .none

theorem Expr.Alike.reflAll : ∀ es : List Expr, List.Forall₂ Expr.Alike es es
  | [] => .nil
  | e :: es => .cons (.refl e) (Expr.Alike.reflAll es)

theorem Expr.Alike.reflOption : ∀ o : Option Expr, Option.Rel Expr.Alike o o
  | none => .none
  | some e => .some (.refl e)

end

theorem Expr.Alike.binary {p p' : Position} {op op' : BinaryOp} {left left' right right' : Expr} (hop : op = op')
    (hl : left.Alike left') (hr : right.Alike right') :
    (Expr.binary p op left right).Alike (.binary p' op' left' right') :=
  hop ▸ .of (.binary hl hr) .none

structure Tokens.Alike (ts ts' : Tokens) : Prop where
  front : List.Forall₂ (fun t t' => t.lexeme = t'.lexeme) ts.front ts'.front
  ending : ∃ t t', ts.ending = .ok t ∧ ts'.ending = .ok t' ∧ t.lexeme = t'.lexeme

inductive ParseFailure.Alike : ParseFailure → ParseFailure → Prop
  | grammar {wanted : Wanted} {t t' : Token} :
      t.lexeme = t'.lexeme → Alike (.grammar ⟨wanted, t⟩) (.grammar ⟨wanted, t'⟩)
  | nesting {p p' : Position} : Alike (.nesting p) (.nesting p')

namespace Parser

variable {α β γ δ : Type}

/-- What two parsers make of streams that are alike: the results are related and what is left is alike, or both fail
alike. -/
inductive Same (rel : α → β → Prop) : Except ParseFailure (α × Tokens) → Except ParseFailure (β × Tokens) → Prop
  | ok {a : α} {b : β} {ts ts' : Tokens} : rel a b → ts.Alike ts' → Same rel (.ok (a, ts)) (.ok (b, ts'))
  | error {x x' : ParseFailure} : x.Alike x' → Same rel (.error x) (.error x')

def Agree (rel : α → β → Prop) (x : Parser α) (y : Parser β) : Prop :=
  ∀ ts ts', ts.Alike ts' → Same rel (x ts) (y ts')

/-! ## Sequencing -/

theorem Agree.pure {rel : α → β → Prop} {a : α} {b : β} (h : rel a b) : Agree rel (pure a) (pure b) :=
  fun _ _ hts => .ok h hts

theorem Agree.bind {rel : α → β → Prop} {rel' : γ → δ → Prop} {x : Parser α} {y : Parser β} {f : α → Parser γ}
    {g : β → Parser δ} (h : Agree rel x y) (hf : ∀ a b, rel a b → Agree rel' (f a) (g b)) :
    Agree rel' (x >>= f) (y >>= g) := by
  intro ts ts' hts
  have hx := h ts ts' hts
  show Same rel' ((x ts).bind fun r => f r.1 r.2) ((y ts').bind fun r => g r.1 r.2)
  generalize x ts = r, y ts' = r' at hx
  cases hx with
  | ok hab hrest => exact hf _ _ hab _ _ hrest
  | error hx => exact .error hx

/-- A test that agrees, and two ways to go on. -/
theorem Agree.branch {rel : α → β → Prop} {x y : Parser Bool} {a c : Parser α} {b d : Parser β} (h : Agree Eq x y)
    (hyes : Agree rel a b) (hno : Agree rel c d) :
    Agree rel (x >>= fun p => if p then a else c) (y >>= fun p => if p then b else d) := by
  refine h.bind fun p q hpq => ?_
  subst hpq
  cases p
  · exact hno
  · exact hyes

/-! ## Single tokens -/

theorem peek_agrees : Agree (fun t t' => t.lexeme = t'.lexeme) peek peek := by
  rintro ⟨front, ending, _, _⟩ ⟨front', ending', _, _⟩ ⟨hfront, t, t', he, he', ht⟩
  dsimp only at hfront he he'
  subst he he'
  cases hfront with
  | nil => exact .ok ht ⟨.nil, t, t', rfl, rfl, ht⟩
  | cons hd hrest => exact .ok hd ⟨.cons hd hrest, t, t', rfl, rfl, ht⟩

theorem advance_agrees : Agree (fun _ _ => True) advance advance := by
  rintro ts ts' ⟨hfront, hending⟩
  refine .ok trivial ⟨?_, hending⟩
  show List.Forall₂ _ ts.front.tail ts'.front.tail
  generalize ts.front = front, ts'.front = front' at hfront
  cases hfront with
  | nil => exact .nil
  | cons _ hrest => exact hrest

theorem remaining_agrees : Agree Eq remaining remaining := by
  intro ts ts' hts
  refine .ok ?_ hts
  rw [ts.size_eq, ts'.size_eq]
  exact hts.front.length_eq

theorem unexpected_agrees {rel : α → β → Prop} (wanted : Wanted) :
    Agree rel (unexpected wanted) (unexpected wanted) :=
  peek_agrees.bind fun _ _ ht _ _ _ => .error (.grammar ht)

theorem sees_agrees (lexeme : Lexeme) : Agree Eq (sees lexeme) (sees lexeme) := by
  refine peek_agrees.bind fun t t' ht => .pure ?_
  rw [ht]

theorem accept_agrees (lexeme : Lexeme) : Agree Eq (accept lexeme) (accept lexeme) :=
  (sees_agrees lexeme).branch (advance_agrees.bind fun _ _ _ => .pure rfl) (.pure rfl)

theorem expect_agrees (lexeme : Lexeme) (wanted : Wanted) :
    Agree (fun _ _ => True) (expect lexeme wanted) (expect lexeme wanted) := by
  refine (accept_agrees lexeme).bind fun p q hpq => ?_
  subst hpq
  cases p
  · exact unexpected_agrees wanted
  · exact .pure trivial

theorem expectName_agrees (wanted : Wanted) : Agree Eq (expectName wanted) (expectName wanted) := by
  refine peek_agrees.bind fun t t' ht => ?_
  rw [ht]
  cases t'.lexeme with
  | name n => exact advance_agrees.bind fun _ _ _ => .pure rfl
  | _ => exact unexpected_agrees wanted

theorem optionalName_agrees : Agree Eq optionalName optionalName := by
  refine peek_agrees.bind fun t t' ht => ?_
  rw [ht]
  cases t'.lexeme with
  | name n => exact advance_agrees.bind fun _ _ _ => .pure rfl
  | _ => exact .pure rfl

/-! ## Lists -/

theorem moreItems_agrees {rel : α → β → Prop} {item : Parser α} {item' : Parser β} (h : Agree rel item item') :
    ∀ fuel, Agree (List.Forall₂ rel) (moreItems item fuel) (moreItems item' fuel)
  | 0 => .pure .nil
  | fuel + 1 => (accept_agrees _).branch
      (h.bind fun _ _ hx => (moreItems_agrees h fuel).bind fun _ _ hxs => .pure (.cons hx hxs)) (.pure .nil)

theorem itemsUntil_agrees {rel : α → β → Prop} {item : Parser α} {item' : Parser β} (h : Agree rel item item')
    (close : Symbol) : Agree (List.Forall₂ rel) (itemsUntil item close) (itemsUntil item' close) := by
  refine (sees_agrees _).branch (.pure .nil) ?_
  refine h.bind fun x x' hx => remaining_agrees.bind fun n n' hn => ?_
  subst hn
  exact (moreItems_agrees h n).bind fun _ _ hxs => .pure (.cons hx hxs)

/-! ## Operators -/

def Tail.Alike (t t' : Tail) : Prop := t.op = t'.op ∧ t.operand.Alike t'.operand

theorem operatorAt_agrees (operator? : Symbol → Option BinaryOp) {t t' : Token} (ht : t.lexeme = t'.lexeme) :
    Option.Rel (fun o o' => o.1 = o'.1) (operatorAt operator? t) (operatorAt operator? t') := by
  unfold operatorAt
  rw [ht]
  cases t'.lexeme with
  | symbol s =>
    dsimp only
    cases operator? s with
    | none => exact .none
    | some op => exact .some rfl
  | _ => exact .none

theorem tails_agree (operator? : Symbol → Option BinaryOp) {operand operand' : Parser Expr}
    (h : Agree Expr.Alike operand operand') :
    ∀ fuel, Agree (List.Forall₂ Tail.Alike) (tails operator? operand fuel) (tails operator? operand' fuel)
  | 0 => .pure .nil
  | fuel + 1 => by
    refine peek_agrees.bind fun t t' ht => ?_
    have hop := operatorAt_agrees operator? ht
    generalize operatorAt operator? t = o, operatorAt operator? t' = o' at hop
    cases hop with
    | none => exact .pure .nil
    | some hop =>
      refine advance_agrees.bind fun _ _ _ => h.bind fun _ _ hx => ?_
      exact (tails_agree operator? h fuel).bind fun _ _ hrest => .pure (.cons ⟨hop, hx⟩ hrest)

theorem groupLeft_alike {rest rest' : List Tail} (h : List.Forall₂ Tail.Alike rest rest') :
    ∀ {first first' : Expr}, first.Alike first' → (groupLeft first rest).Alike (groupLeft first' rest') := by
  induction h with
  | nil => exact id
  | cons ht _ ih => exact fun hfirst => ih (.binary ht.1 hfirst ht.2)

theorem groupRight_alike {rest rest' : List Tail} (h : List.Forall₂ Tail.Alike rest rest') :
    ∀ {first first' : Expr}, first.Alike first' → (groupRight first rest).Alike (groupRight first' rest') := by
  induction h with
  | nil => exact id
  | cons ht _ ih => exact fun hfirst => .binary ht.1 hfirst (ih ht.2)

theorem Level.read_agrees (l : Level) {operand operand' : Parser Expr} (h : Agree Expr.Alike operand operand') :
    Agree Expr.Alike (l.read operand) (l.read operand') := by
  refine h.bind fun first first' hfirst => remaining_agrees.bind fun n n' hn => ?_
  subst hn
  refine (tails_agree l.operator? h n).bind fun rest rest' hrest => .pure ?_
  cases l.grouping with
  | left => exact groupLeft_alike hrest hfirst
  | right => exact groupRight_alike hrest hfirst

theorem climb_agrees {operand operand' : Parser Expr} (h : Agree Expr.Alike operand operand') :
    ∀ ls, Agree Expr.Alike (climb operand ls) (climb operand' ls)
  | [] => h
  | l :: ls => l.read_agrees (climb_agrees h ls)

theorem unaryAt_agrees {t t' : Token} (ht : t.lexeme = t'.lexeme) :
    Option.Rel (fun o o' => o.1 = o'.1) (unaryAt t) (unaryAt t') := by
  unfold unaryAt
  rw [ht]
  cases t'.lexeme with
  | symbol s => cases s <;> constructor; all_goals rfl
  | _ => exact .none

theorem unary_agrees {operand operand' : Parser Expr} (h : Agree Expr.Alike operand operand') :
    ∀ fuel, Agree Expr.Alike (unary operand fuel) (unary operand' fuel)
  | 0 => h
  | fuel + 1 => by
    refine peek_agrees.bind fun t t' ht => ?_
    have hop := unaryAt_agrees ht
    generalize unaryAt t = o, unaryAt t' = o' at hop
    cases hop with
    | none => exact h
    | @some o o' hop =>
      obtain ⟨op, p⟩ := o
      obtain ⟨op', p'⟩ := o'
      cases hop
      exact advance_agrees.bind fun _ _ _ => (unary_agrees h fuel).bind fun _ _ hx => .pure (.of (.unary hx) .none)

theorem sequenceTail_agrees {operand operand' : Parser Expr} (h : Agree Expr.Alike operand operand') :
    ∀ fuel {first first' : Expr}, first.Alike first' →
      Agree Expr.Alike (sequenceTail operand fuel first) (sequenceTail operand' fuel first')
  | 0, _, _, hfirst => .pure hfirst
  | fuel + 1, _, _, hfirst => (accept_agrees _).branch
      (h.bind fun _ _ hnext => (sequenceTail_agrees h fuel hnext).bind fun _ _ hrest =>
        .pure (.of (.sequence hfirst hrest) .none))
      (.pure hfirst)

/-! ## Constructs -/

variable {inner inner' : Parser Expr} (hi : Agree Expr.Alike inner inner')
include hi

theorem assignment_agrees {target target' : Parser Expr} (h : Agree Expr.Alike target target') :
    Agree Expr.Alike (assignment inner target) (assignment inner' target') := by
  refine h.bind fun t t' ht => (accept_agrees _).branch ?_ (.pure ht)
  refine hi.bind fun v v' hv => (expect_agrees _ _).bind fun _ _ _ => hi.bind fun n n' hn => ?_
  exact .pure (.of (.assign ht hv hn) .none)

theorem calls_agree : ∀ fuel {callee callee' : Expr}, callee.Alike callee' →
    Agree Expr.Alike (calls inner fuel callee) (calls inner' fuel callee')
  | 0, _, _, hc => .pure hc
  | fuel + 1, _, _, hc => by
    refine (accept_agrees _).branch ?_ (.pure hc)
    refine (itemsUntil_agrees hi _).bind fun args args' hargs => (expect_agrees _ _).bind fun _ _ _ => ?_
    exact calls_agree fuel (.of (.call hc hargs) .none)

omit hi in
theorem parameters_agree : Agree Eq parameters parameters := by
  refine (accept_agrees _).branch ?_ (.pure rfl)
  refine (itemsUntil_agrees (expectName_agrees _) _).bind fun names names' hnames => ?_
  exact (expect_agrees _ _).bind fun _ _ _ => .pure (List.forall₂_eq_eq_eq ▸ hnames)

omit hi in
theorem chained_agrees {decl decl' : Parser Expr} (h : Agree Expr.Alike decl decl') :
    Agree (Option.Rel Expr.Alike) (chained decl) (chained decl') := by
  refine (accept_agrees _).branch ?_ (.pure .none)
  refine peek_agrees.bind fun t t' ht => ?_
  rw [ht]
  have hsome : Agree (Option.Rel Expr.Alike) (do return some (← decl)) (do return some (← decl')) :=
    h.bind fun _ _ he => .pure (.some he)
  match t'.lexeme with
  | .keyword .letWord | .keyword .fnWord => exact hsome
  | .keyword .inWord | .keyword .ifWord | .keyword .thenWord | .keyword .elseWord | .keyword .andWord
  | .keyword .endWord | .number _ | .string _ | .boolean _ | .name _ | .symbol _ | .endOfInput =>
    exact unexpected_agrees _

theorem letRest_agrees {decl decl' : Parser Expr} (h : Agree Expr.Alike decl decl') (p p' : Position) :
    Agree Expr.Alike (letRest inner decl p) (letRest inner' decl' p') := by
  refine (expectName_agrees _).bind fun name name' hname => (expect_agrees _ _).bind fun _ _ _ => ?_
  subst hname
  refine hi.bind fun v v' hv => ?_
  have hrest : ∀ body body', body.Alike body' → Agree Expr.Alike (do return .binding p name v body (← chained decl))
      (do return .binding p' name v' body' (← chained decl')) := fun body body' hbody =>
    (chained_agrees h).bind fun next next' hnext => .pure (.of (.binding hv hbody hnext) .none)
  exact (accept_agrees _).branch (hi.bind hrest) ((Agree.pure (.of .nil .none)).bind hrest)

theorem fnRest_agrees {decl decl' : Parser Expr} (h : Agree Expr.Alike decl decl') (p p' : Position) :
    Agree Expr.Alike (fnRest inner decl p) (fnRest inner' decl' p') := by
  refine optionalName_agrees.bind fun name name' hname => parameters_agree.bind fun params params' hparams => ?_
  subst hname hparams
  refine (expect_agrees _ _).bind fun _ _ _ => hi.bind fun body body' hbody => ?_
  refine (chained_agrees h).bind fun next next' hnext => (accept_agrees _).bind fun _ _ _ => ?_
  exact .pure (.of (.function hnext) (.some hbody))

theorem declaration_agrees : ∀ fuel, Agree Expr.Alike (declaration inner fuel) (declaration inner' fuel)
  | 0 => unexpected_agrees _
  | fuel + 1 => by
    refine peek_agrees.bind fun t t' ht => ?_
    rw [ht]
    have hd := declaration_agrees fuel
    match t'.lexeme with
    | .keyword .letWord => exact advance_agrees.bind fun _ _ _ => letRest_agrees hi hd _ _
    | .keyword .fnWord => exact advance_agrees.bind fun _ _ _ => fnRest_agrees hi hd _ _
    | .keyword .inWord | .keyword .ifWord | .keyword .thenWord | .keyword .elseWord | .keyword .andWord
    | .keyword .endWord | .number _ | .string _ | .boolean _ | .name _ | .symbol _ | .endOfInput =>
      exact unexpected_agrees _

theorem branchRest_agrees (p p' : Position) : Agree Expr.Alike (branchRest inner p) (branchRest inner' p') := by
  refine hi.bind fun test test' ht => (expect_agrees _ _).bind fun _ _ _ => ?_
  refine hi.bind fun yes yes' hy => (expect_agrees _ _).bind fun _ _ _ => ?_
  exact hi.bind fun no no' hn => .pure (.of (.branch ht hy hn) .none)

theorem parenRest_agrees (p p' : Position) : Agree Expr.Alike (parenRest inner p) (parenRest inner' p') := by
  refine (accept_agrees _).branch (.pure (.of .nil .none)) ?_
  exact hi.bind fun e e' he => (expect_agrees _ _).bind fun _ _ _ => .pure he

theorem listRest_agrees (p p' : Position) : Agree Expr.Alike (listRest inner p) (listRest inner' p') := by
  refine (itemsUntil_agrees hi _).bind fun items items' hitems => ?_
  exact (expect_agrees _ _).bind fun _ _ _ => .pure (.of (.list hitems) .none)

theorem atom_agrees : Agree Expr.Alike (atom inner) (atom inner') := by
  refine peek_agrees.bind fun t t' ht => ?_
  dsimp only
  rw [ht]
  have hdecl : Agree Expr.Alike (do declaration inner (← remaining)) (do declaration inner' (← remaining)) := by
    refine remaining_agrees.bind fun n n' hn => ?_
    subst hn
    exact declaration_agrees hi n
  have hthen : ∀ {x y : Parser Expr}, Agree Expr.Alike x y →
      Agree Expr.Alike (advance >>= fun _ => x) (advance >>= fun _ => y) :=
    fun h => advance_agrees.bind fun _ _ _ => h
  match t'.lexeme with
  | .keyword .letWord | .keyword .fnWord => exact hdecl
  | .keyword .ifWord => exact hthen (branchRest_agrees hi _ _)
  | .number x => exact hthen (.pure (.of .number .none))
  | .string s => exact hthen (.pure (.of .string .none))
  | .boolean b => exact hthen (.pure (.of .boolean .none))
  | .name n => exact hthen (.pure (.of .ref .none))
  | .symbol s =>
    cases s with
    | openParen => exact hthen (parenRest_agrees hi _ _)
    | openBracket => exact hthen (listRest_agrees hi _ _)
    | _ => exact unexpected_agrees _
  | .keyword .inWord | .keyword .thenWord | .keyword .elseWord | .keyword .andWord | .keyword .endWord
  | .endOfInput => exact unexpected_agrees _

theorem application_agrees : Agree Expr.Alike (application inner) (application inner') := by
  refine (atom_agrees hi).bind fun c c' hc => remaining_agrees.bind fun n n' hn => ?_
  subst hn
  exact calls_agree hi n hc

theorem operand_agrees : Agree Expr.Alike (operand inner) (operand inner') := by
  refine remaining_agrees.bind fun n n' hn => ?_
  subst hn
  exact unary_agrees (assignment_agrees hi (application_agrees hi)) n

theorem expression_agrees : Agree Expr.Alike (expression inner) (expression inner') := by
  have hpipe := climb_agrees (operand_agrees hi) levels
  refine hpipe.bind fun first first' hfirst => remaining_agrees.bind fun n n' hn => ?_
  subst hn
  exact sequenceTail_agrees hpipe n hfirst

omit hi

/-! ## Programs -/

theorem sequence_agrees : ∀ depth, Agree Expr.Alike (sequence depth) (sequence depth)
  | 0 => peek_agrees.bind fun _ _ _ _ _ _ => .error .nesting
  | depth + 1 => expression_agrees (sequence_agrees depth)

theorem strayEnds_agree : ∀ fuel, Agree (fun _ _ => True) (strayEnds fuel) (strayEnds fuel)
  | 0 => .pure trivial
  | fuel + 1 => (accept_agrees _).branch (strayEnds_agree fuel) (.pure trivial)

theorem program_agrees (depth : Nat) : Agree Expr.Alike (program depth) (program depth) := by
  refine (sequence_agrees depth).bind fun e e' he => remaining_agrees.bind fun n n' hn => ?_
  subst hn
  refine (strayEnds_agree n).bind fun _ _ _ => ?_
  exact (sees_agrees _).branch (.pure he) (unexpected_agrees _)

end Parser

end Curried
