/-
  Curried.Proofs.Grammar.Parser — the parser accepts exactly the grammar.

  Each construct recognizes its nonterminal, given that what reads the expressions inside it recognizes sequences on
  fewer tokens. An expression inside another comes after one of its tokens, so nesting as deep as there are tokens is
  never cut short, and `parse` gives a tree exactly when the tokens derive it (`parse_iff_program`).
-/

import Curried.Proofs.Grammar.Operators
import Curried.Proofs.Tokens

namespace Curried

namespace Parser

open Grammar

variable {eof : Token} (heof : eof.lexeme = .endOfInput)
include heof

/-! ## Constructs -/

variable {n : Nat} {inner : Parser Expr} (hi : Recognizes eof n inner (Derives .sequence))
include hi

omit heof hi in
/-- An assignment is a target, and then perhaps `:: Sequence in Sequence`. -/
theorem assignment_iff {ts : List Token} {next : Lexeme} {e : Expr} :
    Derives .assignment ts next e ↔ Phrase.andThen (Derives .application) (fun t => Phrase.optional
      (Phrase.andThen (Derives .sequence) fun v ts next e => ∃ inWord us, ts = inWord :: us ∧
        inWord.lexeme = .keyword .inWord ∧ ∃ b, Derives .sequence us next b ∧ e = .assign t.position t v b)
      (.symbol .doubleColon) t) ts next e := by
  constructor
  · intro h
    cases h with
    | target h hnext => exact ⟨ts, [], e, (List.append_nil ts).symm, h, Or.inr ⟨hnext, rfl, rfl⟩⟩
    | @assign us vs ws colons inWord _ t v b h hcolons hv hin hb =>
      rw [← hcolons] at h
      rw [← hin] at hv
      exact ⟨us, colons :: (vs ++ inWord :: ws), t, rfl, h, Or.inl ⟨colons, vs ++ inWord :: ws, rfl, hcolons,
        vs, inWord :: ws, v, rfl, hv, inWord, ws, rfl, hin, b, hb, rfl⟩⟩
  · rintro ⟨us, _, t, rfl, ht, ⟨colons, _, rfl, hcolons, vs, _, v, rfl, hv, inWord, ws, rfl, hin, b, hb, rfl⟩ |
      ⟨hnext, rfl, rfl⟩⟩
    · rw [following_cons, hcolons] at ht
      rw [following_cons, hin] at hv
      exact .assign ht hcolons hv hin hb
    · rw [List.append_nil]
      exact .target ht hnext

theorem assignment_recognizes {target : Parser Expr} (ht : Recognizes eof (n + 1) target (Derives .application)) :
    Recognizes eof (n + 1) (assignment inner target) (Derives .assignment) := by
  have hvalue := fun t : Expr => hi.bind fun v =>
    ((hi.map (Expr.assign t.position t v)).expected heof (.keyword .inWord) nofun .inAfterValue).mono (Nat.le_succ n)
  have hassign := fun t : Expr =>
    (hvalue t).optional heof (.symbol .doubleColon) nofun t
  exact (ht.bind hassign).congr fun _ _ _ => assignment_iff.symm

omit heof hi in
theorem calls_iff {e f : Expr} {ts : List Token} {next : Lexeme} :
    Calls e ts next f ↔ Phrase.optional (fun ts next f => ∃ us closing vs args, ts = us ++ closing :: vs ∧
      Listed (Derives .sequence) .closeParen us args ∧ closing.lexeme = .symbol .closeParen ∧
      Calls (.call e.position e args) vs next f) (.symbol .openParen) e ts next f := by
  constructor
  · intro h
    cases h with
    | none hnext => exact Or.inr ⟨hnext, rfl, rfl⟩
    | more hopen hargs hclose hrest => exact Or.inl ⟨_, _, rfl, hopen, _, _, _, _, rfl, hargs, hclose, hrest⟩
  · rintro (⟨opening, _, rfl, hopen, us, closing, vs, args, rfl, hargs, hclose, hrest⟩ | ⟨hnext, rfl, rfl⟩)
    · exact .more hopen hargs hclose hrest
    · exact .none hnext

theorem calls_recognize (callee : Expr) :
    Recognizes eof (n + 1) (remaining >>= fun rounds => calls inner rounds callee) (Calls callee) := by
  refine .loopFrom (fun callee => ?_) (fun rounds k hk hcalls callee => ?_) callee
  · exact (Recognizes.noRounds (.symbol .openParen) nofun _ callee).congr fun _ _ _ => calls_iff.symm
  · have hargs := itemsUntil_recognizes heof .closeParen .closeAfterArguments (hi.mono (Nat.le_of_lt_succ hk))
      (fun _ _ _ => sequence_starts) rfl fun args => hcalls (.call callee.position callee args)
    exact (hargs.optional heof (.symbol .openParen) nofun callee).congr fun _ _ _ => calls_iff.symm

omit hi

/-! ## Declarations -/

theorem optionalName_recognizes :
    Recognizes eof n optionalName fun ts next o => OptionalName ts o ∧ (o = none → ∀ name, next ≠ .name name) := by
  intro front _
  have hpeek : optionalName (stream eof front) = _ := peek_bind eof _ front
  rw [headD_lexeme heof] at hpeek
  cases hl : following front .endOfInput with
  | name name =>
    rw [hl] at hpeek
    cases front with
    | nil => cases hl
    | cons t front =>
      refine (RecognizesAt.pure (some name) front).token hpeek (fun us next o => ⟨?_, ?_⟩) fun o => ?_
      · rintro ⟨ho, -⟩
        cases ho with
        | some ht =>
          cases ht.symm.trans hl
          exact ⟨rfl, rfl⟩
      · rintro ⟨rfl, rfl⟩
        exact ⟨.some hl, nofun⟩
      · rintro ⟨ho, hnext⟩
        cases ho with
        | none => exact hnext rfl name hl
  | _ =>
    rw [hl] at hpeek
    refine ((RecognizesAt.pure none front).of_eq hpeek).congr fun used rest o hsplit => ⟨?_, ?_⟩
    · rintro ⟨rfl, rfl⟩
      refine ⟨.none, fun _ name hname => ?_⟩
      rw [hsplit, List.nil_append, hname] at hl
      cases hl
    · rintro ⟨ho, -⟩
      cases ho with
      | none => exact ⟨rfl, rfl⟩
      | some ht =>
        rw [hsplit] at hl
        cases ht.symm.trans hl

theorem name_recognizes (wanted : Wanted) : Recognizes eof n (expectName wanted) Name := by
  have hname := Recognizes.named heof wanted (n := n) fun name front _ => .pure name front
  rw [bind_pure] at hname
  refine (hname.mono (Nat.le_succ n)).congr fun ts next name => ⟨?_, ?_⟩
  · rintro ⟨t, _, _, rfl, ht, rfl, rfl⟩
    exact .name ht
  · rintro ⟨ht⟩
    exact ⟨_, _, _, rfl, ht, rfl, rfl⟩

omit heof in
/-- Parameters are taken whenever a parenthesis comes next. -/
theorem parameters_iff {ts : List Token} {next : Lexeme} {names : List String} :
    Parameters ts names ∧ (ts = [] → next ≠ .symbol .openParen) ↔
      Phrase.optional (fun ts _ names => ∃ us closing vs xs, ts = us ++ closing :: vs ∧ Listed Name .closeParen us xs ∧
        closing.lexeme = .symbol .closeParen ∧ vs = [] ∧ names = xs) (.symbol .openParen) [] ts next names := by
  constructor
  · rintro ⟨hparams, hnext⟩
    cases hparams with
    | none => exact Or.inr ⟨hnext rfl, rfl, rfl⟩
    | some hopen hnames hclose =>
      exact Or.inl ⟨_, _, rfl, hopen, _, _, [], _, rfl, hnames, hclose, rfl, rfl⟩
  · rintro (⟨opening, _, rfl, hopen, us, closing, _, names, rfl, hnames, hclose, rfl, rfl⟩ | ⟨hnext, rfl, rfl⟩)
    · exact ⟨.some hopen hnames hclose, nofun⟩
    · exact ⟨.none, fun _ => hnext⟩

theorem parameters_recognize :
    Recognizes eof (n + 1) parameters fun ts next names =>
      Parameters ts names ∧ (ts = [] → next ≠ .symbol .openParen) := by
  have hnames := itemsUntil_recognizes heof .closeParen .closeAfterParameters (n := n)
    (p := isName) (name_recognizes heof .parameter)
    (by rintro _ _ _ ⟨ht⟩; exact ⟨_, _, rfl, by rw [ht]; rfl⟩) rfl fun names front _ => .pure names front
  exact (hnames.optional heof (.symbol .openParen) nofun []).congr fun _ _ _ => parameters_iff.symm

omit heof in
theorem continued_iff {word : Keyword} {k : Nonterminal} {ts : List Token} {next : Lexeme} {o : Option Expr} :
    Continued word k ts next o ↔
      Phrase.optional (fun ts next o => ∃ e, Derives k ts next e ∧ o = some e) (.keyword word) none ts next o := by
  constructor
  · intro h
    cases h with
    | none hnext => exact Or.inr ⟨hnext, rfl, rfl⟩
    | some ht he => exact Or.inl ⟨_, _, rfl, ht, _, he, rfl⟩
  · rintro (⟨t, us, rfl, ht, e, he, rfl⟩ | ⟨hnext, rfl, rfl⟩)
    · exact .some ht he
    · exact .none hnext

theorem chained_recognizes {decl : Parser Expr} (hd : Recognizes eof n decl (Derives .declaration)) :
    Recognizes eof (n + 1) (chained decl) (Continued .andWord .declaration) := by
  have hstart : ∀ used next (o : Option Expr), (∃ e, Derives .declaration used next e ∧ o = some e) →
      Starts startsDeclaration used := by
    rintro used next _ ⟨e, he, -⟩
    exact declaration_starts he
  refine .congr (.optional heof (.keyword .andWord) nofun (fun front hfront => ?_) none)
    fun _ _ _ => continued_iff.symm
  refine .of_eq ?_ (peek_bind eof _ front)
  rw [headD_lexeme heof]
  cases hl : following front .endOfInput with
  | keyword word =>
    cases word with
    | letWord | fnWord => exact hd.map some front hfront
    | _ => exact .refused .declaration rfl hstart (by rw [hl]; rfl)
  | _ => exact .refused .declaration rfl hstart (by rw [hl]; rfl)

def LetRest (p : Position) : Phrase Expr := fun ts next e =>
  ∃ name us n, ts = name :: us ∧ name.lexeme = .name n ∧ ∃ colons vs, us = colons :: vs ∧
    colons.lexeme = .symbol .doubleColon ∧
    Phrase.andThen (Derives .sequence) (fun value => Phrase.andThen (Continued .inWord .sequence) fun body ts next e =>
      ∃ chained, Continued .andWord .declaration ts next chained ∧
        e = .binding p n value (body.getD (.nil value.position)) chained) vs next e

def FnRest (p : Position) : Phrase Expr :=
  Phrase.andThen (fun ts next name => OptionalName ts name ∧ (name = none → ∀ n, next ≠ .name n)) fun name =>
    Phrase.andThen (fun ts next params => Parameters ts params ∧ (ts = [] → next ≠ .symbol .openParen))
      fun params ts next e => ∃ colons us, ts = colons :: us ∧ colons.lexeme = .symbol .doubleColon ∧
        Phrase.andThen (Derives .sequence) (fun body => Phrase.andThen (Continued .andWord .declaration)
          fun chained ts next e => OptionalEnd ts next ∧ e = .function p name params body chained) us next e

include hi

omit heof hi in
/-- The body of a `let`, if it has one, is an optional part of its own. -/
theorem letRest_eq (inner decl : Parser Expr) (p : Position) :
    letRest inner decl p = (expectName .letName >>= fun name =>
      expect (.symbol .doubleColon) .colonsAfterLetName >>= fun _ => inner >>= fun value =>
      (accept (.keyword .inWord) >>= fun taken =>
        if taken then inner >>= fun e => pure (some e) else pure none) >>= fun body =>
      chained decl >>= fun next => pure (.binding p name value (body.getD (.nil value.position)) next)) := by
  unfold letRest
  refine bind_congr fun name => bind_congr fun _ => bind_congr fun value => ?_
  rw [bind_assoc]
  refine bind_congr fun taken => ?_
  cases taken with
  | true => simp only [if_true, bind_assoc, pure_bind, Option.getD_some]
  | false => rfl

theorem body_recognizes :
    Recognizes eof (n + 1) (accept (.keyword .inWord) >>= fun taken =>
      if taken then inner >>= fun e => pure (some e) else pure none) (Continued .inWord .sequence) :=
  ((hi.map some).optional heof (.keyword .inWord) nofun none).congr fun _ _ _ => continued_iff.symm

theorem letRest_recognizes {decl : Parser Expr} (hd : Recognizes eof n decl (Derives .declaration)) (p : Position) :
    Recognizes eof n (letRest inner decl p) (LetRest p) := by
  have hchained := (chained_recognizes heof hd).mono (Nat.le_succ n)
  have hbody := (body_recognizes heof hi).mono (Nat.le_succ n)
  have hvalue := fun name : String => hi.bind fun value => hbody.bind fun body =>
    hchained.map fun next => Expr.binding p name value (body.getD (.nil value.position)) next
  have hcolons := fun name =>
    ((hvalue name).expected heof (.symbol .doubleColon) nofun .colonsAfterLetName).mono (Nat.le_succ n)
  have hname := (Recognizes.named heof .letName hcolons).mono (Nat.le_succ n)
  rw [letRest_eq]
  exact hname

theorem fnRest_recognizes {decl : Parser Expr} (hd : Recognizes eof n decl (Derives .declaration)) (p : Position) :
    Recognizes eof n (fnRest inner decl p) (FnRest p) := by
  have hchained := (chained_recognizes heof hd).mono (Nat.le_succ n)
  have hend : ∀ e : Expr, Recognizes eof n (accept (.keyword .endWord) >>= fun _ => pure e)
      fun ts next f => OptionalEnd ts next ∧ f = e := by
    intro e
    have haccept := Recognizes.option heof (n := n) (.keyword .endWord) nofun (fun front _ => .pure e front)
      fun front _ => .pure e front
    simp only [ite_self] at haccept
    refine (haccept.mono (Nat.le_succ n)).congr fun ts next f => ⟨?_, ?_⟩
    · rintro (⟨t, _, rfl, ht, rfl, hf⟩ | ⟨hnext, rfl, hf⟩)
      · exact ⟨.some ht, hf⟩
      · exact ⟨.none hnext, hf⟩
    · rintro ⟨hend, hf⟩
      cases hend with
      | none hnext => exact Or.inr ⟨hnext, rfl, hf⟩
      | some ht => exact Or.inl ⟨_, _, rfl, ht, rfl, hf⟩
  have hbody := fun (name : Option String) (params : List String) => hi.bind fun body => hchained.bind fun next =>
    hend (.function p name params body next)
  have hcolons := fun name params =>
    ((hbody name params).expected heof (.symbol .doubleColon) nofun .colonsBeforeBody).mono (Nat.le_succ n)
  have hparams := fun name => ((parameters_recognize heof).mono (Nat.le_succ n)).bind (hcolons name)
  exact (optionalName_recognizes heof).bind hparams

omit heof hi in
theorem binding_iff {t : Token} (ht : t.lexeme = .keyword .letWord) {us : List Token} {next : Lexeme} {e : Expr} :
    Derives .declaration (t :: us) next e ↔ LetRest t.position us next e := by
  constructor
  · intro h
    cases h with
    | binding _ hname hcolons hvalue hbody hchained =>
      exact ⟨_, _, _, rfl, hname, _, _, rfl, hcolons, _, _, _, rfl, hvalue, _, _, _, rfl, hbody, _, hchained, rfl⟩
    | function hfn => cases ht.symm.trans hfn
  · rintro ⟨name, _, n, rfl, hname, colons, _, rfl, hcolons, us, _, value, rfl, hvalue, vs, ws, body, rfl, hbody,
      chained, hchained, rfl⟩
    exact .binding ht hname hcolons hvalue hbody hchained

omit heof hi in
theorem function_iff {t : Token} (ht : t.lexeme = .keyword .fnWord) {us : List Token} {next : Lexeme} {e : Expr} :
    Derives .declaration (t :: us) next e ↔ FnRest t.position us next e := by
  constructor
  · intro h
    cases h with
    | binding hlet => cases ht.symm.trans hlet
    | @function ns ps ts us vs _ colons name params _ body chained _ hname hparams hcolons hbody hchained hend =>
      refine ⟨ns, _, name, rfl, ⟨hname, fun _ n hn => ?_⟩, ps, _, params, rfl, ⟨hparams, fun _ hopen => ?_⟩,
        colons, _, rfl, hcolons, ts, _, body, rfl, hbody, us, vs, chained, rfl, hchained, hend, rfl⟩
      · -- after the name come the parameters, or `::`
        cases hparams with
        | none => cases hcolons.symm.trans hn
        | some hopen => cases hopen.symm.trans hn
      · cases hcolons.symm.trans hopen
  · rintro ⟨ns, _, name, rfl, ⟨hname, -⟩, ps, _, params, rfl, ⟨hparams, -⟩, colons, _, rfl, hcolons,
      ts, _, body, rfl, hbody, us, vs, chained, rfl, hchained, hend, rfl⟩
    exact .function ht hname hparams hcolons hbody hchained hend

theorem declaration_within (rounds k : Nat) (hrounds : k ≤ rounds) (hk : k ≤ n) :
    Recognizes eof (k + 1) (declaration inner rounds) (Derives .declaration) := by
  refine Recognizes.within (n := n + 1) (f := fun rounds (_ : Unit) => declaration inner rounds)
    (P := fun _ => Derives .declaration) (fun _ => ?_) (fun rounds k hk hdecl _ => ?_) rounds k hrounds
    (Nat.lt_succ_of_le hk) ()
  · intro front hfront
    obtain rfl : front = [] := List.length_eq_zero_iff.mp (by omega)
    exact .refused .declaration rfl (fun _ _ _ => declaration_starts) rfl
  · intro front hfront
    have hi' := hi.mono (Nat.le_of_lt_succ hk)
    have hpeek : declaration inner (rounds + 1) (stream eof front) = _ := peek_bind eof _ front
    rw [headD_lexeme heof] at hpeek
    cases hl : following front .endOfInput with
    | keyword word =>
      rw [hl] at hpeek
      cases front with
      | nil => cases hl
      | cons t front =>
        have hfront' : front.length < k := by simpa using hfront
        have hnil : ∀ e, ¬ Derives .declaration [] t.lexeme e := by
          intro e h
          obtain ⟨_, _, ⟨⟩, -⟩ := declaration_starts h
        cases word with
        | letWord =>
          have hrest := letRest_recognizes heof hi' (hdecl ()) t.position
          exact (hrest front hfront').token hpeek (fun _ _ _ => binding_iff hl) hnil
        | fnWord =>
          have hrest := fnRest_recognizes heof hi' (hdecl ()) t.position
          exact (hrest front hfront').token hpeek (fun _ _ _ => function_iff hl) hnil
        | _ => exact .refused .declaration hpeek (fun _ _ _ => declaration_starts) (by rw [hl]; rfl)
    | _ =>
      rw [hl] at hpeek
      exact .refused .declaration hpeek (fun _ _ _ => declaration_starts) (by rw [hl]; rfl)

theorem declaration_recognizes : Recognizes eof (n + 1) (remaining >>= declaration inner) (Derives .declaration) := by
  intro front hfront
  have hwithin := declaration_within heof hi front.length front.length (Nat.le_refl _) (Nat.le_of_lt_succ hfront)
  exact (hwithin front (Nat.lt_succ_self _)).of_eq rfl

/-! ## Atoms -/

omit hi
omit heof

def BranchRest (p : Position) : Phrase Expr :=
  Phrase.andThen (Derives .sequence) fun test ts next e =>
    ∃ thenWord us, ts = thenWord :: us ∧ thenWord.lexeme = .keyword .thenWord ∧
      Phrase.andThen (Derives .sequence) (fun yes ts next e =>
        ∃ elseWord us, ts = elseWord :: us ∧ elseWord.lexeme = .keyword .elseWord ∧
          ∃ no, Derives .sequence us next no ∧ e = .branch p test yes no) us next e

def ParenRest (p : Position) : Phrase Expr := fun ts _ e =>
  (∃ closing, ts = [closing] ∧ closing.lexeme = .symbol .closeParen ∧ e = .nil p) ∨
    ∃ us closing, ts = us ++ [closing] ∧ Derives .sequence us (.symbol .closeParen) e ∧
      closing.lexeme = .symbol .closeParen

def ListRest (p : Position) : Phrase Expr := fun ts _ e =>
  ∃ us closing es, ts = us ++ [closing] ∧ Listed (Derives .sequence) .closeBracket us es ∧
    closing.lexeme = .symbol .closeBracket ∧ e = .list p es

def AtomRest (t : Token) : Phrase Expr := fun ts next e =>
  match t.lexeme with
  | .keyword .letWord | .keyword .fnWord => Derives .declaration (t :: ts) next e
  | .keyword .ifWord => BranchRest t.position ts next e
  | .number x => ts = [] ∧ e = .number t.position x
  | .string s => ts = [] ∧ e = .string t.position s
  | .boolean b => ts = [] ∧ e = .boolean t.position b
  | .name n => ts = [] ∧ e = .ref t.position n
  | .symbol .openParen => ParenRest t.position ts next e
  | .symbol .openBracket => ListRest t.position ts next e
  | _ => False

theorem atom_iff {t : Token} {us : List Token} {next : Lexeme} {e : Expr} :
    Derives .atom (t :: us) next e ↔ AtomRest t us next e := by
  unfold AtomRest
  constructor
  · intro h
    cases h with
    | declared h =>
      have hword : t.lexeme = .keyword .letWord ∨ t.lexeme = .keyword .fnWord := by
        cases h with
        | binding hlet => exact Or.inl hlet
        | function hfn => exact Or.inr hfn
      rcases hword with hlet | hfn
      · rw [hlet]; exact h
      · rw [hfn]; exact h
    | branch hif htest hthen hyes helse hno =>
      rw [hif]
      rw [← hthen] at htest
      rw [← helse] at hyes
      exact ⟨_, _, _, rfl, htest, _, _, rfl, hthen, _, _, _, rfl, hyes, _, _, rfl, helse, _, hno, rfl⟩
    | number h => rw [h]; exact ⟨rfl, rfl⟩
    | string h => rw [h]; exact ⟨rfl, rfl⟩
    | boolean h => rw [h]; exact ⟨rfl, rfl⟩
    | ref h => rw [h]; exact ⟨rfl, rfl⟩
    | nil hopen hclose => rw [hopen]; exact Or.inl ⟨_, rfl, hclose, rfl⟩
    | group hopen he hclose => rw [hopen]; exact Or.inr ⟨_, _, rfl, he, hclose⟩
    | list hopen hes hclose => rw [hopen]; exact ⟨_, _, _, rfl, hes, hclose, rfl⟩
  · split
    case _ hl => exact .declared
    case _ hl => exact .declared
    case _ hif =>
      rintro ⟨us, _, test, rfl, htest, thenWord, _, rfl, hthen, vs, _, yes, rfl, hyes, elseWord, ws, rfl, helse,
        no, hno, rfl⟩
      rw [following_cons, hthen] at htest
      rw [following_cons, helse] at hyes
      exact .branch hif htest hthen hyes helse hno
    case _ h => rintro ⟨rfl, rfl⟩; exact .number h
    case _ h => rintro ⟨rfl, rfl⟩; exact .string h
    case _ h => rintro ⟨rfl, rfl⟩; exact .boolean h
    case _ h => rintro ⟨rfl, rfl⟩; exact .ref h
    case _ hopen =>
      rintro (⟨closing, rfl, hclose, rfl⟩ | ⟨us, closing, rfl, he, hclose⟩)
      · exact .nil hopen hclose
      · exact .group hopen he hclose
    case _ hopen =>
      rintro ⟨us, closing, es, rfl, hes, hclose, rfl⟩
      exact .list hopen hes hclose
    case _ => exact False.elim

include heof hi

theorem branchRest_recognizes (p : Position) : Recognizes eof n (branchRest inner p) (BranchRest p) := by
  have helse := fun test yes : Expr =>
    ((hi.map (Expr.branch p test yes)).expected heof (.keyword .elseWord) nofun .elseAfterBranch).mono (Nat.le_succ n)
  have hthen := fun test : Expr =>
    ((hi.bind (helse test)).expected heof (.keyword .thenWord) nofun .thenAfterCondition).mono (Nat.le_succ n)
  exact hi.bind hthen

theorem parenRest_recognizes (p : Position) : Recognizes eof n (parenRest inner p) (ParenRest p) := by
  cases n with
  | zero => exact .zero
  | succ n =>
    have hclose := fun e : Expr =>
      Recognizes.expected heof (.symbol .closeParen) nofun .closeAfterExpression (n := n) fun front _ => .pure e front
    have hparen := Recognizes.option heof (.symbol .closeParen) nofun (fun front _ => .pure (Expr.nil p) front)
      (hi.bind hclose)
    refine hparen.congr fun ts next e => ⟨?_, ?_⟩
    · rintro (⟨closing, _, rfl, hclosing, rfl, rfl⟩ | ⟨-, us, _, e, rfl, he, closing, _, rfl, hclosing, rfl, rfl⟩)
      · exact Or.inl ⟨closing, rfl, hclosing, rfl⟩
      · rw [following_cons, hclosing] at he
        exact Or.inr ⟨us, closing, rfl, he, hclosing⟩
    · rintro (⟨closing, rfl, hclosing, rfl⟩ | ⟨us, closing, rfl, he, hclosing⟩)
      · exact Or.inl ⟨closing, [], rfl, hclosing, rfl, rfl⟩
      · refine Or.inr ⟨fun hnext => ?_, us, [closing], e, rfl, ?_, closing, [], rfl, hclosing, rfl, rfl⟩
        · -- no expression starts with `)`
          have hfirst := ((sequence_starts he).append [closing]).following next
          rw [hnext] at hfirst
          cases hfirst
        · rw [following_cons, hclosing]
          exact he

theorem listRest_recognizes (p : Position) : Recognizes eof n (listRest inner p) (ListRest p) := by
  have hitems := itemsUntil_recognizes heof .closeBracket .closeAfterItems hi (fun _ _ _ => sequence_starts) rfl
    fun es front _ => .pure (Expr.list p es) front
  refine hitems.congr fun ts next e => ⟨?_, ?_⟩
  · rintro ⟨us, closing, _, es, rfl, hes, hclosing, rfl, rfl⟩
    exact ⟨us, closing, es, rfl, hes, hclosing, rfl⟩
  · rintro ⟨us, closing, es, rfl, hes, hclosing, rfl⟩
    exact ⟨us, closing, [], es, rfl, hes, hclosing, rfl, rfl⟩

omit heof hi in
theorem declaration_iff_atom {ts : List Token} {next : Lexeme} {e : Expr}
    (hword : startsDeclaration (following ts next) = true) :
    Derives .declaration ts next e ↔ Derives .atom ts next e := by
  refine ⟨.declared, fun h => ?_⟩
  cases h with
  | declared h => exact h
  | branch hl | number hl | string hl | boolean hl | ref hl | nil hl | group hl | list hl =>
    rw [following_cons, hl] at hword
    cases hword

theorem atom_recognizes : Recognizes eof (n + 1) (atom inner) (Derives .atom) := by
  intro front hfront
  have hpeek : atom inner (stream eof front) = _ := peek_bind eof _ front
  cases front with
  | nil =>
    simp only [List.headD_nil, heof] at hpeek
    exact .refused .expression hpeek (fun _ _ _ => atom_starts) rfl
  | cons t front =>
    have hfront' : front.length < n := by simpa using hfront
    -- the lexeme that chooses what the parser does chooses what the grammar asks for after the first token
    have htoken : ∀ {y : Parser Expr} {P : Phrase Expr}, RecognizesAt eof y P front →
        atom inner (stream eof (t :: front)) = y (stream eof front) →
        (∀ us next e, AtomRest t us next e ↔ P us next e) →
        RecognizesAt eof (atom inner) (Derives .atom) (t :: front) := by
      intro y P hy hxy hP
      refine hy.token hxy (fun us next e => atom_iff.trans (hP us next e)) fun e h => ?_
      obtain ⟨_, _, ⟨⟩, -⟩ := atom_starts h
    have hdeclared : startsDeclaration t.lexeme = true →
        atom inner (stream eof (t :: front)) = (remaining >>= declaration inner) (stream eof (t :: front)) →
        RecognizesAt eof (atom inner) (Derives .atom) (t :: front) := by
      intro hword hxy
      have hdecl := (declaration_recognizes heof hi _ hfront).of_eq hxy
      refine hdecl.congr fun used rest e hsplit => declaration_iff_atom ?_
      rw [← following_append, ← hsplit]
      exact hword
    have hrefused : startsAtom t.lexeme = false →
        atom inner (stream eof (t :: front)) = unexpected .expression (stream eof (t :: front)) →
        RecognizesAt eof (atom inner) (Derives .atom) (t :: front) :=
      fun hl hxy => .refused .expression hxy (fun _ _ _ => atom_starts) hl
    unfold AtomRest at htoken
    cases hl : t.lexeme with
    | number x | string x | boolean x | name x =>
      simp only [List.headD_cons, hl] at hpeek htoken
      exact htoken (.pure _ front) hpeek fun _ _ _ => Iff.rfl
    | keyword word =>
      cases word with
      | letWord | fnWord =>
        simp only [List.headD_cons, hl] at hpeek hdeclared
        exact hdeclared rfl hpeek
      | ifWord =>
        simp only [List.headD_cons, hl] at hpeek htoken
        exact htoken (branchRest_recognizes heof hi t.position front hfront') hpeek fun _ _ _ => Iff.rfl
      | _ =>
        simp only [List.headD_cons, hl] at hpeek hrefused
        exact hrefused rfl hpeek
    | symbol s =>
      cases s with
      | openParen =>
        simp only [List.headD_cons, hl] at hpeek htoken
        exact htoken (parenRest_recognizes heof hi t.position front hfront') hpeek fun _ _ _ => Iff.rfl
      | openBracket =>
        simp only [List.headD_cons, hl] at hpeek htoken
        exact htoken (listRest_recognizes heof hi t.position front hfront') hpeek fun _ _ _ => Iff.rfl
      | _ =>
        simp only [List.headD_cons, hl] at hpeek hrefused
        exact hrefused rfl hpeek
    | endOfInput =>
      simp only [List.headD_cons, hl] at hpeek hrefused
      exact hrefused rfl hpeek

/-! ## Expressions -/

theorem application_recognizes : Recognizes eof (n + 1) (application inner) (Derives .application) := by
  refine ((atom_recognizes heof hi).bind (calls_recognize heof hi)).congr fun ts next e => ⟨?_, ?_⟩
  · rintro ⟨us, vs, callee, rfl, hatom, hcalls⟩
    exact .application hatom hcalls
  · intro h
    cases h with
    | application hatom hcalls => exact ⟨_, _, _, rfl, hatom, hcalls⟩

theorem operand_recognizes : Recognizes eof (n + 1) (operand inner) (Derives .unary) :=
  unary_recognizes heof (assignment_recognizes heof hi (application_recognizes heof hi))

theorem expression_recognizes : Recognizes eof (n + 1) (expression inner) (Derives .sequence) := by
  have hpipe := climb_recognizes heof (operand_recognizes heof hi)
  exact (hpipe.bind (sequenceTail_recognizes heof hpipe)).congr fun _ _ _ => sequence_iff.symm

omit hi

theorem sequence_recognizes (depth : Nat) : Recognizes eof depth (sequence depth) (Derives .sequence) := by
  induction depth with
  | zero => exact .zero
  | succ depth ih => exact expression_recognizes heof ih

/-! ## Programs -/

/-- `end*`. -/
def Ends : Phrase Unit := fun ts next _ => (∀ t ∈ ts, t.lexeme = .keyword .endWord) ∧ next ≠ .keyword .endWord

omit heof in
theorem ends_iff {ts : List Token} {next : Lexeme} {u : Unit} :
    Ends ts next u ↔ Phrase.optional Ends (.keyword .endWord) () ts next u := by
  constructor
  · rintro ⟨hends, hnext⟩
    cases ts with
    | nil => exact Or.inr ⟨hnext, rfl, rfl⟩
    | cons t ts =>
      rw [List.forall_mem_cons] at hends
      exact Or.inl ⟨t, ts, rfl, hends.1, hends.2, hnext⟩
  · rintro (⟨t, ts, rfl, ht, hends, hnext⟩ | ⟨hnext, rfl, -⟩)
    · exact ⟨List.forall_mem_cons.mpr ⟨ht, hends⟩, hnext⟩
    · exact ⟨nofun, hnext⟩

theorem strayEnds_recognize {n : Nat} : Recognizes eof n (remaining >>= strayEnds) Ends := by
  refine .loop ?_ fun rounds k _ hends => ?_
  · exact (Recognizes.noRounds (.keyword .endWord) nofun Ends ()).congr fun _ _ _ => ends_iff.symm
  · exact (hends.optional heof (.keyword .endWord) nofun ()).congr fun _ _ _ => ends_iff.symm

theorem program_recognizes (depth : Nat) :
    Recognizes eof depth (program depth) fun ts next e => Program ts e ∧ next = .endOfInput := by
  have hdone := fun e : Expr => Recognizes.seen heof (n := depth) .endOfInput (fun front _ => .pure e front)
    fun front _ => .never .nothing front
  have hprogram := (sequence_recognizes heof depth).bind fun e => (strayEnds_recognize heof).bind fun _ => hdone e
  refine hprogram.congr fun ts next e => ⟨?_, ?_⟩
  · rintro ⟨us, _, e, rfl, he, ends, _, _, rfl, ⟨hends, -⟩, ⟨hnext, rfl, rfl⟩ | ⟨-, hnever⟩⟩
    · obtain rfl : next = .endOfInput := hnext
      rw [List.append_nil] at he ⊢
      exact ⟨⟨us, ends, rfl, hends, he⟩, rfl⟩
    · exact hnever.elim
  · rintro ⟨⟨us, ends, rfl, hends, he⟩, rfl⟩
    exact ⟨us, ends, e, rfl, he, ends, [], (), (List.append_nil ends).symm, ⟨hends, nofun⟩, Or.inl ⟨rfl, rfl, rfl⟩⟩

omit heof in
/-- Tokens have one tree at most. -/
theorem program_unique {ts : List Token} {e f : Expr} (he : Program ts e) (hf : Program ts f) : e = f := by
  have heof : (Token.mk .endOfInput 0 {}).lexeme = .endOfInput := rfl
  have hprogram := program_recognizes heof (ts.length + 1) ts (Nat.lt_succ_self _)
  have hread := hprogram.complete ts [] e (List.append_nil ts).symm ⟨he, rfl⟩
  rw [hprogram.complete ts [] f (List.append_nil ts).symm ⟨hf, rfl⟩] at hread
  cases hread
  rfl

end Parser

open Curried.Parser Curried.Grammar

theorem Tokens.eq_stream {ts : Tokens} {eof : Token} (h : ts.ending = .ok eof) : ts = stream eof ts.front := by
  obtain ⟨front, ending, size, hsize⟩ := ts
  cases h
  cases hsize
  rfl

/-- A text whose tokens are no program is refused with an error of grammar. -/
theorem parse_cases {source : String} {eof : Token} (h : (Tokens.scan source).ending = .ok eof) :
    (∃ t, parse source = .ok t ∧ Program (Tokens.scan source).front t) ∨
      ∃ e, parse source = .error (.grammar e) ∧ ¬ ∃ t, Program (Tokens.scan source).front t := by
  have hscan := Tokens.eq_stream h
  generalize hfront : (Tokens.scan source).front = front at hscan ⊢
  have hparse : parse source = (program (front.length + 1) (stream eof front)).map (·.1) := by
    rw [parse, hscan]
    rfl
  have hprogram := program_recognizes (Tokens.scan_ending h) (front.length + 1) front (Nat.lt_succ_self _)
  cases hr : program (front.length + 1) (stream eof front) with
  | error failure =>
    obtain ⟨e, rfl⟩ := hprogram.refuses failure hr
    refine Or.inr ⟨e, by rw [hparse, hr]; rfl, ?_⟩
    rintro ⟨t, ht⟩
    cases hr.symm.trans (hprogram.complete front [] t (List.append_nil front).symm ⟨ht, rfl⟩)
  | ok r =>
    obtain ⟨used, rest, hsplit, -, ht, hend⟩ := hprogram.sound r.1 r.2 hr
    refine Or.inl ⟨r.1, by rw [hparse, hr]; rfl, ?_⟩
    -- nothing is left: before the end no token is the end of input
    cases rest with
    | nil => rwa [hsplit, List.append_nil]
    | cons t rest =>
      have hmem : t ∈ (Tokens.scan source).front := by simp [hfront, hsplit]
      exact absurd hend (Tokens.scan_front source t hmem)

/-- The parser accepts exactly the grammar, refuses all else with an error of grammar, and no tokens have two trees. -/
theorem parse_iff_program {source : String} {eof : Token} (h : (Tokens.scan source).ending = .ok eof) :
    (∀ t, parse source = .ok t ↔ Program (Tokens.scan source).front t) ∧
    ((∃ e, parse source = .error (.grammar e)) ↔ ¬ ∃ t, Program (Tokens.scan source).front t) ∧
    ∀ ts t t', Program ts t → Program ts t' → t = t' := by
  refine ⟨fun t => ?_, ?_, fun ts t t' => program_unique⟩
  · rcases parse_cases h with ⟨t', hparse, ht'⟩ | ⟨e, hparse, hnone⟩
    · rw [hparse]
      constructor
      · rintro ⟨⟩
        exact ht'
      · intro ht
        rw [program_unique ht ht']
    · rw [hparse]
      exact ⟨nofun, fun ht => absurd ⟨t, ht⟩ hnone⟩
  · rcases parse_cases h with ⟨t', hparse, ht'⟩ | ⟨e, hparse, hnone⟩
    · refine ⟨?_, fun hnone => absurd ⟨t', ht'⟩ hnone⟩
      rintro ⟨e, herror⟩
      cases hparse.symm.trans herror
    · exact ⟨fun _ => hnone, fun _ => ⟨e, hparse⟩⟩

/-- The `and` belongs to the inner function. -/
theorem parse_iff_program_chained :
    (Tokens.scan "fn::fn::x and fn::y").ending = .ok ⟨.endOfInput, 19, ⟨1, 20⟩⟩ ∧
    ∀ t, Program (Tokens.scan "fn::fn::x and fn::y").front t ↔
      t = .function ⟨1, 1⟩ none [] (.function ⟨1, 5⟩ none [] (.ref ⟨1, 9⟩ "x")
        (some (.function ⟨1, 15⟩ none [] (.ref ⟨1, 19⟩ "y") none))) none := by
  have hends : (Tokens.scan "fn::fn::x and fn::y").ending = .ok ⟨.endOfInput, 19, ⟨1, 20⟩⟩ := rfl
  have hparse : parse "fn::fn::x and fn::y" = .ok (.function ⟨1, 1⟩ none [] (.function ⟨1, 5⟩ none [] (.ref ⟨1, 9⟩ "x")
      (some (.function ⟨1, 15⟩ none [] (.ref ⟨1, 19⟩ "y") none))) none) := rfl
  refine ⟨hends, fun t => ?_⟩
  rw [← (parse_iff_program hends).1 t, hparse, Except.ok.injEq, eq_comm]

end Curried
