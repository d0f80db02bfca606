/-
  Curried.Proofs.Mentions — the parser neither loses, invents nor reorders anything.

  A program is its literals, names and operators; brackets, commas, `::` and keywords only say how these belong together.
  `Expr.mentions` lists them as they come in an expression, from left to right, with the positions that the expression
  keeps of them. By induction on the grammar, what a phrase mentions is what its tree mentions, one by one
  (`Grammar.derives_mentioned`); so the tree of a program mentions what its text does (`parse_mentions`).
-/

import Curried.Proofs.Grammar.Accepted
import Mathlib.Data.List.Forall2

namespace Curried

inductive Mention where
  | number (value : Float)
  | string (text : String)
  | boolean (value : Bool)
  | name (text : String)
  | operator (symbol : String)
  deriving DecidableEq

/-- The other symbols are brackets, commas and `::`. -/
def Symbol.isOperator : Symbol → Bool
  | .openParen | .closeParen | .openBracket | .closeBracket | .doubleColon | .comma => false
  | _ => true

def Lexeme.mention? : Lexeme → Option Mention
  | .number x => some (.number x)
  | .string s => some (.string s)
  | .boolean b => some (.boolean b)
  | .name n => some (.name n)
  | .symbol s => if s.isOperator then some (.operator s.text) else none
  | .keyword _ | .endOfInput => none

namespace Expr

mutual

/-- What an expression mentions, from left to right. Literals, references and operators keep where they stand; the
semicolon of a sequence and the names of declarations and parameters do not. -/
def mentions : Expr → List (Mention × Option Position)
  | .number p x => [(.number x, some p)]
  | .string p s => [(.string s, some p)]
  | .boolean p b => [(.boolean b, some p)]
  | .nil _ => []
  | .ref p n => [(.name n, some p)]
  | .list _ items => mentionsAll items
  | .binary p op left right => left.mentions ++ (.operator op.symbol, some p) :: right.mentions
  | .unary p op operand => (.operator op.symbol, some p) :: operand.mentions
  | .call _ callee args => callee.mentions ++ mentionsAll args
  | .assign _ target value next => target.mentions ++ (value.mentions ++ next.mentions)
  | .sequence _ first second => first.mentions ++ (.operator ";", none) :: second.mentions
  | .branch _ test yes no => test.mentions ++ (yes.mentions ++ no.mentions)
  | .binding _ name value body next => (.name name, none) :: (value.mentions ++ (body.mentions ++ mentionsNext next))
  | .function _ name params body next =>
    (name.toList ++ params).map (fun n => (.name n, none)) ++ (body.mentions ++ mentionsNext next)
  | .strange .. => []

def mentionsAll : List Expr → List (Mention × Option Position)
  | [] => []
  | e :: es => e.mentions ++ mentionsAll es

def mentionsNext : Option Expr → List (Mention × Option Position)
  | none => []
  | some e => e.mentions

end

theorem mentions_getD (o : Option Expr) (p : Position) : (o.getD (.nil p)).mentions = mentionsNext o := by
  cases o with
  | none => rw [Option.getD_none, mentions, mentionsNext]
  | some e => rw [Option.getD_some, mentionsNext]

end Expr

namespace Grammar

/-- Tokens mention the same things in the same order, and each stands where it is said to stand. -/
def Mentioned (ms : List (Mention × Option Position)) (ts : List Token) : Prop :=
  List.Forall₂ (fun m t => t.lexeme.mention? = some m.1 ∧ ∀ p ∈ m.2, p = t.position) ms
    (ts.filter fun t => t.lexeme.mention?.isSome)

namespace Mentioned

variable {ms ns : List (Mention × Option Position)} {ts us : List Token} {t : Token} {l : Lexeme}

theorem nil : Mentioned [] [] := List.Forall₂.nil

theorem append (h : Mentioned ms ts) (h' : Mentioned ns us) : Mentioned (ms ++ ns) (ts ++ us) := by
  rw [Mentioned, List.filter_append]
  exact List.rel_append h h'

theorem skip (ht : t.lexeme = l) (hl : l.mention? = none) (h : Mentioned ms ts) : Mentioned ms (t :: ts) := by
  rw [Mentioned, List.filter_cons_of_neg (by rw [ht, hl]; nofun)]
  exact h

theorem take {m : Mention} {o : Option Position} (ht : t.lexeme.mention? = some m) (ho : ∀ p ∈ o, p = t.position)
    (h : Mentioned ms ts) : Mentioned ((m, o) :: ms) (t :: ts) := by
  rw [Mentioned, List.filter_cons_of_pos (by rw [ht]; rfl)]
  exact .cons ⟨ht, ho⟩ h

/-- A token that is kept with its position. -/
theorem here {m : Mention} (ht : t.lexeme.mention? = some m) (h : Mentioned ms ts) :
    Mentioned ((m, some t.position) :: ms) (t :: ts) :=
  h.take ht fun _ hp => (Option.some.inj hp).symm

theorem single {m : Mention} (ht : t.lexeme = l) (hl : l.mention? = some m) : Mentioned [(m, some t.position)] [t] :=
  nil.here (ht ▸ hl)

theorem name {n : String} (ht : t.lexeme = .name n) (h : Mentioned ms ts) :
    Mentioned ((.name n, none) :: ms) (t :: ts) :=
  h.take (by rw [ht]; rfl) nofun

theorem skipAll (h : ∀ t ∈ ts, t.lexeme.mention? = none) : Mentioned [] ts := by
  rw [Mentioned, List.filter_eq_nil_iff.mpr fun t ht => by rw [h t ht]; nofun]
  exact .nil

theorem mentions_eq (h : Mentioned ms ts) : ms.map Prod.fst = ts.filterMap (·.lexeme.mention?) := by
  induction ts generalizing ms with
  | nil =>
    cases h
    rfl
  | cons t ts ih =>
    cases ht : t.lexeme.mention? with
    | none =>
      rw [Mentioned, List.filter_cons_of_neg (by rw [ht]; nofun)] at h
      simp only [List.filterMap_cons, ht]
      exact ih h
    | some m =>
      rw [Mentioned, List.filter_cons_of_pos (by rw [ht]; rfl)] at h
      obtain ⟨n, ns, hm, hrest, rfl⟩ := List.forall₂_cons_right_iff.mp h
      simp only [List.filterMap_cons, ht, List.map_cons, ih hrest]
      exact congrArg (· :: _) (Option.some.inj (hm.1.symm.trans ht))

theorem positions (h : Mentioned ms ts) :
    List.Forall₂ (fun m t => ∀ p ∈ m.2, p = t.position) ms (ts.filter fun t => t.lexeme.mention?.isSome) :=
  List.Forall₂.imp (fun _ _ hm => hm.2) h

/-- What stands in brackets. -/
theorem enclosed {closing : Token} {l' : Lexeme} (ht : t.lexeme = l) (hl : l.mention? = none)
    (ht' : closing.lexeme = l') (hl' : l'.mention? = none) (h : Mentioned ms ts) :
    Mentioned ms (t :: (ts ++ [closing])) := by
  have hclosed := h.append (nil.skip ht' hl')
  rw [List.append_nil] at hclosed
  exact hclosed.skip ht hl

end Mentioned

theorem mention_of_operator {tier : Tier} {l : Lexeme} {op : BinaryOp} (h : tier.operator? l = some op) :
    l.mention? = some (.operator op.symbol) := by
  cases l with
  | symbol s => cases tier <;> cases s <;> cases h <;> rfl
  | _ => cases tier <;> cases h

theorem mention_of_unaryOperator {l : Lexeme} {op : UnaryOp} (h : unaryOperator? l = some op) :
    l.mention? = some (.operator op.symbol) := by
  cases l with
  | symbol s => cases s <;> cases h <;> rfl
  | _ => cases h

/-! ## Names -/

theorem optionalName_mentioned {ts : List Token} {name : Option String} (h : OptionalName ts name) :
    Mentioned (name.toList.map fun n => (.name n, none)) ts := by
  cases h with
  | none => exact .nil
  | some ht => exact Mentioned.nil.name ht

theorem names_mentioned {ts : List Token} {next : Lexeme} {names : List String} (h : Items Name ts next names) :
    Mentioned (names.map fun n => (.name n, none)) ts := by
  induction h with
  | one hname _ =>
    cases hname with
    | name ht => exact Mentioned.nil.name ht
  | more hname hcomma _ ih =>
    cases hname with
    | name ht => exact (ih.skip hcomma rfl).name ht

theorem parameters_mentioned {ts : List Token} {params : List String} (h : Parameters ts params) :
    Mentioned (params.map fun n => (.name n, none)) ts := by
  cases h with
  | none => exact .nil
  | @some _ _ ts _ hopen hlisted hclose =>
    have hnames : Mentioned (params.map fun n => (.name n, none)) ts := by
      cases hlisted with
      | none => exact .nil
      | some hitems => exact names_mentioned hitems
    exact hnames.enclosed hopen rfl hclose rfl

theorem optionalEnd_mentioned {ts : List Token} {next : Lexeme} (h : OptionalEnd ts next) : Mentioned [] ts := by
  cases h with
  | none _ => exact .nil
  | some ht => exact Mentioned.nil.skip ht rfl

/-! ## Expressions -/

mutual

theorem derives_mentioned {n : Nonterminal} {ts : List Token} {next : Lexeme} {e : Expr} :
    Derives n ts next e → Mentioned e.mentions ts
  | .single h _ => derives_mentioned h
  | .sequence h hsemicolon h' =>
    (derives_mentioned h).append ((derives_mentioned h').take (by rw [hsemicolon]; rfl) nofun)
  | .left _ h hoperations => operations_mentioned hoperations (derives_mentioned h)
  | .operand _ h _ => derives_mentioned h
  | .right _ h hop h' => (derives_mentioned h).append ((derives_mentioned h').here (mention_of_operator hop))
  | .unary hop h => (derives_mentioned h).here (mention_of_unaryOperator hop)
  | .unsigned h => derives_mentioned h
  | .target h _ => derives_mentioned h
  | .assign htarget hcolons hvalue hin hnext =>
    (derives_mentioned htarget).append
      (((derives_mentioned hvalue).append ((derives_mentioned hnext).skip hin rfl)).skip hcolons rfl)
  | .application h hcalls => calls_mentioned hcalls (derives_mentioned h)
  | .declared h => derives_mentioned h
  | .branch hif htest hthen hyes helse hno =>
    ((derives_mentioned htest).append
      (((derives_mentioned hyes).append ((derives_mentioned hno).skip helse rfl)).skip hthen rfl)).skip hif rfl
  | .number ht => .single ht rfl
  | .string ht => .single ht rfl
  | .boolean ht => .single ht rfl
  | .ref ht => .single ht rfl
  | .nil hopen hclose => (Mentioned.nil.skip hclose rfl).skip hopen rfl
  | .group hopen h hclose => (derives_mentioned h).enclosed hopen rfl hclose rfl
  | .list hopen .none hclose => Mentioned.nil.enclosed hopen rfl hclose rfl
  | .list hopen (.some h) hclose => (items_mentioned h).enclosed hopen rfl hclose rfl
  | .binding hlet hname hcolons hvalue hbody hchained => by
    have hrest := (continued_mentioned hbody).append (continued_mentioned hchained)
    rw [Expr.mentions, Expr.mentions_getD]
    exact ((((derives_mentioned hvalue).append hrest).skip hcolons rfl).name hname).skip hlet rfl
  | .function hfn hname hparams hcolons hbody hchained hend => by
    have hrest := (continued_mentioned hchained).append (optionalEnd_mentioned hend)
    rw [List.append_nil] at hrest
    rw [Expr.mentions, List.map_append, List.append_assoc]
    refine Mentioned.skip hfn rfl ((optionalName_mentioned hname).append ((parameters_mentioned hparams).append ?_))
    exact ((derives_mentioned hbody).append hrest).skip hcolons rfl

theorem operations_mentioned {tier : Tier} {ts us : List Token} {next : Lexeme} {e f : Expr} :
    Operations tier e us next f → Mentioned e.mentions ts → Mentioned f.mentions (ts ++ us)
  | .none _, he => by rwa [List.append_nil]
  | .more hop h hoperations, he => by
    have hmore := operations_mentioned hoperations (he.append ((derives_mentioned h).here (mention_of_operator hop)))
    rwa [List.append_assoc] at hmore

theorem calls_mentioned {ts us : List Token} {next : Lexeme} {e f : Expr} :
    Calls e us next f → Mentioned e.mentions ts → Mentioned f.mentions (ts ++ us)
  | .none _, he => by rwa [List.append_nil]
  | .more hopen .none hclose hcalls, he => by
    simpa using calls_mentioned hcalls (he.append (Mentioned.nil.enclosed hopen rfl hclose rfl))
  | .more hopen (.some h) hclose hcalls, he => by
    simpa using calls_mentioned hcalls (he.append ((items_mentioned h).enclosed hopen rfl hclose rfl))

theorem continued_mentioned {word : Keyword} {n : Nonterminal} {ts : List Token} {next : Lexeme} {o : Option Expr} :
    Continued word n ts next o → Mentioned (Expr.mentionsNext o) ts
  | .none _ => .nil
  | .some ht h => (derives_mentioned h).skip ht rfl

theorem items_mentioned {ts : List Token} {next : Lexeme} {es : List Expr} :
    Items (Derives .sequence) ts next es → Mentioned (Expr.mentionsAll es) ts
  | .one h _ => by
    rw [Expr.mentionsAll, Expr.mentionsAll, List.append_nil]
    exact derives_mentioned h
  | .more h hcomma hitems => (derives_mentioned h).append ((items_mentioned hitems).skip hcomma rfl)

end

end Grammar

open Grammar

/-- The tree of a program mentions what its text does: the same things in the same order, and those whose position it
keeps at their own positions. -/
theorem parse_mentions {source : String} {e : Expr} (h : parse source = .ok e) :
    e.mentions.map Prod.fst = (Tokens.scan source).front.filterMap (·.lexeme.mention?) ∧
      List.Forall₂ (fun m t => ∀ p ∈ m.2, p = t.position) e.mentions
        ((Tokens.scan source).front.filter fun t => t.lexeme.mention?.isSome) := by
  obtain ⟨-, us, ends, hfront, hends, hderives⟩ := parse_eq_ok_iff.mp h
  have hmentioned : Mentioned (e.mentions ++ []) (us ++ ends) :=
    (derives_mentioned hderives).append (.skipAll fun t ht => by rw [hends t ht]; rfl)
  rw [List.append_nil, ← hfront] at hmentioned
  exact ⟨hmentioned.mentions_eq, hmentioned.positions⟩

/-- A chained declaration without a body, parentheses that leave no trace, and an `end` that closes nothing. -/
theorem parse_mentions_dropped :
    ∃ e, parse "fn f(a) :: (a - -1); b and let c :: d end end" = .ok e ∧
      e.mentions.map Prod.fst = [.name "f", .name "a", .name "a", .operator "-", .operator "-",
        .number (Decimal.ofNumeral ['1'] [] 0), .operator ";", .name "b", .name "c", .name "d"] ∧
      List.Forall₂ (fun m t => ∀ p ∈ m.2, p = t.position) e.mentions
        ((Tokens.scan "fn f(a) :: (a - -1); b and let c :: d end end").front.filter
          fun t => t.lexeme.mention?.isSome) := by
  have hparse : ∃ e, parse "fn f(a) :: (a - -1); b and let c :: d end end" = .ok e := ⟨_, rfl⟩
  obtain ⟨e, he⟩ := hparse
  obtain ⟨hmentions, hpositions⟩ := parse_mentions he
  exact ⟨e, he, hmentions, hpositions⟩

end Curried
