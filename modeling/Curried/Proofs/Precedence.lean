/-
  Curried.Proofs.Precedence — how operands with operators between them group.

  The levels are `;` < `. ..` < `||` < `&&` < `= !=` < `< > <= >=` < `+ -` < `* /`. In a tree that respects them
  (`Tree.Respects`) no operator stands below one of a higher level, and those of one level stand below each other on one
  side only. There is exactly one such tree with given operands and operators in order: one is built from the right
  (`Tree.attach`), and the operators on either side of a root determine it (`Tree.eq_of_inOrder`). The grammar derives
  the tokens as this tree (`Tree.Spans.reads`), so it is what they are parsed as (`parse_operators`).
-/

import Curried.Proofs.Grammar.Accepted
import Curried.Proofs.Grammar.Phrases
import Curried.Proofs.Printing

namespace Curried

namespace Grammar

/-! ## Operands -/

def word? (t : Token) : Option Expr :=
  match t.lexeme with
  | .number x => some (.number t.position x)
  | .string s => some (.string t.position s)
  | .boolean b => some (.boolean t.position b)
  | .name n => some (.ref t.position n)
  | _ => none

/-- A literal, a name, a list or an expression in parentheses, and any number of calls of it. -/
inductive Applied : List Token → Expr → Prop
  | word {t : Token} {e : Expr} : word? t = some e → Applied [t] e
  | nil {opening closing : Token} :
      opening.lexeme = .symbol .openParen → closing.lexeme = .symbol .closeParen →
      Applied [opening, closing] (.nil opening.position)
  | group {ts : List Token} {opening closing : Token} {e : Expr} :
      opening.lexeme = .symbol .openParen → Derives .sequence ts (.symbol .closeParen) e →
      closing.lexeme = .symbol .closeParen → Applied (opening :: (ts ++ [closing])) e
  | list {ts : List Token} {opening closing : Token} {es : List Expr} :
      opening.lexeme = .symbol .openBracket → Listed (Derives .sequence) .closeBracket ts es →
      closing.lexeme = .symbol .closeBracket → Applied (opening :: (ts ++ [closing])) (.list opening.position es)
  | call {ts us : List Token} {opening closing : Token} {e : Expr} {args : List Expr} :
      Applied ts e → opening.lexeme = .symbol .openParen → Listed (Derives .sequence) .closeParen us args →
      closing.lexeme = .symbol .closeParen → Applied (ts ++ opening :: (us ++ [closing])) (.call e.position e args)

/-- What stands between operators: `(! | -)*` before something applied. -/
inductive Operand : List Token → Expr → Prop
  | applied {ts : List Token} {e : Expr} : Applied ts e → Operand ts e
  | unary {ts : List Token} {t : Token} {op : UnaryOp} {e : Expr} :
      unaryOperator? t.lexeme = some op → Operand ts e → Operand (t :: ts) (.unary t.position op e)

theorem atom_of_word {t : Token} {e : Expr} (h : word? t = some e) (next : Lexeme) : Derives .atom [t] next e := by
  unfold word? at h
  split at h
  · rename_i ht; cases h; exact .number ht
  · rename_i ht; cases h; exact .string ht
  · rename_i ht; cases h; exact .boolean ht
  · rename_i ht; cases h; exact .ref ht
  · cases h

/-- Calls after something applied are more calls of it. -/
theorem Applied.application {ts us : List Token} {next : Lexeme} {e f : Expr} (h : Applied ts e)
    (hcalls : Calls e us next f) : Derives .application (ts ++ us) next f := by
  induction h generalizing us with
  | word ht => exact .application (atom_of_word ht _) hcalls
  | nil hopen hclose => exact .application (.nil hopen hclose) hcalls
  | group hopen h hclose => exact .application (.group hopen h hclose) hcalls
  | list hopen h hclose => exact .application (.list hopen h hclose) hcalls
  | call _ hopen hargs hclose ih =>
    have happlied := ih (.more hopen hargs hclose hcalls)
    rw [List.append_assoc, List.cons_append, List.append_assoc]
    exact happlied

theorem Operand.unary_phrase {ts : List Token} {next : Lexeme} {e : Expr} (h : Operand ts e)
    (harguments : next ≠ .symbol .openParen) (hcolons : next ≠ .symbol .doubleColon) : Derives .unary ts next e := by
  induction h with
  | applied h =>
    have happlied := h.application (.none harguments)
    rw [List.append_nil] at happlied
    exact .unsigned (.target happlied hcolons)
  | unary hop _ ih => exact .unary hop ih

/-! ## Operators -/

/-- Levels from loosest to tightest; below them all is that of `;`. -/
def Tier.level : Tier → Nat
  | pipe => 1
  | disjunction => 2
  | conjunction => 3
  | equality => 4
  | comparison => 5
  | sum => 6
  | product => 7

theorem Tier.level_pos (tier : Tier) : 0 < tier.level := by cases tier <;> exact Nat.succ_pos _

theorem Tier.level_inj {a b : Tier} (h : a.level = b.level) : a = b := by
  cases a <;> cases b <;> first | rfl | cases h

inductive Operator where
  | semicolon
  | binary (p : Position) (op : BinaryOp)

namespace Operator

def level : Operator → Nat
  | semicolon => 0
  | binary _ op => op.tier.level

def groupsLeft : Operator → Bool
  | semicolon => false
  | binary _ op => op.tier.groupsLeft

/-- Whether what is on this level may stand on this side of an operator. -/
def Admits (o : Operator) (onLeft : Bool) (level : Nat) : Prop :=
  o.level < level ∨ o.level = level ∧ o.groupsLeft = onLeft

instance (o : Operator) (onLeft : Bool) (level : Nat) : Decidable (o.Admits onLeft level) :=
  inferInstanceAs (Decidable (_ ∨ _))

inductive Marks : Token → Operator → Prop
  | semicolon {t : Token} : t.lexeme = .symbol .semicolon → Marks t semicolon
  | binary {t : Token} {op : BinaryOp} :
      op ∈ BinaryOp.all → t.lexeme = .symbol op.mark → Marks t (binary t.position op)

variable {o o' : Operator} {onLeft : Bool} {m n : Nat}

theorem groupsLeft_eq (h : o.level = o'.level) : o.groupsLeft = o'.groupsLeft := by
  cases o with
  | semicolon =>
    cases o' with
    | semicolon => rfl
    | binary _ op => exact absurd h.symm (Nat.ne_of_gt op.tier.level_pos)
  | binary _ op =>
    cases o' with
    | semicolon => exact absurd h (Nat.ne_of_gt op.tier.level_pos)
    | binary _ op' => exact congrArg Tier.groupsLeft (Tier.level_inj h)

theorem level_lt (o : Operator) : o.level < 8 := by
  cases o with
  | semicolon => exact Nat.succ_pos 7
  | binary _ op =>
    show op.tier.level < 8
    cases op.tier <;> decide

namespace Admits

theorem le (h : o.Admits onLeft n) : o.level ≤ n := by
  rcases h with hlt | ⟨heq, -⟩
  · exact Nat.le_of_lt hlt
  · exact Nat.le_of_eq heq

theorem mono (h : o.Admits onLeft m) (hmn : m ≤ n) : o.Admits onLeft n := by
  rcases h with hlt | ⟨rfl, hgroup⟩
  · exact .inl (Nat.lt_of_lt_of_le hlt hmn)
  · rcases Nat.lt_or_eq_of_le hmn with hlt | heq
    · exact .inl hlt
    · exact .inr ⟨heq, hgroup⟩

/-- On the side that an operator does not group to there is only what is on a higher level. -/
theorem lt (h : o.Admits onLeft n) (hgroup : o.groupsLeft ≠ onLeft) : o.level < n := h.resolve_right fun h => hgroup h.2

theorem of_not (h : ¬o'.Admits true o.level) : o.Admits false o'.level := by
  rcases Nat.lt_trichotomy o.level o'.level with hlt | heq | hgt
  · exact .inl hlt
  · refine .inr ⟨heq, ?_⟩
    rw [groupsLeft_eq heq]
    exact Bool.eq_false_iff.mpr fun hleft => h (.inr ⟨heq.symm, hleft⟩)
  · exact absurd (.inl hgt) h

/-- Of two operators only one may stand below the other where they are. -/
theorem asymm (h : o'.Admits true o.level) : ¬o.Admits false o'.level := by
  intro h'
  have hlevel : o.level = o'.level := Nat.le_antisymm h'.le h.le
  rcases h with hlt | ⟨-, hleft⟩
  · exact Nat.ne_of_gt hlt hlevel
  · rcases h' with hlt | ⟨-, hright⟩
    · exact Nat.ne_of_lt hlt hlevel
    · rw [groupsLeft_eq hlevel, hleft] at hright
      cases hright

end Admits

end Operator

inductive Alternates : List Token → List (Expr ⊕ Operator) → Prop
  | operand {ts : List Token} {e : Expr} : Operand ts e → Alternates ts [.inl e]
  | more {ts us : List Token} {t : Token} {e : Expr} {o : Operator} {parts : List (Expr ⊕ Operator)} :
      Operand ts e → o.Marks t → Alternates us parts → Alternates (ts ++ t :: us) (.inl e :: .inr o :: parts)

/-! ## Trees -/

inductive Tree where
  | operand (e : Expr)
  | node (left : Tree) (o : Operator) (right : Tree)

namespace Tree

def level : Tree → Nat
  | operand _ => 8
  | node _ o _ => o.level

def inOrder : Tree → List (Expr ⊕ Operator)
  | operand e => [.inl e]
  | node left o right => left.inOrder ++ .inr o :: right.inOrder

/-- No operator stands below one of a higher level, and below one of its own level it stands on the side they group
to. -/
def Respects : Tree → Prop
  | operand _ => True
  | node left o right => o.Admits true left.level ∧ o.Admits false right.level ∧ left.Respects ∧ right.Respects

instance decidableRespects : (tree : Tree) → Decidable tree.Respects
  | operand _ => .isTrue trivial
  | node left o right =>
    have := decidableRespects left
    have := decidableRespects right
    inferInstanceAs (Decidable (o.Admits true left.level ∧ o.Admits false right.level ∧ left.Respects ∧ right.Respects))

def expr : Tree → Expr
  | operand e => e
  | node left .semicolon right => .sequence left.expr.position left.expr right.expr
  | node left (.binary p op) right => .binary p op left.expr right.expr

inductive Spans : Tree → List Token → Prop
  | operand {ts : List Token} {e : Expr} : Operand ts e → Spans (operand e) ts
  | node {left right : Tree} {ts us : List Token} {t : Token} {o : Operator} :
      Spans left ts → o.Marks t → Spans right us → Spans (node left o right) (ts ++ t :: us)

/-! ### There is one -/

/-- Puts an operand and an operator before those of a tree, as far down on the left as the operator may stand. -/
def attach (e : Expr) (o : Operator) : Tree → Tree
  | operand f => node (operand e) o (operand f)
  | node left o' right =>
    if o'.Admits true o.level then node (left.attach e o) o' right else node (operand e) o (node left o' right)

variable {e : Expr} {o : Operator}

theorem inOrder_attach (tree : Tree) : (tree.attach e o).inOrder = .inl e :: .inr o :: tree.inOrder := by
  induction tree with
  | operand f => rfl
  | node left o' right ih _ =>
    unfold attach
    split
    · rw [inOrder, ih]
      rfl
    · rfl

theorem admits_attach {tree : Tree} {o' : Operator} {onLeft : Bool} (ho : o'.Admits onLeft o.level)
    (h : o'.Admits onLeft tree.level) : o'.Admits onLeft (tree.attach e o).level := by
  cases tree with
  | operand f => exact ho
  | node left o'' right =>
    unfold attach
    split
    · exact h
    · exact ho

theorem respects_attach {tree : Tree} (h : tree.Respects) : (tree.attach e o).Respects := by
  induction tree with
  | operand f => exact ⟨.inl o.level_lt, .inl o.level_lt, trivial, trivial⟩
  | node left o' right ih _ =>
    obtain ⟨hleft, hright, hrespects, hrespects'⟩ := h
    unfold attach
    split
    · rename_i ho
      exact ⟨admits_attach ho hleft, hright, ih hrespects, hrespects'⟩
    · -- the operator binds less than the root, which becomes its right operand
      rename_i ho
      exact ⟨.inl o.level_lt, .of_not ho, trivial, hleft, hright, hrespects, hrespects'⟩

theorem spans_attach {tree : Tree} {ts us : List Token} {t : Token} (he : Operand ts e) (ho : o.Marks t)
    (h : tree.Spans us) : (tree.attach e o).Spans (ts ++ t :: us) := by
  induction h with
  | operand hf => exact .node (.operand he) ho (.operand hf)
  | node hleft ho' hright ih _ =>
    unfold attach
    split
    · have hspans := ih.node ho' hright
      rwa [List.append_assoc] at hspans
    · exact .node (.operand he) ho (.node hleft ho' hright)

/-! ### There is no other -/

/-- What may stand above a tree may stand above each of its operators. -/
theorem admits_of_mem {tree : Tree} (h : tree.Respects) {o x : Operator} {onLeft : Bool}
    (ho : o.Admits onLeft tree.level) (hx : .inr x ∈ tree.inOrder) : o.Admits onLeft x.level := by
  induction tree generalizing o onLeft with
  | operand e => exact absurd (List.mem_singleton.mp hx) nofun
  | node left o' right ihleft ihright =>
    obtain ⟨hleft, hright, hrespects, hrespects'⟩ := h
    rcases List.mem_append.mp hx with hx | hx
    · exact ho.mono (ihleft hrespects hleft hx).le
    · rcases List.mem_cons.mp hx with heq | hx
      · cases heq
        exact ho
      · exact ho.mono (ihright hrespects' hright hx).le

/-- Two trees with the same parts have the same root: if there were parts between the roots, each root would stand below
the other. -/
theorem root_eq_of_between {left right left' right' : Tree} {o o' : Operator} {between : List (Expr ⊕ Operator)}
    (h : (node left o right).Respects) (h' : (node left' o' right').Respects)
    (hleft : left'.inOrder = left.inOrder ++ between)
    (hright : .inr o :: right.inOrder = between ++ .inr o' :: right'.inOrder) :
    left.inOrder = left'.inOrder ∧ o = o' ∧ right.inOrder = right'.inOrder := by
  cases between with
  | nil =>
    obtain ⟨ho, hright⟩ := List.cons.inj hright
    exact ⟨(hleft.trans (List.append_nil _)).symm, Sum.inr.inj ho, hright⟩
  | cons x between =>
    obtain ⟨rfl, hbetween⟩ := List.cons.inj hright
    have ho : .inr o ∈ left'.inOrder := by
      rw [hleft]
      exact List.mem_append_right _ List.mem_cons_self
    have ho' : .inr o' ∈ right.inOrder := by
      rw [hbetween]
      exact List.mem_append_right _ List.mem_cons_self
    exact absurd (admits_of_mem h.2.2.2 h.2.1 ho') (admits_of_mem h'.2.2.1 h'.1 ho).asymm

theorem root_eq {left right left' right' : Tree} {o o' : Operator} (h : (node left o right).Respects)
    (h' : (node left' o' right').Respects) (hsame : (node left o right).inOrder = (node left' o' right').inOrder) :
    left.inOrder = left'.inOrder ∧ o = o' ∧ right.inOrder = right'.inOrder := by
  rcases List.append_eq_append_iff.mp hsame with ⟨between, hleft, hright⟩ | ⟨between, hleft, hright⟩
  · exact root_eq_of_between h h' hleft hright
  · obtain ⟨hlefts, ho, hrights⟩ := root_eq_of_between h' h hleft hright
    exact ⟨hlefts.symm, ho.symm, hrights.symm⟩

theorem inOrder_node_ne {left right : Tree} {o : Operator} {e : Expr} : (node left o right).inOrder ≠ [.inl e] := by
  intro h
  have ho : .inr o ∈ (node left o right).inOrder := List.mem_append_right _ List.mem_cons_self
  rw [h] at ho
  exact nomatch List.mem_singleton.mp ho

theorem eq_of_inOrder {tree tree' : Tree} (h : tree.Respects) (h' : tree'.Respects)
    (hsame : tree.inOrder = tree'.inOrder) : tree = tree' := by
  induction tree generalizing tree' with
  | operand e =>
    cases tree' with
    | operand f =>
      cases hsame
      rfl
    | node left' o' right' => exact absurd hsame.symm inOrder_node_ne
  | node left o right ihleft ihright =>
    cases tree' with
    | operand f => exact absurd hsame inOrder_node_ne
    | node left' o' right' =>
      obtain ⟨hleft, rfl, hright⟩ := root_eq h h' hsame
      rw [ihleft h.2.2.1 h'.2.2.1 hleft, ihright h.2.2.2 h'.2.2.2 hright]

end Tree

theorem Alternates.exists_tree {ts : List Token} {parts : List (Expr ⊕ Operator)} (h : Alternates ts parts) :
    ∃ tree : Tree, tree.inOrder = parts ∧ tree.Respects ∧ tree.Spans ts := by
  induction h with
  | operand he => exact ⟨.operand _, rfl, trivial, .operand he⟩
  | more he ho _ ih =>
    obtain ⟨tree, rfl, hrespects, hspans⟩ := ih
    exact ⟨tree.attach _ _, tree.inOrder_attach, Tree.respects_attach hrespects, Tree.spans_attach he ho hspans⟩

/-! ## Derivations -/

/-- The kind of phrase whose operators are on a level or above it. -/
def Nonterminal.ofLevel : Nat → Nonterminal
  | 0 => .sequence
  | 1 => .tier .pipe
  | 2 => .tier .disjunction
  | 3 => .tier .conjunction
  | 4 => .tier .equality
  | 5 => .tier .comparison
  | 6 => .tier .sum
  | 7 => .tier .product
  | _ => .unary

theorem Tier.ofLevel_level (tier : Tier) : Nonterminal.ofLevel tier.level = .tier tier := by cases tier <;> rfl

theorem Tier.ofLevel_operand (tier : Tier) : Nonterminal.ofLevel (tier.level + 1) = tier.operand := by cases tier <;> rfl

theorem level_cases (k : Nat) : k = 0 ∨ (∃ tier : Tier, tier.level = k) ∨ 8 ≤ k :=
  match k with
  | 0 => .inl rfl
  | 1 => .inr (.inl ⟨.pipe, rfl⟩)
  | 2 => .inr (.inl ⟨.disjunction, rfl⟩)
  | 3 => .inr (.inl ⟨.conjunction, rfl⟩)
  | 4 => .inr (.inl ⟨.equality, rfl⟩)
  | 5 => .inr (.inl ⟨.comparison, rfl⟩)
  | 6 => .inr (.inl ⟨.sum, rfl⟩)
  | 7 => .inr (.inl ⟨.product, rfl⟩)
  | k + 8 => .inr (.inr (Nat.le_add_left 8 k))

structure StopsAt (k : Nat) (next : Lexeme) : Prop where
  operator : ∀ tier : Tier, k ≤ tier.level → tier.operator? next = none
  semicolon : k = 0 → next ≠ .symbol .semicolon
  colons : next ≠ .symbol .doubleColon
  arguments : next ≠ .symbol .openParen

theorem Stops.at_zero {next : Lexeme} (h : Stops next) : StopsAt 0 next :=
  ⟨fun tier _ => h.operator tier, fun _ => h.semicolon, h.colons, h.arguments⟩

theorem StopsAt.mono {j k : Nat} {next : Lexeme} (h : StopsAt j next) (hjk : j ≤ k) : StopsAt k next :=
  ⟨fun tier htier => h.operator tier (Nat.le_trans hjk htier), fun hk => h.semicolon (by omega), h.colons, h.arguments⟩

/-- An operator stops what is on higher levels. -/
theorem Operator.Marks.stopsAt {t : Token} {o : Operator} (h : o.Marks t) : StopsAt (o.level + 1) t.lexeme := by
  cases h with
  | semicolon ht =>
    rw [ht]
    exact ⟨fun tier _ => by cases tier <;> rfl, nofun, nofun, nofun⟩
  | @binary op hop ht =>
    rw [ht]
    refine ⟨fun tier htier => op.operator?_mark_of_ne ?_, nofun, ?_, ?_⟩
    · rintro rfl
      exact Nat.not_succ_le_self _ htier
    · cases op <;> exact nofun
    · cases op <;> exact nofun

namespace Derives

variable {ts : List Token} {next : Lexeme} {e : Expr} {j k : Nat}

theorem looser (hnext : StopsAt k next) (h : Derives (.ofLevel (k + 1)) ts next e) : Derives (.ofLevel k) ts next e := by
  rcases level_cases k with rfl | ⟨tier, rfl⟩ | hk
  · exact .single h (hnext.semicolon rfl)
  · rw [tier.ofLevel_operand] at h
    rw [tier.ofLevel_level]
    exact h.to_tier tier (hnext.operator tier (Nat.le_refl _))
  · obtain ⟨k, rfl⟩ := Nat.exists_eq_add_of_le' hk
    exact h

theorem loosen (hjk : j ≤ k) (hnext : StopsAt j next) (h : Derives (.ofLevel k) ts next e) :
    Derives (.ofLevel j) ts next e := by
  induction hjk with
  | refl => exact h
  | step hjk ih => exact ih (h.looser (hnext.mono hjk))

end Derives

namespace Tree

/-- The tokens are derived as the tree on every level up to its own, and operations of a tier that groups to the left
can go on from it. -/
structure Reads (tree : Tree) (ts : List Token) : Prop where
  derives : ∀ k next, k ≤ tree.level → StopsAt k next → Derives (.ofLevel k) ts next tree.expr
  operations : ∀ (tier : Tier) us next e, tier.groupsLeft = true → tier.level ≤ tree.level →
    StopsAt (tier.level + 1) (following us next) → Operations tier tree.expr us next e →
    Derives (.tier tier) (ts ++ us) next e

namespace Reads

variable {tree left right : Tree} {ts us : List Token} {t : Token} {op : BinaryOp}

theorem operand_of (h : tree.Reads ts) {tier : Tier} {next : Lexeme} (hlevel : tier.level < tree.level)
    (hnext : StopsAt (tier.level + 1) next) : Derives tier.operand ts next tree.expr := by
  rw [← tier.ofLevel_operand]
  exact h.derives _ next hlevel hnext

/-- Looser levels follow from the tree's own. -/
theorem of_own (hown : ∀ next, StopsAt tree.level next → Derives (.ofLevel tree.level) ts next tree.expr)
    (hoperations : ∀ (tier : Tier) us next e, tier.groupsLeft = true → tier.level = tree.level →
      StopsAt (tier.level + 1) (following us next) → Operations tier tree.expr us next e →
      Derives (.tier tier) (ts ++ us) next e) : tree.Reads ts := by
  have hderives : ∀ k next, k ≤ tree.level → StopsAt k next → Derives (.ofLevel k) ts next tree.expr :=
    fun k next hk hnext => (hown next (hnext.mono hk)).loosen hk hnext
  refine ⟨hderives, fun tier us next e hgroup hlevel hnext hops => ?_⟩
  rcases Nat.lt_or_eq_of_le hlevel with hlt | heq
  · refine .left hgroup ?_ hops
    rw [← tier.ofLevel_operand]
    exact hderives _ _ hlt hnext
  · exact hoperations tier us next e hgroup heq hnext hops

theorem operand {e : Expr} (h : Operand ts e) : (Tree.operand e).Reads ts := by
  refine of_own (fun next hnext => h.unary_phrase hnext.arguments hnext.colons) ?_
  intro tier _ _ _ _ hlevel
  cases tier <;> cases hlevel

theorem semicolon (hleft : left.Reads ts) (ht : t.lexeme = .symbol .semicolon) (hright : right.Reads us)
    (hrespects : (node left .semicolon right).Respects) : (node left .semicolon right).Reads (ts ++ t :: us) := by
  refine of_own (fun next hnext => ?_) ?_
  · have hfirst := hleft.derives 1 t.lexeme (hrespects.1.lt nofun) (Operator.Marks.semicolon ht).stopsAt
    rw [ht] at hfirst
    exact .sequence hfirst ht (hright.derives 0 next (Nat.zero_le _) hnext)
  · intro tier _ _ _ _ hlevel
    exact absurd hlevel (Nat.ne_of_gt tier.level_pos)

section Binary

variable (hleft : left.Reads ts) (hop : op ∈ BinaryOp.all) (ht : t.lexeme = .symbol op.mark) (hright : right.Reads us)
  (hrespects : (node left (.binary t.position op) right).Respects)
include hleft hop ht hright hrespects

/-- In a tier that groups to the right, the operator stands before another phrase of the tier. -/
theorem binary_right (hgroup : op.tier.groupsLeft = false) :
    (node left (.binary t.position op) right).Reads (ts ++ t :: us) := by
  have hmark : (Operator.binary t.position op).Marks t := .binary hop ht
  obtain ⟨hadmits, hadmits', -, -⟩ := hrespects
  refine of_own (fun next hnext => ?_) ?_
  · have hfirst := hleft.operand_of (hadmits.lt (Bool.eq_false_iff.mp hgroup)) hmark.stopsAt
    have hrest := hright.derives op.tier.level next hadmits'.le hnext
    rw [level, Operator.level]
    rw [op.tier.ofLevel_level] at hrest ⊢
    exact .right hgroup hfirst (ht ▸ BinaryOp.operator?_mark hop) hrest
  · intro tier _ _ _ hgroup' hlevel
    rw [Tier.level_inj hlevel, hgroup] at hgroup'
    cases hgroup'

/-- In a tier that groups to the left, the operation goes on from those on its left. -/
theorem binary_left (hgroup : op.tier.groupsLeft = true) :
    (node left (.binary t.position op) right).Reads (ts ++ t :: us) := by
  have hmark : (Operator.binary t.position op).Marks t := .binary hop ht
  obtain ⟨hadmits, hadmits', -, -⟩ := hrespects
  -- with its right operand, the operator is one more operation after those of the left one
  have hoperations : ∀ vs next e, StopsAt (op.tier.level + 1) (following vs next) →
      Operations op.tier (.binary t.position op left.expr right.expr) vs next e →
      Derives (.tier op.tier) (ts ++ t :: us ++ vs) next e := by
    intro vs next e hnext hops
    have hsecond := hright.operand_of (hadmits'.lt (by rw [Operator.groupsLeft, hgroup]; exact nofun)) hnext
    have hmore := Operations.more (ht ▸ BinaryOp.operator?_mark hop) hsecond hops
    have hall := hleft.operations op.tier (t :: (us ++ vs)) next e hgroup hadmits.le hmark.stopsAt hmore
    rwa [← List.cons_append, ← List.append_assoc] at hall
  refine of_own (fun next hnext => ?_) ?_
  · have hall := hoperations [] next _ (hnext.mono (Nat.le_succ _)) (.none (hnext.operator _ (Nat.le_refl _)))
    rw [level, Operator.level, op.tier.ofLevel_level]
    rwa [List.append_nil] at hall
  · intro tier vs next e _ hlevel
    obtain rfl := Tier.level_inj hlevel
    exact hoperations vs next e

end Binary

end Reads

theorem Spans.reads {tree : Tree} {ts : List Token} (h : tree.Spans ts) (hrespects : tree.Respects) : tree.Reads ts := by
  induction h with
  | operand h => exact .operand h
  | node _ ho _ ihleft ihright =>
    have hleft := ihleft hrespects.2.2.1
    have hright := ihright hrespects.2.2.2
    cases ho with
    | semicolon ht => exact .semicolon hleft ht hright hrespects
    | @binary op hop ht =>
      cases hgroup : op.tier.groupsLeft with
      | false => exact .binary_right hleft hop ht hright hrespects hgroup
      | true => exact .binary_left hleft hop ht hright hrespects hgroup

end Tree

end Grammar

open Grammar

/-- Operands with operators between them are parsed as the tree that respects the levels of the operators; there is
exactly one. -/
theorem parse_operators {source : String} {eof : Token} {parts : List (Expr ⊕ Operator)}
    (h : (Tokens.scan source).ending = .ok eof) (halternates : Alternates (Tokens.scan source).front parts) :
    ∃ tree : Tree, parse source = .ok tree.expr ∧ tree.inOrder = parts ∧ tree.Respects ∧
      ∀ other : Tree, other.inOrder = parts → other.Respects → other = tree := by
  obtain ⟨tree, hparts, hrespects, hspans⟩ := halternates.exists_tree
  have hderives := (hspans.reads hrespects).derives 0 .endOfInput (Nat.zero_le _) Stops.endOfInput.at_zero
  refine ⟨tree, ?_, hparts, hrespects, fun other hother hrespects' => ?_⟩
  · exact parse_eq_ok_iff.mpr ⟨⟨eof, h⟩, _, [], (List.append_nil _).symm, nofun, hderives⟩
  · exact Tree.eq_of_inOrder hrespects' hrespects (hother.trans hparts.symm)

/-- `((a - (-b - c)) = d) = e; f`. -/
def Grammar.Tree.mixed : Tree :=
  let difference := node (operand (.ref ⟨1, 1⟩ "a")) (.binary ⟨1, 3⟩ .sub)
    (node (operand (.unary ⟨1, 5⟩ .neg (.ref ⟨1, 6⟩ "b"))) (.binary ⟨1, 8⟩ .sub) (operand (.ref ⟨1, 10⟩ "c")))
  let equality := node (node difference (.binary ⟨1, 12⟩ .eq) (operand (.ref ⟨1, 14⟩ "d"))) (.binary ⟨1, 16⟩ .eq)
    (operand (.ref ⟨1, 18⟩ "e"))
  node equality .semicolon (operand (.ref ⟨1, 21⟩ "f"))

theorem parse_operators_mixed : parse "a - -b - c = d = e; f" = .ok Tree.mixed.expr := by
  have hfront : (Tokens.scan "a - -b - c = d = e; f").front = [⟨.name "a", 0, ⟨1, 1⟩⟩, ⟨.symbol .minus, 2, ⟨1, 3⟩⟩,
    ⟨.symbol .minus, 4, ⟨1, 5⟩⟩, ⟨.name "b", 5, ⟨1, 6⟩⟩, ⟨.symbol .minus, 7, ⟨1, 8⟩⟩, ⟨.name "c", 9, ⟨1, 10⟩⟩,
    ⟨.symbol .equal, 11, ⟨1, 12⟩⟩, ⟨.name "d", 13, ⟨1, 14⟩⟩, ⟨.symbol .equal, 15, ⟨1, 16⟩⟩, ⟨.name "e", 17, ⟨1, 18⟩⟩,
    ⟨.symbol .semicolon, 18, ⟨1, 19⟩⟩, ⟨.name "f", 20, ⟨1, 21⟩⟩] := rfl
  have halternates : Alternates (Tokens.scan "a - -b - c = d = e; f").front Tree.mixed.inOrder := by
    rw [hfront]
    refine .more (.applied (.word rfl)) (.binary (by decide) rfl) ?_
    refine .more (.unary rfl (.applied (.word rfl))) (.binary (by decide) rfl) ?_
    refine .more (.applied (.word rfl)) (.binary (by decide) rfl) ?_
    refine .more (.applied (.word rfl)) (.binary (by decide) rfl) ?_
    exact .more (.applied (.word rfl)) (.semicolon rfl) (.operand (.applied (.word rfl)))
  obtain ⟨tree, hparse, -, -, hunique⟩ := parse_operators rfl halternates
  rw [hparse, hunique Tree.mixed rfl (by decide)]

end Curried
