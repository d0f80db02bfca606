/-
  Curried.Proofs.Grammar.Phrases — phrases before a lexeme that continues none.

  The grammar asks of a phrase what comes next, because optional parts are taken whenever they can be. Before a lexeme
  that continues no expression a phrase of any kind is a sequence (`Derives.to_sequence`); before an operator it is an
  operand of that operator if it is no looser than a unary phrase (`Derives.to_operand`).
-/

import Curried.Proofs.Grammar

namespace Curried.Grammar

/-- A lexeme that continues no expression: no operator, no `::`, and no start of arguments. -/
structure Stops (next : Lexeme) : Prop where
  operator : ∀ tier : Tier, tier.operator? next = none
  semicolon : next ≠ .symbol .semicolon
  colons : next ≠ .symbol .doubleColon
  arguments : next ≠ .symbol .openParen

namespace Stops

theorem keyword (word : Keyword) : Stops (.keyword word) :=
  ⟨fun tier => by cases tier <;> rfl, nofun, nofun, nofun⟩

theorem endOfInput : Stops .endOfInput := ⟨fun tier => by cases tier <;> rfl, nofun, nofun, nofun⟩

theorem closeParen : Stops (.symbol .closeParen) := ⟨fun tier => by cases tier <;> rfl, nofun, nofun, nofun⟩

theorem closeBracket : Stops (.symbol .closeBracket) := ⟨fun tier => by cases tier <;> rfl, nofun, nofun, nofun⟩

theorem comma : Stops (.symbol .comma) := ⟨fun tier => by cases tier <;> rfl, nofun, nofun, nofun⟩

end Stops

namespace Derives

variable {ts : List Token} {next : Lexeme} {e : Expr}

theorem to_application (h : Derives .atom ts next e) (hnext : next ≠ .symbol .openParen) :
    Derives .application ts next e := by
  have happlied : Derives .application (ts ++ []) next e := .application h (.none hnext)
  rwa [List.append_nil] at happlied

theorem to_unary (h : Derives .atom ts next e) (hcall : next ≠ .symbol .openParen)
    (hcolons : next ≠ .symbol .doubleColon) : Derives .unary ts next e :=
  .unsigned (.target (h.to_application hcall) hcolons)

theorem to_tier (tier : Tier) (h : Derives tier.operand ts next e) (hnext : tier.operator? next = none) :
    Derives (.tier tier) ts next e := by
  cases hgroup : tier.groupsLeft with
  | true =>
    have hleft : Derives (.tier tier) (ts ++ []) next e := .left hgroup h (.none hnext)
    rwa [List.append_nil] at hleft
  | false => exact .operand hgroup h hnext

/-- A unary phrase is an operand before an operator that is none of another tier. -/
theorem to_operand {tier : Tier} (h : Derives .unary ts next e) (hnext : ∀ t, t ≠ tier → t.operator? next = none) :
    Derives tier.operand ts next e := by
  by_cases hproduct : tier = .product
  · exact hproduct ▸ h
  have h : Derives Tier.sum.operand ts next e := to_tier .product h (hnext _ (Ne.symm hproduct))
  by_cases hsum : tier = .sum
  · exact hsum ▸ h
  have h : Derives Tier.comparison.operand ts next e := to_tier .sum h (hnext _ (Ne.symm hsum))
  by_cases hcomparison : tier = .comparison
  · exact hcomparison ▸ h
  have h : Derives Tier.equality.operand ts next e := to_tier .comparison h (hnext _ (Ne.symm hcomparison))
  by_cases hequality : tier = .equality
  · exact hequality ▸ h
  have h : Derives Tier.conjunction.operand ts next e := to_tier .equality h (hnext _ (Ne.symm hequality))
  by_cases hconjunction : tier = .conjunction
  · exact hconjunction ▸ h
  have h : Derives Tier.disjunction.operand ts next e :=
    to_tier .conjunction h (hnext _ (Ne.symm hconjunction))
  by_cases hdisjunction : tier = .disjunction
  · exact hdisjunction ▸ h
  have h : Derives Tier.pipe.operand ts next e := to_tier .disjunction h (hnext _ (Ne.symm hdisjunction))
  cases tier with
  | pipe => exact h
  | disjunction => exact absurd rfl hdisjunction
  | conjunction => exact absurd rfl hconjunction
  | equality => exact absurd rfl hequality
  | comparison => exact absurd rfl hcomparison
  | sum => exact absurd rfl hsum
  | product => exact absurd rfl hproduct

/-- Before a lexeme that continues no expression a phrase of any kind is a sequence. -/
theorem to_sequence {n : Nonterminal} (h : Derives n ts next e) (hnext : Stops next) :
    Derives .sequence ts next e := by
  have pipe (h : Derives (.tier .pipe) ts next e) : Derives .sequence ts next e := .single h hnext.semicolon
  have disjunction (h : Derives (.tier .disjunction) ts next e) := pipe (to_tier .pipe h (hnext.operator _))
  have conjunction (h : Derives (.tier .conjunction) ts next e) :=
    disjunction (to_tier .disjunction h (hnext.operator _))
  have equality (h : Derives (.tier .equality) ts next e) := conjunction (to_tier .conjunction h (hnext.operator _))
  have comparison (h : Derives (.tier .comparison) ts next e) := equality (to_tier .equality h (hnext.operator _))
  have sum (h : Derives (.tier .sum) ts next e) := comparison (to_tier .comparison h (hnext.operator _))
  have product (h : Derives (.tier .product) ts next e) := sum (to_tier .sum h (hnext.operator _))
  have unary (h : Derives .unary ts next e) := product (to_tier .product h (hnext.operator _))
  have assignment (h : Derives .assignment ts next e) := unary (.unsigned h)
  have application (h : Derives .application ts next e) := assignment (.target h hnext.colons)
  have atom (h : Derives .atom ts next e) := application (h.to_application hnext.arguments)
  cases n with
  | sequence => exact h
  | tier t =>
    cases t with
    | pipe => exact pipe h
    | disjunction => exact disjunction h
    | conjunction => exact conjunction h
    | equality => exact equality h
    | comparison => exact comparison h
    | sum => exact sum h
    | product => exact product h
  | unary => exact unary h
  | assignment => exact assignment h
  | application => exact application h
  | atom => exact atom h
  | declaration => exact atom (.declared h)

/-- One operation of a tier. -/
theorem operation {tier : Tier} {us : List Token} {operator : Token} {op : BinaryOp} {f : Expr}
    (h : Derives tier.operand ts operator.lexeme e) (hop : tier.operator? operator.lexeme = some op)
    (h' : Derives tier.operand us next f) (hnext : tier.operator? next = none) :
    Derives (.tier tier) (ts ++ operator :: us) next (.binary operator.position op e f) := by
  cases hgroup : tier.groupsLeft with
  | true =>
    have hmore : Operations tier e (operator :: (us ++ [])) next (.binary operator.position op e f) :=
      .more hop h' (.none hnext)
    rw [List.append_nil] at hmore
    exact .left hgroup h hmore
  | false => exact .right hgroup h hop (.operand hgroup h' hnext)

end Derives

end Curried.Grammar
