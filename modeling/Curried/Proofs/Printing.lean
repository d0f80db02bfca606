/-
  Curried.Proofs.Printing — parsing undoes printing.

  `Expr.print` writes an expression with each of its parts in parentheses, apart from the declarations of a chain. The
  text is read as the lexemes `Expr.lexemes` (`Expr.writes_print`), and tokens with these lexemes are a phrase of the
  grammar whose tree is the expression up to positions, before anything that does not continue it (`Expr.readsBack`).
  So the printed text parses, to the expression that was printed (`parse_print`).
-/

import Curried.Proofs.Grammar.Parser
import Curried.Proofs.Grammar.Phrases
import Curried.Proofs.Layout.Reading
import Curried.Proofs.Spelling

namespace Curried

open Grammar

/-! ## Printing -/

def parens (text : String) : String := "(" ++ text ++ ")"

namespace Expr

mutual

def print (spell : Float → String) : Expr → String
  | .number _ x => spell x
  | .string _ s => "\"" ++ s ++ "\""
  | .boolean _ b => if b then "true" else "false"
  | .nil _ => "()"
  | .ref _ n => n
  | .list _ items => "[" ++ ", ".intercalate (printAll spell items) ++ "]"
  | .binary _ op left right => " ".intercalate [parens (left.print spell), op.symbol, parens (right.print spell)]
  | .unary _ op operand => op.symbol ++ parens (operand.print spell)
  | .call _ callee args => parens (callee.print spell) ++ parens (", ".intercalate (printAll spell args))
  | .assign _ target value next => " ".intercalate
      [parens (target.print spell), "::", parens (value.print spell), "in", parens (next.print spell)]
  | .sequence _ first second => " ".intercalate [parens (first.print spell) ++ ";", parens (second.print spell)]
  | .branch _ test yes no => " ".intercalate
      ["if", parens (test.print spell), "then", parens (yes.print spell), "else", parens (no.print spell)]
  | .binding _ name value body next => " ".intercalate
      (["let", name, "::", parens (value.print spell), "in", parens (body.print spell)] ++ printNext spell next)
  | .function _ name params body next => " ".intercalate
      (["fn", name.getD "" ++ parens (", ".intercalate params), "::", parens (body.print spell)] ++
        (printNext spell next ++ ["end"]))
  | .strange _ kind => kind

def printAll (spell : Float → String) : List Expr → List String
  | [] => []
  | e :: es => parens (e.print spell) :: printAll spell es

def printNext (spell : Float → String) : Option Expr → List String
  | none => []
  | some e => ["and", e.print spell]

end

end Expr

structure IsName (name : String) : Prop where
  spelling : ∃ c cs, name.toList = c :: cs ∧ Lexeme.isNameStart c = true ∧ ∀ d ∈ cs, Lexeme.isNamePart d = true
  free : name ∉ "true" :: "false" :: Keyword.all.map Keyword.text

/-- `digits[.digits]`, with its value. -/
inductive IsNumeral : String → Float → Prop
  | whole {digits : List Char} : digits ≠ [] → (∀ d ∈ digits, Text.isDigit d = true) →
      IsNumeral (String.ofList digits) (Decimal.ofNumeral digits [] 0)
  | fraction {whole fraction : List Char} : whole ≠ [] → (∀ d ∈ whole, Text.isDigit d = true) → fraction ≠ [] →
      (∀ d ∈ fraction, Text.isDigit d = true) →
      IsNumeral (String.ofList (whole ++ '.' :: fraction)) (Decimal.ofNumeral whole fraction 0)

namespace Expr

def isDeclaration : Expr → Bool
  | .binding .. | .function .. => true
  | _ => false

/-- Expressions that have a text: their names are identifiers, their operators exist, their strings can be quoted,
their numbers are spelled by numerals, and only declarations are chained. -/
inductive Printable (spell : Float → String) : Expr → Prop
  | number {p : Position} {x : Float} : IsNumeral (spell x) x → Printable spell (.number p x)
  | string {p : Position} {s : String} : '"' ∉ s.toList → Printable spell (.string p s)
  | boolean {p : Position} {b : Bool} : Printable spell (.boolean p b)
  | nil {p : Position} : Printable spell (.nil p)
  | ref {p : Position} {n : String} : IsName n → Printable spell (.ref p n)
  | list {p : Position} {items : List Expr} : (∀ e ∈ items, Printable spell e) → Printable spell (.list p items)
  | binary {p : Position} {op : BinaryOp} {left right : Expr} : op ∈ BinaryOp.all → Printable spell left →
      Printable spell right → Printable spell (.binary p op left right)
  | unary {p : Position} {op : UnaryOp} {operand : Expr} : op ∈ UnaryOp.all → Printable spell operand →
      Printable spell (.unary p op operand)
  | call {p : Position} {callee : Expr} {args : List Expr} : Printable spell callee →
      (∀ e ∈ args, Printable spell e) → Printable spell (.call p callee args)
  | assign {p : Position} {target value next : Expr} : Printable spell target → Printable spell value →
      Printable spell next → Printable spell (.assign p target value next)
  | sequence {p : Position} {first second : Expr} : Printable spell first → Printable spell second →
      Printable spell (.sequence p first second)
  | branch {p : Position} {test yes no : Expr} : Printable spell test → Printable spell yes → Printable spell no →
      Printable spell (.branch p test yes no)
  | binding {p : Position} {name : String} {value body : Expr} {next : Option Expr} : IsName name →
      Printable spell value → Printable spell body → (∀ d ∈ next, Printable spell d) →
      (∀ d ∈ next, d.isDeclaration = true) → Printable spell (.binding p name value body next)
  | function {p : Position} {name : Option String} {params : List String} {body : Expr} {next : Option Expr} :
      (∀ n ∈ name, IsName n) → (∀ n ∈ params, IsName n) → Printable spell body → (∀ d ∈ next, Printable spell d) →
      (∀ d ∈ next, d.isDeclaration = true) → Printable spell (.function p name params body next)

end Expr

/-! ## The lexemes of a printed expression -/

def grouped (ls : List Lexeme) : List Lexeme := .symbol .openParen :: (ls ++ [.symbol .closeParen])

def BinaryOp.mark : BinaryOp → Symbol
  | .add => .plus
  | .sub => .minus
  | .mul => .times
  | .div => .divide
  | .eq => .equal
  | .neq => .unequal
  | .lt => .less
  | .lte => .lessEqual
  | .gt => .greater
  | .gte => .greaterEqual
  | .and => .andAnd
  | .or => .orOr
  | .compose | .unknown _ => .dot
  | .concat => .dotDot

def UnaryOp.mark : UnaryOp → Symbol
  | .not | .unknown _ => .bang
  | .neg => .minus

namespace Expr

mutual

def lexemes : Expr → List Lexeme
  | .number _ x => [.number x]
  | .string _ s => [.string s]
  | .boolean _ b => [.boolean b]
  | .nil _ => grouped []
  | .ref _ n => [.name n]
  | .list _ items =>
    .symbol .openBracket :: ([.symbol .comma].intercalate (lexemesAll items) ++ [.symbol .closeBracket])
  | .binary _ op left right => [grouped left.lexemes, [.symbol op.mark], grouped right.lexemes].flatten
  | .unary _ op operand => .symbol op.mark :: grouped operand.lexemes
  | .call _ callee args => grouped callee.lexemes ++ grouped ([.symbol .comma].intercalate (lexemesAll args))
  | .assign _ target value next =>
    [grouped target.lexemes, [.symbol .doubleColon], grouped value.lexemes, [.keyword .inWord],
      grouped next.lexemes].flatten
  | .sequence _ first second => [grouped first.lexemes ++ [.symbol .semicolon], grouped second.lexemes].flatten
  | .branch _ test yes no =>
    [[.keyword .ifWord], grouped test.lexemes, [.keyword .thenWord], grouped yes.lexemes, [.keyword .elseWord],
      grouped no.lexemes].flatten
  | .binding _ name value body next =>
    ([[.keyword .letWord], [.name name], [.symbol .doubleColon], grouped value.lexemes, [.keyword .inWord],
      grouped body.lexemes] ++ lexemesNext next).flatten
  | .function _ name params body next =>
    ([[Lexeme.keyword .fnWord],
      name.toList.map Lexeme.name ++ grouped ([.symbol .comma].intercalate (params.map fun n => [Lexeme.name n])),
      [Lexeme.symbol .doubleColon], grouped body.lexemes] ++ (lexemesNext next ++ [[Lexeme.keyword .endWord]])).flatten
  | .strange .. => []

def lexemesAll : List Expr → List (List Lexeme)
  | [] => []
  | e :: es => grouped e.lexemes :: lexemesAll es

def lexemesNext : Option Expr → List (List Lexeme)
  | none => []
  | some e => [[.keyword .andWord], e.lexemes]

end

end Expr

/-! ## The text is read as these lexemes -/

theorem IsName.spelled {n : String} (h : IsName n) : Lexeme.Spelled (.name n) n.toList [] := by
  obtain ⟨c, cs, hn, hc, hcs⟩ := h.spelling
  have hfree := h.free
  simp only [List.mem_cons, not_or] at hfree
  have hword : Lexeme.ofWord n = .name n := by
    have hkeyword : Keyword.all.find? (·.text == n) = none := by
      rw [List.find?_eq_none]
      intro k hk htext
      exact hfree.2.2 (List.mem_map.mpr ⟨k, hk, eq_of_beq htext⟩)
    simp [Lexeme.ofWord, hfree.1, hfree.2.1, hkeyword]
  have hspelled : Lexeme.Spelled (Lexeme.ofWord (String.ofList (c :: cs))) (c :: cs) [] := .word hc hcs nofun
  rw [← hn, String.ofList_toList, hword] at hspelled
  exact hspelled

theorem IsNumeral.spelled {text : String} {x : Float} (h : IsNumeral text x) :
    Lexeme.Spelled (.number x) text.toList [] := by
  cases h with
  | whole hne hdigits =>
    rw [String.toList_ofList]
    exact .whole hne hdigits nofun nofun
  | fraction hne hwhole hne' hfraction =>
    rw [String.toList_ofList]
    exact .fraction hne hwhole hne' hfraction nofun

namespace Writes

/-- A text that is one lexeme. -/
theorem read {l : Lexeme} {cs : List Char} (h : Lexeme.first? cs = some (l, cs, [])) : Writes cs [l] :=
  single (Lexeme.spelled_of_first? h)

theorem keyword (k : Keyword) : Writes k.text.toList [.keyword k] := single (.keyword k)

theorem symbol (s : Symbol) : Writes s.text.toList [.symbol s] := single (.symbol nofun)

theorem parens {text : String} {ls : List Lexeme} (h : Writes text.toList ls) :
    Writes (parens text).toList (grouped ls) := by
  have htext : (Curried.parens text).toList = '(' :: (text.toList ++ [')']) := by
    simp [Curried.parens]
  rw [htext]
  exact (h.append (nil.mark rfl rfl) (Lexeme.breaks_cons rfl _)).mark rfl rfl

theorem brackets {text : String} {ls : List Lexeme} (h : Writes text.toList ls) :
    Writes ("[" ++ text ++ "]").toList (.symbol .openBracket :: (ls ++ [.symbol .closeBracket])) := by
  have htext : ("[" ++ text ++ "]").toList = '[' :: (text.toList ++ [']']) := by simp
  rw [htext]
  exact (h.append (nil.mark rfl rfl) (Lexeme.breaks_cons rfl _)).mark rfl rfl

theorem breaks_parens {text : String} : Lexeme.Breaks (Curried.parens text).toList := by
  rw [Curried.parens, String.append_assoc, String.toList_append]
  exact Lexeme.breaks_cons rfl _

theorem items {spell : Float → String} {es : List Expr}
    (h : ∀ e ∈ es, Writes (e.print spell).toList e.lexemes) :
    List.Forall₂ (fun text ls => Writes text.toList ls) (Expr.printAll spell es) (Expr.lexemesAll es) := by
  induction es with
  | nil => exact .nil
  | cons e es ih =>
    rw [List.forall_mem_cons] at h
    exact .cons h.1.parens (ih h.2)

theorem chained {spell : Float → String} {next : Option Expr}
    (h : ∀ d ∈ next, Writes (d.print spell).toList d.lexemes) :
    List.Forall₂ (fun text ls => Writes text.toList ls) (Expr.printNext spell next) (Expr.lexemesNext next) := by
  cases next with
  | none => exact .nil
  | some d => exact .cons (keyword .andWord) (.cons (h d rfl) .nil)

theorem parameters {params : List String} (h : ∀ n ∈ params, IsName n) :
    List.Forall₂ (fun text ls => Writes text.toList ls) params (params.map fun n => [Lexeme.name n]) := by
  induction params with
  | nil => exact .nil
  | cons n params ih =>
    rw [List.forall_mem_cons] at h
    exact .cons (single h.1.spelled) (ih h.2)

end Writes

theorem BinaryOp.symbol_eq {op : BinaryOp} (h : op ∈ BinaryOp.all) : op.symbol = op.mark.text := by
  cases op with
  | unknown s => simp [BinaryOp.all] at h
  | _ => rfl

theorem UnaryOp.symbol_eq {op : UnaryOp} (h : op ∈ UnaryOp.all) : op.symbol = op.mark.text := by
  cases op with
  | unknown s => simp [UnaryOp.all] at h
  | _ => rfl

open Writes in
theorem Expr.writes_print {spell : Float → String} {e : Expr} (h : e.Printable spell) :
    Writes (e.print spell).toList e.lexemes := by
  induction h with
  | number hx => exact single hx.spelled
  | @string _ s hs =>
    have htext : ("\"" ++ s ++ "\"").toList = '"' :: s.toList ++ ['"'] := by simp
    have hspelled : Lexeme.Spelled (.string (String.ofList s.toList)) ('"' :: s.toList ++ ['"']) [] := .string hs
    rw [String.ofList_toList] at hspelled
    rw [print, htext]
    exact single hspelled
  | @boolean _ b =>
    rw [print, lexemes]
    cases b <;> exact read rfl
  | nil =>
    have hnil : Writes ['(', ')'] (grouped []) := (Writes.nil.mark rfl rfl).mark rfl rfl
    rw [print, lexemes]
    exact hnil
  | ref hn => exact single hn.spelled
  | list _ ih =>
    rw [print, lexemes]
    exact (commas (items ih)).brackets
  | binary hop _ _ hleft hright =>
    rw [print, lexemes, BinaryOp.symbol_eq hop]
    exact words (.cons hleft.parens (.cons (symbol _) (.cons hright.parens .nil)))
  | unary hop _ hoperand =>
    rw [print, lexemes, UnaryOp.symbol_eq hop, String.toList_append]
    exact (symbol _).append hoperand.parens breaks_parens
  | call _ _ hcallee hargs =>
    rw [print, lexemes, String.toList_append]
    exact hcallee.parens.append (commas (items hargs)).parens breaks_parens
  | assign _ _ _ htarget hvalue hnext =>
    rw [print, lexemes]
    exact words (.cons htarget.parens (.cons (symbol .doubleColon) (.cons hvalue.parens (.cons (keyword .inWord)
      (.cons hnext.parens .nil)))))
  | sequence _ _ hfirst hsecond =>
    rw [print, lexemes]
    refine words (.cons ?_ (.cons hsecond.parens .nil))
    rw [String.toList_append]
    exact hfirst.parens.append (symbol .semicolon) (Lexeme.breaks_cons rfl _)
  | branch _ _ _ htest hyes hno =>
    rw [print, lexemes]
    exact words (.cons (keyword .ifWord) (.cons htest.parens (.cons (keyword .thenWord) (.cons hyes.parens
      (.cons (keyword .elseWord) (.cons hno.parens .nil))))))
  | binding hn _ _ _ _ hvalue hbody hnext =>
    rw [print, lexemes]
    exact words (.cons (keyword .letWord) (.cons (single hn.spelled) (.cons (symbol .doubleColon) (.cons hvalue.parens
      (.cons (keyword .inWord) (.cons hbody.parens (chained hnext)))))))
  | @function _ name params _ _ hname hparams _ _ _ hbody hnext =>
    have hhead : Writes (name.getD "" ++ Curried.parens (", ".intercalate params)).toList
        (name.toList.map Lexeme.name ++ grouped ([.symbol .comma].intercalate (params.map fun n => [Lexeme.name n]))) := by
      have hparens := (commas (parameters hparams)).parens
      rw [String.toList_append]
      cases name with
      | none => exact hparens
      | some n => exact (single (hname n rfl).spelled).append hparens breaks_parens
    rw [print, lexemes]
    refine words (.cons (keyword .fnWord) (.cons hhead (.cons (symbol .doubleColon) (.cons hbody.parens ?_))))
    exact List.rel_append (chained hnext) (.cons (keyword .endWord) .nil)

/-! ## The lexemes are read as the expression -/

/-- Tokens with these lexemes are a phrase before `next`, wherever they stand, and what it stands for is related to
`b`. -/
def Yields {α β : Type} (P : Phrase α) (rel : α → β → Prop) (ls : List Lexeme) (next : Lexeme) (b : β) : Prop :=
  ∀ ts : List Token, ts.map (·.lexeme) = ls → ∃ a, P ts next a ∧ rel a b

def BinaryOp.tier : BinaryOp → Tier
  | .compose | .concat | .unknown _ => .pipe
  | .or => .disjunction
  | .and => .conjunction
  | .eq | .neq => .equality
  | .lt | .lte | .gt | .gte => .comparison
  | .add | .sub => .sum
  | .mul | .div => .product

def Expr.kind : Expr → Nonterminal
  | .number .. | .string .. | .boolean .. | .nil .. | .ref .. | .list .. | .branch .. | .strange .. => .atom
  | .binary _ op _ _ => .tier op.tier
  | .unary .. => .unary
  | .call .. => .application
  | .assign .. => .assignment
  | .sequence .. => .sequence
  | .binding .. | .function .. => .declaration

theorem BinaryOp.operator?_mark {op : BinaryOp} (h : op ∈ BinaryOp.all) :
    op.tier.operator? (.symbol op.mark) = some op := by
  cases op with
  | unknown s => simp [BinaryOp.all] at h
  | _ => rfl

theorem BinaryOp.operator?_mark_of_ne (op : BinaryOp) {tier : Tier} (h : tier ≠ op.tier) :
    tier.operator? (.symbol op.mark) = none := by
  cases op <;> cases tier <;> first | rfl | exact absurd rfl h

theorem UnaryOp.unaryOperator?_mark {op : UnaryOp} (h : op ∈ UnaryOp.all) :
    unaryOperator? (.symbol op.mark) = some op := by
  cases op with
  | unknown s => simp [UnaryOp.all] at h
  | _ => rfl

theorem exists_of_grouped {ls : List Lexeme} {ts : List Token} (h : ts.map (·.lexeme) = grouped ls) :
    ∃ opening us closing, ts = opening :: (us ++ [closing]) ∧ opening.lexeme = .symbol .openParen ∧
      us.map (·.lexeme) = ls ∧ closing.lexeme = .symbol .closeParen := by
  obtain ⟨opening, rest, rfl, hopen, hrest⟩ := List.map_eq_cons_iff.mp h
  obtain ⟨us, vs, rfl, hus, hvs⟩ := List.map_eq_append_iff.mp hrest
  obtain ⟨closing, rfl, hclose⟩ := List.map_eq_singleton_iff.mp hvs
  exact ⟨opening, us, closing, rfl, hopen, hus, hclose⟩

namespace Yields

variable {ls : List Lexeme} {e : Expr}

/-- An expression in parentheses, before anything. -/
theorem group (h : Yields (Derives .sequence) Expr.Alike ls (.symbol .closeParen) e) (next : Lexeme) :
    Yields (Derives .atom) Expr.Alike (grouped ls) next e := by
  intro ts hts
  obtain ⟨opening, us, closing, rfl, hopen, hus, hclose⟩ := exists_of_grouped hts
  obtain ⟨f, hf, hlike⟩ := h us hus
  exact ⟨f, .group hopen hf hclose, hlike⟩

theorem to_sequence {n : Nonterminal} {next : Lexeme} (h : Yields (Derives n) Expr.Alike ls next e)
    (hnext : Stops next) : Yields (Derives .sequence) Expr.Alike ls next e := by
  intro ts hts
  obtain ⟨f, hf, hlike⟩ := h ts hts
  exact ⟨f, hf.to_sequence hnext, hlike⟩

theorem items {α β : Type} {P : Phrase α} {rel : α → β → Prop} {close : Symbol} {ls : List Lexeme}
    {lss : List (List Lexeme)} {b : β} {bs : List β}
    (h : List.Forall₂ (fun ls b => Yields P rel ls (.symbol .comma) b ∧ Yields P rel ls (.symbol close) b)
      (ls :: lss) (b :: bs)) (hclose : close ≠ .comma) :
    Yields (Items P) (List.Forall₂ rel) ([.symbol .comma].intercalate (ls :: lss)) (.symbol close) (b :: bs) := by
  induction lss generalizing ls b bs with
  | nil =>
    obtain ⟨hb, ⟨⟩⟩ := List.forall₂_cons.mp h
    intro ts hts
    rw [List.intercalate_singleton] at hts
    obtain ⟨a, ha, hrel⟩ := hb.2 ts hts
    exact ⟨[a], .one ha fun heq => hclose (Lexeme.symbol.inj heq), .cons hrel .nil⟩
  | cons ms lss ih =>
    obtain ⟨hb, hrest⟩ := List.forall₂_cons.mp h
    obtain ⟨c, cs, -, -, rfl⟩ := List.forall₂_cons_left_iff.mp hrest
    intro ts hts
    rw [List.intercalate_cons_cons, List.append_assoc] at hts
    obtain ⟨us, vs, rfl, hus, hvs⟩ := List.map_eq_append_iff.mp hts
    obtain ⟨comma, vs, rfl, hcomma, hvs⟩ := List.map_eq_cons_iff.mp hvs
    obtain ⟨a, ha, hrel⟩ := hb.1 us hus
    obtain ⟨as, has, hrels⟩ := ih hrest vs hvs
    exact ⟨a :: as, .more ha hcomma has, .cons hrel hrels⟩

/-- Items with commas between them, before the bracket that closes the list. -/
theorem listed {α β : Type} {P : Phrase α} {rel : α → β → Prop} {close : Symbol} {lss : List (List Lexeme)}
    {bs : List β}
    (h : List.Forall₂ (fun ls b => Yields P rel ls (.symbol .comma) b ∧ Yields P rel ls (.symbol close) b) lss bs)
    (hclose : close ≠ .comma) {ts : List Token} (hts : ts.map (·.lexeme) = [.symbol .comma].intercalate lss) :
    ∃ as, Listed P close ts as ∧ List.Forall₂ rel as bs := by
  cases h with
  | nil =>
    obtain rfl := List.map_eq_nil_iff.mp hts
    exact ⟨[], .none, .nil⟩
  | cons hb hrest =>
    obtain ⟨as, has, hrels⟩ := items (.cons hb hrest) hclose ts hts
    exact ⟨as, .some has, hrels⟩

theorem list {lss : List (List Lexeme)} {es : List Expr}
    (h : List.Forall₂ (fun ls e => Yields (Derives .sequence) Expr.Alike ls (.symbol .comma) e ∧
      Yields (Derives .sequence) Expr.Alike ls (.symbol .closeBracket) e) lss es) (p : Position) (next : Lexeme) :
    Yields (Derives .atom) Expr.Alike
      (.symbol .openBracket :: ([.symbol .comma].intercalate lss ++ [.symbol .closeBracket])) next (.list p es) := by
  intro ts hts
  obtain ⟨opening, us, rfl, hopen, hus⟩ := List.map_eq_cons_iff.mp hts
  obtain ⟨vs, ws, rfl, hvs, hws⟩ := List.map_eq_append_iff.mp hus
  obtain ⟨closing, rfl, hclose⟩ := List.map_eq_singleton_iff.mp hws
  obtain ⟨items, hitems, hlikes⟩ := listed h nofun hvs
  exact ⟨_, .list hopen hitems hclose, .of (.list hlikes) .none⟩

theorem call {callee : Expr} {lss : List (List Lexeme)} {args : List Expr} {next : Lexeme}
    (hcallee : Yields (Derives .atom) Expr.Alike ls (.symbol .openParen) callee)
    (hargs : List.Forall₂ (fun ls e => Yields (Derives .sequence) Expr.Alike ls (.symbol .comma) e ∧
      Yields (Derives .sequence) Expr.Alike ls (.symbol .closeParen) e) lss args) (p : Position)
    (hnext : next ≠ .symbol .openParen) :
    Yields (Derives .application) Expr.Alike (ls ++ grouped ([.symbol .comma].intercalate lss)) next
      (.call p callee args) := by
  intro ts hts
  obtain ⟨us, vs, rfl, hus, hvs⟩ := List.map_eq_append_iff.mp hts
  obtain ⟨opening, as, closing, rfl, hopen, has, hclose⟩ := exists_of_grouped hvs
  obtain ⟨f, hf, hlike⟩ := hcallee us hus
  obtain ⟨es, hes, hlikes⟩ := listed hargs nofun has
  rw [← hopen] at hf
  exact ⟨_, .application hf (.more hopen hes hclose (.none hnext)), .of (.call hlike hlikes) .none⟩

theorem branch {test yes no : List Lexeme} {a b c : Expr} {next : Lexeme}
    (htest : Yields (Derives .sequence) Expr.Alike test (.keyword .thenWord) a)
    (hyes : Yields (Derives .sequence) Expr.Alike yes (.keyword .elseWord) b)
    (hno : Yields (Derives .sequence) Expr.Alike no next c) (p : Position) :
    Yields (Derives .atom) Expr.Alike
      [[.keyword .ifWord], test, [.keyword .thenWord], yes, [.keyword .elseWord], no].flatten next
      (.branch p a b c) := by
  intro ts hts
  simp only [List.flatten_cons, List.flatten_nil, List.append_nil, List.cons_append, List.nil_append] at hts
  obtain ⟨ifWord, r, rfl, hif, hr⟩ := List.map_eq_cons_iff.mp hts
  obtain ⟨us, s, rfl, hus, hs⟩ := List.map_eq_append_iff.mp hr
  obtain ⟨thenWord, t, rfl, hthen, ht⟩ := List.map_eq_cons_iff.mp hs
  obtain ⟨vs, u, rfl, hvs, hu⟩ := List.map_eq_append_iff.mp ht
  obtain ⟨elseWord, ws, rfl, helse, hws⟩ := List.map_eq_cons_iff.mp hu
  obtain ⟨f, hf, hlike⟩ := htest us hus
  obtain ⟨g, hg, hlike'⟩ := hyes vs hvs
  obtain ⟨k, hk, hlike''⟩ := hno ws hws
  exact ⟨_, .branch hif hf hthen hg helse hk, .of (.branch hlike hlike' hlike'') .none⟩

theorem name (n : String) (next : Lexeme) : Yields Name Eq [.name n] next n := by
  intro ts hts
  obtain ⟨t, rfl, ht⟩ := List.map_eq_singleton_iff.mp hts
  exact ⟨n, .name ht, rfl⟩

theorem parameters (params : List String) {close : Symbol} :
    List.Forall₂ (fun ls n => Yields Name Eq ls (.symbol .comma) n ∧ Yields Name Eq ls (.symbol close) n)
      (params.map fun n => [Lexeme.name n]) params := by
  induction params with
  | nil => exact .nil
  | cons n params ih => exact .cons ⟨name n _, name n _⟩ ih

end Yields

namespace Expr

/-- The lexemes of an expression's text are read as that expression before anything that does not continue it. -/
def ReadsBack (e : Expr) : Prop :=
  ∀ next, Stops next → next ≠ .keyword .andWord → Yields (Derives e.kind) Alike e.lexemes next e

namespace ReadsBack

variable {e : Expr}

theorem atom (h : e.ReadsBack) (next : Lexeme) : Yields (Derives .atom) Alike (grouped e.lexemes) next e :=
  ((h _ .closeParen nofun).to_sequence .closeParen).group next

theorem group (h : e.ReadsBack) {next : Lexeme} (hnext : Stops next) :
    Yields (Derives .sequence) Alike (grouped e.lexemes) next e :=
  (h.atom next).to_sequence hnext

theorem items {es : List Expr} (h : ∀ e ∈ es, e.ReadsBack) {close : Symbol} (hclose : Stops (.symbol close)) :
    List.Forall₂ (fun ls e => Yields (Derives .sequence) Alike ls (.symbol .comma) e ∧
      Yields (Derives .sequence) Alike ls (.symbol close) e) (lexemesAll es) es := by
  induction es with
  | nil => exact .nil
  | cons e es ih =>
    rw [List.forall_mem_cons] at h
    exact .cons ⟨h.1.group .comma, h.1.group hclose⟩ (ih h.2)

/-- What is chained to a declaration, if anything. -/
theorem chained {o : Option Expr} (h : ∀ d ∈ o, d.ReadsBack) (hdecl : ∀ d ∈ o, d.isDeclaration = true)
    {next : Lexeme} (hnext : Stops next) (hand : next ≠ .keyword .andWord) :
    Yields (Continued .andWord .declaration) (Option.Rel Alike) (lexemesNext o).flatten next o := by
  intro ts hts
  cases o with
  | none =>
    obtain rfl := List.map_eq_nil_iff.mp hts
    exact ⟨none, .none hand, .none⟩
  | some d =>
    simp only [lexemesNext, List.flatten_cons, List.flatten_nil, List.append_nil, List.cons_append,
      List.nil_append] at hts
    obtain ⟨word, us, rfl, hword, hus⟩ := List.map_eq_cons_iff.mp hts
    have hkind : d.kind = .declaration := by
      have hd := hdecl d rfl
      cases d <;> first | rfl | cases hd
    have hd := h d rfl next hnext hand
    rw [hkind] at hd
    obtain ⟨f, hf, hlike⟩ := hd us hus
    exact ⟨some f, .some hword hf, .some hlike⟩

/-- Before a chained declaration stands `and`. -/
theorem stops_chained {o : Option Expr} {ts : List Token} (hts : ts.map (·.lexeme) = (lexemesNext o).flatten)
    {next : Lexeme} (hnext : Stops next) : Stops (following ts next) := by
  cases o with
  | none =>
    obtain rfl := List.map_eq_nil_iff.mp hts
    exact hnext
  | some d =>
    simp only [lexemesNext, List.flatten_cons] at hts
    obtain ⟨word, us, rfl, hword, -⟩ := List.map_eq_cons_iff.mp hts
    show Stops word.lexeme
    rw [hword]
    exact .keyword _

end ReadsBack

theorem readsBack_binary {op : BinaryOp} (hop : op ∈ BinaryOp.all) {left right : Expr} (hleft : left.ReadsBack)
    (hright : right.ReadsBack) (p : Position) : (Expr.binary p op left right).ReadsBack := by
  intro next hnext _ ts hts
  simp only [lexemes, List.flatten_cons, List.flatten_nil, List.append_nil, List.cons_append, List.nil_append] at hts
  obtain ⟨us, vs, rfl, hus, hvs⟩ := List.map_eq_append_iff.mp hts
  obtain ⟨operator, ws, rfl, hoperator, hws⟩ := List.map_eq_cons_iff.mp hvs
  obtain ⟨f, hf, hleft⟩ := hleft.atom (.symbol op.mark) us hus
  obtain ⟨g, hg, hright⟩ := hright.atom next ws hws
  have hmark : op.mark ≠ .openParen ∧ op.mark ≠ .doubleColon := by
    cases op <;> exact ⟨nofun, nofun⟩
  have hf : Derives op.tier.operand us operator.lexeme f := by
    rw [hoperator]
    refine (hf.to_unary ?_ ?_).to_operand fun t ht => op.operator?_mark_of_ne ht
    · exact fun h => hmark.1 (Lexeme.symbol.inj h)
    · exact fun h => hmark.2 (Lexeme.symbol.inj h)
  have hg : Derives op.tier.operand ws next g :=
    (hg.to_unary hnext.arguments hnext.colons).to_operand fun t _ => hnext.operator t
  have hop : op.tier.operator? operator.lexeme = some op := by
    rw [hoperator]
    exact BinaryOp.operator?_mark hop
  exact ⟨_, .operation hf hop hg (hnext.operator _), .binary rfl hleft hright⟩

theorem readsBack_sequence {first second : Expr} (hfirst : first.ReadsBack) (hsecond : second.ReadsBack)
    (p : Position) : (Expr.sequence p first second).ReadsBack := by
  intro next hnext _ ts hts
  simp only [lexemes, List.flatten_cons, List.flatten_nil, List.append_nil, List.cons_append, List.nil_append,
    List.append_assoc] at hts
  obtain ⟨us, vs, rfl, hus, hvs⟩ := List.map_eq_append_iff.mp hts
  obtain ⟨semicolon, ws, rfl, hsemi, hws⟩ := List.map_eq_cons_iff.mp hvs
  obtain ⟨f, hf, hlike⟩ := hfirst.atom (.symbol .semicolon) us hus
  obtain ⟨g, hg, hlike'⟩ := hsecond.group hnext ws hws
  have hoperator : ∀ tier : Tier, tier.operator? (.symbol .semicolon) = none := by
    intro tier
    cases tier <;> rfl
  have hpipe : Derives Tier.pipe.operand us (.symbol .semicolon) f :=
    (hf.to_unary nofun nofun).to_operand fun t _ => hoperator t
  exact ⟨_, .sequence (hpipe.to_tier .pipe (hoperator _)) hsemi hg, .of (.sequence hlike hlike') .none⟩

theorem readsBack_binding {name : String} {value body : Expr} {o : Option Expr} (hvalue : value.ReadsBack)
    (hbody : body.ReadsBack) (h : ∀ d ∈ o, d.ReadsBack) (hdecl : ∀ d ∈ o, d.isDeclaration = true) (p : Position) :
    (Expr.binding p name value body o).ReadsBack := by
  intro next hnext hand ts hts
  simp only [lexemes, List.flatten_cons, List.cons_append, List.nil_append] at hts
  obtain ⟨letWord, r, rfl, hlet, hr⟩ := List.map_eq_cons_iff.mp hts
  obtain ⟨nameToken, s, rfl, hname, hs⟩ := List.map_eq_cons_iff.mp hr
  obtain ⟨colons, t, rfl, hcolons, ht⟩ := List.map_eq_cons_iff.mp hs
  obtain ⟨us, v, rfl, hus, hv⟩ := List.map_eq_append_iff.mp ht
  obtain ⟨inWord, w, rfl, hin, hw⟩ := List.map_eq_cons_iff.mp hv
  obtain ⟨vs, ws, rfl, hvs, hws⟩ := List.map_eq_append_iff.mp hw
  obtain ⟨f, hf, hlike⟩ := hvalue.group (.keyword .inWord) us hus
  obtain ⟨g, hg, hlike'⟩ := hbody.group (ReadsBack.stops_chained hws hnext) vs hvs
  obtain ⟨o', ho, hlikes⟩ := ReadsBack.chained h hdecl hnext hand ws hws
  rw [← hin] at hf
  exact ⟨_, .binding hlet hname hcolons hf (.some hin hg) ho, .of (.binding hlike hlike' hlikes) .none⟩

theorem readsBack_function {name : Option String} {params : List String} {body : Expr} {o : Option Expr}
    (hbody : body.ReadsBack) (h : ∀ d ∈ o, d.ReadsBack) (hdecl : ∀ d ∈ o, d.isDeclaration = true) (p : Position) :
    (Expr.function p name params body o).ReadsBack := by
  intro next hnext hand ts hts
  simp only [lexemes, List.flatten_append, List.flatten_cons, List.flatten_nil, List.append_nil,
    List.cons_append, List.nil_append, List.append_assoc] at hts
  obtain ⟨fnWord, r, rfl, hfn, hr⟩ := List.map_eq_cons_iff.mp hts
  obtain ⟨ns, s, rfl, hns, hs⟩ := List.map_eq_append_iff.mp hr
  obtain ⟨gs, t, rfl, hgs, ht⟩ := List.map_eq_append_iff.mp hs
  obtain ⟨opening, ps, closing, rfl, hopen, hps, hclose⟩ := exists_of_grouped hgs
  obtain ⟨colons, u, rfl, hcolons, hu⟩ := List.map_eq_cons_iff.mp ht
  obtain ⟨us, v, rfl, hus, hv⟩ := List.map_eq_append_iff.mp hu
  obtain ⟨vs, ws, rfl, hvs, hws⟩ := List.map_eq_append_iff.mp hv
  obtain ⟨endWord, rfl, hend⟩ := List.map_eq_singleton_iff.mp hws
  have hoptional : OptionalName ns name := by
    cases name with
    | none =>
      obtain rfl := List.map_eq_nil_iff.mp hns
      exact .none
    | some n =>
      obtain ⟨t, rfl, ht⟩ := List.map_eq_singleton_iff.mp hns
      exact .some ht
  have hclosing : Symbol.closeParen ≠ .comma := nofun
  obtain ⟨names, hnames, hsame⟩ := Yields.listed (Yields.parameters params) hclosing hps
  obtain rfl := List.forall₂_eq_eq_eq ▸ hsame
  have hstops : Stops endWord.lexeme := hend ▸ Stops.keyword _
  have hand : endWord.lexeme ≠ .keyword .andWord := by
    rw [hend]
    exact nofun
  obtain ⟨f, hf, hlike⟩ := hbody.group (ReadsBack.stops_chained hvs hstops) us hus
  obtain ⟨o', ho, hlikes⟩ := ReadsBack.chained h hdecl hstops hand vs hvs
  have hf : Derives .sequence us (following (vs ++ [endWord]) next) f := by
    rw [following_append]
    exact hf
  exact ⟨_, .function hfn hoptional (.some hopen hnames hclose) hcolons hf ho (.some hend),
    .of (.function hlikes) (.some hlike)⟩

theorem readsBack {spell : Float → String} {e : Expr} (h : e.Printable spell) : e.ReadsBack := by
  induction h with
  | number _ =>
    intro next _ _ ts hts
    obtain ⟨t, rfl, ht⟩ := List.map_eq_singleton_iff.mp hts
    exact ⟨_, .number ht, .of .number .none⟩
  | string _ =>
    intro next _ _ ts hts
    obtain ⟨t, rfl, ht⟩ := List.map_eq_singleton_iff.mp hts
    exact ⟨_, .string ht, .of .string .none⟩
  | boolean =>
    intro next _ _ ts hts
    obtain ⟨t, rfl, ht⟩ := List.map_eq_singleton_iff.mp hts
    exact ⟨_, .boolean ht, .of .boolean .none⟩
  | nil =>
    intro next _ _ ts hts
    obtain ⟨opening, us, rfl, hopen, hus⟩ := List.map_eq_cons_iff.mp hts
    obtain ⟨closing, rfl, hclose⟩ := List.map_eq_singleton_iff.mp hus
    exact ⟨_, .nil hopen hclose, .of .nil .none⟩
  | ref _ =>
    intro next _ _ ts hts
    obtain ⟨t, rfl, ht⟩ := List.map_eq_singleton_iff.mp hts
    exact ⟨_, .ref ht, .of .ref .none⟩
  | list _ ih =>
    intro next _ _
    rw [lexemes]
    exact .list (ReadsBack.items ih .closeBracket) _ next
  | binary hop _ _ hleft hright => exact readsBack_binary hop hleft hright _
  | unary hop _ hoperand =>
    intro next hnext _ ts hts
    rw [lexemes] at hts
    obtain ⟨operator, us, rfl, hoperator, hus⟩ := List.map_eq_cons_iff.mp hts
    obtain ⟨f, hf, hlike⟩ := hoperand.atom next us hus
    have hop := hoperator ▸ UnaryOp.unaryOperator?_mark hop
    exact ⟨_, .unary hop (hf.to_unary hnext.arguments hnext.colons), .of (.unary hlike) .none⟩
  | call _ _ hcallee hargs =>
    intro next hnext _
    rw [lexemes]
    exact .call (hcallee.atom _) (ReadsBack.items hargs .closeParen) _ hnext.arguments
  | assign _ _ _ htarget hvalue hbody =>
    intro next hnext _ ts hts
    simp only [lexemes, List.flatten_cons, List.flatten_nil, List.append_nil, List.cons_append, List.nil_append] at hts
    obtain ⟨us, r, rfl, hus, hr⟩ := List.map_eq_append_iff.mp hts
    obtain ⟨colons, s, rfl, hcolons, hs⟩ := List.map_eq_cons_iff.mp hr
    obtain ⟨vs, t, rfl, hvs, ht⟩ := List.map_eq_append_iff.mp hs
    obtain ⟨inWord, ws, rfl, hin, hws⟩ := List.map_eq_cons_iff.mp ht
    obtain ⟨f, hf, hlike⟩ := htarget.atom (.symbol .doubleColon) us hus
    obtain ⟨g, hg, hlike'⟩ := hvalue.group (.keyword .inWord) vs hvs
    obtain ⟨k, hk, hlike''⟩ := hbody.group hnext ws hws
    exact ⟨_, .assign (hf.to_application nofun) hcolons hg hin hk, .of (.assign hlike hlike' hlike'') .none⟩
  | sequence _ _ hfirst hsecond => exact readsBack_sequence hfirst hsecond _
  | branch _ _ _ htest hyes hno =>
    intro next hnext _
    rw [lexemes]
    exact .branch (htest.group (.keyword _)) (hyes.group (.keyword _)) (hno.group hnext) _
  | binding _ _ _ _ hdecl hvalue hbody hnext => exact readsBack_binding hvalue hbody hnext hdecl _
  | function _ _ _ _ hdecl hbody hnext => exact readsBack_function hbody hnext hdecl _

end Expr

/-- Parsing undoes printing. -/
theorem parse_print (spell : Float → String) (e : Expr) (h : e.Printable spell) :
    ∃ e', parse (e.print spell) = .ok e' ∧ e'.Alike e := by
  obtain ⟨hlexemes, eof, hending⟩ := (Expr.writes_print h).tokens_eq 0 {}
  obtain ⟨e', he', hlike⟩ := (Expr.readsBack h .endOfInput .endOfInput nofun).to_sequence .endOfInput _ hlexemes
  have hprogram : Program (Tokens.scan (e.print spell)).front e' :=
    ⟨_, [], (List.append_nil _).symm, nofun, he'⟩
  rcases parse_cases hending with ⟨f, hparse, hf⟩ | ⟨_, _, hnone⟩
  · rw [Parser.program_unique hf hprogram] at hparse
    exact ⟨e', hparse, hlike⟩
  · exact absurd ⟨e', hprogram⟩ hnone

def Expr.shift : Expr :=
  .function {} (some "f") ["x"] (.binary {} .add (.ref {} "x") (.number {} (Decimal.ofNumeral ['0'] ['5'] 0)))
    (some (.binding {} "y" (.call {} (.ref {} "f") []) (.nil {}) none))

/-- The `end` after the chained declaration closes the function. -/
theorem parse_print_shift :
    Expr.shift.print (fun _ => "0.5") = "fn f(x) :: ((x) + (0.5)) and let y :: ((f)()) in (()) end" ∧
      ∃ e, parse "fn f(x) :: ((x) + (0.5)) and let y :: ((f)()) in (()) end" = .ok e ∧ e.Alike Expr.shift := by
  have htext : Expr.shift.print (fun _ => "0.5") = "fn f(x) :: ((x) + (0.5)) and let y :: ((f)()) in (()) end" := rfl
  have hf : IsName "f" := ⟨⟨'f', [], rfl, by decide, nofun⟩, by decide⟩
  have hx : IsName "x" := ⟨⟨'x', [], rfl, by decide, nofun⟩, by decide⟩
  have hy : IsName "y" := ⟨⟨'y', [], rfl, by decide, nofun⟩, by decide⟩
  have hhalf : IsNumeral "0.5" (Decimal.ofNumeral ['0'] ['5'] 0) :=
    .fraction (show ['0'] ≠ [] from nofun) (List.forall_mem_singleton.mpr rfl) (show ['5'] ≠ [] from nofun)
      (List.forall_mem_singleton.mpr rfl)
  have hprintable : Expr.shift.Printable fun _ => "0.5" := by
    refine .function (fun n hn => ?_) (fun n hn => ?_) (.binary (by decide) (.ref hx) (.number hhalf))
      (fun d hd => ?_) fun d hd => ?_
    · cases hn
      exact hf
    · rw [List.mem_singleton.mp hn]
      exact hx
    · cases hd
      exact .binding hy (.call (.ref hf) nofun) .nil nofun nofun
    · cases hd
      rfl
  refine ⟨htext, ?_⟩
  rw [← htext]
  exact parse_print _ _ hprintable

end Curried
