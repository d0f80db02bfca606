/-
  Curried.Proofs.Grammar.Closing — a phrase may end in any number of open constructs.

  A phrase that is complete at the end of input may end inside `let`, `fn`, `if` and assignments that are all still
  open, and each of them looks at what comes next. None of them can go on with a bracket that closes, a comma, `then` or
  `else`, so before these the phrase is complete, too. With `end` a function that is open does go on; but it only takes
  the `end`, and its tree is the same. So whatever number of `end`s comes after a phrase, it takes as many as it has use
  for and keeps its tree (`derives_absorbs`).
-/

import Curried.Proofs.Grammar.Completion

namespace Curried.Grammar

/-- A lexeme that continues no expression and no declaration, and brings no body to a `let`. -/
structure Bounds (next : Lexeme) : Prop extends Closes next where
  body : next ≠ .keyword .inWord

namespace Bounds

theorem closeParen : Bounds (.symbol .closeParen) := ⟨.closeParen, nofun⟩

theorem closeBracket : Bounds (.symbol .closeBracket) := ⟨.closeBracket, nofun⟩

theorem comma : Bounds (.symbol .comma) := ⟨⟨.comma, nofun, nofun⟩, nofun⟩

theorem thenWord : Bounds (.keyword .thenWord) := ⟨.thenWord, nofun⟩

theorem elseWord : Bounds (.keyword .elseWord) := ⟨.elseWord, nofun⟩

theorem endOfInput : Bounds .endOfInput := ⟨.endOfInput, nofun⟩

end Bounds

inductive Trails : Lexeme → Prop
  | finish : Trails (.keyword .endWord)
  | bound {next : Lexeme} : Bounds next → Trails next

namespace Trails

variable {next : Lexeme}

theorem stops (h : Trails next) : Stops next := by
  cases h with
  | finish => exact .keyword _
  | bound h => exact h.toStops

theorem body (h : Trails next) : next ≠ .keyword .inWord := by
  cases h with
  | finish => exact nofun
  | bound h => exact h.body

theorem chain (h : Trails next) : next ≠ .keyword .andWord := by
  cases h with
  | finish => exact nofun
  | bound h => exact h.chain

theorem following {ends : List Token} (hends : ∀ t ∈ ends, t.lexeme = .keyword .endWord) (hnext : Bounds next) :
    Trails (following ends next) := by
  cases ends with
  | nil => exact .bound hnext
  | cons t ends =>
    show Trails t.lexeme
    rw [hends t List.mem_cons_self]
    exact .finish

end Trails

/-- Whatever number of `end`s comes after the tokens, and whatever bounds them, they are a phrase with as many of the
`end`s as it has use for. -/
def Absorbs {α : Type} (P : Phrase α) (ts : List Token) (a : α) : Prop :=
  ∀ ends next, (∀ t ∈ ends, t.lexeme = .keyword .endWord) → Bounds next →
    ∃ taken left, ends = taken ++ left ∧ P (ts ++ taken) (following left next) a

namespace Absorbs

variable {α β : Type} {P : Phrase α} {Q : Phrase β} {ts us : List Token} {a : α} {b : β}

/-- A phrase that has no use for any. -/
theorem closed (h : ∀ next, Trails next → P ts next a) : Absorbs P ts a := by
  intro ends next hends hnext
  refine ⟨[], ends, rfl, ?_⟩
  rw [List.append_nil]
  exact h _ (.following hends hnext)

/-- What the last part of a phrase takes, the phrase takes. -/
theorem last (h : Absorbs P ts a) (hPQ : ∀ vs next, Trails next → P (ts ++ vs) next a → Q (us ++ vs) next b) :
    Absorbs Q us b := by
  intro ends next hends hnext
  obtain ⟨taken, left, rfl, hP⟩ := h ends next hends hnext
  have hleft := (List.forall_mem_append.mp hends).2
  exact ⟨taken, left, rfl, hPQ taken _ (.following hleft hnext) hP⟩

/-- A phrase that takes an `end` of its own after its last part. -/
theorem finish (h : Absorbs P ts a) (hPQ : ∀ vs ws next, OptionalEnd ws next → P (ts ++ vs) (following ws next) a →
    Q (us ++ (vs ++ ws)) next b) : Absorbs Q us b := by
  intro ends next hends hnext
  obtain ⟨taken, left, rfl, hP⟩ := h ends next hends hnext
  have hleft := (List.forall_mem_append.mp hends).2
  cases left with
  | nil =>
    refine ⟨taken, [], rfl, ?_⟩
    have hQ := hPQ taken [] next (.none hnext.finish) hP
    rwa [List.append_nil] at hQ
  | cons t left =>
    obtain ⟨ht, hleft⟩ := List.forall_mem_cons.mp hleft
    refine ⟨taken ++ [t], left, by rw [List.append_assoc]; rfl, ?_⟩
    exact hPQ taken [t] _ (.some ht) hP

end Absorbs

def Phrase.before {α β : Type} (P : Phrase α) (a : α) (Q : Phrase β) : Phrase β :=
  fun ts next b => ∃ us vs, ts = us ++ vs ∧ P us (following vs next) a ∧ Q vs next b

/-- Of two phrases the second takes the `end`s, unless it is empty. -/
theorem Absorbs.before {α β : Type} {P : Phrase α} {Q : Phrase β} {us vs : List Token} {next : Lexeme} {a : α} {b : β}
    (hP : P us (following vs next) a) (hfirst : Bounds (following vs next) → Absorbs P us a) (hb : Bounds next)
    (hsecond : Absorbs Q vs b) (hempty : vs = [] → ∀ next, Trails next → Q [] next b) :
    Absorbs (P.before a Q) (us ++ vs) b := by
  cases vs with
  | nil =>
    rw [List.append_nil]
    refine (hfirst hb).last fun ws next hnext hws => ?_
    exact ⟨us ++ ws, [], (List.append_nil _).symm, hws, hempty rfl next hnext⟩
  | cons t vs =>
    refine hsecond.last fun ws next _ hws => ?_
    exact ⟨us, t :: vs ++ ws, List.append_assoc .., hP, hws⟩

/-- Where nothing is taken, only the part's first lexeme must not come next. -/
theorem operations_empty {tier : Tier} {e f : Expr} {next next' : Lexeme} (h : Operations tier e [] next f)
    (hnext : tier.operator? next' = none) : Operations tier e [] next' f := by
  cases h with
  | none _ => exact .none hnext

theorem continued_empty {word : Keyword} {n : Nonterminal} {o : Option Expr} {next next' : Lexeme}
    (h : Continued word n [] next o) (hnext : next' ≠ .keyword word) : Continued word n [] next' o := by
  cases h with
  | none _ => exact .none hnext

/-- Calls end with a parenthesis, if there are any. -/
theorem calls_absorb {e f : Expr} {ts : List Token} {next : Lexeme} :
    Calls e ts next f → ∀ next', Trails next' → Calls e ts next' f
  | .none _, _, hnext => .none hnext.stops.arguments
  | .more hopen hargs hclose hcalls, next', hnext => .more hopen hargs hclose (calls_absorb hcalls next' hnext)

mutual

theorem derives_absorbs {n : Nonterminal} {ts : List Token} {next : Lexeme} {e : Expr} :
    Derives n ts next e → Bounds next → Absorbs (Derives n) ts e
  | .single h _, hb => (derives_absorbs h hb).last fun _ _ hnext hvs => .single hvs hnext.stops.semicolon
  | .sequence h hsemicolon h', hb => (derives_absorbs h' hb).last fun vs _ _ hvs => by
    rw [List.append_assoc, List.cons_append]
    exact .sequence h hsemicolon hvs
  | .left hgroup h hoperations, hb => by
    refine (Absorbs.before h (derives_absorbs h) hb (operations_absorb hoperations hb) ?_).last ?_
    · rintro rfl next hnext
      exact operations_empty hoperations (hnext.stops.operator _)
    · rintro ws next - ⟨us, vs, heq, hus, hvs⟩
      rw [heq]
      exact .left hgroup hus hvs
  | .operand hgroup h _, hb =>
    (derives_absorbs h hb).last fun _ _ hnext hvs => .operand hgroup hvs (hnext.stops.operator _)
  | .right hgroup h hop h', hb => (derives_absorbs h' hb).last fun vs _ _ hvs => by
    rw [List.append_assoc, List.cons_append]
    exact .right hgroup h hop hvs
  | .unary hop h, hb => (derives_absorbs h hb).last fun _ _ _ hvs => .unary hop hvs
  | .unsigned h, hb => (derives_absorbs h hb).last fun _ _ _ hvs => .unsigned hvs
  | .target h _, hb => (derives_absorbs h hb).last fun _ _ hnext hvs => .target hvs hnext.stops.colons
  | .assign htarget hcolons hvalue hin h, hb => (derives_absorbs h hb).last fun vs _ _ hvs => by
    simp only [List.append_assoc, List.cons_append]
    exact .assign htarget hcolons hvalue hin hvs
  | .application h hcalls, hb => by
    have hclosed := calls_absorb hcalls
    refine (Absorbs.before h (derives_absorbs h) hb (.closed hclosed) fun hnil => hnil ▸ hclosed).last ?_
    rintro ws next - ⟨us, vs, heq, hus, hvs⟩
    rw [heq]
    exact .application hus hvs
  | .declared h, hb => (derives_absorbs h hb).last fun _ _ _ hvs => .declared hvs
  | .branch hif htest hthen hyes helse h, hb => (derives_absorbs h hb).last fun vs _ _ hvs => by
    simp only [List.append_assoc, List.cons_append]
    exact .branch hif htest hthen hyes helse hvs
  | .number ht, _ => .closed fun _ _ => .number ht
  | .string ht, _ => .closed fun _ _ => .string ht
  | .boolean ht, _ => .closed fun _ _ => .boolean ht
  | .ref ht, _ => .closed fun _ _ => .ref ht
  | .nil hopen hclose, _ => .closed fun _ _ => .nil hopen hclose
  | .group hopen h hclose, _ => .closed fun _ _ => .group hopen h hclose
  | .list hopen hlisted hclose, _ => .closed fun _ _ => .list hopen hlisted hclose
  | .binding hlet hname hcolons hvalue hbody hchained, hb => by
    have hrest := Absorbs.before hbody (fun hb => continued_absorbs hbody hb fun _ => Trails.body) hb
      (continued_absorbs hchained hb fun _ => Trails.chain) fun hnil next hnext => by
        subst hnil
        exact continued_empty hchained hnext.chain
    refine (Absorbs.before hvalue (derives_absorbs hvalue) hb hrest ?_).last ?_
    · intro hnil next hnext
      obtain ⟨rfl, rfl⟩ := List.append_eq_nil_iff.mp hnil
      exact ⟨[], [], rfl, continued_empty hbody hnext.body, continued_empty hchained hnext.chain⟩
    · rintro ws next - ⟨us, _, heq, hvalue, vs, zs, rfl, hbody, hchained⟩
      simp only [List.cons_append, heq]
      exact .binding hlet hname hcolons hvalue hbody hchained
  | .function hfn hname hparams hcolons hbody hchained hend, hb => by
    have ihbody := derives_absorbs hbody
    have ihchained := continued_absorbs hchained
    cases hend with
    | some ht =>
      refine .closed fun next _ => .function hfn hname hparams hcolons ?_ hchained (.some ht)
      rwa [following_append] at hbody ⊢
    | none _ =>
      rw [List.append_nil] at hbody ihbody ⊢
      refine (Absorbs.before hbody ihbody hb (ihchained hb fun _ => Trails.chain) ?_).finish ?_
      · rintro rfl next hnext
        exact continued_empty hchained hnext.chain
      · rintro xs ws next hend ⟨us, vs, heq, hbody, hchained⟩
        rw [← following_append] at hbody
        have hfunction := Derives.function hfn hname hparams hcolons hbody hchained hend
        rw [← List.append_assoc us, ← heq] at hfunction
        simpa only [List.append_assoc, List.cons_append] using hfunction

theorem operations_absorb {tier : Tier} {e f : Expr} {ts : List Token} {next : Lexeme} :
    Operations tier e ts next f → Bounds next → Absorbs (Operations tier e) ts f
  | .none _, _ => .closed fun _ hnext => .none (hnext.stops.operator _)
  | .more hop h hoperations, hb => by
    refine (Absorbs.before h (derives_absorbs h) hb (operations_absorb hoperations hb) ?_).last ?_
    · rintro rfl next hnext
      exact operations_empty hoperations (hnext.stops.operator _)
    · rintro ws next - ⟨us, vs, heq, hus, hvs⟩
      rw [List.cons_append, heq]
      exact .more hop hus hvs

theorem continued_absorbs {word : Keyword} {n : Nonterminal} {ts : List Token} {next : Lexeme} {o : Option Expr} :
    Continued word n ts next o → Bounds next → (∀ next, Trails next → next ≠ .keyword word) →
      Absorbs (Continued word n) ts o
  | .none _, _, hword => .closed fun next hnext => .none (hword next hnext)
  | .some ht h, hb, _ => (derives_absorbs h hb).last fun _ _ _ hvs => .some ht hvs

end

/-- A phrase before one lexeme that bounds it is a phrase before any other. -/
theorem Derives.rebound {n : Nonterminal} {ts : List Token} {next next' : Lexeme} {e : Expr} (h : Derives n ts next e)
    (hnext : Bounds next) (hnext' : Bounds next') : Derives n ts next' e := by
  obtain ⟨taken, left, hnil, hderives⟩ := derives_absorbs h hnext [] next' nofun hnext'
  obtain ⟨rfl, rfl⟩ := List.append_eq_nil_iff.mp hnil.symm
  rwa [List.append_nil] at hderives

/-- An expression with any number of `end`s after it is a program, with the same tree. -/
theorem Derives.program {ts ends : List Token} {next : Lexeme} {e : Expr} (h : Derives .sequence ts next e)
    (hnext : Bounds next) (hends : ∀ t ∈ ends, t.lexeme = .keyword .endWord) : Program (ts ++ ends) e := by
  obtain ⟨taken, left, rfl, hderives⟩ := derives_absorbs h hnext ends .endOfInput hends .endOfInput
  exact ⟨ts ++ taken, left, (List.append_assoc ..).symm, (List.forall_mem_append.mp hends).2, hderives⟩

end Curried.Grammar
