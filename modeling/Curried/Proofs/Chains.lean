/-
  Curried.Proofs.Chains — chained declarations run like a sequence.

  A chain (`Declaration.chain`) runs each declaration inside the one before it; a sequence (`Declaration.inSequence`)
  runs each of them a level deeper, and the rest beside it. They end in the same way, with the same machine, unless one
  of them overflows (`evaluate_chain`). What a declaration computes is made of expressions that have settled their own
  faults (`Quiet`), so the expressions around it report nothing and change nothing; and the level that a declaration is
  deeper matters to the limit alone.
-/

import Curried.Proofs.Depth
import Curried.Proofs.Reports

namespace Curried

open Evaluator

/-! ## Quiet computations -/

def KeepsDepth {α : Type} (x : Eval α) : Prop := ∀ m, (Eval.left (x m)).depth = m.depth

theorem KeepsDepth.setDepth_eq {x : Eval Value} (hx : KeepsDepth x) (m : Machine) : setDepth m.depth (x m) = x m := by
  have hm := hx m
  cases hr : x m with
  | ok v n =>
    rw [hr] at hm
    rw [← hm]
    rfl
  | error y n =>
    rw [hr] at hm
    rw [← hm]
    rfl

/-- A halt that every expression passes on as it is: another one inside has settled it, or it is an overflow. -/
def Halt.IsSettled (m : Machine) : Halt → Prop
  | .fault f => f.severity = .fatal ∧ f.position.isSome = true ∧ m.hadError = true
  | .crash _ => False
  | .exhausted | .exit => True

def EndsQuietly {α : Type} (depth : Nat) : EStateM.Result Halt Machine α → Prop
  | .ok _ m => m.depth = depth
  | .error x m => m.depth = depth ∧ x.IsSettled m

def Quiet {α : Type} (x : Eval α) : Prop := ∀ m, EndsQuietly m.depth (x m)

theorem settleFault_quiet (h : Host) (e : Expr) (f : Fault) (m : Machine) (depth : Nat) :
    EndsQuietly depth (setDepth depth (settleFault h e f m)) := by
  have hnoticed : (m.reportOnce h (f.blame e.position).issue).hadError = true := by
    unfold Machine.reportOnce
    split
    · assumption
    · rfl
  unfold settleFault
  dsimp only
  cases hseverity : (f.blame e.position).severity with
  | fatal => exact ⟨rfl, hseverity, rfl, hnoticed⟩
  | error => rfl

theorem settle_quiet (h : Host) (e : Expr) (r : EStateM.Result Halt Machine Value) (depth : Nat) :
    EndsQuietly depth (setDepth depth (settle h e r)) := by
  cases r with
  | ok v m => rfl
  | error x m =>
    cases x with
    | fault f => exact settleFault_quiet h e f m depth
    | crash c => exact settleFault_quiet h e (.of (.crashed c)) m depth
    | exhausted => exact ⟨rfl, trivial⟩
    | exit => exact ⟨rfl, trivial⟩

theorem evaluate_quiet (h : Host) (k : Nat) (e : Expr) (frame : FrameId) : Quiet (evaluate h k e frame) := by
  intro m
  cases k with
  | zero =>
    rw [evaluate]
    exact ⟨rfl, trivial⟩
  | succ k =>
    rw [evaluate, deeper]
    dsimp only
    split
    · exact ⟨rfl, trivial⟩
    · exact settle_quiet h e _ m.depth

namespace Quiet

variable {α β : Type}

theorem pure (a : α) : Quiet (Pure.pure a : Eval α) := fun _ => rfl

theorem freshId : Quiet Eval.freshId := fun _ => rfl

theorem define (frame : FrameId) (name : String) (v : Value) : Quiet (Eval.define frame name v) := fun _ => rfl

theorem bind {x : Eval α} {f : α → Eval β} (hx : Quiet x) (hf : ∀ a, Quiet (f a)) : Quiet (x >>= f) := by
  intro m
  have hm := hx m
  show EndsQuietly m.depth (EStateM.bind x f m)
  unfold EStateM.bind
  cases hr : x m with
  | ok a n =>
    rw [hr] at hm
    have hn : n.depth = m.depth := hm
    rw [← hn]
    exact hf a n
  | error y n =>
    rw [hr] at hm
    exact hm

theorem keepsDepth {x : Eval α} (hx : Quiet x) : KeepsDepth x := by
  intro m
  have hm := hx m
  cases hr : x m with
  | ok a n =>
    rw [hr] at hm
    exact hm
  | error y n =>
    rw [hr] at hm
    exact hm.1

end Quiet

/-! ## An expression around a computation -/

variable {h : Host} {m : Machine}

theorem overflows_setDepth {r : EStateM.Result Halt Machine Value} (hr : Overflows r) (depth : Nat) :
    Overflows (setDepth depth r) := by
  cases r with
  | ok v m => exact hr
  | error x m => cases x <;> exact hr

theorem overflows_settle (e : Expr) {r : EStateM.Result Halt Machine Value} (hr : Overflows r) :
    Overflows (settle h e r) := by
  cases r with
  | ok v m => exact hr
  | error x m =>
    cases x with
    | fault f => exact hr.elim
    | crash c => exact hr.elim
    | exhausted => trivial
    | exit => trivial

/-- What is settled is not settled again. -/
theorem settle_eq_self (e : Expr) {r : EStateM.Result Halt Machine Value} {depth : Nat} (hquiet : EndsQuietly depth r)
    (hr : ¬ Overflows r) : settle h e r = r := by
  cases r with
  | ok v m => rfl
  | error x m =>
    obtain ⟨-, hx⟩ := hquiet
    cases x with
    | fault f =>
      obtain ⟨hfatal, hplaced, hnoticed⟩ := hx
      exact Reports.settleFault_passes h e hfatal hplaced hnoticed
    | crash c => exact hx.elim
    | exhausted => exact absurd trivial hr
    | exit => exact absurd trivial hr

theorem overflows_deeper (e : Expr) {x : Eval Value}
    (hover : h.maxDepth < (m.depth + 1 : Nat) ∨ Overflows (x { m with depth := m.depth + 1 })) :
    Overflows (deeper h e x m) := by
  unfold deeper
  dsimp only
  refine overflows_setDepth ?_ _
  split
  · trivial
  · rename_i hroom
    rcases hover with hover | hover
    · exact absurd hover hroom
    · exact overflows_settle e hover

theorem deeper_eq {e : Expr} {x : Eval Value} (hx : Quiet x) (hroom : ¬ h.maxDepth < (m.depth + 1 : Nat))
    (hr : ¬ Overflows (x { m with depth := m.depth + 1 })) :
    deeper h e x m = setDepth m.depth (x { m with depth := m.depth + 1 }) := by
  unfold deeper
  dsimp only
  rw [if_neg hroom, settle_eq_self e (hx _) hr]

/-- Around a quiet computation an expression does nothing, unless it overflows. -/
theorem deeper_cases (e : Expr) {x : Eval Value} (hx : Quiet x) (m : Machine) :
    Overflows (deeper h e x m) ∨
      ¬ h.maxDepth < (m.depth + 1 : Nat) ∧ ¬ Overflows (x { m with depth := m.depth + 1 }) ∧
        deeper h e x m = setDepth m.depth (x { m with depth := m.depth + 1 }) := by
  by_cases hroom : h.maxDepth < (m.depth + 1 : Nat)
  · exact Or.inl (overflows_deeper e (Or.inl hroom))
  by_cases hover : Overflows (x { m with depth := m.depth + 1 })
  · exact Or.inl (overflows_deeper e (Or.inr hover))
  exact Or.inr ⟨hroom, hover, deeper_eq hx hroom hover⟩

theorem Agrees.bind {x x' : Eval Value} {f f' : Value → Eval Value} (hx : Agrees (x m) (x' m))
    (hf : ∀ v n, Agrees (f v n) (f' v n)) : Agrees ((x >>= f) m) ((x' >>= f') m) := by
  show Agrees (EStateM.bind x f m) (EStateM.bind x' f' m)
  unfold EStateM.bind
  rcases hx with hover | hsame
  · left
    cases hr : x m with
    | ok v n =>
      rw [hr] at hover
      exact hover.elim
    | error y n =>
      rw [hr] at hover
      exact overflows_setDepth hover n.depth
  · rw [hsame]
    cases x m with
    | ok v n => exact hf v n
    | error y n => exact Or.inr rfl

/-! ## Declarations -/

/-- A declaration without the one that is chained to it. -/
inductive Declaration where
  | binding (p : Position) (name : String) (value body : Expr)
  | function (p : Position) (name : Option String) (params : List String) (body : Expr)

namespace Declaration

def expr : Declaration → Option Expr → Expr
  | .binding p name value body, next => .binding p name value body next
  | .function p name params body, next => .function p name params body next

def chain (d : Declaration) : List Declaration → Expr
  | [] => d.expr none
  | c :: ds => d.expr (some (chain c ds))

/-- Declarations one after the other, each sequence at a place of its own. -/
def inSequence (d : Declaration) : List (Position × Declaration) → Expr
  | [] => d.expr none
  | (p, c) :: ds => .sequence p (d.expr none) (inSequence c ds)

variable {ev : Expr → FrameId → Eval Value} {ap : Value → Value → Eval Value}

/-- What is chained to a declaration runs after it, and its value is the one that counts. -/
theorem expression_expr (d : Declaration) (next : Expr) (frame : FrameId) :
    expression ev ap (d.expr (some next)) frame = (do
      let _ ← expression ev ap (d.expr none) frame
      ev next frame) := by
  cases d with
  | binding p name value body => simp [expr, expression, Evaluator.binding]
  | function p name params body =>
    cases name with
    | none => simp [expr, expression, Evaluator.function]
    | some name => simp [expr, expression, Evaluator.function]

theorem expression_quiet (hev : ∀ e frame, Quiet (ev e frame)) (d : Declaration) (frame : FrameId) :
    Quiet (expression ev ap (d.expr none) frame) := by
  cases d with
  | binding p name value body =>
    refine (hev value frame).bind fun v => ?_
    refine (Quiet.define frame name v).bind fun _ => ?_
    exact (hev body frame).bind .pure
  | function p name params body =>
    refine Quiet.freshId.bind fun id => ?_
    cases name with
    | none => exact .pure _
    | some name => exact (Quiet.define frame name _).bind fun _ => .pure _

/-- A declaration by itself computes what it does inside the expression that runs it: it is one level deeper, and there
is nothing left to settle. -/
theorem evaluate_expr (h : Host) (d : Declaration) {k k' : Nat} (hk : k ≤ k') (frame : FrameId) (m : Machine) :
    Agrees (evaluate h k (d.expr none) frame m) (expression (evaluate h k') (apply h k') (d.expr none) frame m) := by
  cases k with
  | zero =>
    rw [evaluate]
    exact Or.inl trivial
  | succ k =>
    have hquiet : ∀ k, Quiet (expression (evaluate h k) (apply h k) (d.expr none) frame) :=
      fun k => expression_quiet (evaluate_quiet h k) d frame
    have hm : Depth.Machines h h { m with depth := m.depth + 1 } m := ⟨m.depth, rfl, by dsimp only; omega⟩
    have hends := Depth.expression_ends (.refl h) (Nat.le_of_succ_le hk) hm (d.expr none) frame
    rw [evaluate]
    rcases deeper_cases (d.expr none) (hquiet k) m with hover | ⟨-, hover, heq⟩
    · exact Or.inl hover
    · right
      rw [heq, ← hends.resolve_left hover, (hquiet k').keepsDepth.setDepth_eq]

/-- A chain ends as its sequence does, unless that overflows. -/
theorem chain_agrees (h : Host) (d : Declaration) (ds : List (Position × Declaration)) {k k' : Nat} (hk : k ≤ k')
    (frame : FrameId) (m : Machine) :
    Agrees (evaluate h k (d.inSequence ds) frame m) (evaluate h k' (d.chain (ds.map (·.2))) frame m) := by
  induction ds generalizing d k k' m with
  | nil => exact Depth.evaluate_agrees (Int.le_refl _) (.refl h) hk (d.expr none) frame m
  | cons c ds ih =>
    obtain ⟨p, c⟩ := c
    match k, k', hk with
    | 0, k', hk =>
      rw [evaluate]
      exact Or.inl trivial
    | k + 1, k' + 1, hk =>
      have hk' : k ≤ k' := Nat.le_of_succ_le_succ hk
      -- both run the declaration and then the rest; the sequence runs the declaration a level deeper
      have hbody : Agrees
          (expression (evaluate h k) (apply h k) (d.inSequence ((p, c) :: ds)) frame { m with depth := m.depth + 1 })
          (expression (evaluate h k') (apply h k') (d.chain (c :: ds.map (·.2))) frame
            { m with depth := m.depth + 1 }) := by
        rw [chain, expression_expr, inSequence]
        exact Agrees.bind (evaluate_expr h d hk' frame _) fun _ n => ih c hk' n
      have hsequence : Quiet (expression (evaluate h k) (apply h k) (d.inSequence ((p, c) :: ds)) frame) :=
        (evaluate_quiet h k _ frame).bind fun _ => evaluate_quiet h k _ frame
      have hchain : Quiet (expression (evaluate h k') (apply h k') (d.chain (c :: ds.map (·.2))) frame) := by
        rw [chain, expression_expr]
        exact (expression_quiet (evaluate_quiet h k') d frame).bind fun _ => evaluate_quiet h k' _ frame
      rw [List.map_cons, evaluate, evaluate]
      rcases deeper_cases _ hsequence m with hover | ⟨hroom, hover, heq⟩
      · exact Or.inl hover
      · have hsame := hbody.resolve_left hover
        right
        rw [heq, deeper_eq hchain hroom (by rwa [hsame]), hsame]

end Declaration

/-- Chained declarations end in the same way as a sequence of them, and leave the same machine, where neither
overflows. -/
theorem evaluate_chain (h : Host) (d : Declaration) (ds : List (Position × Declaration)) (k k' : Nat) (frame : FrameId)
    (m : Machine) (hchain : ¬ Overflows (evaluate h k (d.chain (ds.map (·.2))) frame m))
    (hsequence : ¬ Overflows (evaluate h k' (d.inSequence ds) frame m)) :
    evaluate h k (d.chain (ds.map (·.2))) frame m = evaluate h k' (d.inSequence ds) frame m := by
  have hmore := Depth.evaluate_agrees (h := h) (Int.le_refl _) (.refl h) (Nat.le_max_left k k') (d.chain (ds.map (·.2)))
    frame m
  have hlike := Declaration.chain_agrees h d ds (Nat.le_max_right k k') frame m
  rw [← hmore.resolve_left hchain, hlike.resolve_left hsequence]

/-- A chain that is cut short by a name without a value: the function after it is not made. -/
theorem evaluate_chain_cut :
    let x : Declaration := .binding ⟨1, 1⟩ "x" (.boolean ⟨1, 5⟩ true) (.nil ⟨1, 9⟩)
    let y : Declaration := .binding ⟨2, 1⟩ "y" (.ref ⟨2, 5⟩ "z") (.nil ⟨2, 9⟩)
    let f : Declaration := .function ⟨3, 1⟩ (some "f") [] (.nil ⟨3, 5⟩)
    let m : Machine := { store := ({} : Store).push none }
    ¬ Overflows (evaluate {} 4 (x.chain [y, f]) 0 m) ∧
      ¬ Overflows (evaluate {} 5 (x.inSequence [(⟨1, 1⟩, y), (⟨2, 1⟩, f)]) 0 m) ∧
      evaluate {} 4 (x.chain [y, f]) 0 m = evaluate {} 5 (x.inSequence [(⟨1, 1⟩, y), (⟨2, 1⟩, f)]) 0 m := by
  intro x y f m
  have hchain : ¬ Overflows (evaluate {} 4 (x.chain [y, f]) 0 m) := by decide +kernel
  have hsequence : ¬ Overflows (evaluate {} 5 (x.inSequence [(⟨1, 1⟩, y), (⟨2, 1⟩, f)]) 0 m) := by decide +kernel
  exact ⟨hchain, hsequence, evaluate_chain {} x [(⟨1, 1⟩, y), (⟨2, 1⟩, f)] 4 5 0 m hchain hsequence⟩

end Curried
