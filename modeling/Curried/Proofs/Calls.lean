/-
  Curried.Proofs.Calls — a call with all its arguments, and a call of what a call gives.

  `f(a)(b)` evaluates `f(a)` one level deeper than `f(a, b)` applies `f` to `a`; asks whether that gave a function before
  it evaluates `b`, where `f(a, b)` asks after it; and settles the faults of `f(a)` by itself. The first matters to the
  limit alone, the second decides only which error there is. The third would matter if `f(a)` could fail without being
  fatal, for then it has the value nil: so no native function of the host may do that (`Host.IsGrave`), and then a
  failure of any part is a failure of the whole (`expression_decides`). What is left has the same value and leaves the
  same machine (`evaluate_call_append`).
-/

import Curried.Proofs.Callbacks
import Curried.Proofs.Chains
import Curried.Proofs.Invariant

namespace Curried

open Evaluator

/-! ## Depth -/

namespace KeepsDepth

variable {α β : Type}

theorem pure (a : α) : KeepsDepth (Pure.pure a : Eval α) := fun _ => rfl

theorem fault (r : Reason) : KeepsDepth (Eval.fault r : Eval α) := fun _ => rfl

theorem lift (x : Except Fault α) : KeepsDepth (Eval.lift x) := by
  intro m
  cases x with
  | ok a => rfl
  | error f => rfl

theorem bind {x : Eval α} {f : α → Eval β} (hx : KeepsDepth x) (hf : ∀ a, KeepsDepth (f a)) : KeepsDepth (x >>= f) := by
  intro m
  have hm := hx m
  show (Eval.left (EStateM.bind x f m)).depth = m.depth
  unfold EStateM.bind
  cases hr : x m with
  | ok a n =>
    rw [hr] at hm
    exact (hf a n).trans hm
  | error y n =>
    rw [hr] at hm
    exact hm

theorem foldlM {f : β → α → Eval β} (hf : ∀ b a, KeepsDepth (f b a)) (xs : List α) (b : β) :
    KeepsDepth (xs.foldlM f b) := by
  induction xs generalizing b with
  | nil => exact .pure b
  | cons a xs ih =>
    rw [List.foldlM_cons]
    exact (hf b a).bind ih

end KeepsDepth

namespace Library

variable {apply : Value → Value → Eval Value} (happ : ∀ f v, KeepsDepth (apply f v))
include happ

theorem Called.depth {hand hand' : List Value} {m m' : Machine} (h : Called apply hand m hand' m') :
    m'.depth = m.depth := by
  induction h with
  | refl => rfl
  | @call _ _ m₁ _ f v _ _ _ _ _ hu ih =>
    have hm := happ f v m₁
    rw [hu] at hm
    exact hm.trans ih

/-- What only applies functions keeps the depth if they do. -/
theorem Employs.keepsDepth {α : Type} {hand : List Value} {Q : List Value → α → Prop} {x : Eval α}
    (hx : Employs apply hand Q x) : KeepsDepth x := by
  intro m
  have hr := hx m
  generalize x m = r at hr ⊢
  cases hr with
  | ok hc _ => exact hc.depth happ
  | failed hx =>
    cases hx with
    | own hc _ => exact hc.depth happ
    | @callback _ m₁ _ f v _ hc _ _ _ hf =>
      have hm := happ f v m₁
      rw [hf] at hm
      exact hm.trans (hc.depth happ)

theorem run_keepsDepth (compile : Regex.Compiler) (b : Builtin) (args : List Value) :
    KeepsDepth (run compile apply b args) := by
  refine run_cases b args ?_ ?_ ?_ ?_
  · intro Q x hx
    exact hx.keepsDepth happ
  · rintro v rfl rfl
    exact (KeepsDepth.lift _).bind fun _ _ => rfl
  · rintro rfl m
    exact congrArg (·.depth) m.readLine_eq
  · rintro v rfl rfl
    exact .lift _

end Library

theorem evaluate_keepsDepth (h : Host) (k : Nat) (e : Expr) (frame : FrameId) : KeepsDepth (evaluate h k e frame) :=
  (evaluate_quiet h k e frame).keepsDepth

theorem apply_keepsDepth (h : Host) (k : Nat) (f v : Value) : KeepsDepth (apply h k f v) := by
  induction k generalizing f v with
  | zero =>
    rw [apply]
    exact fun _ => rfl
  | succ k ih =>
    rw [apply]
    cases f with
    | closure id name params body frame =>
      have hframe : KeepsDepth (Eval.childFrame frame) := fun _ => rfl
      have hdefine : ∀ inner p, KeepsDepth (Eval.define inner p v) := fun _ _ _ => rfl
      refine hframe.bind fun inner => ?_
      cases params with
      | nil => exact evaluate_keepsDepth h k body inner
      | cons p rest =>
        cases rest with
        | nil => exact (hdefine inner p).bind fun _ => evaluate_keepsDepth h k body inner
        | cons q more => exact (hdefine inner p).bind fun _ _ => rfl
    | native id name arity code collected =>
      show KeepsDepth (applyNative (apply h k) h name arity code collected v)
      unfold applyNative
      dsimp only
      split
      · exact fun _ => rfl
      · cases code with
        | standard b => exact Library.run_keepsDepth ih h.compile b _
        | extension key =>
          intro m
          cases hr : h.extensions key (collected ++ [v]) <;> simp only [hr] <;> rfl
    | _ => exact .fault _

theorem call_keepsDepth (h : Host) (k : Nat) (callee : Expr) (args : List Expr) (frame : FrameId) :
    KeepsDepth (call (evaluate h k) (apply h k) callee args frame) := by
  have hnext : ∀ f v, KeepsDepth (Library.applyNext (apply h k) f v) := by
    intro f v
    unfold Library.applyNext
    split
    · exact apply_keepsDepth h k f v
    · exact .fault _
  refine (evaluate_keepsDepth h k callee frame).bind fun f => ?_
  split
  · cases args with
    | nil => exact apply_keepsDepth h k f .nil
    | cons arg args =>
      exact KeepsDepth.foldlM (fun g arg => (evaluate_keepsDepth h k arg frame).bind (hnext g)) (arg :: args) f
  · exact .fault _

/-! ## Failures -/

/-- No native function of the host fails without being fatal. -/
def Host.IsGrave (h : Host) : Prop :=
  ∀ key args message position, h.extensions key args ≠ .fault message .error position

/-- An ending without a value, and no expression around it makes one of it. -/
def IsGrave : EStateM.Result Halt Machine Value → Prop
  | .ok _ _ => False
  | .error (.fault f) _ => f.severity = .fatal
  | .error (.crash _) _ | .error .exhausted _ | .error .exit _ => True

/-- Two endings in the same value on the same machine, or both grave; if the first overflows, nothing is said. -/
def Concur (r r' : EStateM.Result Halt Machine Value) : Prop :=
  Overflows r ∨ (∃ v n, r = .ok v n ∧ r' = .ok v n) ∨ IsGrave r ∧ IsGrave r'

namespace Calls

def invariant : Invariant where
  value _ _ := True
  program _ _ _ := True
  machine _ := True
  fault f := f.severity = .fatal

variable {h : Host} (hgrave : h.IsGrave)
include hgrave

theorem invariant_laws : invariant.Laws h where
  values _ _ := trivial
  programs _ _ := trivial
  parts _ _ _ := trivial
  make _ _ := trivial
  enter _ _ _ := trivial
  curry _ _ := trivial
  collect _ _ := trivial
  fresh _ := trivial
  declare _ _ _ := trivial
  rebind _ _ := trivial
  entered _ _ := trivial
  write _ := trivial
  input _ := trivial
  atDepth _ := trivial
  log _ _ := trivial
  report _ _ _ := trivial
  overflow _ _ := trivial
  ordinary _ _ := rfl
  missing _ _ _ := rfl
  unknown _ _ := rfl
  refused _ := rfl
  blame _ hf := hf
  extension _ hm := by
    refine Invariant.reply_ended hm (fun _ _ _ _ _ => trivial) (fun message severity position hr => ?_) fun _ _ => rfl
    cases severity with
    | fatal => rfl
    | error => exact absurd hr (hgrave _ _ _ _)

/-- What an expression computes is a value, or there is none. -/
theorem expression_decides (k : Nat) (e : Expr) (frame : FrameId) (m : Machine) :
    (∃ v n, expression (evaluate h k) (apply h k) e frame m = .ok v n) ∨
      IsGrave (expression (evaluate h k) (apply h k) e frame m) := by
  have hholds : invariant.Holds m := ⟨fun _ _ _ _ _ _ _ => trivial, trivial⟩
  have hprogram : invariant.program m.store.size e frame := trivial
  have hended := Invariant.expression_ended (invariant_laws hgrave) k hprogram hholds
  cases hr : expression (evaluate h k) (apply h k) e frame m with
  | ok v n => exact Or.inl ⟨v, n, rfl⟩
  | error x n =>
    right
    rw [hr] at hended
    cases x with
    | fault f => exact hended.2.2 f rfl
    | crash c => trivial
    | exhausted => trivial
    | exit => trivial

omit hgrave

theorem isGrave_setDepth {r : EStateM.Result Halt Machine Value} (depth : Nat) :
    IsGrave (setDepth depth r) ↔ IsGrave r := by
  cases r with
  | ok v n => exact Iff.rfl
  | error x n => cases x <;> exact Iff.rfl

theorem isGrave_settle (e : Expr) {r : EStateM.Result Halt Machine Value} (hr : IsGrave r) :
    IsGrave (settle h e r) := by
  cases r with
  | ok v n => exact hr.elim
  | error x n =>
    cases x with
    | fault f =>
      have hfatal : (f.blame e.position).severity = .fatal := hr
      show IsGrave (settleFault h e f n)
      simp only [settleFault, hfatal, IsGrave]
    | crash c =>
      show IsGrave (settleFault h e (.of (.crashed c)) n)
      simp only [settleFault, Fault.of, Fault.blame, IsGrave]
    | exhausted => trivial
    | exit => trivial

theorem bind_of_ok {x : Eval Value} {f : Value → Eval Value} {m n : Machine} {v : Value} (hx : x m = .ok v n) :
    (x >>= f) m = f v n := by
  show EStateM.bind x f m = f v n
  simp only [EStateM.bind, hx]

theorem bind_of_grave {x : Eval Value} {f : Value → Eval Value} {m : Machine} (hx : IsGrave (x m)) :
    (x >>= f) m = x m := by
  show EStateM.bind x f m = x m
  unfold EStateM.bind
  cases hr : x m with
  | ok v n =>
    rw [hr] at hx
    exact hx.elim
  | error y n => rfl

theorem isGrave_of_overflows {r : EStateM.Result Halt Machine Value} (hr : Overflows r) : IsGrave r := by
  cases r with
  | ok v n => exact hr
  | error x n =>
    cases x with
    | fault f => exact hr.elim
    | crash c => exact hr.elim
    | exhausted => trivial
    | exit => trivial

/-! ## Endings that concur -/

/-- What two expressions make of endings that concur. -/
theorem deeper_concur (e e' : Expr) {x x' : Eval Value} {m : Machine}
    (hx : Concur (x { m with depth := m.depth + 1 }) (x' { m with depth := m.depth + 1 })) :
    Concur (deeper h e x m) (deeper h e' x' m) := by
  by_cases hlimit : h.maxDepth < (m.depth + 1 : Nat)
  · exact Or.inl (overflows_deeper e (Or.inl hlimit))
  rcases hx with hover | ⟨v, n, hr, hr'⟩ | ⟨hr, hr'⟩
  · exact Or.inl (overflows_deeper e (Or.inr hover))
  · refine Or.inr (Or.inl ⟨v, { n with depth := m.depth }, ?_, ?_⟩)
    · simp only [deeper, if_neg hlimit, hr, settle, setDepth]
    · simp only [deeper, if_neg hlimit, hr', settle, setDepth]
  · refine Or.inr (Or.inr ⟨?_, ?_⟩)
    · simp only [deeper, if_neg hlimit, isGrave_setDepth]
      exact isGrave_settle e hr
    · simp only [deeper, if_neg hlimit, isGrave_setDepth]
      exact isGrave_settle e' hr'

include hgrave

/-- A call as an expression of its own, and what it computes inside another: one level less deep, and not settled. -/
theorem evaluate_concurs (k : Nat) (p : Position) (callee : Expr) (args : List Expr) (frame : FrameId) (m : Machine) :
    Concur (evaluate h k (.call p callee args) frame m) (call (evaluate h k) (apply h k) callee args frame m) := by
  cases k with
  | zero =>
    rw [evaluate]
    exact Or.inl trivial
  | succ k =>
    have hm : Depth.Machines h h { m with depth := m.depth + 1 } m := ⟨m.depth, rfl, by dsimp only; omega⟩
    have hends := Depth.expression_ends (.refl h) (Nat.le_succ k) hm (.call p callee args) frame
    have hdecides := expression_decides hgrave k (.call p callee args) frame { m with depth := m.depth + 1 }
    rw [evaluate]
    simp only [expression] at hends hdecides ⊢
    by_cases hlimit : h.maxDepth < (m.depth + 1 : Nat)
    · exact Or.inl (overflows_deeper _ (Or.inl hlimit))
    rcases hends with hover | hsame
    · exact Or.inl (overflows_deeper _ (Or.inr hover))
    have hkept := (call_keepsDepth h (k + 1) callee args frame).setDepth_eq m
    rw [hsame m.depth] at hkept
    rcases hdecides with ⟨v, n, hr⟩ | hr
    · refine Or.inr (Or.inl ⟨v, { n with depth := m.depth }, ?_, ?_⟩)
      · simp only [deeper, if_neg hlimit, hr, settle, setDepth]
      · rw [← hkept, hr]
        rfl
    · refine Or.inr (Or.inr ⟨?_, ?_⟩)
      · simp only [deeper, if_neg hlimit, isGrave_setDepth]
        exact isGrave_settle _ hr
      · rw [← hkept, isGrave_setDepth]
        exact hr

omit hgrave

/-- Arguments after the first ones are applied to what those have given. -/
theorem call_append (k : Nat) (callee : Expr) {as : List Expr} (has : as ≠ []) (bs : List Expr) (frame : FrameId) :
    call (evaluate h k) (apply h k) callee (as ++ bs) frame =
      call (evaluate h k) (apply h k) callee as frame >>= bs.foldlM (applyTo (evaluate h k) (apply h k) frame) := by
  obtain ⟨a, as, rfl⟩ := List.exists_cons_of_ne_nil has
  unfold call
  rw [bind_assoc]
  congr 1
  funext f
  split
  · exact List.foldlM_append
  · rfl

/-- What is no function cannot be applied, whatever becomes of its argument. -/
theorem isGrave_applied (k : Nat) {f : Value} (hf : f.isFunction = false) {bs : List Expr} (hbs : bs ≠ [])
    (frame : FrameId) (m : Machine) : IsGrave (bs.foldlM (applyTo (evaluate h k) (apply h k) frame) f m) := by
  obtain ⟨b, bs, rfl⟩ := List.exists_cons_of_ne_nil hbs
  have happlied : IsGrave (applyTo (evaluate h k) (apply h k) frame f b m) := by
    have hquiet := evaluate_quiet h k b frame m
    show IsGrave (EStateM.bind (evaluate h k b frame) (Library.applyNext (apply h k) f) m)
    simp only [EStateM.bind, Library.applyNext, hf]
    cases hr : evaluate h k b frame m with
    | ok v n => rfl
    | error x n =>
      rw [hr] at hquiet
      cases x with
      | fault g => exact hquiet.2.1
      | crash c => trivial
      | exhausted => trivial
      | exit => trivial
  rw [List.foldlM_cons, bind_of_grave happlied]
  exact happlied

include hgrave

/-- What the two calls compute. -/
theorem calls_concur (k : Nat) (p q r : Position) (callee : Expr) {as bs : List Expr} (has : as ≠ []) (hbs : bs ≠ [])
    (frame : FrameId) (m : Machine) :
    Concur (expression (evaluate h k) (apply h k) (.call p (.call q callee as) bs) frame m)
      (expression (evaluate h k) (apply h k) (.call r callee (as ++ bs)) frame m) := by
  have hdecides := expression_decides hgrave k (.call r callee (as ++ bs)) frame m
  simp only [expression] at hdecides ⊢
  rw [call_append k callee has bs frame] at hdecides ⊢
  rcases evaluate_concurs hgrave k q callee as frame m with hover | ⟨f, n, hr, hr'⟩ | ⟨hr, hr'⟩
  · left
    unfold call
    rw [bind_of_grave (isGrave_of_overflows hover)]
    exact hover
  · unfold call at hr' hdecides ⊢
    rw [bind_of_ok hr'] at hdecides ⊢
    rw [bind_of_ok hr]
    cases hf : f.isFunction with
    | true =>
      obtain ⟨b, bs, rfl⟩ := List.exists_cons_of_ne_nil hbs
      simp only [if_true]
      rcases hdecides with ⟨v, n', hv⟩ | hv
      · exact Or.inr (Or.inl ⟨v, n', hv, hv⟩)
      · exact Or.inr (Or.inr ⟨hv, hv⟩)
    | false => exact Or.inr (Or.inr ⟨rfl, isGrave_applied k hf hbs frame n⟩)
  · right; right
    rw [bind_of_grave hr']
    refine ⟨?_, hr'⟩
    unfold call
    rw [bind_of_grave hr]
    exact hr

end Calls

/-- Where no native function fails without being fatal, a call has a value if and only if the call of what a call with
its first arguments gives has one, and then it is the same value and leaves the same machine: what has been written, and
all frames with what they bind. The second call needs one level more, so it is the one that must not overflow. -/
theorem evaluate_call_append (h : Host) (hgrave : h.IsGrave) (k : Nat) (p q r : Position) (callee : Expr)
    (as bs : List Expr) (has : as ≠ []) (hbs : bs ≠ []) (frame : FrameId) (m : Machine)
    (hroom : ¬ Overflows (evaluate h k (.call p (.call q callee as) bs) frame m)) (v : Value) (n : Machine) :
    evaluate h k (.call r callee (as ++ bs)) frame m = .ok v n ↔
      evaluate h k (.call p (.call q callee as) bs) frame m = .ok v n := by
  cases k with
  | zero =>
    rw [evaluate] at hroom
    exact absurd trivial hroom
  | succ k =>
    rw [evaluate] at hroom
    rw [evaluate, evaluate]
    have hbody := Calls.calls_concur hgrave k p q r callee has hbs frame { m with depth := m.depth + 1 }
    rcases Calls.deeper_concur _ (.call r callee (as ++ bs)) hbody with hover | ⟨u, n', hr, hr'⟩ | ⟨hr, hr'⟩
    · exact absurd hover hroom
    · rw [hr, hr']
    · constructor
      · intro hv
        rw [hv] at hr'
        exact hr'.elim
      · intro hv
        rw [hv] at hr
        exact hr.elim

def endsInPair (text : String) (b : Bool) : EStateM.Result Halt Machine Value → Bool
  | .ok (.list [.string s, .bool c]) _ => s == text && c == b
  | _ => false

theorem ok_of_endsInPair {text : String} {b : Bool} {r : EStateM.Result Halt Machine Value}
    (hr : endsInPair text b r = true) : ∃ n, r = .ok (.list [.string text, .bool b]) n := by
  unfold endsInPair at hr
  split at hr
  · simp only [Bool.and_eq_true, beq_iff_eq] at hr
    exact ⟨_, by rw [hr.1, hr.2]⟩
  · cases hr

/-- A function of two parameters that assigns to the first one and gives both, with its arguments one by one. -/
theorem evaluate_call_append_two :
    let f : Expr := .function {} none ["x", "y"] (.assign {} (.ref {} "x") (.string {} "b")
      (.list {} [.ref {} "x", .ref {} "y"])) none
    let m : Machine := { store := ({} : Store).push none }
    let nested : Expr := .call {} (.call {} f [.string {} "a"]) [.boolean {} true]
    Host.IsGrave {} ∧ ¬ Overflows (evaluate {} 6 nested 0 m) ∧
      ∃ n, evaluate {} 6 nested 0 m = .ok (.list [.string "b", .bool true]) n ∧
        evaluate {} 6 (.call {} f [.string {} "a", .boolean {} true]) 0 m = .ok (.list [.string "b", .bool true]) n := by
  intro f m nested
  have hgrave : Host.IsGrave {} := fun _ _ _ _ hr => by cases hr
  have hroom : ¬ Overflows (evaluate {} 6 nested 0 m) := by decide +kernel
  have hpair : endsInPair "b" true (evaluate {} 6 nested 0 m) = true := by decide +kernel
  obtain ⟨n, hn⟩ := ok_of_endsInPair hpair
  have happend := evaluate_call_append {} hgrave 6 {} {} {} f [.string {} "a"] [.boolean {} true] (List.cons_ne_nil _ _)
    (List.cons_ne_nil _ _) 0 m hroom (.list [.string "b", .bool true]) n
  exact ⟨hgrave, hroom, n, hn, happend.mpr hn⟩

end Curried
