/-
  Curried.Proofs.Coupling — two runs side by side.

  Much of what holds of every run is said of two runs at once: that they give the same answer wherever the text
  stood, or however deep evaluation may go. An invariant of one run is such a statement too, about a run and itself.
  A coupling says which machines, functions and expressions correspond; from that follow the values that correspond
  (`Values`) and the computations that do (`Runs`): started on corresponding machines they end alike.

  What corresponds may grow while a program runs, as frames and functions are made, so everything is relative to a
  world, and what corresponds in a world does so in every later one. Halts that are excused end the comparison: once
  the first run has met one, nothing is asked of the second.

  `Runs.bind` and the lemmas after it carry the correspondence through sequencing and through the loops over lists.
  That the evaluator as a whole respects a coupling is `Curried.Proofs.Coupling.Evaluator`. Where two runs settle alike
  what halts an expression, they go one level deeper alike (`Settles.deeper`).
-/

import Curried.Evaluator
import Curried.Proofs.Likeness

namespace Curried

structure Coupling where
  World : Type
  later : World → World → Prop
  like : World → Likeness
  machine : World → Machine → Machine → Prop
  /-- Two expressions that are run in a frame. -/
  program : World → Expr → Expr → FrameId → Prop
  halted : World → Halt → Machine → Halt → Machine → Prop
  excused : Halt → Prop

namespace Coupling

variable {C : Coupling}

abbrev Values (C : Coupling) (w : C.World) : Value → Value → Prop := (C.like w).Values

inductive Ends (C : Coupling) (w : C.World) {α β : Type} (rel : C.World → α → β → Prop) :
    EStateM.Result Halt Machine α → EStateM.Result Halt Machine β → Prop
  | ok {w' : C.World} {a : α} {b : β} {m m' : Machine} :
      C.later w w' → C.machine w' m m' → rel w' a b → Ends C w rel (.ok a m) (.ok b m')
  | halt {w' : C.World} {x x' : Halt} {m m' : Machine} :
      C.later w w' → C.halted w' x m x' m' → Ends C w rel (.error x m) (.error x' m')
  | excused {x : Halt} {m : Machine} {r : EStateM.Result Halt Machine β} :
      C.excused x → Ends C w rel (.error x m) r

/-- Computations that correspond: on corresponding machines of any later world they end alike. -/
def Runs (C : Coupling) (w : C.World) {α β : Type} (rel : C.World → α → β → Prop) (x : Eval α) (y : Eval β) : Prop :=
  ∀ w', C.later w w' → ∀ m m', C.machine w' m m' → C.Ends w' rel (x m) (y m')

structure Worlds (C : Coupling) : Prop where
  refl : ∀ w, C.later w w
  trans : ∀ {u v w}, C.later u v → C.later v w → C.later u w
  like : ∀ {w w'}, C.later w w' → (C.like w).Le (C.like w')
  program : ∀ {w w' e e' frame}, C.later w w' → C.program w e e' frame → C.program w' e e' frame

/-! ## Computations -/

variable (hC : C.Worlds) {α β γ δ : Type}
include hC

theorem Ends.earlier {w w' : C.World} {rel : C.World → α → β → Prop} {r : EStateM.Result Halt Machine α}
    {r' : EStateM.Result Halt Machine β} (h : C.Ends w' rel r r') (hw : C.later w w') : C.Ends w rel r r' := by
  cases h with
  | ok hw' hm hab => exact .ok (hC.trans hw hw') hm hab
  | halt hw' hh => exact .halt (hC.trans hw hw') hh
  | excused he => exact .excused he

theorem Runs.mono {w w' : C.World} {rel : C.World → α → β → Prop} {x : Eval α} {y : Eval β} (h : C.Runs w rel x y)
    (hw : C.later w w') : C.Runs w' rel x y :=
  fun u hu => h u (hC.trans hw hu)

theorem Runs.pure {w : C.World} {rel : C.World → α → β → Prop} {a : α} {b : β}
    (h : ∀ w', C.later w w' → rel w' a b) : C.Runs w rel (pure a) (pure b) :=
  fun w' hw _ _ hm => .ok (hC.refl w') hm (h w' hw)

/-- A value that corresponds now does so later. -/
theorem Runs.value {w : C.World} {v v' : Value} (h : C.Values w v v') :
    C.Runs w C.Values (Pure.pure v) (Pure.pure v') :=
  .pure hC fun _ hw => h.mono (hC.like hw)

theorem Runs.bind {w : C.World} {rel : C.World → α → β → Prop} {rel' : C.World → γ → δ → Prop} {x : Eval α}
    {y : Eval β} {f : α → Eval γ} {g : β → Eval δ} (h : C.Runs w rel x y)
    (hf : ∀ w', C.later w w' → ∀ a b, rel w' a b → C.Runs w' rel' (f a) (g b)) :
    C.Runs w rel' (x >>= f) (y >>= g) := by
  intro w₁ hw₁ m m' hm
  have hx := h w₁ hw₁ m m' hm
  show C.Ends w₁ rel' (EStateM.bind x f m) (EStateM.bind y g m')
  unfold EStateM.bind
  generalize x m = r, y m' = r' at hx
  cases hx with
  | @ok w₂ a b n n' hw₂ hn hab =>
    -- the second computation starts in the world the first one ended in
    exact (hf w₂ (hC.trans hw₁ hw₂) a b hab w₂ (hC.refl w₂) n n' hn).earlier hC hw₂
  | halt hw₂ hh => exact .halt hw₂ hh
  | excused he => exact .excused he

theorem Runs.mapM {w : C.World} {S : α → β → Prop} {rel : C.World → γ → δ → Prop}
    (hrel : ∀ {w w' a b}, C.later w w' → rel w a b → rel w' a b) {f : α → Eval γ} {g : β → Eval δ}
    (hf : ∀ a b, S a b → C.Runs w rel (f a) (g b)) {xs : List α} {ys : List β} (h : List.Forall₂ S xs ys) :
    C.Runs w (fun w => List.Forall₂ (rel w)) (xs.mapM f) (ys.mapM g) := by
  induction h with
  | nil => exact .pure hC fun _ _ => .nil
  | cons hd _ ih =>
    simp only [List.mapM_cons]
    refine .bind hC (hf _ _ hd) fun w₁ hw₁ a b hab => ?_
    refine .bind hC (ih.mono hC hw₁) fun w₂ hw₂ as bs habs => ?_
    exact .pure hC fun w₃ hw₃ => .cons (hrel (hC.trans hw₂ hw₃) hab) (habs.imp fun _ _ => hrel hw₃)

theorem Runs.foldlM {w : C.World} {S : α → β → Prop} {rel : C.World → γ → δ → Prop}
    (hrel : ∀ {w w' a b}, C.later w w' → rel w a b → rel w' a b) {f : γ → α → Eval γ} {g : δ → β → Eval δ}
    (hf : ∀ w', C.later w w' → ∀ a b, S a b → ∀ c d, rel w' c d → C.Runs w' rel (f c a) (g d b))
    {xs : List α} {ys : List β} (h : List.Forall₂ S xs ys) {c : γ} {d : δ} (hcd : rel w c d) :
    C.Runs w rel (xs.foldlM f c) (ys.foldlM g d) := by
  induction h generalizing w c d with
  | nil => exact .pure hC fun _ hw => hrel hw hcd
  | cons hd _ ih =>
    simp only [List.foldlM_cons]
    refine .bind hC (hf w (hC.refl w) _ _ hd _ _ hcd) fun w₁ hw₁ c' d' hcd' => ?_
    exact ih (fun w₂ hw₂ => hf w₂ (hC.trans hw₁ hw₂)) hcd'

theorem Runs.filterM {w : C.World} {S : α → β → Prop} {f : α → Eval Bool} {g : β → Eval Bool}
    (hf : ∀ a b, S a b → C.Runs w (fun _ => Eq) (f a) (g b)) {xs : List α} {ys : List β} (h : List.Forall₂ S xs ys) :
    C.Runs w (fun _ => List.Forall₂ S) (xs.filterM f) (ys.filterM g) := by
  -- the loop keeps what has passed in reverse
  have loop : ∀ {xs ys}, List.Forall₂ S xs ys → ∀ {w' as bs}, C.later w w' → List.Forall₂ S as bs →
      C.Runs w' (fun _ => List.Forall₂ S) (List.filterAuxM f xs as) (List.filterAuxM g ys bs) := by
    intro xs ys h
    induction h with
    | nil => intro w' as bs _ hab; exact .pure hC fun _ _ => hab
    | @cons x y _ _ hd _ ih =>
      intro w' as bs hw hab
      simp only [List.filterAuxM]
      refine .bind hC ((hf _ _ hd).mono hC hw) fun w₁ hw₁ p q hpq => ?_
      subst hpq
      refine ih (hC.trans hw hw₁) ?_
      cases p
      · exact hab
      · exact .cons hd hab
  refine .bind hC (loop h (hC.refl w) .nil) fun w₁ _ as bs hab => ?_
  exact .pure hC fun _ _ => List.rel_reverse hab

omit hC

/-- Read something off the machine that corresponds. -/
theorem Runs.gets {w : C.World} {rel : C.World → α → β → Prop} {f : Machine → Eval α} {g : Machine → Eval β}
    (h : ∀ w', C.later w w' → ∀ m m', C.machine w' m m' → C.Ends w' rel (f m m) (g m' m')) :
    C.Runs w rel (get >>= f) (get >>= g) :=
  fun w' hw m m' hm => h w' hw m m' hm

theorem Runs.modifyGet {w : C.World} {rel : C.World → α → β → Prop} {f : Machine → α × Machine}
    {g : Machine → β × Machine}
    (h : ∀ w', C.later w w' → ∀ m m', C.machine w' m m' →
      ∃ w'', C.later w' w'' ∧ C.machine w'' (f m).2 (g m').2 ∧ rel w'' (f m).1 (g m').1) :
    C.Runs w rel (modifyGet f) (modifyGet g) := by
  intro w' hw m m' hm
  obtain ⟨w'', hw', hm', hr⟩ := h w' hw m m' hm
  exact .ok hw' hm' hr

theorem Runs.modify {w : C.World} {f g : Machine → Machine}
    (h : ∀ w', C.later w w' → ∀ m m', C.machine w' m m' → ∃ w'', C.later w' w'' ∧ C.machine w'' (f m) (g m')) :
    C.Runs w (fun _ _ _ => True) (modify f) (modify g) := by
  intro w' hw m m' hm
  obtain ⟨w'', hw', hm'⟩ := h w' hw m m' hm
  exact .ok hw' hm' trivial

theorem Runs.lift {w : C.World} {rel : C.World → α → β → Prop}
    (hrel : ∀ {w w' a b}, C.later w w' → rel w a b → rel w' a b) (hC : C.Worlds)
    (hf : ∀ w', C.later w w' → ∀ r : Reason, r.isOrdinary = true → ∀ m m', C.machine w' m m' →
      C.halted w' (.fault (.of r)) m (.fault (.of r)) m')
    {x : Except Fault α} {y : Except Fault β} (h : Answers (rel w) x y) : C.Runs w rel (Eval.lift x) (Eval.lift y) := by
  intro w' hw m m' hm
  cases h with
  | ok h => exact .ok (hC.refl w') hm (hrel hw h)
  | fault hr =>
    refine .halt (hC.refl w') ?_
    rw [Halt.ofFault_of hr]
    exact hf w' hw _ hr m m' hm

end Coupling

/-! ## Expressions of one form -/

/-- Two expressions of the same form, their parts related. The body of a function is no part: it runs elsewhere. -/
inductive Expr.Matches (rel : Expr → Expr → Prop) : Expr → Expr → Prop
  | number {p p' : Position} {x : Float} : Matches rel (.number p x) (.number p' x)
  | string {p p' : Position} {s : String} : Matches rel (.string p s) (.string p' s)
  | boolean {p p' : Position} {b : Bool} : Matches rel (.boolean p b) (.boolean p' b)
  | nil {p p' : Position} : Matches rel (.nil p) (.nil p')
  | ref {p p' : Position} {name : String} : Matches rel (.ref p name) (.ref p' name)
  | list {p p' : Position} {items items' : List Expr} :
      List.Forall₂ rel items items' → Matches rel (.list p items) (.list p' items')
  | binary {p p' : Position} {op : BinaryOp} {left left' right right' : Expr} :
      rel left left' → rel right right' → Matches rel (.binary p op left right) (.binary p' op left' right')
  | unary {p p' : Position} {op : UnaryOp} {operand operand' : Expr} :
      rel operand operand' → Matches rel (.unary p op operand) (.unary p' op operand')
  | call {p p' : Position} {callee callee' : Expr} {args args' : List Expr} :
      rel callee callee' → List.Forall₂ rel args args' → Matches rel (.call p callee args) (.call p' callee' args')
  | assign {p p' : Position} {target target' value value' next next' : Expr} :
      rel target target' → rel value value' → rel next next' →
      Matches rel (.assign p target value next) (.assign p' target' value' next')
  | sequence {p p' : Position} {first first' second second' : Expr} :
      rel first first' → rel second second' → Matches rel (.sequence p first second) (.sequence p' first' second')
  | branch {p p' : Position} {test test' yes yes' no no' : Expr} :
      rel test test' → rel yes yes' → rel no no' → Matches rel (.branch p test yes no) (.branch p' test' yes' no')
  | binding {p p' : Position} {name : String} {value value' body body' : Expr} {next next' : Option Expr} :
      rel value value' → rel body body' → Option.Rel rel next next' →
      Matches rel (.binding p name value body next) (.binding p' name value' body' next')
  | function {p p' : Position} {name : Option String} {params : List String} {body body' : Expr}
      {next next' : Option Expr} : Option.Rel rel next next' →
      Matches rel (.function p name params body next) (.function p' name params body' next')
  | strange {p p' : Position} {kind : String} : Matches rel (.strange p kind) (.strange p' kind)

def Expr.declared? : Expr → Option String
  | .binding _ name _ _ _ => some name
  | .function _ name _ _ _ => name
  | _ => none

/-- Why an expression has no meaning at all: it is of a form, or has an operator, that the language does not know. -/
def Expr.unknown? : Expr → Option Reason
  | .binary _ (.unknown s) _ _ => some (.unknownOperator s)
  | .unary _ (.unknown s) _ => some (.unknownUnaryOperator s)
  | .strange _ kind => some (.unknownForm kind)
  | _ => none

def Machine.entered (m : Machine) (frame : FrameId) (params : List String) (v : Value) : Machine :=
  match params with
  | [] => m.mapStore (·.child frame)
  | p :: _ => (m.mapStore (·.child frame)).define m.store.size p v

/-- Nothing but the frames changes. -/
theorem Machine.entered_eq (m : Machine) (frame : FrameId) (params : List String) (v : Value) :
    m.entered frame params v = { m with store := (m.entered frame params v).store } := by
  cases params with
  | nil => rfl
  | cons => rfl

namespace Coupling

open Evaluator

/-- What a coupling asks of the machine, step by step, for two hosts: whatever evaluation does to corresponding
machines, but for reading input, leaves machines that correspond, in a later world at most. -/
structure Steps (C : Coupling) (h h' : Host) : Prop extends C.Worlds where
  frames : ∀ {w m m'}, C.machine w m m' → m.store.size = m'.store.size
  ids : ∀ {w m m'}, C.machine w m m' → m.nextId = m'.nextId
  parts : ∀ {w e e' frame}, C.program w e e' frame → Expr.Matches (C.program w · · frame) e e'
  /-- A name is found in the same frame. -/
  resolve : ∀ {w e e' frame m m'}, C.program w e e' frame → C.machine w m m' → ∀ name : String,
    Option.Rel (fun r r' => r.1 = r'.1 ∧ C.Values w r.2 r'.2) (m.store.resolve? frame name)
      (m'.store.resolve? frame name)
  global : ∀ {w m m'}, C.machine w m m' → ∀ name : String,
    Option.Rel (C.Values w) (m.store.lookup? m.globals name) (m'.store.lookup? m'.globals name)
  declare : ∀ {w e e' frame name m m' v v'}, C.program w e e' frame → e.declared? = some name →
    C.machine w m m' → C.Values w v v' →
    ∃ w', C.later w w' ∧ C.machine w' (m.define frame name v) (m'.define frame name v')
  rebind : ∀ {w p q name value next e' frame owner u m m' v v'},
    C.program w (.assign p (.ref q name) value next) e' frame → C.machine w m m' →
    m.store.resolve? frame name = some (owner, u) → C.Values w v v' →
    ∃ w', C.later w w' ∧ C.machine w' (m.define owner name v) (m'.define owner name v')
  /-- A declared function is a new closure. -/
  make : ∀ {w p p' name params body body' next next' frame m m'},
    C.program w (.function p name params body next) (.function p' name params body' next') frame →
    C.machine w m m' → ∃ w', C.later w w' ∧
      C.machine w' { m with nextId := m.nextId + 1 } { m' with nextId := m'.nextId + 1 } ∧
      (C.like w').closure m.nextId name params body body' frame
  /-- The last argument of a closure lets its body run in a new frame. -/
  enter : ∀ {w id name params body body' frame m m' v v'}, (C.like w).closure id name params body body' frame →
    params.length ≤ 1 → C.machine w m m' → C.Values w v v' →
    ∃ w', C.later w w' ∧ C.machine w' (m.entered frame params v) (m'.entered frame params v') ∧
      C.program w' body body' m.store.size
  /-- Any other makes a closure of the rest. -/
  curry : ∀ {w id name p q more body body' frame m m' v v'},
    (C.like w).closure id name (p :: q :: more) body body' frame → C.machine w m m' → C.Values w v v' →
    ∃ w', C.later w w' ∧
      C.machine w' { m.entered frame (p :: q :: more) v with nextId := m.nextId + 1 }
        { m'.entered frame (p :: q :: more) v' with nextId := m'.nextId + 1 } ∧
      (C.like w').closure m.nextId name (q :: more) body body' m.store.size
  collect : ∀ {w id name arity code vs vs' m m' v v'}, (C.like w).native id name arity code vs vs' →
    List.Forall₂ (C.Values w) vs vs' → C.Values w v v' → vs.length + 1 < arity → C.machine w m m' →
    ∃ w', C.later w w' ∧
      C.machine w' { m with nextId := m.nextId + 1 } { m' with nextId := m'.nextId + 1 } ∧
      (C.like w').native m.nextId name arity code (vs ++ [v]) (vs' ++ [v'])
  write : ∀ {w m m'}, C.machine w m m' → ∀ text : String,
    ∃ w', C.later w w' ∧ C.machine w' (m.write text) (m'.write text)
  fault : ∀ {w r m m'}, r.isOrdinary = true → C.machine w m m' →
    C.halted w (.fault (.of r)) m (.fault (.of r)) m'
  missing : ∀ {w e e' frame name m m'}, C.program w e e' frame → m.store.resolve? frame name = none →
    C.machine w m m' →
    C.halted w (.fault (.of (.undefinedVariable name))) m (.fault (.of (.undefinedVariable name))) m'
  unknown : ∀ {w e e' frame r m m'}, C.program w e e' frame → e.unknown? = some r → C.machine w m m' →
    C.halted w (.fault (.of r)) m (.fault (.of r)) m'
  /-- A fault of an assignment's target is blamed on it at once. -/
  target : ∀ {w p p' t t' value value' next next' frame r m m'},
    C.program w (.assign p t value next) (.assign p' t' value' next') frame →
    C.halted w (.fault (.of r)) m (.fault (.of r)) m' → C.machine w m m' →
    C.halted w (.fault ((Fault.of r).blame t.position)) m (.fault ((Fault.of r).blame t'.position)) m'
  /-- The compilers may fail in different ways, but where one of them fails the other does. -/
  accept : ∀ source r, h.compile source = .ok r ↔ h'.compile source = .ok r
  refuse : ∀ {w source x x' m m'}, h.compile source = .error x → h'.compile source = .error x' → C.machine w m m' →
    C.halted w (.ofFault (.of (Library.reasonOf source x))) m (.ofFault (.of (Library.reasonOf source x'))) m'
  exhausted : ∀ {w m m'}, C.machine w m m' → C.excused .exhausted ∨ C.halted w .exhausted m .exhausted m'
  extension : ∀ {w id name arity key vs vs' v v'}, (C.like w).native id name arity (.extension key) vs vs' →
    List.Forall₂ (C.Values w) (vs ++ [v]) (vs' ++ [v']) →
    C.Runs w C.Values (reply (h.extensions key (vs ++ [v]))) (reply (h'.extensions key (vs' ++ [v'])))
  deeper : ∀ {w e e' frame x x'}, C.program w e e' frame → C.Runs w C.Values x x' →
    C.Runs w C.Values (deeper h e x) (deeper h' e' x')

structure Laws (C : Coupling) (h h' : Host) : Prop extends C.Steps h h' where
  readLine : ∀ {w m m'}, C.machine w m m' → ∃ w', C.later w w' ∧ C.machine w' m.readLine.2 m'.readLine.2 ∧
    m.readLine.1 = m'.readLine.1

/-! ## Settling what halts an expression -/

/-- What a coupling asks of halts, reports and depths for two expressions to settle alike what halts them. Faults may be
blamed on different places. -/
structure Settles (C : Coupling) (same : Halt → Halt → Prop) (h : Host) (e e' : Expr) : Prop where
  refl : ∀ x, same x x
  form : ∀ {x x'}, same x x' → x = x' ∨ ∃ f f', x = .fault f ∧ x' = .fault f' ∧ f.severity = f'.severity
  blame : ∀ {f f'}, same (.fault f) (.fault f') → same (.fault (f.blame e.position)) (.fault (f'.blame e'.position))
  halted : ∀ {w x m x' m'}, C.halted w x m x' m' ↔ same x x' ∧ C.machine w m m'
  unexcused : ∀ x, ¬ C.excused x
  depth : ∀ {w m m'}, C.machine w m m' → m.depth = m'.depth
  atDepth : ∀ {w m m'}, C.machine w m m' → ∀ depth, C.machine w { m with depth := depth } { m' with depth := depth }
  report : ∀ {w m m' f f'}, C.machine w m m' → same (.fault f) (.fault f') →
    C.machine w (m.reportOnce h f.issue) (m'.reportOnce h f'.issue)
  overflow : ∀ {w m m'}, C.machine w m m' →
    ∃ n n', overflow h e m = .error .exit n ∧ overflow h e' m' = .error .exit n' ∧ C.machine w n n'

namespace Settles

variable {C : Coupling} {same : Halt → Halt → Prop} {h : Host} {e e' : Expr} {w : C.World} {m m' : Machine}
variable (hS : C.Settles same h e e')
include hS

theorem setDepth {r r' : EStateM.Result Halt Machine Value} (hr : C.Ends w C.Values r r') (depth : Nat) :
    C.Ends w C.Values (setDepth depth r) (setDepth depth r') := by
  cases hr with
  | ok hw hm hv => exact .ok hw (hS.atDepth hm depth) hv
  | halt hw hx =>
    obtain ⟨hsame, hm⟩ := hS.halted.mp hx
    exact .halt hw (hS.halted.mpr ⟨hsame, hS.atDepth hm depth⟩)
  | excused hx => exact (hS.unexcused _ hx).elim

variable (hC : C.Worlds)
include hC

theorem halt {x x' : Halt} (hx : same x x') (hm : C.machine w m m') : C.Ends w C.Values (.error x m) (.error x' m') :=
  .halt (hC.refl w) (hS.halted.mpr ⟨hx, hm⟩)

theorem overflow_ends (hm : C.machine w m m') :
    C.Ends w C.Values (Evaluator.overflow h e m) (Evaluator.overflow h e' m') := by
  obtain ⟨n, n', hn, hn', hmachine⟩ := hS.overflow hm
  rw [hn, hn']
  exact hS.halt hC (hS.refl .exit) hmachine

theorem settleFault {f f' : Fault} (hf : same (.fault f) (.fault f')) (hseverity : f.severity = f'.severity)
    (hm : C.machine w m m') : C.Ends w C.Values (settleFault h e f m) (settleFault h e' f' m') := by
  have hblamed := hS.blame hf
  have hreported := hS.report hm hblamed
  have hsame : (f.blame e.position).severity = (f'.blame e'.position).severity := hseverity
  unfold Evaluator.settleFault
  dsimp only
  rw [hsame]
  cases (f'.blame e'.position).severity with
  | fatal => exact hS.halt hC hblamed hreported
  | error => exact .ok (hC.refl w) hreported .nil

theorem settle {r r' : EStateM.Result Halt Machine Value} (hr : C.Ends w C.Values r r') :
    C.Ends w C.Values (settle h e r) (settle h e' r') := by
  cases hr with
  | ok hw hm hv => exact .ok hw hm hv
  | @halt w' x x' _ _ hw hx =>
    obtain ⟨hsame, hm⟩ := hS.halted.mp hx
    refine Ends.earlier hC ?_ hw
    rcases hS.form hsame with rfl | ⟨f, f', rfl, rfl, hseverity⟩
    · cases x with
      | fault f => exact hS.settleFault hC hsame rfl hm
      | crash c => exact hS.settleFault hC (hS.refl (.fault (.of (.crashed c)))) rfl hm
      | exhausted => exact hS.overflow_ends hC hm
      | exit => exact hS.halt hC hsame hm
    · exact hS.settleFault hC hsame hseverity hm
  | excused hx => exact (hS.unexcused _ hx).elim

/-- Two expressions computed one level deeper. -/
theorem deeper {x x' : Eval Value} (hx : C.Runs w C.Values x x') :
    C.Runs w C.Values (deeper h e x) (deeper h e' x') := by
  intro w₁ hw₁ m m' hm
  unfold Evaluator.deeper
  dsimp only
  rw [← hS.depth hm]
  refine hS.setDepth ?_ m.depth
  by_cases hover : h.maxDepth < (m.depth + 1 : Nat)
  · rw [if_pos hover, if_pos hover]
    exact hS.overflow_ends hC (hS.atDepth hm _)
  · rw [if_neg hover, if_neg hover]
    exact hS.settle hC (hx w₁ hw₁ _ _ (hS.atDepth hm _))

end Settles

end Coupling

end Curried
