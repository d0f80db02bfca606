/-
  Curried.Proofs.Currying — a function of several parameters is a function that gives functions.

  A function with parameters `x₁`, …, `xₙ` and the functions of one parameter each, one inside the other
  (`Expr.nested`), are used in the same way: evaluated, applied to some arguments, and what that gives applied to the
  rest again and again (`usesOf`). Each use ends alike, and the machines are equal throughout (`usesOf_nested`), so what
  one use assigns to a parameter is what the next one finds. The two make the same frames and the same identities: where
  the closure of several parameters waits for the next one, the other evaluates a function, and needs one level for it.
-/

import Curried.Proofs.Depth

namespace Curried

open Evaluator

/-- Functions of one parameter each, one inside the other. -/
def Expr.nested (body : Expr) : List (Position × String) → Expr
  | [] => body
  | (p, x) :: params => .function p none [x] (nested body params) none

def outcome : EStateM.Result Halt Machine Value → Except Halt Value × Machine
  | .ok v m => (.ok v, m)
  | .error x m => (.error x, m)

/-- Apply a function to the arguments of each use in turn, going on after a use that fails. -/
def uses (apply : Value → Value → Eval Value) (f : Value) : List (List Value) → Machine →
    List (Except Halt Value) × Machine
  | [], m => ([], m)
  | args :: more, m =>
    let use := outcome (Library.applyAll apply f args m)
    let rest := uses apply f more use.2
    (use.1 :: rest.1, rest.2)

def usesOf (h : Host) (k : Nat) (e : Expr) (frame : FrameId) (first : List Value) (tuples : List (List Value))
    (m : Machine) : List (Except Halt Value) × Machine :=
  match (evaluate h k e frame >>= fun f => Library.applyAll (apply h k) f first) m with
  | .ok f n => uses (apply h k) f tuples n
  | .error x n => ([.error x], n)

namespace Currying

/-! ## Functions that wait for an argument -/

def several (id : Nat) (params : List (Position × String)) (body : Expr) (frame : FrameId) : Value :=
  .closure id none (params.map (·.2)) body frame

def single (id : Nat) (x : Position × String) (params : List (Position × String)) (body : Expr) (frame : FrameId) :
    Value :=
  .closure id none [x.2] (body.nested params) frame

variable {h : Host} {k id : Nat} {body : Expr} {frame : FrameId} {m : Machine}

theorem evaluate_function (hroom : (m.depth : Int) < h.maxDepth) (p : Position) (params : List String) :
    evaluate h (k + 1) (.function p none params body none) frame m =
      .ok (.closure m.nextId none params body frame) { m with nextId := m.nextId + 1 } := by
  have hlimit : ¬ h.maxDepth < (m.depth + 1 : Nat) := by omega
  rw [evaluate, deeper]
  dsimp only
  rw [if_neg hlimit]
  rfl

theorem apply_last (name : Option String) (x : String) (v : Value) :
    apply h (k + 1) (.closure id name [x] body frame) v m =
      evaluate h k body m.store.size (m.entered frame [x] v) := by
  rw [apply]
  rfl

def given (m : Machine) (frame : FrameId) (x : Position × String) (v : Value) : Machine :=
  { m.entered frame [x.2] v with nextId := m.nextId + 1 }

theorem apply_several (x y : Position × String) (params : List (Position × String)) (v : Value) :
    apply h (k + 2) (several id (x :: y :: params) body frame) v m =
      .ok (several m.nextId (y :: params) body m.store.size) (given m frame x v) := by
  rw [apply]
  rfl

theorem apply_single (hroom : (m.depth : Int) < h.maxDepth) (x y : Position × String)
    (params : List (Position × String)) (v : Value) :
    apply h (k + 2) (single id x (y :: params) body frame) v m =
      .ok (single m.nextId y params body m.store.size) (given m frame x v) := by
  have hroom' : ((m.entered frame [x.2] v).depth : Int) < h.maxDepth := hroom
  rw [single, apply_last, Expr.nested, evaluate_function hroom']
  rfl

/-! ## Several arguments -/

theorem applyAll_cons {f g v : Value} {n : Machine} (hf : f.isFunction = true) (hv : apply h k f v m = .ok g n)
    (args : List Value) :
    Library.applyAll (apply h k) f (v :: args) m = Library.applyAll (apply h k) g args n := by
  unfold Library.applyAll
  rw [List.foldlM_cons]
  show EStateM.bind (Library.applyNext (apply h k) f v) _ m = _
  unfold EStateM.bind Library.applyNext
  rw [if_pos hf, hv]

/-- After some arguments, but not all, both functions wait for the same parameters, on the same machine. -/
theorem applyAll_some (k : Nat) (body : Expr) (hroom : (m.depth : Int) < h.maxDepth) (id : Nat) (x : Position × String)
    (params : List (Position × String)) (frame : FrameId) {args : List Value} (hargs : args.length ≤ params.length) :
    ∃ id' y rest frame' n, rest.length + args.length = params.length ∧ n.depth = m.depth ∧
      Library.applyAll (apply h (k + 2)) (several id (x :: params) body frame) args m =
        .ok (several id' (y :: rest) body frame') n ∧
      Library.applyAll (apply h (k + 2)) (single id x params body frame) args m =
        .ok (single id' y rest body frame') n := by
  induction args generalizing id x params frame m with
  | nil => exact ⟨id, x, params, frame, m, rfl, rfl, rfl, rfl⟩
  | cons v args ih =>
    cases params with
    | nil => cases hargs
    | cons y params =>
      have hroom' : ((given m frame x v).depth : Int) < h.maxDepth := hroom
      obtain ⟨id', z, rest, frame', n, hlength, hdepth, hseveral, hsingle⟩ :=
        ih hroom' m.nextId y params m.store.size (Nat.le_of_succ_le_succ hargs)
      refine ⟨id', z, rest, frame', n, congrArg (· + 1) hlength, hdepth, ?_, ?_⟩
      · rw [applyAll_cons rfl (apply_several x y params v), hseveral]
      · rw [applyAll_cons rfl (apply_single hroom x y params v), hsingle]

theorem depth_outcome (depth : Nat) (r : EStateM.Result Halt Machine Value) :
    (outcome (setDepth depth r)).2.depth = depth := by
  cases r with
  | ok v n => rfl
  | error x n => rfl

/-- With the last argument the body runs, in the same frame of the same machine. -/
theorem applyAll_all (k : Nat) (body : Expr) (hroom : (m.depth : Int) < h.maxDepth) (id : Nat) (x : Position × String)
    (params : List (Position × String)) (frame : FrameId) {args : List Value}
    (hargs : args.length = params.length + 1) :
    Library.applyAll (apply h (k + 2)) (several id (x :: params) body frame) args m =
        Library.applyAll (apply h (k + 2)) (single id x params body frame) args m ∧
      (outcome (Library.applyAll (apply h (k + 2)) (single id x params body frame) args m)).2.depth = m.depth := by
  induction params generalizing id x frame args m with
  | nil =>
    obtain ⟨v, rfl⟩ := List.length_eq_one_iff.mp hargs
    refine ⟨rfl, ?_⟩
    have hrun : Library.applyAll (apply h (k + 2)) (single id x [] body frame) [v] m =
        evaluate h (k + 1) body m.store.size (m.entered frame [x.2] v) := by
      rw [← apply_last none x.2 v]
      exact congrFun (bind_pure (apply h (k + 2) (single id x [] body frame) v)) m
    rw [hrun, ← Depth.setDepth_evaluate, depth_outcome]
    rfl
  | cons y params ih =>
    cases args with
    | nil => cases hargs
    | cons v args =>
      have hroom' : ((given m frame x v).depth : Int) < h.maxDepth := hroom
      rw [applyAll_cons rfl (apply_several x y params v), applyAll_cons rfl (apply_single hroom x y params v)]
      exact ih hroom' m.nextId y m.store.size (Nat.succ.inj hargs)

/-- Uses of the two functions, one after the other. -/
theorem uses_eq (hroom : (m.depth : Int) < h.maxDepth) (id : Nat) (x : Position × String)
    (params : List (Position × String)) (frame : FrameId) {tuples : List (List Value)}
    (htuples : ∀ args ∈ tuples, args.length = params.length + 1) :
    uses (apply h (k + 2)) (several id (x :: params) body frame) tuples m =
      uses (apply h (k + 2)) (single id x params body frame) tuples m := by
  induction tuples generalizing m with
  | nil => rfl
  | cons args tuples ih =>
    obtain ⟨hargs, hmore⟩ := List.forall_mem_cons.mp htuples
    obtain ⟨hsame, hdepth⟩ := applyAll_all k body hroom id x params frame hargs
    rw [uses, uses, hsame, ih (by rwa [hdepth]) hmore]

theorem length_uses (ap : Value → Value → Eval Value) (f : Value) (tuples : List (List Value)) (m : Machine) :
    (uses ap f tuples m).1.length = tuples.length := by
  induction tuples generalizing m with
  | nil => rfl
  | cons args tuples ih =>
    rw [uses, List.length_cons, List.length_cons, ih]

theorem usesOf_of_ok {e : Expr} {first : List Value} {f g : Value} {n n' : Machine} {tuples : List (List Value)}
    (he : evaluate h k e frame m = .ok f n) (hfirst : Library.applyAll (apply h k) f first n = .ok g n') :
    usesOf h k e frame first tuples m = uses (apply h k) g tuples n' := by
  have hrun : (evaluate h k e frame >>= fun f => Library.applyAll (apply h k) f first) m = .ok g n' := by
    show EStateM.bind _ _ m = _
    unfold EStateM.bind
    rw [he]
    exact hfirst
  rw [usesOf, hrun]

end Currying

/-- Where evaluating a function fits, a function of several parameters is used as the nested functions are: after some
arguments but not all, each use of what they give ends alike, and the machine is the same in the end. This holds also of
a use that overflows, since the body runs equally deep in both. -/
theorem usesOf_nested (h : Host) (k : Nat) (p : Position) (params : List (Position × String)) (body : Expr)
    (frame : FrameId) (first : List Value) (tuples : List (List Value)) (m : Machine)
    (hroom : (m.depth : Int) < h.maxDepth) (hfirst : first.length < params.length)
    (htuples : ∀ args ∈ tuples, first.length + args.length = params.length) :
    usesOf h (k + 2) (.function p none (params.map (·.2)) body none) frame first tuples m =
        usesOf h (k + 2) (body.nested params) frame first tuples m ∧
      (usesOf h (k + 2) (body.nested params) frame first tuples m).1.length = tuples.length := by
  cases params with
  | nil => cases hfirst
  | cons x params =>
    have hmade : (({ m with nextId := m.nextId + 1 } : Machine).depth : Int) < h.maxDepth := hroom
    obtain ⟨id, y, rest, inner, n, hlength, hdepth, hseveral, hsingle⟩ :=
      Currying.applyAll_some k body hmade m.nextId x params frame (Nat.le_of_lt_succ hfirst)
    have hrest : ∀ args ∈ tuples, args.length = rest.length + 1 := by
      intro args hargs
      have hsum := htuples args hargs
      rw [List.length_cons] at hsum
      omega
    have hn : (n.depth : Int) < h.maxDepth := by rwa [hdepth]
    rw [Currying.usesOf_of_ok (Currying.evaluate_function hroom p _) hseveral, Expr.nested,
      Currying.usesOf_of_ok (Currying.evaluate_function hroom _ _) hsingle]
    exact ⟨Currying.uses_eq hn id y rest inner hrest, Currying.length_uses _ _ _ _⟩

/-- The first use assigns to the parameter that both uses share, and the second one finds what it assigned. -/
theorem usesOf_nested_assigned :
    let body : Expr := .branch {} (.ref {} "x") (.assign {} (.ref {} "x") (.ref {} "y") (.string {} "kept"))
      (.string {} "lost")
    let m : Machine := { store := ({} : Store).push none }
    let tuples : List (List Value) := [[.bool false], [.bool true]]
    (usesOf {} 6 (body.nested [({}, "x"), ({}, "y")]) 0 [.bool true] tuples m).1.map
        (fun | .ok (.string s) => s | _ => "") = ["kept", "lost"] ∧
      usesOf {} 6 (.function {} none ["x", "y"] body none) 0 [.bool true] tuples m =
        usesOf {} 6 (body.nested [({}, "x"), ({}, "y")]) 0 [.bool true] tuples m := by
  intro body m tuples
  have htuples : ∀ args ∈ tuples, 1 + args.length = 2 := by
    intro args hargs
    rcases List.mem_pair.mp hargs with rfl | rfl
    · rfl
    · rfl
  refine ⟨by decide +kernel, ?_⟩
  exact (usesOf_nested {} 4 {} [({}, "x"), ({}, "y")] body 0 [.bool true] tuples m (by decide) (by decide) htuples).1

end Curried
