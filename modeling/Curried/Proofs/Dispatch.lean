/-
  Curried.Proofs.Dispatch — reader, operators and library agree.

  An operator is a name that is looked up where it runs. The reader makes no operator and no form that evaluation does
  not know (`parseWithin_known`), the library has a function for each operator, and every frame is inside the globals, so
  that the name of each operator is found from every frame (`Equipped`). Nothing that runs takes this away: names are
  rebound or hidden, never removed. What is left is that the name may have been bound to something that is no function,
  and that is the one way in which the choice of the function itself can fail (`Session.run_dispatches`).
-/

import Curried.Proofs.Places.Reading
import Curried.Proofs.Standard

namespace Curried

open Evaluator

/-- A reason that is given only where the reader, the operators and the library do not fit together. -/
def Reason.isDiscord : Reason → Bool
  | .unknownOperator _ | .unknownUnaryOperator _ | .unknownForm _ => true
  | .undefinedVariable name => operatorNames.contains name
  | _ => false

def Store.Equipped (s : Store) : Prop :=
  ∀ frame < s.size, ∀ name ∈ operatorNames, (s.resolve? frame name).isSome = true

/-- Choosing the function of an operator succeeds, or fails because its name is bound to something else. -/
def Machine.Dispatches (m : Machine) (symbol name : String) (frame : FrameId) : Prop :=
  (∃ f, operatorFunction symbol name frame m = .ok f m ∧ f.isFunction = true) ∨
    operatorFunction symbol name frame m = .error (.fault (.of (.operatorNotFunction symbol name))) m

namespace Store.Equipped

variable {s : Store}

theorem define (h : s.Equipped) (id : FrameId) (name : String) (v : Value) : (s.define id name v).Equipped := by
  intro frame hframe n hn
  rw [size_define] at hframe
  exact (Extends.define s id name v).resolve? (h frame hframe n hn)

theorem child (h : s.Equipped) {parent : FrameId} (hparent : parent < s.size) : (s.child parent).Equipped := by
  intro frame hframe name hname
  rw [Store.child, size_push] at hframe
  rcases Nat.lt_succ_iff_lt_or_eq.mp hframe with hold | rfl
  · exact (Extends.push s (some parent)).resolve? (h frame hold name hname)
  · exact resolve?_child hparent (h parent hparent name hname)

theorem entered {m : Machine} (h : m.store.Equipped) {frame : FrameId} (hframe : frame < m.store.size)
    (params : List String) (v : Value) : (m.entered frame params v).store.Equipped := by
  cases params with
  | nil => exact h.child hframe
  | cons p _ => exact (h.child hframe).define m.store.size p v

/-- The name of an operator is found, so only what it is bound to can be wrong. -/
theorem dispatches {m : Machine} (h : m.store.Equipped) {frame : FrameId} (hframe : frame < m.store.size)
    {name : String} (hname : name ∈ operatorNames) (symbol : String) : m.Dispatches symbol name frame := by
  obtain ⟨⟨owner, f⟩, hr⟩ := Option.isSome_iff_exists.mp (h frame hframe name hname)
  have hrun : operatorFunction symbol name frame m =
      (if f.isFunction then pure f else Eval.fault (.operatorNotFunction symbol name) : Eval Value) m := by
    show EStateM.bind (Eval.lookup frame name) _ m = _
    unfold EStateM.bind
    rw [Coupling.lookup_eq, hr]
  unfold Machine.Dispatches
  rw [hrun]
  cases hf : f.isFunction with
  | true => exact Or.inl ⟨f, rfl, hf⟩
  | false => exact Or.inr rfl

end Store.Equipped

namespace Dispatch

def Linked (n : Nat) : Value → Prop
  | .closure _ _ _ body frame => body.Known ∧ frame < n
  | .native _ _ _ code _ => code.isStandard = true
  | _ => True

def invariant : Invariant where
  value := Linked
  program n e frame := e.Known ∧ frame < n
  machine m := m.store.Equipped ∧ m.globals < m.store.size
  fault f := f.reason.isDiscord = false

theorem linked_mono {n n' : Nat} (h : n ≤ n') : ∀ {v : Value}, Linked n v → Linked n' v
  | .closure .., hv => ⟨hv.1, Nat.lt_of_lt_of_le hv.2 h⟩
  | .native .., hv => hv
  | .nil, _ | .bool _, _ | .number _, _ | .string _, _ | .list _, _ | .regex _, _ | .foreign _, _ => trivial

theorem isDiscord_of_isOrdinary {r : Reason} (h : r.isOrdinary = true) : r.isDiscord = false := by
  cases r with
  | undefinedVariable | unknownOperator | unknownUnaryOperator | unknownForm => cases h
  | _ => rfl

theorem machine_define {m : Machine} (hm : invariant.machine m) (frame : FrameId) (name : String) (v : Value) :
    invariant.machine (m.define frame name v) := by
  refine ⟨hm.1.define frame name v, ?_⟩
  show m.globals < (m.store.define frame name v).size
  rw [Store.size_define]
  exact hm.2

theorem invariant_laws (h : Host) : invariant.Laws h where
  values hn hv := linked_mono hn hv
  programs hn he := ⟨he.1, Nat.lt_of_lt_of_le he.2 hn⟩
  parts he x hx := ⟨fun d hd => he.1 d (.part hx hd), he.2⟩
  make he _ := ⟨fun d hd => he.1 d (.body hd), he.2⟩
  enter hc _ _ := ⟨hc.1, Nat.lt_succ_self _⟩
  curry hc _ := ⟨hc.1, Nat.lt_succ_self _⟩
  collect hn _ := hn
  fresh hm := hm
  declare _ _ hm := machine_define hm _ _ _
  rebind _ hm := machine_define hm _ _ _
  entered {_ _ params _ frame v m} hc hm := by
    refine ⟨hm.1.entered hc.2 params v, ?_⟩
    have hglobals : (m.entered frame params v).globals = m.globals := congrArg (·.globals) (m.entered_eq frame params v)
    rw [Invariant.size_entered, hglobals]
    exact Nat.lt_succ_of_lt hm.2
  write hm := hm
  input hm := hm
  atDepth hm := hm
  log _ hm := hm
  report _ _ hm := hm
  overflow _ hm := hm
  ordinary _ hr := isDiscord_of_isOrdinary hr
  missing {_ frame name m} he hnone hm := by
    -- the name of an operator would have been found
    show operatorNames.contains name = false
    by_contra hcontains
    have hname : name ∈ operatorNames := by simpa using hcontains
    have hfound := hm.1 frame he.2 name hname
    rw [hnone] at hfound
    cases hfound
  unknown he hr := by
    rw [he.1 _ .self] at hr
    cases hr
  refused {_ x} _ := by cases x <;> rfl
  blame _ hf := hf
  extension hn _ := absurd hn nofun

theorem binary_mem_operatorNames {op : BinaryOp} {name : String} (h : op.builtin? = some name) :
    name ∈ operatorNames := by
  cases op <;> cases h <;> decide

theorem unary_mem_operatorNames {op : UnaryOp} {name : String} (h : op.builtin? = some name) :
    name ∈ operatorNames := by
  cases op <;> cases h <;> decide

theorem operatorNames_registered : ∀ name ∈ operatorNames, name ∈ Catalogue.standard.names := by decide

end Dispatch

namespace Session

open Dispatch

theorem ofSettings_dispatch (c : Settings) (args : Option (List String)) (input : List Char) :
    invariant.Holds (ofSettings c args input).machine := by
  obtain ⟨hglobals, hsize, hnames⟩ := ofSettings_globals c args input
  refine ⟨ofSettings_each (fun d hd _ => Catalogue.standard_isStandard d hd) c args input, ?_, ?_⟩
  · intro frame hframe name hname
    obtain rfl : frame = 0 := by omega
    exact Store.resolve?_of_mem_names (hnames name (operatorNames_registered name hname))
  · show (ofSettings c args input).machine.globals < (ofSettings c args input).machine.store.size
    rw [hglobals, hsize]
    exact Nat.zero_lt_one

/-- A run keeps the names of operators where they are found, and does not end in a discord. -/
theorem run_dispatch {s : Session} (hs : invariant.Holds s.machine) (source : String) :
    invariant.Holds (s.run source).2.machine ∧
      ∀ f, (s.run source).1 = .error (.fault f) → f.reason.isDiscord = false := by
  cases h : parseWithin s.host.maxNesting source with
  | ok program =>
    exact Invariant.run_ended (invariant_laws s.host) id h ⟨parseWithin_known h, hs.machine.2⟩ ⟨hs.store, hs.machine⟩
  | error x =>
    cases x with
    | lexical e =>
      rw [run_lexical h]
      exact ⟨⟨hs.store, hs.machine⟩, fun _ hf => by cases hf⟩
    | grammar e =>
      rw [run_grammar h]
      exact ⟨⟨hs.store, hs.machine⟩, fun _ hf => by cases hf⟩
    | nesting p =>
      rw [run_nesting h]
      exact ⟨⟨hs.store, hs.machine⟩, fun _ hf => by cases hf⟩

theorem runs_dispatch {s : Session} (hs : invariant.Holds s.machine) (sources : List String) :
    invariant.Holds (s.runs sources).machine := by
  induction sources generalizing s with
  | nil => exact hs
  | cons source sources ih => exact ih (run_dispatch hs source).1

/-- Whatever sources a session has run, the next run does not fail for an operator or a form that is not known, nor for
an operator whose name is not bound. From every frame that there is by then the names of all operators are found, and
the function of an operator is chosen unless its name has been bound to something that is no function. -/
theorem run_dispatches (c : Settings) (args : Option (List String)) (input : List Char) (earlier : List String)
    (source : String) :
    let s := (ofSettings c args input).runs earlier
    (∀ f, (s.run source).1 = .error (.fault f) → f.reason.isDiscord = false) ∧
      ∀ frame < s.machine.store.size,
        (∀ name ∈ operatorNames, ∃ v, s.machine.store.get frame name = .ok v) ∧
        (∀ op : BinaryOp, ∀ name, op.builtin? = some name → s.machine.Dispatches op.symbol name frame) ∧
        ∀ op : UnaryOp, ∀ name, op.builtin? = some name → s.machine.Dispatches op.symbol name frame := by
  intro s
  have hs : invariant.Holds s.machine := runs_dispatch (ofSettings_dispatch c args input) earlier
  have hequipped : s.machine.store.Equipped := hs.machine.1
  refine ⟨(run_dispatch hs source).2, fun frame hframe => ⟨fun name hname => ?_, ?_, ?_⟩⟩
  · obtain ⟨r, hr⟩ := Option.isSome_iff_exists.mp (hequipped frame hframe name hname)
    refine ⟨r.2, ?_⟩
    unfold Store.get Store.lookup?
    rw [hr]
    rfl
  · intro op name hop
    exact hequipped.dispatches hframe (binary_mem_operatorNames hop) op.symbol
  · intro op name hop
    exact hequipped.dispatches hframe (unary_mem_operatorNames hop) op.symbol

def failsToChoose (symbol name : String) : Outcome → Bool
  | .error (.fault ⟨.operatorNotFunction s n, _, _⟩) => s == symbol && n == name
  | _ => false

theorem fault_of_failsToChoose {symbol name : String} {r : Outcome} (h : failsToChoose symbol name r = true) :
    ∃ f, r = .error (.fault f) ∧ f.reason = .operatorNotFunction symbol name := by
  unfold failsToChoose at h
  split at h
  · simp only [Bool.and_eq_true, beq_iff_eq] at h
    exact ⟨_, rfl, by rw [h.1, h.2]⟩
  · cases h

theorem run_fails_to_choose :
    failsToChoose "+" "add" (((ofSettings {} none []).runs ["let add :: true"]).run "() + ()").1 = true := by
  decide +kernel

/-- A program binds the name of an operator to something else, and the next one uses that operator. -/
theorem run_dispatches_rebound :
    ∃ f, (((ofSettings {} none []).runs ["let add :: true"]).run "() + ()").1 = .error (.fault f) ∧
      f.reason = .operatorNotFunction "+" "add" ∧ f.reason.isDiscord = false ∧
      ((ofSettings {} none []).runs ["let add :: true"]).machine.Dispatches "+" "add" 0 := by
  obtain ⟨f, hrun, hreason⟩ := fault_of_failsToChoose run_fails_to_choose
  obtain ⟨hfault, hframes⟩ := run_dispatches {} none [] ["let add :: true"] "() + ()"
  have hsize : 0 < ((ofSettings {} none []).runs ["let add :: true"]).machine.store.size := by decide +kernel
  exact ⟨f, hrun, hreason, hfault f hrun, (hframes 0 hsize).2.1 .add "add" rfl⟩

end Session

end Curried
