/-
  Curried.Proofs.Isolation — a program can neither see nor change frames it cannot reach.

  A set of frames is closed when it has the parent of each of its frames and the frame of every closure in what they
  bind (`Store.Closed`). An expression that runs in a frame of such a set reads and writes only frames of the set and
  frames made since, since every name it looks up and every function it gets hold of leads to one of those. So from
  two machines that differ only in other frames evaluation goes the same way, and leaves the other frames as they are
  (`evaluate_isolated`).
-/

import Curried.Proofs.Coupling.Evaluator
import Curried.Proofs.Frames
import Curried.Proofs.Parts
import Curried.Proofs.Standard
import Mathlib.Data.Set.Basic

namespace Curried

/-- No parent and no closure leads out of a set of frames. -/
structure Store.Closed (s : Store) (R : Set FrameId) : Prop where
  parent : ∀ id ∈ R, ∀ p, (s.frame id).parent = some p → p ∈ R
  captured : ∀ id ∈ R, ∀ b ∈ (s.frame id).bindings, ∀ i name params body frame,
    b.2.Part (.closure i name params body frame) → frame ∈ R

/-- Machines that differ at most in frames outside a set, with equally many frames. -/
structure Machine.AgreesOn (R : Set FrameId) (m m' : Machine) : Prop where
  rest : m' = { m with store := m'.store }
  size : m.store.size = m'.store.size
  frames : ∀ id ∈ R, m.store.frame id = m'.store.frame id

namespace Isolation

open Evaluator

def Local (K : Set FrameId) : Value → Prop
  | .closure _ _ _ _ frame => frame ∈ K
  | .native _ _ _ code _ => code.isStandard = true
  | _ => True

/-- Two stores on the way, from `s` and `s'` on: they agree on `K`, nothing in `K` leads out of it, and outside of it
they are as they were. -/
structure Stores (K : Set FrameId) (s s' t t' : Store) : Prop where
  size : t.size = t'.size
  /-- What is made from now on is in `K`. -/
  unmade : ∀ id, t.size ≤ id → id ∈ K
  agree : ∀ id ∈ K, t.frame id = t'.frame id
  parent : ∀ id ∈ K, ∀ p, (t.frame id).parent = some p → p ∈ K
  bound : ∀ id ∈ K, ∀ b ∈ (t.frame id).bindings, b.2.Each (Local K)
  kept : ∀ id ∉ K, t.frame id = s.frame id
  kept' : ∀ id ∉ K, t'.frame id = s'.frame id

namespace Stores

variable {K : Set FrameId} {s s' t t' : Store}

theorem define (h : Stores K s s' t t') {id : FrameId} (hid : id ∈ K) (name : String) {v : Value}
    (hv : v.Each (Local K)) : Stores K s s' (t.define id name v) (t'.define id name v) where
  size := by rw [Store.size_define, Store.size_define, h.size]
  unmade i hi := h.unmade i (by rwa [Store.size_define] at hi)
  agree i hi := by rw [Store.frame_define, Store.frame_define, h.agree i hi, h.size]
  parent i hi := by
    rw [Store.frame_define]
    split
    · exact h.parent i hi
    · exact h.parent i hi
  bound i hi := by
    rw [Store.frame_define]
    split
    · intro b hb
      rcases Frame.mem_bindIn hb with hbv | hb
      · rw [hbv]
        exact hv
      · exact h.bound i hi b hb
    · exact h.bound i hi
  kept i hi := by
    have hne : i ≠ id := fun e => hi (e ▸ hid)
    rw [Store.frame_define_ne t hne]
    exact h.kept i hi
  kept' i hi := by
    have hne : i ≠ id := fun e => hi (e ▸ hid)
    rw [Store.frame_define_ne t' hne]
    exact h.kept' i hi

theorem child (h : Stores K s s' t t') {parent : FrameId} (hp : parent ∈ K) :
    Stores K s s' (t.child parent) (t'.child parent) where
  size := by rw [Store.child, Store.child, Store.size_push, Store.size_push, h.size]
  unmade i hi := by
    rw [Store.child, Store.size_push] at hi
    exact h.unmade i (Nat.le_of_succ_le hi)
  agree i hi := by rw [Store.child, Store.child, Store.frame_push, Store.frame_push, h.agree i hi, h.size]
  parent i hi p := by
    rw [Store.child, Store.frame_push]
    split
    · rintro ⟨⟩
      exact hp
    · exact h.parent i hi p
  bound i hi := by
    rw [Store.child, Store.frame_push]
    split
    · intro b hb
      cases hb
    · exact h.bound i hi
  kept i hi := by
    rw [Store.child, Store.frame_push, if_neg fun e => hi (h.unmade i (Nat.le_of_eq e.symm))]
    exact h.kept i hi
  kept' i hi := by
    rw [Store.child, Store.frame_push, if_neg fun e => hi (h.unmade i (Nat.le_of_eq (h.size.trans e.symm)))]
    exact h.kept' i hi

/-- From a frame of the set, a name leads to the same frame of the set in both. -/
theorem resolve? (h : Stores K s s' t t') {frame : FrameId} (hframe : frame ∈ K) (name : String) :
    t.resolve? frame name = t'.resolve? frame name ∧
      ∀ owner v, t.resolve? frame name = some (owner, v) → owner ∈ K ∧ v.Each (Local K) := by
  unfold Store.resolve?
  generalize frame + 1 = fuel
  induction fuel generalizing frame with
  | zero =>
    refine ⟨rfl, ?_⟩
    rintro _ _ ⟨⟩
  | succ fuel ih =>
    simp only [Store.resolveWithin, ← h.agree frame hframe]
    cases hv : (t.frame frame).find? name with
    | some v =>
      refine ⟨rfl, ?_⟩
      rintro _ _ ⟨⟩
      obtain ⟨b, hb, rfl⟩ := Frame.mem_bindings_of_find? hv
      exact ⟨hframe, h.bound frame hframe b hb⟩
    | none =>
      cases hp : (t.frame frame).parent with
      | none =>
        refine ⟨rfl, ?_⟩
        rintro _ _ ⟨⟩
      | some parent => exact ih (h.parent frame hframe parent hp)

/-- What a name leads to, as two runs see it. -/
theorem resolved (h : Stores K s s' t t') {frame : FrameId} (hframe : frame ∈ K) (name : String) :
    Option.Rel (fun r r' => r.1 = r'.1 ∧ (Likeness.same (Local K)).Values r.2 r'.2) (t.resolve? frame name)
      (t'.resolve? frame name) := by
  obtain ⟨heq, hlocal⟩ := h.resolve? hframe name
  rw [← heq]
  cases hr : t.resolve? frame name with
  | none => exact .none
  | some r => exact .some ⟨rfl, Likeness.values_of_each (hlocal r.1 r.2 hr).2⟩

end Stores

variable (K : Set FrameId) (s s' : Store)

def Machines (m m' : Machine) : Prop :=
  ∃ t', m' = { m with store := t' } ∧ Stores K s s' m.store t' ∧ m.globals ∈ K

def coupling : Coupling where
  World := Unit
  later _ _ := True
  like _ := .same (Local K)
  machine _ := Machines K s s'
  program _ e e' frame := e = e' ∧ frame ∈ K
  halted _ x m x' m' := x = x' ∧ Machines K s s' m m'
  excused _ := False

variable {K s s'}

/-! ## One expression -/

variable {h : Host} {m m' : Machine}

/-- What is changed in both machines apart from their frames, and in the same way. -/
theorem Machines.update (hm : Machines K s s' m m') {f : Machine → Machine}
    (hf : ∀ t, f { m with store := t } = { f m with store := t }) (hg : (f m).globals = m.globals) :
    Machines K s s' (f m) (f m') := by
  obtain ⟨t', rfl, ht, hglobals⟩ := hm
  have hstore : (f m).store = m.store := by
    have hself := hf m.store
    have hm : { m with store := m.store } = m := rfl
    rw [hm] at hself
    rw [hself]
  exact ⟨t', hf t', by rwa [hstore], by rwa [hg]⟩

theorem Machines.hadError (hm : Machines K s s' m m') : m.hadError = m'.hadError := by
  obtain ⟨t', rfl, -⟩ := hm
  rfl

theorem Machines.depth (hm : Machines K s s' m m') : m.depth = m'.depth := by
  obtain ⟨t', rfl, -⟩ := hm
  rfl

theorem Machines.reportOnce (hm : Machines K s s' m m') (i : Issue) :
    Machines K s s' (m.reportOnce h i) (m'.reportOnce h i) := by
  unfold Machine.reportOnce
  rw [← hm.hadError]
  split
  · exact hm
  · exact hm.update (f := fun m => { m with hadError := true }.report h (.ofIssue i m.source)) (fun _ => rfl) rfl

theorem Machines.atDepth (hm : Machines K s s' m m') (depth : Nat) :
    Machines K s s' { m with depth := depth } { m' with depth := depth } :=
  hm.update (f := fun m => { m with depth := depth }) (fun _ => rfl) rfl

theorem coupling_worlds : (coupling K s s').Worlds where
  refl _ := trivial
  trans _ _ := trivial
  like _ := ⟨id, id, id⟩
  program _ he := he

theorem coupling_settles (h : Host) (e : Expr) : (coupling K s s').Settles Eq h e e where
  refl _ := rfl
  form := Or.inl
  blame hf := by
    cases hf
    rfl
  halted := Iff.rfl
  unexcused _ := id
  depth hm := Machines.depth hm
  atDepth hm := Machines.atDepth hm
  report hm hf := by
    cases hf
    exact Machines.reportOnce hm _
  overflow hm := ⟨_, _, rfl, rfl, Machines.update hm (f := fun m =>
    (m.log .error "zy.evaluator" s!"Evaluation depth exceeded {h.maxDepth}, terminating").report h
      ⟨.fatal, e.position, "Stack overflow", m.source⟩) (fun _ => rfl) rfl⟩

/-! ## A run -/

theorem Machines.define (hm : Machines K s s' m m') {frame : FrameId} (hframe : frame ∈ K) (name : String) {v : Value}
    (hv : v.Each (Local K)) : Machines K s s' (m.define frame name v) (m'.define frame name v) := by
  obtain ⟨t', rfl, ht, hg⟩ := hm
  exact ⟨_, rfl, ht.define hframe name hv, hg⟩

theorem Machines.entered (hm : Machines K s s' m m') {frame : FrameId} (hframe : frame ∈ K) (params : List String)
    {v : Value} (hv : v.Each (Local K)) : Machines K s s' (m.entered frame params v) (m'.entered frame params v) := by
  obtain ⟨t', rfl, ht, hg⟩ := hm
  cases params with
  | nil => exact ⟨_, rfl, ht.child hframe, hg⟩
  | cons p _ =>
    refine ⟨(t'.child frame).define t'.size p v, rfl, ?_, hg⟩
    rw [← ht.size]
    exact (ht.child hframe).define (ht.unmade _ (Nat.le_refl _)) p hv

theorem Machines.fresh (hm : Machines K s s' m m') :
    Machines K s s' { m with nextId := m.nextId + 1 } { m' with nextId := m'.nextId + 1 } :=
  hm.update (f := fun m => { m with nextId := m.nextId + 1 }) (fun _ => rfl) rfl

theorem Machines.readLine (hm : Machines K s s' m m') :
    Machines K s s' m.readLine.2 m'.readLine.2 ∧ m.readLine.1 = m'.readLine.1 := by
  obtain ⟨t', rfl, ht, hg⟩ := hm
  have hinput : m.input = { m with store := t' }.input := rfl
  obtain ⟨hline, hrest⟩ := Machine.readLine_congr hinput
  refine ⟨?_, hline⟩
  rw [m.readLine_eq, Machine.readLine_eq { m with store := t' }, ← hrest]
  exact ⟨t', rfl, ht, hg⟩

/-- A new frame is in the set. -/
theorem Machines.unmade (hm : Machines K s s' m m') : m.store.size ∈ K := by
  obtain ⟨t', rfl, ht, hg⟩ := hm
  exact ht.unmade _ (Nat.le_refl _)

theorem coupling_laws (h : Host) : (coupling K s s').Laws h h where
  toWorlds := coupling_worlds
  frames := by rintro _ m _ ⟨t', rfl, ht, -⟩; exact ht.size
  ids := by rintro _ m _ ⟨t', rfl, -⟩; rfl
  parts := by rintro _ e _ frame ⟨rfl, hframe⟩; exact Expr.matches_self fun _ _ => hframe
  resolve := by
    rintro _ e _ frame m _ ⟨-, hframe⟩ ⟨t', rfl, ht, -⟩ name
    exact ht.resolved hframe name
  global := by
    rintro _ m _ ⟨t', rfl, ht, hg⟩ name
    have hr := ht.resolved hg name
    unfold Store.lookup?
    dsimp only
    generalize m.store.resolve? m.globals name = x, t'.resolve? m.globals name = y at hr
    cases hr with
    | none => exact .none
    | some hr => exact .some hr.2
  declare := by
    rintro _ e _ frame name m m' v v' ⟨-, hframe⟩ - hm hv
    obtain ⟨rfl, heach⟩ := Likeness.eq_and_each hv
    exact ⟨(), trivial, Machines.define hm hframe name heach⟩
  rebind := by
    rintro _ p q name value next _ frame owner u m m' v v' ⟨-, hframe⟩ hm hr hv
    obtain ⟨rfl, heach⟩ := Likeness.eq_and_each hv
    obtain ⟨t', -, ht, -⟩ := id hm
    exact ⟨(), trivial, Machines.define hm ((ht.resolve? hframe name).2 owner u hr).1 name heach⟩
  make := by
    rintro _ p p' name params body body' next next' frame m m' ⟨he, hframe⟩ hm
    cases he
    exact ⟨(), trivial, Machines.fresh hm, rfl, hframe⟩
  enter := by
    rintro _ id name params body _ frame m m' v v' ⟨rfl, hframe⟩ - hm hv
    obtain ⟨rfl, heach⟩ := Likeness.eq_and_each hv
    exact ⟨(), trivial, Machines.entered hm hframe params heach, rfl, Machines.unmade hm⟩
  curry := by
    rintro _ id name p q more body _ frame m m' v v' ⟨rfl, hframe⟩ hm hv
    obtain ⟨rfl, heach⟩ := Likeness.eq_and_each hv
    have hnext : m.nextId = m'.nextId := by
      obtain ⟨t', rfl, -⟩ := hm
      rfl
    rw [← hnext]
    exact ⟨(), trivial, Machines.update (Machines.entered hm hframe (p :: q :: more) heach)
      (f := fun n => { n with nextId := m.nextId + 1 }) (fun _ => rfl) rfl, rfl, Machines.unmade hm⟩
  collect := by
    rintro _ id name arity code vs _ m m' v v' ⟨rfl, hcode⟩ - hv - hm
    obtain ⟨rfl, -⟩ := Likeness.eq_and_each hv
    exact ⟨(), trivial, Machines.fresh hm, rfl, hcode⟩
  write := by
    intro _ m m' hm text
    exact ⟨(), trivial, Machines.update hm (f := (·.write text)) (fun _ => rfl) rfl⟩
  readLine := by
    intro _ m m' hm
    exact ⟨(), trivial, Machines.readLine hm⟩
  fault _ hm := ⟨rfl, hm⟩
  missing _ _ hm := ⟨rfl, hm⟩
  unknown _ _ hm := ⟨rfl, hm⟩
  target := by
    rintro _ p p' t t' value value' next next' frame r m m' ⟨he, -⟩ - hm
    cases he
    exact ⟨rfl, hm⟩
  accept _ _ := Iff.rfl
  refuse hc hc' hm := by
    cases hc.symm.trans hc'
    exact ⟨rfl, hm⟩
  exhausted hm := Or.inr ⟨rfl, hm⟩
  extension := by
    rintro _ id name arity key vs _ v v' ⟨-, hcode⟩
    cases hcode
  deeper := by
    rintro _ e _ frame x x' ⟨rfl, -⟩ hx
    exact (coupling_settles h e).deeper coupling_worlds hx

/-- At the start the frames of the set and those to be made are all that can be reached. -/
theorem stores_start {R : Set FrameId} {m m' : Machine} (hstandard : m.store.IsStandard) (hclosed : m.store.Closed R)
    (hagree : m.AgreesOn R m') :
    Stores (R ∪ {id | m.store.size ≤ id}) m.store m'.store m.store m'.store where
  size := hagree.size
  unmade id hid := Or.inr hid
  agree id hid := by
    rcases hid with hid | hid
    · exact hagree.frames id hid
    · rw [Store.frame_of_le hid, Store.frame_of_le (hagree.size ▸ hid)]
  parent id hid p hp := by
    rcases hid with hid | hid
    · exact Or.inl (hclosed.parent id hid p hp)
    · rw [Store.frame_of_le hid] at hp
      cases hp
  bound id hid b hb u hu hf := by
    rcases hid with hid | hid
    · cases u with
      | closure i name params body frame => exact Or.inl (hclosed.captured id hid b hb i name params body frame hu)
      | native i name arity code vs =>
        have huses := Value.Uses.part hu (Store.forall_bindings hstandard id b hb)
        rw [Value.Uses] at huses
        exact huses.1
      | _ => trivial
    · rw [Store.frame_of_le hid] at hb
      cases hb
  kept _ _ := rfl
  kept' _ _ := rfl

/-- What two machines on the way say of one another, and of the frames that cannot be reached. -/
theorem Machines.apart {R : Set FrameId} {n : Nat} (hm : Machines (R ∪ {id | n ≤ id}) s s' m m') :
    m.AgreesOn (R ∪ {id | n ≤ id}) m' ∧
      ∀ id < n, id ∉ R → m.store.frame id = s.frame id ∧ m'.store.frame id = s'.frame id := by
  obtain ⟨t', rfl, ht, -⟩ := hm
  refine ⟨⟨rfl, ht.size, ht.agree⟩, fun id hid hR => ?_⟩
  have hout : id ∉ R ∪ {id | n ≤ id} := fun hin => hin.elim hR (Nat.not_le_of_lt hid)
  exact ⟨ht.kept id hout, ht.kept' id hout⟩

end Isolation

/-- With the functions of the library alone, an expression in a frame of a closed set evaluates in the same way on
machines that agree on the set: to the same end, with machines that agree on the set and on the frames made since; and
every other frame is left as it was. -/
theorem evaluate_isolated {R : Set FrameId} {m m' : Machine} (hstandard : m.store.IsStandard)
    (hclosed : m.store.Closed R) (hglobals : m.globals ∈ R) (hagree : m.AgreesOn R m') {frame : FrameId}
    (hframe : frame ∈ R) (h : Host) (k : Nat) (e : Expr) :
    ∃ n n' : Machine,
      ((∃ v, evaluate h k e frame m = .ok v n ∧ evaluate h k e frame m' = .ok v n') ∨
        ∃ x, evaluate h k e frame m = .error x n ∧ evaluate h k e frame m' = .error x n') ∧
      n.AgreesOn (R ∪ {id | m.store.size ≤ id}) n' ∧
      ∀ id < m.store.size, id ∉ R →
        n.store.frame id = m.store.frame id ∧ n'.store.frame id = m'.store.frame id := by
  have hstart : Isolation.Machines (R ∪ {id | m.store.size ≤ id}) m.store m'.store m m' :=
    ⟨m'.store, hagree.rest, Isolation.stores_start hstandard hclosed hagree, Or.inl hglobals⟩
  have hprogram : (Isolation.coupling (R ∪ {id | m.store.size ≤ id}) m.store m'.store).program () e e frame :=
    ⟨rfl, Or.inl hframe⟩
  have hends := Coupling.evaluate_runs (Isolation.coupling_laws h) (k := k) (Or.inl rfl) hprogram () trivial m m' hstart
  generalize evaluate h k e frame m = r, evaluate h k e frame m' = r' at hends
  cases hends with
  | @ok _ v _ n n' _ hm hv =>
    obtain ⟨rfl, -⟩ := Likeness.eq_and_each hv
    exact ⟨n, n', Or.inl ⟨v, rfl, rfl⟩, Isolation.Machines.apart hm⟩
  | @halt _ x _ n n' _ hx =>
    obtain ⟨rfl, hm⟩ := hx
    exact ⟨n, n', Or.inr ⟨x, rfl, rfl⟩, Isolation.Machines.apart hm⟩
  | excused hx => exact hx.elim

/-- Globals that hold a function, and a frame inside them that a program in the globals cannot reach. -/
def beside (secret : Bool) : Machine :=
  { store := ⟨#[⟨none, [("f", .closure 0 (some "f") ["x"] (.ref {} "x") 0)]⟩, ⟨some 0, [("secret", .bool secret)]⟩]⟩ }

def endsBinding (name : String) : EStateM.Result Halt Machine Value → Bool
  | .ok .nil n =>
    match n.store.lookup? 0 name with
    | some (.bool true) => true
    | _ => false
  | _ => false

theorem ok_of_endsBinding {name : String} {r : EStateM.Result Halt Machine Value} (h : endsBinding name r = true) :
    ∃ n, r = .ok .nil n ∧ n.store.lookup? 0 name = some (.bool true) := by
  unfold endsBinding at h
  split at h
  · rename_i n
    refine ⟨n, rfl, ?_⟩
    split at h
    · assumption
    · cases h
  · cases h

/-- `let y :: f(true)` in the globals, with different secrets beside them. -/
theorem evaluate_isolated_beside :
    let e : Expr := .binding {} "y" (.call {} (.ref {} "f") [.boolean {} true]) (.nil {}) none
    (beside true).store.IsStandard ∧ (beside true).store.Closed {0} ∧ (beside true).AgreesOn {0} (beside false) ∧
      ∃ n n' : Machine, evaluate {} 9 e 0 (beside true) = .ok .nil n ∧ evaluate {} 9 e 0 (beside false) = .ok .nil n' ∧
        n.store.lookup? 0 "y" = some (.bool true) ∧ n.AgreesOn ({0} ∪ {id | 2 ≤ id}) n' ∧
        n.store.frame 1 = ⟨some 0, [("secret", .bool true)]⟩ ∧
        n'.store.frame 1 = ⟨some 0, [("secret", .bool false)]⟩ := by
  intro e
  have hstandard : (beside true).store.IsStandard := by
    simp [Store.IsStandard, Store.Uses, beside, Value.Uses]
  have hclosed : (beside true).store.Closed {0} := by
    refine ⟨?_, ?_⟩
    · rintro _ rfl p ⟨⟩
    · rintro _ rfl b hb i name params body frame hpart
      obtain rfl : b = ("f", .closure 0 (some "f") ["x"] (.ref {} "x") 0) := List.mem_singleton.mp hb
      cases hpart
      rfl
  have hagree : (beside true).AgreesOn {0} (beside false) := by
    refine ⟨rfl, rfl, ?_⟩
    rintro _ rfl
    rfl
  have hbinds : endsBinding "y" (evaluate {} 9 e 0 (beside true)) = true := by decide +kernel
  obtain ⟨n, hrun, hy⟩ := ok_of_endsBinding hbinds
  obtain ⟨_, n', hend, hapart, hkept⟩ := evaluate_isolated hstandard hclosed rfl hagree rfl {} 9 e
  rw [hrun] at hend
  obtain ⟨_, ⟨⟩, hrun'⟩ | ⟨_, ⟨⟩, -⟩ := hend
  exact ⟨hstandard, hclosed, hagree, n, n', hrun, hrun', hy, hapart, hkept 1 (by decide) Nat.one_ne_zero⟩

end Curried
