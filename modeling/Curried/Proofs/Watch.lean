/-
  Curried.Proofs.Watch — one run, watched from its start to its end.

  A watch names what is kept while a program runs: which native functions there are anywhere in the store, and what
  the reports look like as long as the run goes on (`going`); and what holds when it halts. It is the coupling of a
  run with itself, or with the same run under a host that decides differently: both machines are the same one until
  the runs halt.

  Given `Watch.Laws`, which speak only of halts, of the replies of extensions and of `deeper`, evaluation keeps what is
  watched (`Watch.expression_ends`).
-/

import Curried.Proofs.Coupling.Evaluator
import Curried.Proofs.Likeness.Uses
import Curried.Proofs.Parts

namespace Curried

structure Watch where
  primitive : Primitive → Prop
  going : Array Diagnostic → Bool → String → Prop
  halted : Halt → Machine → Halt → Machine → Prop
  excused : Halt → Prop

namespace Watch

variable (W : Watch)

def like : Likeness where
  closure _ _ _ body body' _ := body = body'
  native _ _ _ code vs vs' := vs = vs' ∧ W.primitive code

structure Runs (m : Machine) : Prop where
  store : m.store.Alike W.like.Values m.store
  going : W.going m.reporter.diagnostics m.hadError m.source

def coupling : Coupling where
  World := Unit
  later _ _ := True
  like _ := W.like
  machine _ m m' := m = m' ∧ W.Runs m
  program _ e e' _ := e = e'
  halted _ := W.halted
  excused := W.excused

variable {W}

/-! ## Values -/

mutual

theorem eq_of_values : ∀ {v v' : Value}, W.like.Values v v' → v = v'
  | _, _, .nil => rfl
  | _, _, .bool _ => rfl
  | _, _, .number _ => rfl
  | _, _, .string _ => rfl
  | _, _, .list h => congrArg Value.list (eq_of_allValues h)
  | _, _, .closure h => by cases h; rfl
  | _, _, .native h _ => by cases h.1; rfl
  | _, _, .regex _ => rfl
  | _, _, .foreign _ => rfl

theorem eq_of_allValues : ∀ {vs vs' : List Value}, List.Forall₂ W.like.Values vs vs' → vs = vs'
  | _, _, .nil => rfl
  | _, _, .cons h hs => by rw [eq_of_values h, eq_of_allValues hs]

end

theorem values_of_uses {v : Value} (h : v.Uses W.primitive) : W.like.Values v v :=
  Likeness.values_self (L := W.like) (fun _ => rfl) (fun hcode => ⟨rfl, hcode⟩) trivial v h

mutual

theorem uses_of_values : ∀ {v v' : Value}, W.like.Values v v' → v.Uses W.primitive
  | _, _, .nil => trivial
  | _, _, .bool _ => trivial
  | _, _, .number _ => trivial
  | _, _, .string _ => trivial
  | _, _, .list h => by rw [Value.Uses]; exact use_of_allValues h
  | _, _, .closure _ => trivial
  | _, _, .native h hs => by rw [Value.Uses]; exact ⟨h.2, use_of_allValues hs⟩
  | _, _, .regex _ => trivial
  | _, _, .foreign _ => trivial

theorem use_of_allValues : ∀ {vs vs' : List Value}, List.Forall₂ W.like.Values vs vs' → Value.AllUse W.primitive vs
  | _, _, .nil => trivial
  | _, _, .cons h hs => by rw [Value.AllUse]; exact ⟨uses_of_values h, use_of_allValues hs⟩

end

theorem store_alike {s : Store} (h : s.Uses W.primitive) : s.Alike W.like.Values s :=
  h.alike_self fun _ => values_of_uses

theorem uses_of_alike {s : Store} (h : s.Alike W.like.Values s) : s.Uses W.primitive := by
  intro f hf b hb
  have halike := List.forall₂_same.mp h f (Array.mem_toList_iff.mpr hf)
  exact uses_of_values (List.forall₂_same.mp halike.2 b hb).2

/-! ## What is kept -/

structure Laws (W : Watch) (h h' : Host) : Prop where
  fault : ∀ {f m}, f.severity = .fatal → W.Runs m → W.halted (.fault f) m (.fault f) m
  crash : ∀ {c m}, W.Runs m → W.halted (.crash c) m (.crash c) m
  exhausted : ∀ {m}, W.Runs m → W.excused .exhausted ∨ W.halted .exhausted m .exhausted m
  accept : ∀ source r, h.compile source = .ok r ↔ h'.compile source = .ok r
  refuse : ∀ {source x x' m}, h.compile source = .error x → h'.compile source = .error x' → W.Runs m →
    W.halted (.ofFault (.of (Library.reasonOf source x))) m (.ofFault (.of (Library.reasonOf source x'))) m
  extensions : h.extensions = h'.extensions
  reply : ∀ {key args v}, W.primitive (.extension key) → h.extensions key args = .value v → v.Uses W.primitive
  complaint : ∀ {key args message severity position m}, W.primitive (.extension key) →
    h.extensions key args = .fault message severity position → W.Runs m →
    W.halted (.fault ⟨.raised message, position, severity⟩) m (.fault ⟨.raised message, position, severity⟩) m
  deeper : ∀ {e x x'}, W.coupling.Runs () W.coupling.Values x x' →
    W.coupling.Runs () W.coupling.Values (Evaluator.deeper h e x) (Evaluator.deeper h' e x')

theorem Runs.define {m : Machine} (hm : W.Runs m) (frame : FrameId) (name : String) {v : Value}
    (hv : W.like.Values v v) : W.Runs (m.define frame name v) :=
  ⟨hm.store.define frame name hv, hm.going⟩

theorem Runs.child {m : Machine} (hm : W.Runs m) (parent : FrameId) : W.Runs (m.mapStore (·.child parent)) :=
  ⟨hm.store.child parent, hm.going⟩

theorem Runs.entered {m : Machine} (hm : W.Runs m) (frame : FrameId) (params : List String) {v : Value}
    (hv : W.like.Values v v) : W.Runs (m.entered frame params v) := by
  cases params with
  | nil => exact hm.child frame
  | cons p _ => exact (hm.child frame).define m.store.size p hv

theorem Runs.readLine {m : Machine} (hm : W.Runs m) : W.Runs m.readLine.2 := by
  rw [m.readLine_eq]
  exact ⟨hm.store, hm.going⟩

theorem matches_self (e : Expr) : Expr.Matches (fun a b => a = b) e e := by
  have hmatches := Expr.matches_self (Q := fun _ => True) (e := e) fun _ _ => trivial
  simpa only [and_true] using hmatches

theorem ends_ok {w : W.coupling.World} {v : Value} {m : Machine} (hm : W.Runs m) (hv : W.like.Values v v) :
    W.coupling.Ends w W.coupling.Values (.ok v m) (.ok v m) :=
  @Coupling.Ends.ok W.coupling w _ _ _ w v v m m trivial ⟨rfl, hm⟩ hv

theorem ends_halt {w : W.coupling.World} {x x' : Halt} {m m' : Machine} (hx : W.halted x m x' m') :
    W.coupling.Ends w W.coupling.Values (.error x m) (.error x' m') :=
  @Coupling.Ends.halt W.coupling w _ _ _ w x x' m m' trivial hx

variable {h h' : Host}

theorem extension_runs (hW : W.Laws h h') {key : String} (hk : W.primitive (.extension key)) (args : List Value) :
    W.coupling.Runs () W.coupling.Values (Evaluator.reply (h.extensions key args))
      (Evaluator.reply (h'.extensions key args)) := by
  rw [← hW.extensions]
  rintro _ _ m _ ⟨rfl, hm⟩
  cases hr : h.extensions key args with
  | value v => exact ends_ok hm (values_of_uses (hW.reply hk hr))
  | fault message severity position => exact ends_halt (hW.complaint hk hr hm)
  | crash c => exact ends_halt (hW.crash hm)

theorem coupling_laws (hW : W.Laws h h') : W.coupling.Laws h h' where
  refl _ := trivial
  trans _ _ := trivial
  like _ := ⟨id, id, id⟩
  program _ he := he
  frames := by rintro _ m _ ⟨rfl, -⟩; rfl
  ids := by rintro _ m _ ⟨rfl, -⟩; rfl
  parts := by rintro _ e _ frame rfl; exact matches_self e
  resolve := by rintro _ e _ frame m _ rfl ⟨rfl, hm⟩ name; exact hm.store.resolve? frame name
  global := by rintro _ m _ ⟨rfl, hm⟩ name; exact hm.store.lookup? m.globals name
  declare := by
    rintro _ e _ frame name m _ v v' rfl - ⟨rfl, hm⟩ hv
    cases eq_of_values hv
    exact ⟨(), trivial, rfl, hm.define frame name hv⟩
  rebind := by
    rintro _ p q name value next _ frame owner u m _ v v' rfl ⟨rfl, hm⟩ - hv
    cases eq_of_values hv
    exact ⟨(), trivial, rfl, hm.define owner name hv⟩
  make := by
    rintro _ p p' name params body body' next next' frame m _ he ⟨rfl, hm⟩
    cases he
    exact ⟨(), trivial, ⟨rfl, hm.store, hm.going⟩, rfl⟩
  enter := by
    rintro _ id name params body _ frame m _ v v' rfl - ⟨rfl, hm⟩ hv
    cases eq_of_values hv
    exact ⟨(), trivial, ⟨rfl, hm.entered frame params hv⟩, rfl⟩
  curry := by
    rintro _ id name p q more body _ frame m _ v v' rfl ⟨rfl, hm⟩ hv
    cases eq_of_values hv
    have hm' := hm.entered frame (p :: q :: more) hv
    exact ⟨(), trivial, ⟨rfl, hm'.store, hm'.going⟩, rfl⟩
  collect := by
    rintro _ id name arity code vs _ m _ v v' ⟨rfl, hcode⟩ - hv - ⟨rfl, hm⟩
    cases eq_of_values hv
    exact ⟨(), trivial, ⟨rfl, hm.store, hm.going⟩, rfl, hcode⟩
  write := by rintro _ m _ ⟨rfl, hm⟩ text; exact ⟨(), trivial, rfl, hm.store, hm.going⟩
  readLine := by rintro _ m _ ⟨rfl, hm⟩; exact ⟨(), trivial, ⟨rfl, hm.readLine⟩, rfl⟩
  fault := by rintro _ r m _ - ⟨rfl, hm⟩; exact hW.fault rfl hm
  missing := by rintro _ e _ frame name m _ - - ⟨rfl, hm⟩; exact hW.fault rfl hm
  unknown := by rintro _ e _ frame r m _ - - ⟨rfl, hm⟩; exact hW.fault rfl hm
  target := by
    rintro _ p p' t t' value value' next next' frame r m _ he - ⟨rfl, hm⟩
    cases he
    exact hW.fault rfl hm
  accept := hW.accept
  refuse := by rintro _ source x x' m _ hc hc' ⟨rfl, hm⟩; exact hW.refuse hc hc' hm
  exhausted := by rintro _ m _ ⟨rfl, hm⟩; exact hW.exhausted hm
  extension := by
    rintro _ id name arity key vs _ v v' ⟨rfl, hk⟩ hargs
    rw [← eq_of_allValues hargs]
    exact extension_runs hW hk _
  deeper := by rintro _ e _ frame x x' rfl hx; exact hW.deeper hx

/-- What is watched of a machine is watched of it until evaluation ends. -/
theorem expression_ends (hW : W.Laws h h') {k k' : Nat} (hk : W.coupling.Stacks k k') (e : Expr) (frame : FrameId) :
    W.coupling.Runs () W.coupling.Values (Evaluator.expression (evaluate h k) (apply h k) e frame)
      (Evaluator.expression (evaluate h' k') (apply h' k') e frame) := by
  have hC := coupling_laws hW
  obtain ⟨heval, happ⟩ := Coupling.evaluates_and_applies hC () k k' hk
  exact Coupling.expression_runs hC.toSteps heval happ rfl

end Watch

end Curried
