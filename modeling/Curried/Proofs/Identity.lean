/-
  Curried.Proofs.Identity — equal values look equal.

  Functions are equal when they have the same identity, so the identities of a session have to tell them apart. They
  are given out in order, each once: a registry lists the functions that have been made, every one at its identity. It
  only grows, and every function that there is anywhere is the one that the registry has at its identity (`Registered`).
  That is a coupling of a run with itself whose worlds are the registries.

  So two functions of a session that are equal are one (`Value.Equal.eq`), and equal values of any kind are shown
  the same way (`Value.Equal.render`).
-/

import Curried.Proofs.Doubles
import Curried.Proofs.Standard

namespace Curried

/-- A function is the one that a registry has at its identity, and its code is the library's. -/
def Registered (registry : List Value) : Value → Prop
  | .closure id name params body frame => registry[id]? = some (.closure id name params body frame)
  | .native id name arity code vs => registry[id]? = some (.native id name arity code vs) ∧ code.isStandard = true
  | .foreign _ => False
  | _ => True

theorem Registered.mono {registry later : List Value} (h : registry <+: later) {v : Value}
    (hv : Registered registry v) : Registered later v := by
  obtain ⟨more, rfl⟩ := h
  have hkept : ∀ {id : Nat} {u : Value}, registry[id]? = some u → (registry ++ more)[id]? = some u := by
    intro id u hu
    obtain ⟨hid, -⟩ := List.getElem?_eq_some_iff.mp hu
    rwa [List.getElem?_append_left hid]
  cases v with
  | closure => exact hkept hv
  | native => exact ⟨hkept hv.1, hv.2⟩
  | foreign => exact hv
  | _ => trivial

structure Machine.Registers (m : Machine) (registry : List Value) : Prop where
  length : registry.length = m.nextId
  store : m.store.Each (Registered registry)

namespace Identity

open Evaluator

def coupling : Coupling where
  World := List Value
  later registry registry' := registry <+: registry'
  like registry := .same (Registered registry)
  machine registry m m' := m = m' ∧ m.Registers registry
  program _ e e' _ := e = e'
  halted registry x m x' m' := x = x' ∧ m = m' ∧ m.Registers registry
  excused _ := False

/-! ## Steps -/

section Steps

variable {m : Machine} {registry : List Value} {frame : FrameId} {v : Value}

theorem registers_define (hm : m.Registers registry) (name : String) (hv : v.Each (Registered registry)) :
    (m.define frame name v).Registers registry :=
  ⟨hm.length, hm.store.define frame name hv⟩

theorem registers_entered (hm : m.Registers registry) (params : List String) (hv : v.Each (Registered registry)) :
    (m.entered frame params v).Registers registry := by
  cases params with
  | nil => exact ⟨hm.length, hm.store.push (some frame)⟩
  | cons p _ => exact ⟨hm.length, (hm.store.push (some frame)).define m.store.size p hv⟩

theorem registers_readLine (hm : m.Registers registry) : m.readLine.2.Registers registry := by
  rw [m.readLine_eq]
  exact ⟨hm.length, hm.store⟩

/-- A new function gets the next identity. -/
theorem registers_fresh (hm : m.Registers registry) (f : Value) :
    { m with nextId := m.nextId + 1 }.Registers (registry ++ [f]) ∧ (registry ++ [f])[m.nextId]? = some f := by
  refine ⟨⟨?_, hm.store.imp fun u => Registered.mono (List.prefix_append registry [f])⟩, ?_⟩
  · rw [List.length_append, hm.length, List.length_singleton]
  · rw [← hm.length]
    exact List.getElem?_concat_length

def Ended (registry : List Value) : EStateM.Result Halt Machine Value → Prop
  | .ok v m => ∃ later, registry <+: later ∧ m.Registers later ∧ v.Each (Registered later)
  | .error _ m => ∃ later, registry <+: later ∧ m.Registers later

theorem setDepth_ended {r : EStateM.Result Halt Machine Value} (hr : Ended registry r) (depth : Nat) :
    Ended registry (setDepth depth r) := by
  match r, hr with
  | .ok v m, ⟨later, hle, hm, hv⟩ => exact ⟨later, hle, ⟨hm.length, hm.store⟩, hv⟩
  | .error x m, ⟨later, hle, hm⟩ => exact ⟨later, hle, hm.length, hm.store⟩

theorem overflow_ended (h : Host) (e : Expr) (hm : m.Registers registry) : Ended registry (overflow h e m) :=
  ⟨registry, List.prefix_rfl, hm.length, hm.store⟩

theorem settleFault_ended (h : Host) (e : Expr) (f : Fault) {later : List Value} (hle : registry <+: later)
    (hm : m.Registers later) : Ended registry (settleFault h e f m) := by
  have hreported : (m.reportOnce h (f.blame e.position).issue).Registers later := by
    unfold Machine.reportOnce
    split
    · exact hm
    · exact ⟨hm.length, hm.store⟩
  unfold settleFault
  dsimp only
  cases (f.blame e.position).severity with
  | fatal => exact ⟨later, hle, hreported⟩
  | error => exact ⟨later, hle, hreported, (Likeness.eq_and_each .nil).2⟩

theorem settle_ended (h : Host) (e : Expr) :
    ∀ {r : EStateM.Result Halt Machine Value}, Ended registry r → Ended registry (settle h e r)
  | .ok _ _, hr => hr
  | .error (.fault f) _, ⟨_, hle, hm⟩ => settleFault_ended h e f hle hm
  | .error (.crash c) _, ⟨_, hle, hm⟩ => settleFault_ended h e (.of (.crashed c)) hle hm
  | .error .exhausted _, ⟨later, hle, hm⟩ => ⟨later, hle, hm.length, hm.store⟩
  | .error .exit _, hr => hr

theorem deeper_ended (h : Host) (e : Expr) {x : Eval Value} (hm : m.Registers registry)
    (hx : Ended registry (x { m with depth := m.depth + 1 })) : Ended registry (deeper h e x m) := by
  unfold deeper
  dsimp only
  refine setDepth_ended ?_ m.depth
  split
  · exact overflow_ended h e ⟨hm.length, hm.store⟩
  · exact settle_ended h e hx

end Steps

/-! ## A run -/

theorem ends_of_ended {registry : List Value} {r : EStateM.Result Halt Machine Value} (hr : Ended registry r) :
    coupling.Ends registry coupling.Values r r := by
  match r, hr with
  | .ok v m, ⟨later, hle, hm, hv⟩ =>
    exact @Coupling.Ends.ok coupling registry _ _ _ later v v m m hle ⟨rfl, hm⟩ (Likeness.values_of_each hv)
  | .error x m, ⟨later, hle, hm⟩ =>
    exact @Coupling.Ends.halt coupling registry _ _ _ later x x m m hle ⟨rfl, rfl, hm⟩

theorem ended_of_ends {registry : List Value} {r r' : EStateM.Result Halt Machine Value}
    (hr : coupling.Ends registry coupling.Values r r') : r = r' ∧ Ended registry r := by
  cases hr with
  | ok hle hm hv =>
    obtain ⟨rfl, hm⟩ := hm
    obtain ⟨rfl, heach⟩ := Likeness.eq_and_each hv
    exact ⟨rfl, _, hle, hm, heach⟩
  | halt hle hx =>
    obtain ⟨rfl, rfl, hm⟩ := hx
    exact ⟨rfl, _, hle, hm⟩
  | excused hx => exact hx.elim

theorem coupling_laws (h : Host) : coupling.Laws h h where
  refl registry := List.prefix_rfl
  trans hle hle' := List.IsPrefix.trans hle hle'
  like hle := ⟨fun hc => ⟨hc.1, hc.2.mono hle⟩, fun hc => ⟨hc.1, hc.2.mono hle⟩, fun hf => hf⟩
  program _ he := he
  frames := by rintro _ m _ ⟨rfl, -⟩; rfl
  ids := by rintro _ m _ ⟨rfl, -⟩; rfl
  parts := by
    rintro _ e _ frame rfl
    have hparts : Expr.Matches (fun a b => a = b ∧ True) e e := Expr.matches_self fun _ _ => trivial
    simp only [and_true] at hparts
    exact hparts
  resolve := by
    rintro _ e _ frame m _ - ⟨rfl, hm⟩ name
    exact (Store.alike_self_iff.mpr hm.store).resolve? frame name
  global := by
    rintro _ m _ ⟨rfl, hm⟩ name
    exact (Store.alike_self_iff.mpr hm.store).lookup? m.globals name
  declare := by
    rintro registry e _ frame name m _ v v' - - ⟨rfl, hm⟩ hv
    obtain ⟨rfl, heach⟩ := Likeness.eq_and_each hv
    exact ⟨registry, List.prefix_rfl, rfl, registers_define hm name heach⟩
  rebind := by
    rintro registry p q name value next _ frame owner u m _ v v' - ⟨rfl, hm⟩ - hv
    obtain ⟨rfl, heach⟩ := Likeness.eq_and_each hv
    exact ⟨registry, List.prefix_rfl, rfl, registers_define hm name heach⟩
  make := by
    rintro registry p p' name params body body' next next' frame m _ he ⟨rfl, hm⟩
    cases he
    obtain ⟨hm', hmade⟩ := registers_fresh hm (.closure m.nextId name params body frame)
    exact ⟨_, List.prefix_append _ _, ⟨rfl, hm'⟩, rfl, hmade⟩
  enter := by
    rintro registry id name params body _ frame m _ v v' ⟨rfl, -⟩ - ⟨rfl, hm⟩ hv
    obtain ⟨rfl, heach⟩ := Likeness.eq_and_each hv
    exact ⟨registry, List.prefix_rfl, ⟨rfl, registers_entered hm params heach⟩, rfl⟩
  curry := by
    rintro registry id name p q more body _ frame m _ v v' ⟨rfl, -⟩ ⟨rfl, hm⟩ hv
    obtain ⟨rfl, heach⟩ := Likeness.eq_and_each hv
    have hentered : (m.entered frame (p :: q :: more) v).Registers registry := registers_entered hm _ heach
    obtain ⟨hm', hmade⟩ := registers_fresh hentered (.closure m.nextId name (q :: more) body m.store.size)
    exact ⟨_, List.prefix_append _ _, ⟨rfl, hm'⟩, rfl, hmade⟩
  collect := by
    rintro registry id name arity code vs _ m _ v v' ⟨rfl, -, hcode⟩ - hv - ⟨rfl, hm⟩
    obtain ⟨rfl, -⟩ := Likeness.eq_and_each hv
    obtain ⟨hm', hmade⟩ := registers_fresh hm (.native m.nextId name arity code (vs ++ [v]))
    exact ⟨_, List.prefix_append _ _, ⟨rfl, hm'⟩, rfl, hmade, hcode⟩
  write := by
    rintro registry m _ ⟨rfl, hm⟩ text
    exact ⟨registry, List.prefix_rfl, rfl, hm.length, hm.store⟩
  readLine := by
    rintro registry m _ ⟨rfl, hm⟩
    exact ⟨registry, List.prefix_rfl, ⟨rfl, registers_readLine hm⟩, rfl⟩
  fault := by rintro _ r m _ - ⟨rfl, hm⟩; exact ⟨rfl, rfl, hm⟩
  missing := by rintro _ e _ frame name m _ - - ⟨rfl, hm⟩; exact ⟨rfl, rfl, hm⟩
  unknown := by rintro _ e _ frame r m _ - - ⟨rfl, hm⟩; exact ⟨rfl, rfl, hm⟩
  target := by
    rintro _ p p' t t' value value' next next' frame r m _ he - ⟨rfl, hm⟩
    cases he
    exact ⟨rfl, rfl, hm⟩
  accept _ _ := Iff.rfl
  refuse := by
    rintro _ source failure failure' m _ hc hc' ⟨rfl, hm⟩
    cases hc.symm.trans hc'
    exact ⟨rfl, rfl, hm⟩
  exhausted := by rintro _ m _ ⟨rfl, hm⟩; exact Or.inr ⟨rfl, rfl, hm⟩
  extension := by
    rintro _ id name arity key vs _ v v' ⟨-, -, hcode⟩
    cases hcode
  deeper := by
    rintro _ e _ frame x x' rfl hx registry hle m _ ⟨rfl, hm⟩
    have hdeep : coupling.machine registry { m with depth := m.depth + 1 } { m with depth := m.depth + 1 } :=
      ⟨rfl, hm.length, hm.store⟩
    obtain ⟨heq, hended⟩ := ended_of_ends (hx registry hle _ _ hdeep)
    have hsame : deeper h e x' m = deeper h e x m := by
      unfold deeper
      dsimp only
      rw [heq]
    rw [hsame]
    exact ends_of_ended (deeper_ended h e hm hended)

theorem evaluate_ended (h : Host) (k : Nat) (e : Expr) (frame : FrameId) {m : Machine} {registry : List Value}
    (hm : m.Registers registry) : Ended registry (evaluate h k e frame m) := by
  have hprogram : coupling.program registry e e frame := rfl
  have hruns := Coupling.evaluate_runs (coupling_laws h) (k := k) (Or.inl rfl) hprogram
  exact (ended_of_ends (hruns registry List.prefix_rfl m m ⟨rfl, hm⟩)).2

end Identity

/-! ## Sessions -/

theorem Machine.registers_defineNative {m : Machine} {registry : List Value} (hm : m.Registers registry)
    {d : Definition} (hd : d.code.isStandard = true) :
    (m.defineNative d).Registers (registry ++ [d.toValue m.nextId]) := by
  obtain ⟨hm', hmade⟩ := Identity.registers_fresh hm (d.toValue m.nextId)
  exact Identity.registers_define hm' d.name (Value.each_native.mpr ⟨⟨hmade, hd⟩, List.forall_mem_nil _⟩)

theorem Machine.exists_registers_install {m : Machine} {registry : List Value} (hm : m.Registers registry) :
    ∃ registry', (m.install .standard).Registers registry' := by
  have hfold : ∀ ds : List Definition, (∀ d ∈ ds, d.code.isStandard = true) → ∀ {m : Machine} {registry : List Value},
      m.Registers registry → ∃ registry', (ds.foldl defineNative m).Registers registry' := by
    intro ds
    induction ds with
    | nil => exact fun _ m registry hm => ⟨registry, hm⟩
    | cons d ds ih =>
      intro hds m registry hm
      obtain ⟨hd, hds⟩ := List.forall_mem_cons.mp hds
      exact ih hds (registers_defineNative hm hd)
  obtain ⟨registry', hm'⟩ := hfold _ Catalogue.standard_isStandard hm
  exact ⟨registry', hm'.length, hm'.store⟩

namespace Session

theorem ofSettings_registers (c : Settings) (args : Option (List String)) (input : List Char) :
    ∃ registry, (ofSettings c args input).machine.Registers registry := by
  have hempty : Store.Each (Registered []) {} := fun f hf => by simp at hf
  have hglobals : (Machine.openGlobals { input := input }).Registers [] := ⟨rfl, hempty.push none⟩
  obtain ⟨registry, hopen⟩ := Machine.exists_registers_install hglobals
  refine ⟨registry, ?_⟩
  unfold ofSettings
  cases args with
  | none => exact hopen
  | some args => exact Identity.registers_define hopen c.argsName (each_strings args)

/-- After a run the registry has grown, and has what the run made. -/
theorem run_registers {s : Session} {registry : List Value} (hs : s.machine.Registers registry) (source : String) :
    ∃ later, registry <+: later ∧ (s.run source).2.machine.Registers later ∧
      ∀ v, (s.run source).1 = .ok v → v.Each (Registered later) := by
  cases h : parseWithin s.host.maxNesting source with
  | ok program =>
    obtain ⟨t, ht⟩ := s.begun_eq source program
    have hbegun : (s.begun source program).Registers registry := by
      rw [ht]
      exact ⟨hs.length, hs.store⟩
    have hended := Identity.evaluate_ended s.host s.host.stackSize program (s.begun source program).globals hbegun
    change Identity.Ended registry (s.evaluation source program) at hended
    rw [run_program h]
    generalize s.evaluation source program = r at hended ⊢
    match r, hended with
    | .ok v m, ⟨later, hle, hm, hv⟩ =>
      refine ⟨later, hle, ⟨hm.length, hm.store⟩, fun u hu => ?_⟩
      cases hu
      exact hv
    | .error x m, ⟨later, hle, hm⟩ => exact ⟨later, hle, hm, fun u hu => by cases hu⟩
  | error x =>
    cases x with
    | lexical e =>
      rw [run_lexical h]
      exact ⟨registry, List.prefix_rfl, ⟨hs.length, hs.store⟩, fun u hu => by cases hu⟩
    | grammar e =>
      rw [run_grammar h]
      exact ⟨registry, List.prefix_rfl, ⟨hs.length, hs.store⟩, fun u hu => by cases hu⟩
    | nesting p =>
      rw [run_nesting h]
      exact ⟨registry, List.prefix_rfl, ⟨hs.length, hs.store⟩, fun u hu => by cases hu⟩

/-- A value that there is at some time while sources are run one after the other: in what is bound in a frame, or in
what a run gives. -/
inductive Shows : Session → List String → Value → Prop
  | bound {s : Session} {sources : List String} {f : Frame} {b : String × Value} {v : Value} :
      f ∈ s.machine.store.frames → b ∈ f.bindings → b.2.Part v → Shows s sources v
  | result {s : Session} {source : String} {sources : List String} {u v : Value} :
      (s.run source).1 = .ok u → u.Part v → Shows s (source :: sources) v
  | later {s : Session} {source : String} {sources : List String} {v : Value} :
      Shows (s.run source).2 sources v → Shows s (source :: sources) v

/-- One registry has all functions that there are while sources are run. -/
theorem exists_registered {s : Session} {registry : List Value} (hs : s.machine.Registers registry)
    (sources : List String) :
    ∃ later, registry <+: later ∧ ∀ v, s.Shows sources v → v.Each (Registered later) := by
  induction sources generalizing s registry with
  | nil =>
    refine ⟨registry, List.prefix_rfl, fun v hv => ?_⟩
    cases hv with
    | bound hf hb hpart => exact (hs.store _ hf _ hb).part hpart
  | cons source sources ih =>
    obtain ⟨next, hnext, hs', hresult⟩ := run_registers hs source
    obtain ⟨last, hlast, hshown⟩ := ih hs'
    have hlater := List.IsPrefix.trans hnext hlast
    refine ⟨last, hlater, fun v hv => ?_⟩
    cases hv with
    | bound hf hb hpart => exact ((hs.store _ hf _ hb).part hpart).imp fun u => Registered.mono hlater
    | result hu hpart => exact ((hresult _ hu).part hpart).imp fun u => Registered.mono hlast
    | later hv => exact hshown v hv

end Session

/-! ## Equality -/

namespace Value

inductive Equal : Value → Value → Prop
  | nil : Equal nil nil
  | bool (b : Bool) : Equal (bool b) (bool b)
  | number {x y : Float} : (x == y) = true → Equal (number x) (number y)
  | string (s : String) : Equal (string s) (string s)
  | list {vs ws : List Value} : List.Forall₂ Equal vs ws → Equal (list vs) (list ws)
  | closure {id : Nat} {name name' : Option String} {params params' : List String} {body body' : Expr}
      {frame frame' : FrameId} : Equal (closure id name params body frame) (closure id name' params' body' frame')
  | native {id : Nat} {name name' : String} {arity arity' : Nat} {code code' : Primitive} {vs vs' : List Value} :
      Equal (native id name arity code vs) (native id name' arity' code' vs')
  | regex (r : Regex) : Equal (regex r) (regex r)

mutual

theorem Equal.of_equals : ∀ {v w : Value}, v.equals w = .ok true → Equal v w
  | .nil, w, h => by
    cases w with
    | nil => exact .nil
    | _ => cases h
  | .bool b, w, h => by
    cases w with
    | bool c =>
      have hsame : b = c := by simpa [equals] using h
      exact hsame ▸ .bool b
    | _ => cases h
  | .number x, w, h => by
    cases w with
    | number y => exact .number (by simpa [equals] using h)
    | _ => cases h
  | .string s, w, h => by
    cases w with
    | string t =>
      have hsame : s = t := by simpa [equals] using h
      exact hsame ▸ .string s
    | _ => cases h
  | .list vs, w, h => by
    cases w with
    | list ws =>
      rw [equals] at h
      split at h
      · rename_i hlength
        exact .list (Equal.of_equalsAll hlength h)
      · cases h
    | _ => cases h
  | .closure i .., w, h => by
    cases w with
    | closure j =>
      have hsame : i = j := by simpa [equals] using h
      exact hsame ▸ .closure
    | _ => cases h
  | .native i .., w, h => by
    cases w with
    | native j =>
      have hsame : i = j := by simpa [equals] using h
      exact hsame ▸ .native
    | _ => cases h
  | .regex r, w, h => by
    cases w with
    | regex t =>
      have hsame : r = t := Regex.ext_source (by simpa [equals] using h)
      exact hsame ▸ .regex r
    | _ => cases h
  | .foreign _, w, h => by
    rw [equals] at h
    cases h

theorem Equal.of_equalsAll : ∀ {vs ws : List Value}, vs.length = ws.length → equalsAll vs ws = .ok true →
    List.Forall₂ Equal vs ws
  | [], [], _, _ => .nil
  | v :: vs, w :: ws, hlength, h => by
    have hstep : equalsAll (v :: vs) (w :: ws) =
        (v.equals w).bind fun same => if same then equalsAll vs ws else .ok false := by
      rw [equalsAll]
      rfl
    rw [hstep] at h
    cases hfirst : v.equals w with
    | error f =>
      rw [hfirst] at h
      cases h
    | ok same =>
      rw [hfirst] at h
      cases same with
      | false => cases h
      | true => exact .cons (Equal.of_equals hfirst) (Equal.of_equalsAll (Nat.succ.inj hlength) h)

end

theorem equals_self {v : Value} (h : v.isFunction = true) : v.equals v = .ok true := by
  cases v with
  | closure => simp [equals]
  | native => simp [equals]
  | _ => cases h

theorem Equal.kind {v w : Value} (h : Equal v w) : v.kind = w.kind := by
  cases h <;> rfl

theorem Equal.truthy {v w : Value} (h : Equal v w) : v.truthy = w.truthy := by
  cases h <;> rfl

/-- Functions that are equal are one. -/
theorem Equal.eq {registry : List Value} {v w : Value} (h : Equal v w) (hv : v.Each (Registered registry))
    (hw : w.Each (Registered registry)) (hfunction : v.isFunction = true) : v = w := by
  cases h with
  | closure => exact Option.some.inj ((each_closure.mp hv).symm.trans (each_closure.mp hw))
  | native => exact Option.some.inj ((each_native.mp hv).1.1.symm.trans (each_native.mp hw).1.1)
  | _ => cases hfunction

mutual

theorem Equal.render {registry : List Value} : ∀ {v w : Value}, Equal v w → v.Each (Registered registry) →
    w.Each (Registered registry) → v.render = w.render
  | _, _, .nil, _, _ => rfl
  | _, _, .bool _, _, _ => rfl
  | _, _, .number h, _, _ => by rw [Value.render, Value.render, Number.render_eq_of_beq h]
  | _, _, .string _, _, _ => rfl
  | _, _, .list h, hv, hw => by
    rw [Value.render, Value.render, Equal.renderAll h (each_list.mp hv) (each_list.mp hw)]
  | _, _, .closure, hv, hw => by rw [Equal.eq .closure hv hw rfl]
  | _, _, .native, hv, hw => by rw [Equal.eq .native hv hw rfl]
  | _, _, .regex _, _, _ => rfl

theorem Equal.renderAll {registry : List Value} : ∀ {vs ws : List Value}, List.Forall₂ Equal vs ws →
    (∀ v ∈ vs, v.Each (Registered registry)) → (∀ w ∈ ws, w.Each (Registered registry)) → ∀ {before : List String},
    Value.renderAll vs before = Value.renderAll ws before
  | _, _, .nil, _, _, _ => rfl
  | _, _, .cons h hs, hv, hw, before => by
    obtain ⟨hv, hvs⟩ := List.forall_mem_cons.mp hv
    obtain ⟨hw, hws⟩ := List.forall_mem_cons.mp hw
    rw [Value.renderAll, Value.renderAll, Equal.render h hv hw]
    split
    · exact Equal.renderAll hs hvs hws
    · rfl

end

end Value

/-- Two values of a session that are equal are of one kind, are both true or both not, and are shown the same way; equal
functions are one function, and equal regexes one regex. -/
theorem equal_values_look_equal (c : Settings) (args : Option (List String)) (input : List Char) (sources : List String)
    (v w : Value) (hv : (Session.ofSettings c args input).Shows sources v)
    (hw : (Session.ofSettings c args input).Shows sources w) :
    (v.equals w = .ok true → v.kind = w.kind ∧ v.truthy = w.truthy ∧ v.render = w.render) ∧
      (v.isFunction = true → (v.equals w = .ok true ↔ v = w)) ∧
      ∀ r, v = .regex r → (v.equals w = .ok true ↔ w = .regex r) := by
  obtain ⟨registry, hregistry⟩ := Session.ofSettings_registers c args input
  obtain ⟨registry', -, hshown⟩ := Session.exists_registered hregistry sources
  refine ⟨fun h => ?_, fun hfunction => ⟨fun h => ?_, fun h => ?_⟩, fun r hr => ⟨fun h => ?_, fun h => ?_⟩⟩
  · have hequal := Value.Equal.of_equals h
    exact ⟨hequal.kind, hequal.truthy, hequal.render (hshown v hv) (hshown w hw)⟩
  · exact (Value.Equal.of_equals h).eq (hshown v hv) (hshown w hw) hfunction
  · subst h
    exact Value.equals_self hfunction
  · subst hr
    cases Value.Equal.of_equals h
    rfl
  · rw [hr, h]
    simp [Value.equals]

def Session.givesPair (s : Session) (first second : String) (test : Value → Value → Bool) : Bool :=
  match (s.run first).1, ((s.run first).2.run second).1 with
  | .ok v, .ok w => test v w
  | _, _ => false

theorem Session.of_givesPair {s : Session} {first second : String} {test : Value → Value → Bool}
    (h : s.givesPair first second test = true) :
    ∃ v w, (s.run first).1 = .ok v ∧ ((s.run first).2.run second).1 = .ok w ∧ test v w = true := by
  unfold Session.givesPair at h
  split at h
  · rename_i v w hv hw
    exact ⟨v, w, hv, hw, h⟩
  · cases h

/-- A function that a run has declared, in a list with one zero and in one with the other. -/
theorem equal_values_look_equal_zeros :
    let s := ((Session.ofSettings {} none []).run "fn f(x, y) :: x").2
    ∃ v w, (s.run "[f, 0]").1 = .ok v ∧ ((s.run "[f, 0]").2.run "[f, -0]").1 = .ok w ∧ v.equals w = .ok true ∧
      v.kind = w.kind ∧ v.truthy = w.truthy ∧ v.render = w.render := by
  intro s
  have hgives : s.givesPair "[f, 0]" "[f, -0]" (fun v w => (v.equals w).toOption == some true) = true := by
    decide +kernel
  obtain ⟨v, w, hv, hw, htest⟩ := Session.of_givesPair hgives
  have hequal : v.equals w = .ok true := by
    cases h : v.equals w with
    | error => simp [h, Except.toOption] at htest
    | ok same => simpa [h, Except.toOption] using htest
  have hlook := equal_values_look_equal {} none [] ["fn f(x, y) :: x", "[f, 0]", "[f, -0]"] v w
    (.later (.result hv .self)) (.later (.later (.result hw .self)))
  exact ⟨v, w, hv, hw, hequal, hlook.1 hequal⟩

end Curried
