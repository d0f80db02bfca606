/-
  Curried.Proofs.Standard — a session as settings open it has no native function but those of the library.

  No other function either, and no value that is none of the language's (`Session.ofSettings_each`); and its globals
  have all names of the library (`Session.ofSettings_globals`).
-/

import Curried.Proofs.Invariant

namespace Curried

def Primitive.isStandard : Primitive → Bool
  | .standard _ => true
  | .extension _ => false

def Store.IsStandard (s : Store) : Prop := s.Uses fun code => code.isStandard = true

theorem Catalogue.standard_isStandard : ∀ d ∈ Catalogue.standard.definitions, d.code.isStandard = true := by
  decide

namespace Machine

theorem install_isStandard {m : Machine} (hm : m.store.IsStandard) : (m.install .standard).store.IsStandard := by
  show (Catalogue.standard.definitions.foldl defineNative m).store.IsStandard
  have hds := Catalogue.standard_isStandard
  generalize Catalogue.standard.definitions = ds at hds
  induction ds generalizing m with
  | nil => exact hm
  | cons d ds ih =>
    obtain ⟨hd, hds⟩ := List.forall_mem_cons.mp hds
    have hv : (d.toValue m.nextId).Uses fun code => code.isStandard = true := by
      rw [Definition.toValue, Value.Uses]
      exact ⟨hd, trivial⟩
    exact ih (Store.Uses.define hm m.globals d.name hv) hds

theorem install_each {Q : Value → Prop} (hQ : ∀ d ∈ Catalogue.standard.definitions, ∀ id, Q (d.toValue id)) {m : Machine}
    (hm : m.store.Each Q) : (m.install .standard).store.Each Q := by
  show (Catalogue.standard.definitions.foldl defineNative m).store.Each Q
  generalize Catalogue.standard.definitions = ds at hQ
  induction ds generalizing m with
  | nil => exact hm
  | cons d ds ih =>
    obtain ⟨hd, hds⟩ := List.forall_mem_cons.mp hQ
    have hv : (d.toValue m.nextId).Each Q := Value.each_native.mpr ⟨hd m.nextId, List.forall_mem_nil _⟩
    exact ih (Store.Each.define hm m.globals d.name hv) hds

/-- What was there stays, and the globals get the names of what is defined. -/
theorem foldl_defineNative (ds : List Definition) {m : Machine} (hglobals : m.globals < m.store.size) :
    let m' := ds.foldl defineNative m
    m'.globals = m.globals ∧ m'.store.size = m.store.size ∧ m.store.Extends m'.store ∧
      ∀ d ∈ ds, d.name ∈ (m'.store.frame m.globals).names := by
  induction ds generalizing m with
  | nil => exact ⟨rfl, rfl, .refl _, nofun⟩
  | cons d ds ih =>
    have hsize : (m.defineNative d).store.size = m.store.size := Store.size_define _ _ _ _
    obtain ⟨hg, hs, hextends, hnames⟩ := ih (m := m.defineNative d) (by rw [hsize]; exact hglobals)
    refine ⟨hg, hs.trans hsize, (Store.Extends.define _ _ _ _).trans hextends, fun x hx => ?_⟩
    rcases List.mem_cons.mp hx with rfl | hx
    · refine hextends.names _ ?_
      show x.name ∈ ((m.store.define m.globals x.name (x.toValue m.nextId)).frame m.globals).names
      rw [Store.frame_define, if_pos ⟨rfl, hglobals⟩, Frame.names_bind]
      split
      · assumption
      · exact List.mem_append_right _ List.mem_cons_self
    · exact hnames x hx

end Machine

namespace Session

theorem openOn_isStandard {m : Machine} (hm : m.store.IsStandard) (h : Host) :
    (openOn m h .standard).machine.store.IsStandard :=
  Machine.install_isStandard (m := m.openGlobals) (Store.Uses.push hm none)

theorem allUse_strings {P : Primitive → Prop} (texts : List String) : Value.AllUse P (texts.map .string) := by
  induction texts with
  | nil => trivial
  | cons t ts ih =>
    rw [List.map_cons, Value.AllUse]
    exact ⟨trivial, ih⟩

theorem ofSettings_isStandard (c : Settings) (args : Option (List String)) (input : List Char) :
    (ofSettings c args input).machine.store.IsStandard := by
  have hempty : Store.IsStandard {} := fun f hf => by simp at hf
  have hopen := openOn_isStandard (m := { input := input }) hempty
    { maxDepth := c.maxDepth, reports := { color := c.color } }
  unfold ofSettings
  cases args with
  | none => exact hopen
  | some args =>
    have hargs : (Value.list (args.map .string)).Uses fun code => code.isStandard = true := by
      rw [Value.Uses]
      exact allUse_strings args
    exact Store.Uses.define hopen _ _ hargs

theorem each_strings {Q : Value → Prop} (texts : List String) : (Value.list (texts.map .string)).Each Q := by
  refine Value.each_list.mpr fun v hv u hu hopaque => ?_
  obtain ⟨text, -, rfl⟩ := List.mem_map.mp hv
  cases hu
  cases hopaque

/-- A session starts with the functions of the library and no other. -/
theorem ofSettings_each {Q : Value → Prop} (hQ : ∀ d ∈ Catalogue.standard.definitions, ∀ id, Q (d.toValue id))
    (c : Settings) (args : Option (List String)) (input : List Char) :
    (ofSettings c args input).machine.store.Each Q := by
  have hempty : Store.Each Q {} := fun f hf => by simp at hf
  have hopen := Machine.install_each hQ (m := Machine.openGlobals { input := input }) (hempty.push none)
  unfold ofSettings
  cases args with
  | none => exact hopen
  | some args => exact Store.Each.define hopen _ _ (each_strings args)

/-- A session starts with one frame, which has the names of the library. -/
theorem ofSettings_globals (c : Settings) (args : Option (List String)) (input : List Char) :
    let m := (ofSettings c args input).machine
    m.globals = 0 ∧ m.store.size = 1 ∧ ∀ name ∈ Catalogue.standard.names, name ∈ (m.store.frame 0).names := by
  have hglobals : (Machine.openGlobals { input := input }).globals <
    (Machine.openGlobals { input := input }).store.size := Nat.zero_lt_one
  obtain ⟨hg, hs, -, hnames⟩ := Machine.foldl_defineNative Catalogue.standard.definitions hglobals
  have hall : ∀ name ∈ Catalogue.standard.names,
      name ∈ (((Machine.openGlobals { input := input }).install .standard).store.frame 0).names := by
    intro name hname
    obtain ⟨d, hd, rfl⟩ := List.mem_map.mp hname
    exact hnames d hd
  unfold ofSettings
  cases args with
  | none => exact ⟨hg, hs, hall⟩
  | some args =>
    exact ⟨hg, (Store.size_define _ _ _ _).trans hs, fun name hname =>
      (Store.Extends.define _ _ _ _).names 0 (hall name hname)⟩

end Session

end Curried
