/-
  Curried.Proofs.Frames — a store, frame by frame.

  What each frame of a store is after another has been made (`frame_push`) or a name has been bound (`frame_define`),
  and which names a frame has after a binding: those it had, in their order, and the new one at the end. A store that
  extends another finds every name that the other finds (`Extends.resolve?`).
-/

import Curried.Machine

namespace Curried

namespace Frame

theorem names_bindIn (name : String) (v : Value) (bs : List (String × Value)) :
    (bindIn name v bs).map (·.1) =
      if name ∈ bs.map (·.1) then bs.map (·.1) else bs.map (·.1) ++ [name] := by
  induction bs with
  | nil => rfl
  | cons b rest ih =>
    obtain ⟨n, w⟩ := b
    by_cases hn : n = name
    · simp [bindIn, hn]
    · have hne : ¬ name = n := fun e => hn e.symm
      simp only [bindIn, beq_iff_eq, hn, if_false, List.map_cons, ih, List.mem_cons, hne, false_or]
      split
      · rfl
      · rfl

/-- Binding adds its name at the end, unless the frame has it. -/
theorem names_bind (f : Frame) (name : String) (v : Value) :
    (f.bind name v).names = if name ∈ f.names then f.names else f.names ++ [name] :=
  names_bindIn name v f.bindings

theorem mem_names_of_find? {f : Frame} {name : String} {v : Value} (h : f.find? name = some v) : name ∈ f.names := by
  obtain ⟨b, hb, -⟩ := Option.map_eq_some_iff.mp h
  have hname : b.1 = name := by simpa using List.find?_some hb
  exact hname ▸ List.mem_map_of_mem (List.mem_of_find?_eq_some hb)

theorem isSome_find? {f : Frame} {name : String} : (f.find? name).isSome = true ↔ name ∈ f.names := by
  simp [find?, names]

theorem mem_bindings_of_find? {f : Frame} {name : String} {v : Value} (h : f.find? name = some v) :
    ∃ b ∈ f.bindings, b.2 = v := by
  obtain ⟨b, hb, rfl⟩ := Option.map_eq_some_iff.mp h
  exact ⟨b, List.mem_of_find?_eq_some hb, rfl⟩

theorem mem_bindIn {name : String} {v : Value} {bs : List (String × Value)} {b : String × Value}
    (h : b ∈ bindIn name v bs) : b.2 = v ∨ b ∈ bs := by
  induction bs with
  | nil =>
    obtain rfl : b = (name, v) := by simpa [bindIn] using h
    exact Or.inl rfl
  | cons c rest ih =>
    rw [bindIn] at h
    split at h
    · rcases List.mem_cons.mp h with rfl | h
      · exact Or.inl rfl
      · exact Or.inr (List.mem_cons_of_mem _ h)
    · rcases List.mem_cons.mp h with rfl | h
      · exact Or.inr List.mem_cons_self
      · exact (ih h).imp_right (List.mem_cons_of_mem _)

end Frame

namespace Store

@[simp] theorem size_push (s : Store) (parent : Option FrameId) : (s.push parent).size = s.size + 1 := by
  simp [push, size]

@[simp] theorem size_define (s : Store) (id : FrameId) (name : String) (v : Value) :
    (s.define id name v).size = s.size := by
  simp [define, size]

theorem frame_of_le {s : Store} {id : FrameId} (h : s.size ≤ id) : s.frame id = ⟨none, []⟩ := by
  simp only [frame, Array.getD_eq_getD_getElem?, Array.getElem?_eq_none h, Option.getD_none]

/-- What holds of all bindings in a store holds of those in each frame. -/
theorem forall_bindings {s : Store} {Q : String × Value → Prop} (h : ∀ f ∈ s.frames, ∀ b ∈ f.bindings, Q b)
    (id : FrameId) : ∀ b ∈ (s.frame id).bindings, Q b := by
  by_cases hid : id < s.frames.size
  · have hframe : s.frame id = s.frames[id] := by
      simp [frame, Array.getD_eq_getD_getElem?, Array.getElem?_eq_getElem hid]
    rw [hframe]
    exact h _ (Array.getElem_mem hid)
  · rw [frame_of_le (Nat.le_of_not_lt hid)]
    exact nofun

theorem frame_push (s : Store) (parent : Option FrameId) (id : FrameId) :
    (s.push parent).frame id = if id = s.size then ⟨parent, []⟩ else s.frame id := by
  simp only [frame, push, size, Array.getD_eq_getD_getElem?, Array.getElem?_push]
  split
  · rfl
  · rfl

/-- Only the frame that a name is bound in changes. -/
theorem frame_define (s : Store) (id : FrameId) (name : String) (v : Value) (i : FrameId) :
    (s.define id name v).frame i = if i = id ∧ id < s.size then (s.frame i).bind name v else s.frame i := by
  simp only [frame, define, size, Array.getD_eq_getD_getElem?, Array.getElem?_modify]
  by_cases hi : i = id
  · subst hi
    by_cases hs : i < s.frames.size
    · simp [hs]
    · simp [hs]
  · have hne : ¬ id = i := fun e => hi e.symm
    simp [hi, hne]

theorem frame_define_ne (s : Store) {id i : FrameId} (h : i ≠ id) (name : String) (v : Value) :
    (s.define id name v).frame i = s.frame i := by
  rw [frame_define, if_neg fun hi => h hi.1]

theorem find?_of_resolveWithin {s : Store} {name : String} {fuel : Nat} {id owner : FrameId} {v : Value}
    (h : s.resolveWithin name fuel id = some (owner, v)) : (s.frame owner).find? name = some v := by
  induction fuel generalizing id with
  | zero => cases h
  | succ fuel ih =>
    simp only [resolveWithin] at h
    cases hv : (s.frame id).find? name with
    | some u =>
      rw [hv] at h
      cases h
      exact hv
    | none =>
      rw [hv] at h
      cases hp : (s.frame id).parent with
      | some parent => rw [hp] at h; exact ih h
      | none => rw [hp] at h; cases h

/-- A name is bound in the frame it resolves to. -/
theorem find?_of_resolve? {s : Store} {id owner : FrameId} {name : String} {v : Value}
    (h : s.resolve? id name = some (owner, v)) : (s.frame owner).find? name = some v :=
  find?_of_resolveWithin h

/-- Every frame has the names that it has in the first store, and its parent there. -/
structure Extends (s s' : Store) : Prop where
  names : ∀ id, (s.frame id).names ⊆ (s'.frame id).names
  parent : ∀ {id p}, (s.frame id).parent = some p → (s'.frame id).parent = some p

namespace Extends

variable {s s' : Store}

theorem refl (s : Store) : s.Extends s := ⟨fun _ => List.Subset.refl _, id⟩

theorem trans {s'' : Store} (h : s.Extends s') (h' : s'.Extends s'') : s.Extends s'' :=
  ⟨fun id => List.Subset.trans (h.names id) (h'.names id), fun hp => h'.parent (h.parent hp)⟩

theorem define (s : Store) (id : FrameId) (name : String) (v : Value) : s.Extends (s.define id name v) := by
  refine ⟨fun i n hn => ?_, fun {i p} hp => ?_⟩
  · rw [frame_define]
    split
    · rw [Frame.names_bind]
      split
      · exact hn
      · exact List.mem_append_left _ hn
    · exact hn
  · rw [frame_define]
    split
    · exact hp
    · exact hp

theorem push (s : Store) (parent : Option FrameId) : s.Extends (s.push parent) := by
  refine ⟨fun i n hn => ?_, fun {i p} hp => ?_⟩ <;> rw [frame_push] <;> split
  · rename_i hi
    rw [hi, frame_of_le (Nat.le_refl _)] at hn
    cases hn
  · exact hn
  · rename_i hi
    rw [hi, frame_of_le (Nat.le_refl _)] at hp
    cases hp
  · exact hp

/-- What is found within some steps is found within more of them. -/
theorem resolveWithin (h : s.Extends s') {name : String} {fuel fuel' : Nat} (hfuel : fuel ≤ fuel') {id : FrameId}
    (hr : (s.resolveWithin name fuel id).isSome = true) : (s'.resolveWithin name fuel' id).isSome = true := by
  induction fuel generalizing id fuel' with
  | zero => cases hr
  | succ fuel ih =>
    obtain ⟨fuel', rfl⟩ : ∃ n, fuel' = n + 1 := ⟨fuel' - 1, by omega⟩
    simp only [Store.resolveWithin] at hr ⊢
    cases hv' : (s'.frame id).find? name with
    | some v => rfl
    | none =>
      cases hv : (s.frame id).find? name with
      | some v =>
        have hname := h.names id (Frame.mem_names_of_find? hv)
        rw [← Frame.isSome_find?, hv'] at hname
        cases hname
      | none =>
        rw [hv] at hr
        cases hp : (s.frame id).parent with
        | none => rw [hp] at hr; cases hr
        | some p =>
          rw [hp] at hr
          rw [h.parent hp]
          exact ih (Nat.le_of_succ_le_succ hfuel) hr

theorem resolve? (h : s.Extends s') {id : FrameId} {name : String} (hr : (s.resolve? id name).isSome = true) :
    (s'.resolve? id name).isSome = true :=
  h.resolveWithin (Nat.le_refl _) hr

end Extends

/-- A frame made inside another finds what the other finds. -/
theorem resolve?_child {s : Store} {parent : FrameId} (hparent : parent < s.size) {name : String}
    (hr : (s.resolve? parent name).isSome = true) : ((s.child parent).resolve? s.size name).isSome = true := by
  have hframe : (s.child parent).frame s.size = ⟨some parent, []⟩ := by rw [child, frame_push, if_pos rfl]
  have hinner : ((s.child parent).resolveWithin name s.size parent).isSome = true :=
    (Extends.push s (some parent)).resolveWithin hparent hr
  unfold Store.resolve?
  rw [resolveWithin, hframe]
  exact hinner

theorem resolve?_of_mem_names {s : Store} {id : FrameId} {name : String} (h : name ∈ (s.frame id).names) :
    (s.resolve? id name).isSome = true := by
  obtain ⟨v, hv⟩ := Option.isSome_iff_exists.mp (Frame.isSome_find?.mpr h)
  unfold Store.resolve?
  rw [resolveWithin, hv]
  rfl

end Store

end Curried
