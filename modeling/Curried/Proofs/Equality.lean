/-
  Curried.Proofs.Equality — equality of values is a partial equivalence.

  Equality goes into lists, to any depth, and no further (`Value.Nests`). It has an answer for any two values in which
  nothing is foreign to the language, and it finds equal what the rules of `Value.Equal` say (`Value.equals_iff`). By
  those it is symmetric and transitive. A value is equal to itself unless there is a NaN in it
  (`Value.equal_self_iff`); functions and regexes always are, whatever they hold.
-/

import Curried.Proofs.Identity

namespace Curried

namespace Value

/-- What there is in a value by going into lists, itself included. -/
inductive Nests : Value → Value → Prop
  | self {v : Value} : Nests v v
  | item {items : List Value} {v u : Value} : v ∈ items → Nests v u → Nests (list items) u

def IsComparable (v : Value) : Prop := ∀ type, ¬ v.Nests (foreign type)

def HasNaN (v : Value) : Prop := ∃ x, v.Nests (number x) ∧ x.isNaN = true

@[simp]
theorem nests_number {x : Float} {u : Value} : (number x).Nests u ↔ u = number x := by
  constructor
  · intro h
    cases h with
    | self => rfl
  · rintro rfl
    exact .self

@[simp]
theorem nests_list {vs : List Value} {u : Value} : (list vs).Nests u ↔ u = list vs ∨ ∃ v ∈ vs, v.Nests u := by
  constructor
  · intro h
    cases h with
    | self => exact .inl rfl
    | item hv hn => exact .inr ⟨_, hv, hn⟩
  · rintro (rfl | ⟨v, hv, hn⟩)
    · exact .self
    · exact .item hv hn

theorem IsComparable.items {vs : List Value} (h : (list vs).IsComparable) : ∀ v ∈ vs, v.IsComparable :=
  fun _ hv type hn => h type (.item hv hn)

theorem not_hasNaN_items {vs : List Value} (h : ¬ (list vs).HasNaN) : ∀ v ∈ vs, ¬ v.HasNaN :=
  fun _ hv ⟨x, hn, hx⟩ => h ⟨x, .item hv hn, hx⟩

/-! ## Answers -/

mutual

theorem exists_equals : ∀ {v w : Value}, v.IsComparable → w.IsComparable → ∃ same, v.equals w = .ok same
  | .list vs, w, hv, hw => by
    cases w with
    | list ws =>
      rw [equals]
      split
      · exact exists_equalsAll hv.items hw.items
      · exact ⟨false, rfl⟩
    | foreign type => exact (hw type .self).elim
    | _ => exact ⟨false, rfl⟩
  | .foreign type, _, hv, _ => (hv type .self).elim
  | .nil, w, _, hw | .bool _, w, _, hw | .number _, w, _, hw | .string _, w, _, hw | .closure .., w, _, hw
  | .native .., w, _, hw | .regex _, w, _, hw => by
    cases w with
    | foreign type => exact (hw type .self).elim
    | _ => exact ⟨_, rfl⟩

theorem exists_equalsAll : ∀ {vs ws : List Value}, (∀ v ∈ vs, v.IsComparable) → (∀ w ∈ ws, w.IsComparable) →
    ∃ same, equalsAll vs ws = .ok same
  | [], _, _, _ => ⟨true, by rw [equalsAll]; intro _ _ _ _ h; cases h⟩
  | _ :: _, [], _, _ => ⟨true, rfl⟩
  | v :: vs, w :: ws, hvs, hws => by
    obtain ⟨hv, hvs⟩ := List.forall_mem_cons.mp hvs
    obtain ⟨hw, hws⟩ := List.forall_mem_cons.mp hws
    obtain ⟨same, hsame⟩ := exists_equals hv hw
    rw [equalsAll, hsame]
    cases same with
    | false => exact ⟨false, rfl⟩
    | true => exact exists_equalsAll hvs hws

end

mutual

theorem Equal.equals : ∀ {v w : Value}, Equal v w → v.equals w = .ok true
  | _, _, .nil => rfl
  | _, _, .bool b => by simp [Value.equals]
  | _, _, .number h => by rw [Value.equals, h]
  | _, _, .string s => by simp [Value.equals]
  | _, _, .list h => by
    rw [Value.equals, if_pos h.length_eq]
    exact Equal.equalsAll h
  | _, _, .closure => by simp [Value.equals]
  | _, _, .native => by simp [Value.equals]
  | _, _, .regex r => by simp [Value.equals]

theorem Equal.equalsAll : ∀ {vs ws : List Value}, List.Forall₂ Equal vs ws → Value.equalsAll vs ws = .ok true
  | _, _, .nil => rfl
  | _, _, .cons h hs => by
    rw [Value.equalsAll, Equal.equals h]
    exact Equal.equalsAll hs

end

theorem equals_iff {v w : Value} : v.equals w = .ok true ↔ Equal v w := ⟨Equal.of_equals, Equal.equals⟩

/-! ## The rules -/

mutual

theorem Equal.symm : ∀ {v w : Value}, Equal v w → Equal w v
  | _, _, .nil => .nil
  | _, _, .bool b => .bool b
  | _, _, .number h => .number (Number.beq_symm h)
  | _, _, .string s => .string s
  | _, _, .list h => .list (Equal.symmAll h)
  | _, _, .closure => .closure
  | _, _, .native => .native
  | _, _, .regex r => .regex r

theorem Equal.symmAll : ∀ {vs ws : List Value}, List.Forall₂ Equal vs ws → List.Forall₂ Equal ws vs
  | _, _, .nil => .nil
  | _, _, .cons h hs => .cons (Equal.symm h) (Equal.symmAll hs)

end

mutual

theorem Equal.trans : ∀ {u v w : Value}, Equal u v → Equal v w → Equal u w
  | _, _, _, .nil, .nil => .nil
  | _, _, _, .bool b, .bool _ => .bool b
  | _, _, _, .number h, .number h' => .number (Number.beq_trans h h')
  | _, _, _, .string s, .string _ => .string s
  | _, _, _, .list h, .list h' => .list (Equal.transAll h h')
  | _, _, _, .closure, .closure => .closure
  | _, _, _, .native, .native => .native
  | _, _, _, .regex r, .regex _ => .regex r

theorem Equal.transAll : ∀ {us vs ws : List Value}, List.Forall₂ Equal us vs → List.Forall₂ Equal vs ws →
    List.Forall₂ Equal us ws
  | _, _, _, .nil, .nil => .nil
  | _, _, _, .cons h hs, .cons h' hs' => .cons (Equal.trans h h') (Equal.transAll hs hs')

end

/-- What is equal to itself has no NaN in it. -/
theorem Equal.isNaN_nested {v u : Value} (hn : v.Nests u) (h : Equal v v) {x : Float} (hu : u = .number x) :
    x.isNaN = false := by
  induction hn with
  | self =>
    subst hu
    cases h with
    | number hx => exact Number.beq_self_iff.mp hx
  | item hv _ ih =>
    cases h with
    | list hs => exact ih (List.forall₂_same.mp hs _ hv) hu

mutual

theorem Equal.self : ∀ {v : Value}, v.IsComparable → ¬ v.HasNaN → Equal v v
  | .nil, _, _ => .nil
  | .bool b, _, _ => .bool b
  | .number x, _, h => .number (Number.beq_self_iff.mpr (Bool.eq_false_iff.mpr fun hx => h ⟨x, .self, hx⟩))
  | .string s, _, _ => .string s
  | .list _, hc, h => .list (Equal.selfAll hc.items (not_hasNaN_items h))
  | .closure .., _, _ => .closure
  | .native .., _, _ => .native
  | .regex r, _, _ => .regex r
  | .foreign type, hc, _ => (hc type .self).elim

theorem Equal.selfAll : ∀ {vs : List Value}, (∀ v ∈ vs, v.IsComparable) → (∀ v ∈ vs, ¬ v.HasNaN) →
    List.Forall₂ Equal vs vs
  | [], _, _ => .nil
  | _ :: _, hc, h =>
    .cons (Equal.self (List.forall_mem_cons.mp hc).1 (List.forall_mem_cons.mp h).1)
      (Equal.selfAll (List.forall_mem_cons.mp hc).2 (List.forall_mem_cons.mp h).2)

end

theorem equal_self_iff {v : Value} (hv : v.IsComparable) : Equal v v ↔ ¬ v.HasNaN := by
  constructor
  · rintro h ⟨x, hn, hx⟩
    rw [h.isNaN_nested hn rfl] at hx
    cases hx
  · exact Equal.self hv

end Value

/-- Equality answers the same for two values whichever comes first, what is equal to an equal value is equal, and a
value is equal to itself if and only if there is no NaN in it, however deep. -/
theorem equals_partial_equivalence :
    (∀ v w : Value, v.IsComparable → w.IsComparable → ∃ same, v.equals w = .ok same ∧ w.equals v = .ok same) ∧
      (∀ u v w : Value, u.equals v = .ok true → v.equals w = .ok true → u.equals w = .ok true) ∧
      ∀ v : Value, v.IsComparable → (v.equals v = .ok true ↔ ¬ v.HasNaN) := by
  refine ⟨fun v w hv hw => ?_, fun u v w huv hvw => ?_, fun v hv => ?_⟩
  · obtain ⟨same, hsame⟩ := Value.exists_equals hv hw
    obtain ⟨same', hsame'⟩ := Value.exists_equals hw hv
    have hboth : same = true ↔ same' = true := by
      constructor
      · rintro rfl
        have hback := Value.equals_iff.mpr (Value.equals_iff.mp hsame).symm
        rw [hsame'] at hback
        exact Except.ok.inj hback
      · rintro rfl
        have hback := Value.equals_iff.mpr (Value.equals_iff.mp hsame').symm
        rw [hsame] at hback
        exact Except.ok.inj hback
    exact ⟨same, hsame, Bool.eq_iff_iff.mpr hboth ▸ hsame'⟩
  · exact Value.equals_iff.mpr ((Value.equals_iff.mp huv).trans (Value.equals_iff.mp hvw))
  · exact Value.equals_iff.trans (Value.equal_self_iff hv)

/-- The two zeros are equal, in lists too, and a list with NaN two deep is not equal to itself. -/
theorem equals_zeros_and_nan :
    (Value.list [.list [.number 0]]).equals (.list [.list [.number (-0)]]) = .ok true ∧
      (Value.list [.list [.number (-0)]]).equals (.list [.list [.number 0]]) = .ok true ∧
      (Value.list [.list [.number 0]]).equals (.list [.list [.number 0]]) = .ok true ∧
      ¬ (Value.list [.number 1, .list [.number (0 / 0)]]).equals (.list [.number 1, .list [.number (0 / 0)]]) =
        .ok true := by
  obtain ⟨hsymm, htrans, hself⟩ := equals_partial_equivalence
  have hzeros : (Value.list [.list [.number 0]]).equals (.list [.list [.number (-0)]]) = .ok true := by
    rw [Value.equals_iff]
    exact .list (.cons (.list (.cons (.number (by decide +kernel)) .nil)) .nil)
  have hflipped : (Value.list [.list [.number (-0)]]).equals (.list [.list [.number 0]]) = .ok true := by
    obtain ⟨same, hsame, hflipped⟩ := hsymm (.list [.list [.number 0]]) (.list [.list [.number (-0)]])
      (by simp [Value.IsComparable]) (by simp [Value.IsComparable])
    rwa [hzeros.symm.trans hsame]
  refine ⟨hzeros, hflipped, htrans _ _ _ hzeros hflipped, ?_⟩
  rw [hself _ (by simp [Value.IsComparable]), not_not]
  exact ⟨0 / 0, by simp, by decide +kernel⟩

end Curried
