/-
  Curried.Proofs.Lists.Sorting — what sorting does to a list.

  All elements are looked at before any two are compared, so that the first one that is no number decides the fault
  (`sort_unsortable`). Numbers other than NaN are ordered as the integers they are multiples by (`Number.units`), an
  order that is transitive and total, and for which a merge sort is stable (`filter_mergeSort`).
-/

import Curried.Library.Lists
import Curried.Proofs.Doubles.Units

namespace Curried

namespace Library

/-! ## Faults -/

theorem sortable_of_kind {v : Value} (h : ∀ x, v ≠ .number x) :
    sortable v = v.kind.bind fun kind => .error (.of (.unsortable kind)) := by
  cases v with
  | number x => exact absurd rfl (h x)
  | _ => rfl

theorem mapM_sortable_numbers (numbers : List Float) : (numbers.map Value.number).mapM sortable = .ok numbers := by
  induction numbers with
  | nil => rfl
  | cons x numbers ih =>
    rw [List.map_cons, List.mapM_cons, ih]
    rfl

theorem sort_list (items : List Value) :
    sort (.list items) = (items.mapM sortable).bind fun numbers =>
      .ok (.list ((numbers.mergeSort fun x y => !(decide (y < x))).map .number)) :=
  rfl

theorem sort_numbers (numbers : List Float) :
    sort (.list (numbers.map .number)) =
      .ok (.list ((numbers.mergeSort fun x y => !(decide (y < x))).map .number)) := by
  rw [sort_list, mapM_sortable_numbers]
  rfl

/-- The first element that is no number decides the fault. -/
theorem sort_unsortable (numbers : List Float) {v : Value} (h : ∀ x, v ≠ .number x) (after : List Value) :
    sort (.list (numbers.map .number ++ v :: after)) =
      v.kind.bind fun kind => .error (.of (.unsortable kind)) := by
  rw [sort_list, List.mapM_append, mapM_sortable_numbers, List.mapM_cons, sortable_of_kind h]
  cases v.kind with
  | ok kind => rfl
  | error f => rfl

theorem numbers_or_first_unsortable (items : List Value) :
    (∃ numbers : List Float, items = numbers.map .number) ∨
      ∃ (numbers : List Float) (v : Value) (after : List Value),
        items = numbers.map .number ++ v :: after ∧ ∀ x, v ≠ .number x := by
  induction items with
  | nil => exact .inl ⟨[], rfl⟩
  | cons u items ih =>
    by_cases hu : ∃ x, u = .number x
    · obtain ⟨x, rfl⟩ := hu
      obtain ⟨numbers, rfl⟩ | ⟨numbers, v, after, rfl, hv⟩ := ih
      · exact .inl ⟨x :: numbers, rfl⟩
      · exact .inr ⟨x :: numbers, v, after, rfl, hv⟩
    · exact .inr ⟨[], u, items, rfl, not_exists.mp hu⟩

theorem sort_fails_iff {items : List Value} :
    (∃ f, sort (.list items) = .error f) ↔ ∃ v ∈ items, ∀ x, v ≠ .number x := by
  obtain ⟨numbers, rfl⟩ | ⟨numbers, v, after, rfl, hv⟩ := numbers_or_first_unsortable items
  · refine iff_of_false ?_ ?_
    · rintro ⟨f, hf⟩
      rw [sort_numbers] at hf
      cases hf
    · rintro ⟨v, hv, hno⟩
      obtain ⟨x, -, rfl⟩ := List.mem_map.mp hv
      exact hno x rfl
  · refine iff_of_true ?_ ⟨v, List.mem_append_right _ List.mem_cons_self, hv⟩
    rw [sort_unsortable numbers hv after]
    cases v.kind with
    | ok kind => exact ⟨_, rfl⟩
    | error f => exact ⟨f, rfl⟩

/-! ## The order -/

open Number

def inOrder (x y : Float) : Bool := decide (units x ≤ units y)

theorem inOrder_trans (x y z : Float) (h : inOrder x y = true) (h' : inOrder y z = true) : inOrder x z = true :=
  decide_eq_true ((of_decide_eq_true h).trans (of_decide_eq_true h'))

theorem inOrder_total (x y : Float) : (inOrder x y || inOrder y x) = true := by
  rw [Bool.or_eq_true]
  exact (Int.le_total (units x) (units y)).imp decide_eq_true decide_eq_true

theorem not_lt_eq_inOrder {x y : Float} (hx : x.isNaN = false) (hy : y.isNaN = false) :
    (!(decide (y < x))) = inOrder x y := by
  rw [inOrder, decide_eq_decide.mpr (lt_iff_units hy hx), ← decide_not, decide_eq_decide, Int.not_lt]

theorem mergeSort_eq_inOrder {numbers : List Float} (h : ∀ x ∈ numbers, x.isNaN = false) :
    (numbers.mergeSort fun x y => !(decide (y < x))) = numbers.mergeSort inOrder := by
  have hsame : ∀ x ∈ numbers, ∀ y ∈ numbers, (!(decide (y < x))) = inOrder (id x) (id y) :=
    fun x hx y hy => not_lt_eq_inOrder (h x hx) (h y hy)
  have hmap := List.map_mergeSort hsame
  rwa [List.map_id, List.map_id] at hmap

/-- Numbers that are equal keep the order they had. -/
theorem filter_mergeSort (numbers : List Float) (n : Int) :
    (numbers.mergeSort inOrder).filter (fun x => units x = n) = numbers.filter fun x => units x = n := by
  have hpairwise : (numbers.filter fun x => units x = n).Pairwise fun x y => inOrder x y = true := by
    refine List.pairwise_of_forall_mem_list fun x hx y hy => ?_
    rw [List.mem_filter, decide_eq_true_eq] at hx hy
    exact decide_eq_true (hx.2.trans hy.2.symm).le
  have hsublist : (numbers.filter fun x => units x = n).Sublist (numbers.mergeSort inOrder) :=
    List.sublist_mergeSort inOrder_trans inOrder_total hpairwise List.filter_sublist
  have hfiltered := hsublist.filter fun x => decide (units x = n)
  rw [List.filter_filter] at hfiltered
  simp only [Bool.and_self] at hfiltered
  exact (hfiltered.eq_of_length ((List.mergeSort_perm numbers inOrder).symm.filter _).length_eq).symm

theorem mergeSort_orders {numbers : List Float} (h : ∀ x ∈ numbers, x.isNaN = false) :
    (numbers.mergeSort inOrder).Pairwise (· ≤ ·) := by
  have hpairwise := List.pairwise_mergeSort inOrder_trans inOrder_total numbers
  refine hpairwise.imp_of_mem fun hx hy hle => ?_
  rw [List.mem_mergeSort] at hx hy
  exact (le_iff_units (h _ hx) (h _ hy)).mpr (of_decide_eq_true hle)

theorem mergeSort_stable {numbers : List Float} (h : ∀ x ∈ numbers, x.isNaN = false) {z : Float}
    (hz : z.isNaN = false) : (numbers.mergeSort inOrder).filter (· == z) = numbers.filter (· == z) := by
  have hsame : ∀ x ∈ numbers, (x == z) = decide (units x = units z) := fun x hx =>
    Bool.eq_iff_iff.mpr ((beq_iff_units (h x hx) hz).trans decide_eq_true_iff.symm)
  rw [List.filter_congr hsame, ← filter_mergeSort numbers (units z)]
  exact List.filter_congr fun x hx => hsame x (List.mem_mergeSort.mp hx)

end Library

open Library

/-- A list sorts unless something in it is no number, and the first such element decides the fault. Numbers other than
NaN come in ascending order, those that compare equal in the order they had, and sorting them again changes nothing. -/
theorem sort_orders (items : List Value) :
    ((∃ f, sort (.list items) = .error f) ↔ ∃ v ∈ items, ∀ x, v ≠ .number x) ∧
      (∀ (numbers : List Float) (v : Value) (after : List Value),
        items = numbers.map .number ++ v :: after → (∀ x, v ≠ .number x) →
          (∀ kind, v.kind = .ok kind → ∃ f, sort (.list items) = .error f ∧
            f.reason.message = "Cannot sort " ++ kind.name ++ " values, sort accepts numbers only") ∧
          ∀ f, v.kind = .error f → sort (.list items) = .error f) ∧
      ∀ numbers : List Float, items = numbers.map .number → (∀ x ∈ numbers, x.isNaN = false) →
        ∃ sorted : List Float, sort (.list items) = .ok (.list (sorted.map .number)) ∧
          sorted.Perm numbers ∧ sorted.Pairwise (· ≤ ·) ∧
          (∀ z ∈ numbers, sorted.filter (· == z) = numbers.filter (· == z)) ∧
          sort (.list (sorted.map .number)) = .ok (.list (sorted.map .number)) := by
  refine ⟨sort_fails_iff, ?_, ?_⟩
  · rintro numbers v after rfl hv
    constructor
    · intro kind hkind
      refine ⟨.of (.unsortable kind), ?_, ?_⟩
      · rw [sort_unsortable numbers hv after, hkind]
        rfl
      · rfl
    · intro f hkind
      rw [sort_unsortable numbers hv after, hkind]
      rfl
  · rintro numbers rfl hnumbers
    have hperm := List.mergeSort_perm numbers inOrder
    have hsorted : ∀ x ∈ numbers.mergeSort inOrder, x.isNaN = false := fun x hx =>
      hnumbers x (List.mem_mergeSort.mp hx)
    refine ⟨numbers.mergeSort inOrder, ?_, hperm, mergeSort_orders hnumbers, ?_, ?_⟩
    · rw [sort_numbers, mergeSort_eq_inOrder hnumbers]
    · exact fun z hz => mergeSort_stable hnumbers (hnumbers z hz)
    · rw [sort_numbers, mergeSort_eq_inOrder hsorted,
        List.mergeSort_of_pairwise (List.pairwise_mergeSort inOrder_trans inOrder_total numbers)]

theorem sort_orders_zeros :
    (∃ f, sort (.list [.number 3, .string "b", .nil]) = .error f ∧
      f.reason.message = "Cannot sort string values, sort accepts numbers only") ∧
      ∃ sorted : List Float,
        sort (.list ([1, 0, 1 / 0, -0, -1 / 0].map .number)) = .ok (.list (sorted.map .number)) ∧
          sorted.Perm [1, 0, 1 / 0, -0, -1 / 0] ∧ sorted.Pairwise (· ≤ ·) ∧ sorted.filter (· == 0) = [0, -0] := by
  constructor
  · obtain ⟨-, hfirst, -⟩ := sort_orders [.number 3, .string "b", .nil]
    obtain ⟨hkind, -⟩ := hfirst [3] (.string "b") [.nil] rfl fun x h => by cases h
    exact hkind .string rfl
  · obtain ⟨-, -, hnumbers⟩ := sort_orders ([1, 0, 1 / 0, -0, -1 / 0].map .number)
    obtain ⟨sorted, hsort, hperm, hpairwise, hstable, -⟩ := hnumbers _ rfl (by decide +kernel)
    refine ⟨sorted, hsort, hperm, hpairwise, (hstable 0 (List.mem_cons_of_mem _ List.mem_cons_self)).trans ?_⟩
    decide +kernel

end Curried
