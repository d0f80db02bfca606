/-
  Curried.Proofs.Lists.Indices — lists taken apart by index.

  An index is a finite number equal to an integer (`isWhole_iff`), and any other number is refused. For each way to take
  a list apart there is one equivalence that says when it succeeds and what it gives (`nth_eq_ok_iff`, `take_eq_ok_iff`,
  `drop_eq_ok_iff`, `slice_eq_ok_iff`), and how they agree with one another follows from these.
-/

import Curried.Proofs.Operations

namespace Curried

namespace Number

def IsWhole (x : Float) : Prop := x.isFinite = true ∧ ∃ n : Int, (x == ofInt n) = true

theorem beq_ofInt_of_whole {x : Float} {n : Int} (h : whole? x = some n) : (x == ofInt n) = true :=
  (beq_iff_units (isNaN_of_whole h) (isNaN_ofInt n)).mpr (units_ofInt_of_whole h).symm

theorem isWhole_iff {x : Float} : IsWhole x ↔ ∃ n, whole? x = some n := by
  constructor
  · rintro ⟨hfinite, n, hn⟩
    have hnan : x.isNaN = false := isNaN_of_isFinite hfinite
    obtain ⟨k, hk⟩ := one_dvd_units_ofInt n
    refine ⟨k, whole?_eq_some_iff.mpr ⟨hfinite, ?_⟩⟩
    rw [(beq_iff_units hnan (isNaN_ofInt n)).mp hn, hk, Int.mul_comm]
  · rintro ⟨n, hn⟩
    exact ⟨(whole?_eq_some_iff.mp hn).1, n, beq_ofInt_of_whole hn⟩

theorem whole?_eq_none {x : Float} (h : ¬IsWhole x) : whole? x = none := by
  cases hx : whole? x with
  | none => rfl
  | some n => exact absurd (isWhole_iff.mpr ⟨n, hx⟩) h

end Number

open Number

namespace Value

theorem asIndex_of_not_whole {x : Float} (h : ¬IsWhole x) (name : String) :
    asIndex name (number x) = .error (.of (.notWhole name x)) :=
  asIndex_of_whole?_none (whole?_eq_none h) name

end Value

namespace Library

/-! ## When each of them succeeds -/

section
variable {x y : Float} {i j n : Int} {items : List Value} {v : Value}

theorem nth_eq_ok_iff (h : whole? x = some i) :
    nth (.number x) (.list items) = .ok v ↔ 0 ≤ i ∧ items[i.toNat]? = some v := by
  rw [nth, Value.asIndex_of_whole h]
  simp only [Value.asList, bind, Except.bind]
  by_cases hin : 0 ≤ i ∧ i < items.length
  · have hget : items[i.toNat]? = some (items.get ⟨i.toNat, by omega⟩) := List.getElem?_eq_getElem _
    rw [if_pos (by simpa using hin), itemAt_of_getElem? hin.1 hget, hget]
    simp [Fault.attempt, Except.mapError, hin.1]
  · rw [if_neg (by simpa using hin)]
    constructor
    · rintro ⟨⟩
    · rintro ⟨hi, hget⟩
      obtain ⟨hlt, -⟩ := List.getElem?_eq_some_iff.mp hget
      omega

theorem head_eq_ok_iff : head (.list items) = .ok v ↔ items.head? = some v := by
  cases items with
  | nil => simp [head, Value.asList, bind, Except.bind, throw, throwThe, MonadExceptOf.throw]
  | cons u items => simp [head, itemAt, Fault.attempt, Except.mapError, Value.asList, bind, Except.bind]

theorem asCount_bind_eq_ok_iff (h : whole? x = some n) (name : String) (f : Nat → List Value) :
    ((asCount name (.number x)).bind fun k => .ok (.list (f k))) = .ok v ↔ 0 ≤ n ∧ v = .list (f n.toNat) := by
  rw [asCount, Value.asIndex_of_whole h]
  cases n with
  | ofNat n => simp [bind, Except.bind, pure, Except.pure, eq_comm]
  | negSucc n => simp [bind, Except.bind, throw, throwThe, MonadExceptOf.throw]

theorem take_eq_ok_iff (h : whole? x = some n) :
    take (.list items) (.number x) = .ok v ↔ 0 ≤ n ∧ v = .list (items.take n.toNat) :=
  asCount_bind_eq_ok_iff h "take" fun k => items.take k

theorem drop_eq_ok_iff (h : whole? x = some n) :
    drop (.list items) (.number x) = .ok v ↔ 0 ≤ n ∧ v = .list (items.drop n.toNat) :=
  asCount_bind_eq_ok_iff h "drop" fun k => items.drop k

theorem slice_eq_ok_iff (hi : whole? x = some i) (hj : whole? y = some j) (hij : i ≤ j) :
    slice (.list items) (.number x) (.number y) = .ok v ↔
      (0 ≤ i ∧ j < items.length) ∧ v = .list ((items.drop i.toNat).take (j - i + 1).toNat) := by
  rw [slice, Value.asIndex_of_whole hi, Value.asIndex_of_whole hj]
  simp only [Value.asList, bind, Except.bind]
  rw [if_neg (by omega)]
  by_cases hin : 0 ≤ i ∧ j < items.length
  · rw [if_neg (by simp; omega)]
    simp [hin, pure, Except.pure, eq_comm]
  · rw [if_pos (by simp; omega)]
    simp [hin, throw, throwThe, MonadExceptOf.throw]

theorem take_append_slice_append_drop (hi : 0 ≤ i) (hij : i ≤ j) :
    items.take i.toNat ++ (items.drop i.toNat).take (j - i + 1).toNat ++ items.drop (j + 1).toNat = items := by
  have hnext : (j + 1).toNat = i.toNat + (j - i + 1).toNat := by omega
  rw [hnext, ← List.drop_drop, List.append_assoc, List.take_append_drop, List.take_append_drop]

/-! ## How they agree -/

/-- What the elements from index `i` to index `j` have to do with the other ways to take a list apart. -/
structure IsPart (items : List Value) (x : Float) (i j : Int) (part : List Value) : Prop where
  length_eq : (part.length : Int) = j - i + 1
  nth_eq : ∀ (k : Nat) (v : Value) (z : Float), part[k]? = some v → whole? z = some (i + k) →
    nth (.number z) (.list items) = .ok v
  take_drop : ∀ z, whole? z = some (j - i + 1) →
    (do take (← drop (.list items) (.number x)) (.number z)) = .ok (.list part)
  concat_eq : ∀ z, whole? z = some (j + 1) →
    (do concat (← concat (← take (.list items) (.number x)) (.list part)) (← drop (.list items) (.number z))) =
      .ok (.list items)

theorem isPart_slice (hx : whole? x = some i) (hi : 0 ≤ i) (hij : i ≤ j) (hj : j < items.length) :
    IsPart items x i j ((items.drop i.toNat).take (j - i + 1).toNat) where
  length_eq := by
    rw [List.length_take, List.length_drop]
    omega
  nth_eq k v z hv hz := by
    rw [List.getElem?_take, List.getElem?_drop] at hv
    split at hv
    · refine (nth_eq_ok_iff hz).mpr ⟨by omega, ?_⟩
      rwa [Int.toNat_add hi (Int.natCast_nonneg k), Int.toNat_natCast]
    · cases hv
  take_drop z hz := by
    rw [(drop_eq_ok_iff hx).mpr ⟨hi, rfl⟩]
    exact (take_eq_ok_iff hz).mpr ⟨by omega, rfl⟩
  concat_eq z hz := by
    rw [(take_eq_ok_iff hx).mpr ⟨hi, rfl⟩, (drop_eq_ok_iff hz).mpr ⟨by omega, rfl⟩]
    exact congrArg (fun l => Except.ok (Value.list l)) (take_append_slice_append_drop hi hij)

theorem slice_isPart (hx : whole? x = some i) (hy : whole? y = some j) (hij : i ≤ j) :
    ((∃ v, slice (.list items) (.number x) (.number y) = .ok v) ↔ 0 ≤ i ∧ j < items.length) ∧
      ∀ v, slice (.list items) (.number x) (.number y) = .ok v →
        ∃ part, v = .list part ∧ IsPart items x i j part := by
  constructor
  · constructor
    · rintro ⟨v, hv⟩
      exact ((slice_eq_ok_iff hx hy hij).mp hv).1
    · intro hin
      exact ⟨_, (slice_eq_ok_iff hx hy hij).mpr ⟨hin, rfl⟩⟩
  · intro v hv
    obtain ⟨⟨hi, hj⟩, rfl⟩ := (slice_eq_ok_iff hx hy hij).mp hv
    exact ⟨_, rfl, isPart_slice hx hi hij hj⟩

theorem nth_eq_head_drop (hx : whole? x = some i) :
    ((∃ v, nth (.number x) (.list items) = .ok v) ↔ 0 ≤ i ∧ i < items.length) ∧
      ∀ v, nth (.number x) (.list items) = .ok v → (do head (← drop (.list items) (.number x))) = .ok v := by
  constructor
  · constructor
    · rintro ⟨v, hv⟩
      obtain ⟨hi, hget⟩ := (nth_eq_ok_iff hx).mp hv
      obtain ⟨hlt, -⟩ := List.getElem?_eq_some_iff.mp hget
      omega
    · rintro ⟨hi, hlt⟩
      have hlt : i.toNat < items.length := by omega
      exact ⟨_, (nth_eq_ok_iff hx).mpr ⟨hi, List.getElem?_eq_getElem hlt⟩⟩
  · intro v hv
    obtain ⟨hi, hget⟩ := (nth_eq_ok_iff hx).mp hv
    rw [(drop_eq_ok_iff hx).mpr ⟨hi, rfl⟩]
    exact head_eq_ok_iff.mpr (List.head?_drop.trans hget)

theorem take_append_drop (hx : whole? x = some n) :
    ((∃ v, take (.list items) (.number x) = .ok v) ↔ 0 ≤ n) ∧
      ((∃ v, drop (.list items) (.number x) = .ok v) ↔ 0 ≤ n) ∧
      (0 ≤ n → (do concat (← take (.list items) (.number x)) (← drop (.list items) (.number x))) =
        .ok (.list items)) := by
  refine ⟨?_, ?_, ?_⟩
  · simp [take_eq_ok_iff hx]
  · simp [drop_eq_ok_iff hx]
  · intro hn
    rw [(take_eq_ok_iff hx).mpr ⟨hn, rfl⟩, (drop_eq_ok_iff hx).mpr ⟨hn, rfl⟩]
    exact congrArg (fun l => Except.ok (Value.list l)) (List.take_append_drop n.toNat items)

theorem not_whole_refused (hx : ¬IsWhole x) :
    nth (.number x) (.list items) = .error (.of (.notWhole "nth" x)) ∧
      take (.list items) (.number x) = .error (.of (.notWhole "take" x)) ∧
      drop (.list items) (.number x) = .error (.of (.notWhole "drop" x)) ∧
      ∀ v, slice (.list items) (.number x) v = .error (.of (.notWhole "slice" x)) ∧
        ∃ f, slice (.list items) v (.number x) = .error f := by
  refine ⟨?_, ?_, ?_, fun v => ⟨?_, ?_⟩⟩
  · rw [nth, Value.asIndex_of_not_whole hx]
    rfl
  · rw [take, asCount, Value.asIndex_of_not_whole hx]
    rfl
  · rw [drop, asCount, Value.asIndex_of_not_whole hx]
    rfl
  · rw [slice, Value.asIndex_of_not_whole hx]
    rfl
  · rw [slice, Value.asIndex_of_not_whole hx]
    cases v.asIndex "slice" with
    | ok i => exact ⟨_, rfl⟩
    | error f => exact ⟨f, rfl⟩

end

end Library

open Library

/-- A slice is there if both its ends are indices of the list, and then it agrees with picking elements one by one, with
dropping and taking, and with what stands before and after it. An element is there if its index is one of the list, and
then it is the first one left by dropping those before it. Any count that is not negative splits a list in two. A number
that is not finite and equal to an integer is neither an index nor a count. For a list of up to 2 ^ 53 elements all its
indices and counts are numbers. -/
theorem indices_agree (items : List Value) :
    (∀ x y i j, whole? x = some i → whole? y = some j → i ≤ j →
      ((∃ v, slice (.list items) (.number x) (.number y) = .ok v) ↔ 0 ≤ i ∧ j < items.length) ∧
        ∀ v, slice (.list items) (.number x) (.number y) = .ok v →
          ∃ part, v = .list part ∧ IsPart items x i j part) ∧
      (∀ x i, whole? x = some i →
        ((∃ v, nth (.number x) (.list items) = .ok v) ↔ 0 ≤ i ∧ i < items.length) ∧
          ∀ v, nth (.number x) (.list items) = .ok v → (do head (← drop (.list items) (.number x))) = .ok v) ∧
      (∀ x n, whole? x = some n →
        ((∃ v, take (.list items) (.number x) = .ok v) ↔ 0 ≤ n) ∧
          ((∃ v, drop (.list items) (.number x) = .ok v) ↔ 0 ≤ n) ∧
          (0 ≤ n → (do concat (← take (.list items) (.number x)) (← drop (.list items) (.number x))) =
            .ok (.list items))) ∧
      (∀ x, ¬IsWhole x →
        nth (.number x) (.list items) = .error (.of (.notWhole "nth" x)) ∧
          take (.list items) (.number x) = .error (.of (.notWhole "take" x)) ∧
          drop (.list items) (.number x) = .error (.of (.notWhole "drop" x)) ∧
          ∀ v, slice (.list items) (.number x) v = .error (.of (.notWhole "slice" x)) ∧
            ∃ f, slice (.list items) v (.number x) = .error f) ∧
      (∀ x n, whole? x = some n → (x == ofInt n) = true) ∧
      (items.length ≤ 2 ^ 53 → ∀ n : Nat, n ≤ items.length → ∃ z, whole? z = some (n : Int)) := by
  refine ⟨?_, ?_, ?_, ?_, ?_, ?_⟩
  · intro x y i j hx hy hij
    exact slice_isPart hx hy hij
  · intro x i hx
    exact nth_eq_head_drop hx
  · intro x n hx
    exact take_append_drop hx
  · intro x hx
    exact not_whole_refused hx
  · intro x n hx
    exact beq_ofInt_of_whole hx
  · intro hlength n hn
    exact ⟨ofInt n, whole?_ofInt (by omega)⟩

theorem indices_agree_two :
    (∃ part, slice (.list [.nil, .bool true]) (.number 1) (.number 1) = .ok (.list part) ∧
      IsPart [.nil, .bool true] 1 1 1 part) ∧
      (do head (← drop (.list [.nil, .bool true]) (.number 1))) = .ok (.bool true) ∧
      (do concat (← take (.list [.nil, .bool true]) (.number 7)) (← drop (.list [.nil, .bool true]) (.number 7))) =
        .ok (.list [.nil, .bool true]) ∧
      (∃ f, slice (.list [.nil, .bool true]) (.number 0) (.number 1.5) = .error f) ∧
      nth (.number (1 / 0)) (.list [.nil, .bool true]) = .error (.of (.notWhole "nth" (1 / 0))) ∧
      ∃ z, whole? z = some 2 := by
  obtain ⟨hslice, hnth, hsplit, hrefused, -, hindex⟩ := indices_agree [.nil, .bool true]
  have hone : whole? 1 = some 1 := by decide +kernel
  have hhalf : ¬IsWhole 1.5 := by
    intro h
    obtain ⟨n, hn⟩ := isWhole_iff.mp h
    have hnone : whole? 1.5 = none := by decide +kernel
    rw [hnone] at hn
    cases hn
  have hinfinite : ¬IsWhole (1 / 0) := by
    rintro ⟨hfinite, -⟩
    exact absurd hfinite (by decide +kernel)
  refine ⟨?_, ?_, ?_, ?_, ?_, ?_⟩
  · obtain ⟨hiff, hpart⟩ := hslice 1 1 1 1 hone hone (by decide)
    obtain ⟨v, hv⟩ := hiff.mpr (by decide)
    obtain ⟨part, rfl, hagrees⟩ := hpart v hv
    exact ⟨part, hv, hagrees⟩
  · exact (hnth 1 1 hone).2 _ ((nth_eq_ok_iff hone).mpr ⟨by decide, rfl⟩)
  · exact (hsplit 7 7 (by decide +kernel)).2.2 (by decide)
  · exact ((hrefused 1.5 hhalf).2.2.2 (.number 0)).2
  · exact (hrefused (1 / 0) hinfinite).1
  · exact hindex (by decide) 2 (by decide)

end Curried
