/-
  Curried.Proofs.Lists.Ranges — the numbers from one to another.

  A range counts in integers and rounds each of them to a double, so it has as many numbers as there are integers and
  never descends. Its numbers differ from one another and from the end where the integers counted are within 2 ^ 53 of
  zero (`units_ofInt_small`), and nowhere else: with as many doubles as integers between two integers each integer
  would be a double (`StaysApart.units_eq`), and odd ones further out are not.
-/

import Curried.Proofs.Lists.Indices

namespace Curried

namespace Number

/-! ## Integers that stay apart -/

theorem units_ofInt_small {n : Int} (h : n.natAbs ≤ 2 ^ 53) : units (ofInt n) = n * one :=
  (whole?_eq_some_iff.mp (whole?_ofInt h)).2

/-- Integers from one to another that become doubles in strictly ascending order. -/
def StaysApart (a b : Int) : Prop :=
  ∀ m n, a ≤ m → m < n → n ≤ b → units (ofInt m) < units (ofInt n)

theorem StaysApart.add_one_le {a b n : Int} (h : StaysApart a b) (ha : a ≤ n) (hb : n < b) :
    units (ofInt n) + one ≤ units (ofInt (n + 1)) := by
  obtain ⟨k, hk⟩ := one_dvd_units_ofInt n
  obtain ⟨l, hl⟩ := one_dvd_units_ofInt (n + 1)
  have hlt := h n (n + 1) ha (Int.lt_succ n) hb
  have hone : (0 : Int) < one := Int.natCast_pos.mpr one_pos
  rw [hk, hl] at hlt ⊢
  have hkl : k < l := Int.lt_of_mul_lt_mul_left hlt hone.le
  calc (one : Int) * k + one
      = one * (k + 1) := (mul_add_one _ _).symm
    _ ≤ one * l := Int.mul_le_mul_of_nonneg_left hkl hone.le

theorem StaysApart.le_units {a b n : Int} (h : StaysApart a b) (ha : a ≤ n) :
    ∀ k : Nat, n + k ≤ b → units (ofInt n) + k * one ≤ units (ofInt (n + k)) := by
  intro k
  induction k with
  | zero =>
    intro _
    rw [Nat.cast_zero, zero_mul, Int.add_zero, Int.add_zero]
  | succ k ih =>
    intro hb
    calc units (ofInt n) + (k + 1 : Nat) * one
        = units (ofInt n) + k * one + one := by rw [Nat.cast_succ, add_one_mul, Int.add_assoc]
      _ ≤ units (ofInt (n + k)) + one := Int.add_le_add_right (ih (by omega)) _
      _ ≤ units (ofInt (n + k + 1)) := h.add_one_le (by omega) (by omega)
      _ = units (ofInt (n + (k + 1 : Nat))) := by rw [Nat.cast_succ, Int.add_assoc]

/-- Between two integers that are doubles there is room only for the integers. -/
theorem StaysApart.units_eq {a b n : Int} (h : StaysApart a b) (ha : units (ofInt a) = a * one)
    (hb : units (ofInt b) = b * one) (han : a ≤ n) (hnb : n ≤ b) : units (ofInt n) = n * one := by
  obtain ⟨k, rfl⟩ := Int.le.dest han
  obtain ⟨l, rfl⟩ := Int.le.dest hnb
  have hlower := h.le_units (Int.le_refl a) k hnb
  have hupper := h.le_units han l (Int.le_refl _)
  rw [ha, ← add_mul] at hlower
  rw [hb, add_mul] at hupper
  omega

theorem staysApart_iff {x y : Float} {a b : Int} (hx : whole? x = some a) (hy : whole? y = some b) :
    StaysApart a b ↔ b ≤ a ∨ -2 ^ 53 ≤ a ∧ b ≤ 2 ^ 53 := by
  constructor
  · intro h
    by_contra hout
    -- the odd neighbour of the end that is too far out
    obtain ⟨n, han, hnb, hodd, hbig⟩ : ∃ n, a ≤ n ∧ n ≤ b ∧ n % 2 = 1 ∧ 2 ^ 53 < n.natAbs := by
      have haodd := natAbs_le_of_odd hx
      have hbodd := natAbs_le_of_odd hy
      by_cases ha : -2 ^ 53 ≤ a
      · exact ⟨b - 1, by omega, by omega, by omega, by omega⟩
      · exact ⟨a + 1, by omega, by omega, by omega, by omega⟩
    have hunits : units (ofInt n) = n * one := by
      refine h.units_eq ?_ ?_ han hnb
      · rw [units_ofInt_of_whole hx, (whole?_eq_some_iff.mp hx).2]
      · rw [units_ofInt_of_whole hy, (whole?_eq_some_iff.mp hy).2]
    have hlimit : n.natAbs * one < limit := by
      have hbetween : n.natAbs ≤ a.natAbs ∨ n.natAbs ≤ b.natAbs := by omega
      rcases hbetween with hle | hle
      · exact (Nat.mul_le_mul_right one hle).trans_lt (nearest_of_whole hx).2
      · exact (Nat.mul_le_mul_right one hle).trans_lt (nearest_of_whole hy).2
    have hsmall := natAbs_le_of_odd (whole?_ofInt_of_units hunits hlimit) hodd
    omega
  · rintro (hba | ⟨ha, hb⟩) m n ham hmn hnb
    · omega
    · rw [units_ofInt_small (by omega), units_ofInt_small (by omega)]
      exact Int.mul_lt_mul_of_pos_right hmn (Int.natCast_pos.mpr one_pos)

end Number

namespace Library

open Number

/-! ## Counting -/

theorem range_whole {x y : Float} {a b : Int} (hx : whole? x = some a) (hy : whole? y = some b) :
    range (.number x) (.number y) = .ok (.list ((counted a b).map .number)) := by
  rw [range, Value.asIndex_of_whole hx, Value.asIndex_of_whole hy]
  simp only [bind, Except.bind, mapM_ofInteger hx hy]
  rfl

theorem length_counted (a b : Int) : ((counted a b).length : Int) = max 0 (b - a) := by
  rw [counted, List.length_map, List.length_range]
  omega

theorem mem_counted {a b : Int} {z : Float} : z ∈ counted a b ↔ ∃ n, a ≤ n ∧ n < b ∧ ofInt n = z := by
  rw [counted, List.mem_map]
  constructor
  · rintro ⟨i, hi, rfl⟩
    rw [List.mem_range] at hi
    exact ⟨a + i, by omega, by omega, rfl⟩
  · rintro ⟨n, han, hnb, rfl⟩
    obtain ⟨i, rfl⟩ := Int.le.dest han
    exact ⟨i, List.mem_range.mpr (by omega), rfl⟩

theorem pairwise_counted {a b : Int} {R : Float → Float → Prop} :
    (counted a b).Pairwise R ↔ ∀ m n, a ≤ m → m < n → n < b → R (ofInt m) (ofInt n) := by
  rw [counted, List.pairwise_map, List.pairwise_iff_getElem]
  constructor
  · intro h m n ham hmn hnb
    obtain ⟨i, rfl⟩ := Int.le.dest ham
    obtain ⟨j, rfl⟩ := Int.le.dest (ham.trans hmn.le)
    have hij := h i j (by rw [List.length_range]; omega) (by rw [List.length_range]; omega) (by omega)
    rwa [List.getElem_range, List.getElem_range] at hij
  · intro h i j hi hj hij
    rw [List.length_range] at hi hj
    rw [List.getElem_range, List.getElem_range]
    exact h _ _ (by omega) (by omega) (by omega)

theorem counted_beq {a b : Int} {k : Nat} {v z : Float} (hv : (counted a b)[k]? = some v)
    (hz : whole? z = some (a + k)) : (v == z) = true := by
  rw [counted, List.getElem?_map, Option.map_eq_some_iff] at hv
  obtain ⟨i, hi, rfl⟩ := hv
  obtain ⟨hk, rfl⟩ := List.getElem?_eq_some_iff.mp hi
  rw [List.getElem_range]
  exact (beq_iff_units (isNaN_ofInt _) (isNaN_of_whole hz)).mpr (units_ofInt_of_whole hz)

theorem ascending_counted (a b : Int) : (counted a b).Pairwise (· ≤ ·) := by
  refine pairwise_counted.mpr fun m n _ hmn _ => ?_
  exact (le_iff_units (isNaN_ofInt m) (isNaN_ofInt n)).mpr (units_ofInt_mono hmn.le)

section
variable {x y : Float} {a b : Int}

theorem le_of_mem_counted (hx : whole? x = some a) (hy : whole? y = some b) {z : Float} (hz : z ∈ counted a b) :
    x ≤ z ∧ z ≤ y := by
  obtain ⟨n, han, hnb, rfl⟩ := mem_counted.mp hz
  constructor
  · rw [le_iff_units (isNaN_of_whole hx) (isNaN_ofInt n), ← units_ofInt_of_whole hx]
    exact units_ofInt_mono han
  · rw [le_iff_units (isNaN_ofInt n) (isNaN_of_whole hy), ← units_ofInt_of_whole hy]
    exact units_ofInt_mono hnb.le

/-- Apart from one another and from the end. -/
theorem strict_counted_iff (hy : whole? y = some b) :
    (counted a b).Pairwise (· < ·) ∧ (∀ z ∈ counted a b, z < y) ↔ StaysApart a b := by
  have hlt (m n : Int) : ofInt m < ofInt n ↔ units (ofInt m) < units (ofInt n) :=
    lt_iff_units (isNaN_ofInt m) (isNaN_ofInt n)
  have hend (n : Int) : ofInt n < y ↔ units (ofInt n) < units (ofInt b) := by
    rw [lt_iff_units (isNaN_ofInt n) (isNaN_of_whole hy), units_ofInt_of_whole hy]
  rw [pairwise_counted]
  constructor
  · rintro ⟨hpairs, hbelow⟩ m n ham hmn hnb
    rcases hnb.lt_or_eq with hnb | rfl
    · exact (hlt m n).mp (hpairs m n ham hmn hnb)
    · exact (hend m).mp (hbelow _ (mem_counted.mpr ⟨m, ham, hmn, rfl⟩))
  · intro h
    constructor
    · intro m n ham hmn hnb
      exact (hlt m n).mpr (h m n ham hmn hnb.le)
    · intro z hz
      obtain ⟨n, han, hnb, rfl⟩ := mem_counted.mp hz
      exact (hend n).mpr (h n b han hnb (Int.le_refl b))

end

end Library

open Library Number

/-- A range has as many numbers as there are integers from its start up to, and without, its end, each at its place if
it is a double. They ascend, and none of them is before the start or after the end. They are all different and before
the end if and only if the range is empty or its bounds are within 2 ^ 53 of zero. -/
theorem range_ascends {x y : Float} {a b : Int} (hx : whole? x = some a) (hy : whole? y = some b) :
    ∃ numbers : List Float, range (.number x) (.number y) = .ok (.list (numbers.map .number)) ∧
      (numbers.length : Int) = max 0 (b - a) ∧
      (∀ (k : Nat) (v z : Float), numbers[k]? = some v → whole? z = some (a + k) → (v == z) = true) ∧
      numbers.Pairwise (· ≤ ·) ∧ (∀ z ∈ numbers, x ≤ z ∧ z ≤ y) ∧
      (numbers.Pairwise (· < ·) ∧ (∀ z ∈ numbers, z < y) ↔ b ≤ a ∨ -2 ^ 53 ≤ a ∧ b ≤ 2 ^ 53) := by
  refine ⟨counted a b, range_whole hx hy, length_counted a b, ?_, ascending_counted a b, ?_, ?_⟩
  · exact fun k v z hv hz => counted_beq hv hz
  · exact fun z hz => le_of_mem_counted hx hy hz
  · rw [strict_counted_iff hy, staysApart_iff hx hy]

/-- The last range before the numbers are rounded. -/
theorem range_ascends_last :
    ∃ numbers : List Float,
      range (.number 9007199254740990) (.number 9007199254740992) = .ok (.list (numbers.map .number)) ∧
        numbers.length = 2 ∧ numbers.Pairwise (· < ·) ∧ ∀ z ∈ numbers, z < 9007199254740992 := by
  obtain ⟨numbers, hrange, hlength, -, -, -, hstrict⟩ := range_ascends
    (x := 9007199254740990) (y := 9007199254740992) (a := 9007199254740990) (b := 9007199254740992)
    (by decide +kernel) (by decide +kernel)
  obtain ⟨hpairwise, hbelow⟩ := hstrict.mpr (by decide)
  exact ⟨numbers, hrange, by omega, hpairwise, hbelow⟩

/-- Beyond it a range repeats numbers and gets to its end. -/
theorem range_repeats :
    ∃ numbers : List Float,
      range (.number 9007199254740992) (.number 9007199254740996) = .ok (.list (numbers.map .number)) ∧
        numbers = [9007199254740992, 9007199254740992, 9007199254740994, 9007199254740996] ∧
        ¬numbers.Pairwise (· < ·) ∧ ¬∀ z ∈ numbers, z < 9007199254740996 := by
  have hcounted : counted 9007199254740992 9007199254740996 =
    [9007199254740992, 9007199254740992, 9007199254740994, 9007199254740996] := by decide +kernel
  refine ⟨counted 9007199254740992 9007199254740996, range_whole ?_ ?_, hcounted, ?_, ?_⟩
  · decide +kernel
  · decide +kernel
  · rw [hcounted]
    decide +kernel
  · rw [hcounted]
    decide +kernel

end Curried
