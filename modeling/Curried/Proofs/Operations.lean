/-
  Curried.Proofs.Operations — where the operations that may crash have a result.

  Each lemma gives a condition under which one of them does, and these are the conditions that the library checks
  before it uses the operation: a divisor other than zero, a whole number, an index of the list, an integer between two
  that are doubles. So nothing is left of a crash in what the library makes of them.
-/

import Curried.Library.Lists
import Curried.Proofs.Doubles.Rounding

namespace Curried

namespace Number

variable {x y : Float}

theorem divide_eq_ok (x : Float) (hy : (y == 0) = false) : divide x y = .ok (x / y) := by
  unfold divide
  rw [if_neg (by rw [hy]; exact Bool.false_ne_true)]

theorem exists_remainder (hy : (y == 0) = false) (hx : x.isInf = false) : ∃ z, remainder x y = .ok z := by
  unfold remainder
  rw [hy, hx, Bool.or_false, if_neg (c := false = true) Bool.false_ne_true]
  split
  · exact ⟨nan, rfl⟩
  · split
    · exact ⟨_, rfl⟩
    · exact ⟨x, rfl⟩

theorem toInteger_of_whole {n : Int} (h : whole? x = some n) : toInteger x = .ok n := by
  obtain ⟨p, hp, hwhole⟩ := Option.bind_eq_some_iff.mp h
  unfold Parts.whole? at hwhole
  split at hwhole
  · cases hwhole
    simp only [toInteger, hp]
  · cases hwhole

theorem isWhole_of_whole {n : Int} (h : whole? x = some n) : isWhole x = true := Option.isSome_iff_exists.mpr ⟨n, h⟩

theorem isWhole_of_whole?_none (h : whole? x = none) : isWhole x = false :=
  Option.isSome_eq_false_iff.mpr (Option.isNone_iff_eq_none.mpr h)

theorem render_of_whole {n : Int} (h : whole? x = some n) : render x = .ok (toString n) := by
  unfold render
  rw [if_pos (isWhole_of_whole h), toInteger_of_whole h]
  rfl

theorem render_of_whole?_none (h : whole? x = none) : render x = .ok (fractionText x) := by
  unfold render
  rw [isWhole_of_whole?_none h, if_neg Bool.false_ne_true]

theorem exists_render (x : Float) : ∃ text, render x = .ok text := by
  cases h : whole? x with
  | none => exact ⟨_, render_of_whole?_none h⟩
  | some n => exact ⟨_, render_of_whole h⟩

theorem render_eq_of_beq (h : (x == y) = true) : render x = render y := by
  have hzero : whole? 0 = some 0 := by decide +kernel
  have hnegative : whole? (-0) = some 0 := by decide +kernel
  have hzeros : render (-0) = render 0 := (render_of_whole hnegative).trans (render_of_whole hzero).symm
  rcases eq_or_zeros_of_beq h with rfl | ⟨rfl | rfl, rfl | rfl⟩
  · rfl
  · rfl
  · exact hzeros.symm
  · exact hzeros
  · rfl

/-- Rounding keeps the order, so what lies between two doubles is rounded to a double. -/
theorem ofInteger_eq_ok {a b n : Int} (hx : whole? x = some a) (hy : whole? y = some b) (ha : a ≤ n) (hb : n ≤ b) :
    ofInteger n = .ok (ofInt n) := by
  have hlow := units_ofInt_mono ha
  have hhigh := units_ofInt_mono hb
  rw [units_ofInt_of_whole hx] at hlow
  rw [units_ofInt_of_whole hy] at hhigh
  have hx' := (isFinite_iff_units (isNaN_of_whole hx)).mp (whole?_eq_some_iff.mp hx).1
  have hy' := (isFinite_iff_units (isNaN_of_whole hy)).mp (whole?_eq_some_iff.mp hy).1
  have hfinite : (ofInt n).isFinite = true := (isFinite_iff_units (isNaN_ofInt n)).mpr (by omega)
  unfold ofInteger
  rw [isInf_of_isFinite hfinite, if_neg Bool.false_ne_true]

end Number

namespace Value

open Number

theorem asIndex_of_whole {x : Float} {n : Int} (h : whole? x = some n) (name : String) :
    asIndex name (number x) = .ok n := by
  show (if isWhole x then Fault.attempt (toInteger x) else .error (.of (.notWhole name x))) = _
  rw [if_pos (isWhole_of_whole h), toInteger_of_whole h]
  rfl

theorem asIndex_of_whole?_none {x : Float} (h : whole? x = none) (name : String) :
    asIndex name (number x) = .error (.of (.notWhole name x)) := by
  show (if isWhole x then Fault.attempt (toInteger x) else .error (.of (.notWhole name x))) = _
  rw [isWhole_of_whole?_none h, if_neg Bool.false_ne_true]

end Value

namespace Library

open Number

def counted (a b : Int) : List Float :=
  (List.range (b - a).toNat).map fun i : Nat => ofInt (a + i)

theorem mapM_eq_ok {α β ε : Type} {f : α → Except ε β} {g : α → β} {xs : List α} (h : ∀ x ∈ xs, f x = .ok (g x)) :
    xs.mapM f = .ok (xs.map g) := by
  induction xs with
  | nil => rfl
  | cons x xs ih =>
    rw [List.mapM_cons, h x List.mem_cons_self, ih fun y hy => h y (List.mem_cons_of_mem _ hy)]
    rfl

/-- All integers between two that are doubles become doubles. -/
theorem mapM_ofInteger {x y : Float} {a b : Int} (hx : whole? x = some a) (hy : whole? y = some b) :
    (List.range (b - a).toNat).mapM (fun i : Nat => Fault.attempt (ofInteger (a + i))) = .ok (counted a b) := by
  refine mapM_eq_ok fun i hi => ?_
  rw [List.mem_range] at hi
  rw [ofInteger_eq_ok hx hy (by omega) (by omega)]
  rfl

variable {items : List Value} {v : Value}

theorem itemAt_of_getElem? {i : Int} (hi : 0 ≤ i) (h : items[i.toNat]? = some v) : itemAt items i = .ok v := by
  obtain ⟨n, rfl⟩ := Int.eq_ofNat_of_zero_le hi
  rw [Int.toNat_natCast] at h
  unfold itemAt
  dsimp only
  rw [if_neg (by omega)]
  simp only [Int.toNat_natCast, h]

end Library

end Curried
