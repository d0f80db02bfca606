/-
  Curried.Proofs.Doubles.Units — doubles as integers.

  Every finite double is a multiple of the least positive one, `2 ^ -1074`. With an infinity counted as the power of
  two after the greatest double, the order of doubles other than NaN is the order of these multiples (`lt_iff_units`).
  A double is a whole number if its multiple is one of `2 ^ 1074` (`whole?_eq_some_iff`); infinities and NaN are none.

  All of it rests on the form in which doubles are unpacked: the leading bit of the mantissa is set unless the exponent
  is the least one (`Canonical`), so that exponents decide before mantissas do.
-/

import Curried.Proofs.Doubles
import Mathlib.Algebra.Order.Ring.Int

namespace Curried.Number

open Float.Model Float.Model.UnpackedFloat

/-! ## Magnitudes -/

structure Canonical (m : Nat) (e : Int) : Prop where
  bits : m < 2 ^ 53
  least : -1074 ≤ e
  leading : 2 ^ 52 ≤ m ∨ e = -1074

/-- The value `m * 2 ^ e`, in units of the least positive double. -/
def magnitude (m : Nat) (e : Int) : Nat := m * 2 ^ (e + 1074).toNat

theorem magnitude_pos {m : Nat} {e : Int} (hm : 0 < m) : 0 < magnitude m e :=
  Nat.mul_pos hm (Nat.two_pow_pos _)

theorem magnitude_mul (a m : Nat) (e : Int) : magnitude (a * m) e = a * magnitude m e := Nat.mul_assoc ..

theorem magnitude_add {m : Nat} {e : Int} (he : -1074 ≤ e) (k : Nat) :
    magnitude m (e + k) = magnitude (m * 2 ^ k) e := by
  have hshift : (e + k + 1074).toNat = k + (e + 1074).toNat := by omega
  rw [magnitude, magnitude, hshift, Nat.pow_add, Nat.mul_assoc]

def one : Nat := magnitude 1 0

def limit : Nat := magnitude 1 1024

theorem one_pos : 0 < one := magnitude_pos Nat.one_pos

theorem limit_pos : 0 < limit := magnitude_pos Nat.one_pos

theorem magnitude_zero (m : Nat) : magnitude m 0 = m * one := by
  rw [one, ← magnitude_mul, Nat.mul_one]

theorem magnitude_lt {m : Nat} {e f : Int} (hm : m < 2 ^ 53) (he : -1074 ≤ e) (hf : e + 53 ≤ f) :
    magnitude m e < magnitude 1 f := by
  calc m * 2 ^ (e + 1074).toNat
      < 2 ^ 53 * 2 ^ (e + 1074).toNat := Nat.mul_lt_mul_of_pos_right hm (Nat.two_pow_pos _)
    _ = 2 ^ (53 + (e + 1074).toNat) := (Nat.pow_add ..).symm
    _ ≤ 2 ^ (f + 1074).toNat := Nat.pow_le_pow_right Nat.two_pos (by omega)
    _ = magnitude 1 f := (Nat.one_mul _).symm

theorem le_magnitude {m : Nat} {e f : Int} (hm : 2 ^ 52 ≤ m) (he : -1074 ≤ e) (hf : f ≤ e + 52) :
    magnitude 1 f ≤ magnitude m e := by
  calc magnitude 1 f
      = 2 ^ (f + 1074).toNat := Nat.one_mul _
    _ ≤ 2 ^ (52 + (e + 1074).toNat) := Nat.pow_le_pow_right Nat.two_pos (by omega)
    _ = 2 ^ 52 * 2 ^ (e + 1074).toNat := Nat.pow_add ..
    _ ≤ m * 2 ^ (e + 1074).toNat := Nat.mul_le_mul_right _ hm

theorem magnitude_lt_of_exponent {m n : Nat} {e f : Int} (hm : Canonical m e) (hn : Canonical n f) (h : e < f) :
    magnitude m e < magnitude n f := by
  have hleast := hm.least
  have hleading : 2 ^ 52 ≤ n := hn.leading.resolve_right (by omega)
  exact Nat.lt_of_lt_of_le (magnitude_lt hm.bits hm.least (Int.le_refl _)) (le_magnitude hleading hn.least (by omega))

/-- Exponents decide, and mantissas where they are the same. -/
theorem compare_magnitude {m n : Nat} {e f : Int} (hm : Canonical m e) (hn : Canonical n f) :
    compare (magnitude m e) (magnitude n f) = (compare e f).then (compare m n) := by
  rcases Int.lt_trichotomy e f with h | rfl | h
  · rw [Int.compare_eq_lt.mpr h, Nat.compare_eq_lt.mpr (magnitude_lt_of_exponent hm hn h)]
    rfl
  · rw [Std.ReflOrd.compare_self, Ordering.eq_then, magnitude, magnitude]
    have hpos : 0 < 2 ^ (e + 1074).toNat := Nat.two_pow_pos _
    rcases Nat.lt_trichotomy m n with h | rfl | h
    · rw [Nat.compare_eq_lt.mpr h, Nat.compare_eq_lt.mpr (Nat.mul_lt_mul_of_pos_right h hpos)]
    · rw [Std.ReflOrd.compare_self, Std.ReflOrd.compare_self]
    · rw [Nat.compare_eq_gt.mpr h, Nat.compare_eq_gt.mpr (Nat.mul_lt_mul_of_pos_right h hpos)]
  · rw [Int.compare_eq_gt.mpr h, Nat.compare_eq_gt.mpr (magnitude_lt_of_exponent hn hm h)]
    rfl

/-! ## Units -/

def unitsOf : UnpackedFloat → Int
  | .notANumber => 0
  | .infinity s => s.apply limit
  | .zero _ => 0
  | .finite s m e _ => s.apply (magnitude m e)

def units (x : Float) : Int := unitsOf x.toModel.unpack

theorem natAbs_apply (s : Sign) (n : Nat) : (s.apply n).natAbs = n := by
  cases s with
  | negative => exact (Int.natAbs_neg n).trans (Int.natAbs_natCast n)
  | positive => exact Int.natAbs_natCast n

theorem natAbs_unitsOf_infinity (s : Sign) : (unitsOf (.infinity s)).natAbs = limit :=
  natAbs_apply s limit

theorem natAbs_unitsOf_finite (s : Sign) (m : Nat) (e : Int) (hm : 0 < m) :
    (unitsOf (.finite s m e hm)).natAbs = magnitude m e :=
  natAbs_apply s (magnitude m e)

def IsCanonical : UnpackedFloat → Prop
  | .finite _ m e _ => Canonical m e ∧ e ≤ 971
  | _ => True

theorem toNat_one_append (m : BitVec 52) : (1#1 ++ m).toNat = 2 ^ 52 + m.toNat := by
  rw [BitVec.toNat_append, ← Nat.shiftLeft_add_eq_or_of_lt m.isLt]
  rfl

/-- What a sign, a biased exponent and the bits after the leading one stand for. -/
inductive Reads (s : Sign) : Nat → Nat → UnpackedFloat → Prop
  | infinity : Reads s 2047 0 (.infinity s)
  | notANumber {fraction : Nat} : 0 < fraction → Reads s 2047 fraction .notANumber
  | zero : Reads s 0 0 (.zero s)
  | subnormal {fraction : Nat} (h : 0 < fraction) : fraction < 2 ^ 52 →
      Reads s 0 fraction (.finite s fraction (-1074) h)
  | normal {scale fraction m : Nat} {e : Int} (h : 0 < m) : 0 < scale → scale < 2047 → fraction < 2 ^ 52 →
      m = 2 ^ 52 + fraction → e = scale - 1075 → Reads s scale fraction (.finite s m e h)

theorem unpack_reads (b : BitVec Format.binary64.numBits) :
    Reads (.ofBitVec (unpackSign b)) (unpackExponent b).toNat (unpackMantissa b).toNat
      (UnpackedFloat.unpack Format.binary64 b) := by
  have hm : (unpackMantissa b).toNat < 2 ^ 52 := (unpackMantissa b).isLt
  have he : (unpackExponent b).toNat < 2 ^ 11 := (unpackExponent b).isLt
  unfold UnpackedFloat.unpack
  dsimp only
  by_cases hspecial : unpackExponent b = -1#_
  · rw [if_pos hspecial, hspecial]
    by_cases hmantissa : unpackMantissa b = 0#_
    · rw [if_pos hmantissa, hmantissa]
      exact .infinity
    · rw [if_neg hmantissa]
      exact .notANumber (Nat.pos_of_ne_zero fun h => hmantissa (BitVec.eq_of_toNat_eq h))
  · rw [if_neg hspecial]
    by_cases hexponent : unpackExponent b = 0#_
    · rw [if_pos hexponent, hexponent]
      by_cases hmantissa : unpackMantissa b = 0#_
      · rw [dif_pos hmantissa, hmantissa]
        exact .zero
      · rw [dif_neg hmantissa]
        exact .subnormal _ hm
    · have hzero : (unpackExponent b).toNat ≠ 0 := fun h => hexponent (BitVec.eq_of_toNat_eq h)
      have h2047 : (unpackExponent b).toNat ≠ 2047 := fun h => hspecial (BitVec.eq_of_toNat_eq h)
      rw [if_neg hexponent]
      exact .normal _ (Nat.pos_of_ne_zero hzero) (by omega) hm (toNat_one_append _) rfl

theorem Reads.isCanonical {s : Sign} {scale fraction : Nat} {u : UnpackedFloat} (h : Reads s scale fraction u) :
    IsCanonical u := by
  cases h with
  | infinity => trivial
  | notANumber => trivial
  | zero => trivial
  | subnormal _ hf => exact ⟨⟨by omega, Int.le_refl _, .inr rfl⟩, by decide⟩
  | normal _ hpos hlt hf hm he => exact ⟨⟨by omega, by omega, .inl (by omega)⟩, by omega⟩

theorem compare_neg_neg (a b : Nat) : compare (-(a : Int)) (-(b : Int)) = (compare a b).swap := by
  rcases Nat.lt_trichotomy a b with h | rfl | h
  · rw [Nat.compare_eq_lt.mpr h, Int.compare_eq_gt.mpr (by omega)]
    rfl
  · rw [Std.ReflOrd.compare_self, Std.ReflOrd.compare_self]
    rfl
  · rw [Nat.compare_eq_gt.mpr h, Int.compare_eq_lt.mpr (by omega)]
    rfl

theorem compare_cast (a b : Nat) : compare (a : Int) (b : Int) = compare a b := by
  rcases Nat.lt_trichotomy a b with h | rfl | h
  · rw [Nat.compare_eq_lt.mpr h, Int.compare_eq_lt.mpr (by omega)]
  · rw [Std.ReflOrd.compare_self, Std.ReflOrd.compare_self]
  · rw [Nat.compare_eq_gt.mpr h, Int.compare_eq_gt.mpr (by omega)]

/-- A double is less than an infinity. -/
theorem IsCanonical.bounded {s : Sign} {m : Nat} {e : Int} {hm : 0 < m} (h : IsCanonical (.finite s m e hm)) :
    0 < magnitude m e ∧ magnitude m e < limit :=
  ⟨magnitude_pos hm, magnitude_lt h.1.bits h.1.least (Int.add_le_add_right h.2 53)⟩

theorem IsCanonical.unitsOf_bounds {s : Sign} {m : Nat} {e : Int} {hm : 0 < m} (h : IsCanonical (.finite s m e hm)) :
    -(limit : Int) < unitsOf (.finite s m e hm) ∧ unitsOf (.finite s m e hm) < limit := by
  obtain ⟨-, hbound⟩ := h.bounded
  have habs := natAbs_unitsOf_finite s m e hm
  omega

/-- Doubles that are no NaN compare as their multiples do. -/
theorem compare_eq_units {u v : UnpackedFloat} (hu : IsCanonical u) (hv : IsCanonical v) (hu' : u.isNaN = false)
    (hv' : v.isNaN = false) : u.compare v = some (compare (unitsOf u) (unitsOf v)) := by
  have hlt {a b : Int} (h : a < b) : some Ordering.lt = some (compare a b) := by rw [Int.compare_eq_lt.mpr h]
  have hgt {a b : Int} (h : b < a) : some Ordering.gt = some (compare a b) := by rw [Int.compare_eq_gt.mpr h]
  have hlimit := limit_pos
  -- of numbers of one class only finite ones of the same sign are compared in detail
  cases u with
  | notANumber => cases hu'
  | infinity s =>
    cases v with
    | notANumber => cases hv'
    | infinity t =>
      cases s with
      | negative =>
        cases t with
        | negative => exact congrArg some Std.ReflOrd.compare_self.symm
        | positive => exact hlt (show -(limit : Int) < limit by omega)
      | positive =>
        cases t with
        | negative => exact hgt (show -(limit : Int) < limit by omega)
        | positive => exact congrArg some Std.ReflOrd.compare_self.symm
    | zero t =>
      cases s with
      | negative => exact hlt (show -(limit : Int) < 0 by omega)
      | positive => exact hgt (show (0 : Int) < limit by omega)
    | finite t n f hn =>
      have hbounds := hv.unitsOf_bounds
      cases s with
      | negative => exact hlt hbounds.1
      | positive => exact hgt hbounds.2
  | zero s =>
    cases v with
    | notANumber => cases hv'
    | infinity t =>
      cases t with
      | negative => exact hgt (show -(limit : Int) < 0 by omega)
      | positive => exact hlt (show (0 : Int) < limit by omega)
    | zero t => exact congrArg some Std.ReflOrd.compare_self.symm
    | finite t n f hn =>
      have hpos := magnitude_pos (e := f) hn
      cases t with
      | negative => exact hgt (show -(magnitude n f : Int) < 0 by omega)
      | positive => exact hlt (show (0 : Int) < magnitude n f by omega)
  | finite s m e hm =>
    have hpos := magnitude_pos (e := e) hm
    have hbounds := hu.unitsOf_bounds
    cases v with
    | notANumber => cases hv'
    | infinity t =>
      cases t with
      | negative => cases s <;> exact hgt hbounds.1
      | positive => cases s <;> exact hlt hbounds.2
    | zero t =>
      cases s with
      | negative => exact hlt (show -(magnitude m e : Int) < 0 by omega)
      | positive => exact hgt (show (0 : Int) < magnitude m e by omega)
    | finite t n f hn =>
      have hpos' := magnitude_pos (e := f) hn
      have hsame := compare_magnitude hu.1 hv.1
      cases s with
      | negative =>
        cases t with
        | negative => exact congrArg some ((congrArg Ordering.swap hsame).symm.trans (compare_neg_neg _ _).symm)
        | positive => exact hlt (show -(magnitude m e : Int) < magnitude n f by omega)
      | positive =>
        cases t with
        | negative => exact hgt (show -(magnitude n f : Int) < magnitude m e by omega)
        | positive => exact congrArg some (hsame.symm.trans (compare_cast _ _).symm)

section

variable {x y : Float} (hx : x.isNaN = false) (hy : y.isNaN = false)
include hx hy

theorem compare_units : x.toModel.unpack.compare y.toModel.unpack = some (compare (units x) (units y)) :=
  compare_eq_units (unpack_reads _).isCanonical (unpack_reads _).isCanonical hx hy

theorem lt_iff_units : x < y ↔ units x < units y := by
  have hmodel : x < y ↔ x.toModel.unpack.compare y.toModel.unpack = some .lt :=
    decide_eq_true_iff.trans beq_iff_eq
  rw [hmodel, compare_units hx hy, Option.some_inj, Int.compare_eq_lt]

theorem le_iff_units : x ≤ y ↔ units x ≤ units y := by
  have hmodel : x ≤ y ↔ (x.toModel.unpack.compare y.toModel.unpack).any (·.isLE) = true := decide_eq_true_iff
  rw [hmodel, compare_units hx hy, Option.any_some, Int.isLE_compare]

theorem beq_iff_units : (x == y) = true ↔ units x = units y := by
  have hmodel : (x == y) = true ↔ x.toModel.unpack.compare y.toModel.unpack = some .eq := by
    show (x.toModel.unpack.compare y.toModel.unpack == some .eq) = true ↔ _
    exact beq_iff_eq
  rw [hmodel, compare_units hx hy, Option.some_inj, Int.compare_eq_eq]

end

/-! ## Whole numbers -/

theorem toNat_unpackMantissa (b : BitVec Format.binary64.numBits) : (unpackMantissa b).toNat = b.toNat % 2 ^ 52 := by
  have h : (unpackMantissa b).toNat = b.toNat >>> 0 % 2 ^ 52 := BitVec.extractLsb_toNat 51 0 b
  rwa [Nat.shiftRight_zero] at h

theorem toNat_unpackExponent (b : BitVec Format.binary64.numBits) :
    (unpackExponent b).toNat = b.toNat / 2 ^ 52 % 2 ^ 11 := by
  have h : (unpackExponent b).toNat = b.toNat >>> 52 % 2 ^ 11 := BitVec.extractLsb_toNat 62 52 b
  rwa [Nat.shiftRight_eq_div_pow] at h

theorem ofBitVec_unpackSign (b : BitVec Format.binary64.numBits) :
    (Sign.ofBitVec (unpackSign b) == .negative) = (b.toNat / 2 ^ 63 == 1) := by
  have hb : b.toNat < 2 ^ 64 := b.isLt
  have h : (unpackSign b).toNat = b.toNat >>> 63 % 2 ^ 1 := BitVec.extractLsb_toNat 63 63 b
  rw [Nat.shiftRight_eq_div_pow] at h
  by_cases hzero : unpackSign b = 0#1
  · have hpositive : b.toNat / 2 ^ 63 = 0 := by
      rw [hzero, BitVec.toNat_zero] at h
      omega
    rw [Sign.ofBitVec, if_pos hzero, hpositive]
    rfl
  · have hne : (unpackSign b).toNat ≠ 0 := fun h => hzero (BitVec.eq_of_toNat_eq h)
    have hnegative : b.toNat / 2 ^ 63 = 1 := by omega
    rw [Sign.ofBitVec, if_neg hzero, hnegative]
    rfl

def partsOf : UnpackedFloat → Option Parts
  | .notANumber => none
  | .infinity _ => none
  | .zero s => some ⟨s == .negative, 0, -1074⟩
  | .finite s m e _ => some ⟨s == .negative, m, e⟩

theorem Reads.partsOf {s : Sign} {scale fraction : Nat} {u : UnpackedFloat} (h : Reads s scale fraction u) :
    Number.partsOf u =
      if scale == 2047 then none
      else if scale == 0 then some ⟨s == .negative, fraction, -1074⟩
      else some ⟨s == .negative, 2 ^ 52 + fraction, scale - 1075⟩ := by
  cases h with
  | infinity => rfl
  | notANumber => rfl
  | zero => rfl
  | subnormal => rfl
  | normal _ hpos hlt _ hm he =>
    rw [if_neg (by simpa using Nat.ne_of_lt hlt), if_neg (by simpa using Nat.ne_of_gt hpos), ← hm, ← he]
    rfl

theorem parts?_eq (x : Float) : parts? x = partsOf x.toModel.unpack := by
  have hparts := (unpack_reads x.toModel.toBits.toBitVec).partsOf
  rw [toNat_unpackExponent, toNat_unpackMantissa, ofBitVec_unpackSign] at hparts
  exact hparts.symm

theorem magnitude_negSucc {m k : Nat} (h : k < 1074) : magnitude m (.negSucc k) * 2 ^ (k + 1) = m * one := by
  have hsum : Int.negSucc k + (k + 1 : Nat) = 0 := by omega
  rw [Nat.mul_comm, ← magnitude_mul, Nat.mul_comm, ← magnitude_add (by omega), hsum, magnitude_zero]

/-- Parts stand for an integer if their magnitude is a multiple of one. -/
theorem Parts.whole?_eq_some_iff {p : Parts} {n : Int} (h : -1074 ≤ p.exponent) :
    p.whole? = some n ↔
      ∃ k : Nat, magnitude p.mantissa p.exponent = k * one ∧ n = if p.negative then -(k : Int) else k := by
  obtain ⟨negative, m, e⟩ := p
  cases e with
  | ofNat e =>
    have hwhole : Parts.whole? ⟨negative, m, .ofNat e⟩ =
      some (if negative then -((m * 2 ^ e : Nat) : Int) else (m * 2 ^ e : Nat)) := rfl
    have hunits : magnitude m (.ofNat e) = m * 2 ^ e * one := by
      rw [← magnitude_zero, ← magnitude_add (by omega), Int.zero_add]
      rfl
    rw [hwhole, Option.some_inj, hunits]
    constructor
    · intro hn
      exact ⟨m * 2 ^ e, rfl, hn.symm⟩
    · rintro ⟨k, hk, rfl⟩
      rw [Nat.eq_of_mul_eq_mul_right one_pos hk]
  | negSucc e =>
    have hlt : e < 1074 := by
      have : -1074 ≤ Int.negSucc e := h
      omega
    have hunit : 0 < 2 ^ (e + 1) := Nat.two_pow_pos _
    have hwhole : Parts.whole? ⟨negative, m, .negSucc e⟩ =
      if m % 2 ^ (e + 1) == 0 then
        some (if negative then -((m / 2 ^ (e + 1) : Nat) : Int) else (m / 2 ^ (e + 1) : Nat))
      else none := rfl
    have hmultiple : ∀ k, magnitude m (.negSucc e) = k * one ↔ m = k * 2 ^ (e + 1) := by
      intro k
      rw [← Nat.mul_left_inj hunit.ne', magnitude_negSucc hlt, Nat.mul_right_comm, Nat.mul_left_inj one_pos.ne']
    rw [hwhole]
    by_cases hdivides : m % 2 ^ (e + 1) = 0
    · have hm : m = m / 2 ^ (e + 1) * 2 ^ (e + 1) := (Nat.div_mul_cancel (Nat.dvd_of_mod_eq_zero hdivides)).symm
      rw [if_pos (beq_iff_eq.mpr hdivides), Option.some_inj]
      constructor
      · intro hn
        exact ⟨m / 2 ^ (e + 1), (hmultiple _).mpr hm, hn.symm⟩
      · rintro ⟨k, hk, rfl⟩
        rw [(hmultiple k).mp hk, Nat.mul_div_cancel _ hunit]
    · rw [if_neg (by simpa using hdivides)]
      constructor
      · intro hn
        cases hn
      · rintro ⟨k, hk, -⟩
        exact absurd ((hmultiple k).mp hk ▸ Nat.mul_mod_left k _) hdivides

theorem natCast_eq_mul_iff {a b : Nat} (hb : 0 < b) {n : Int} :
    (a : Int) = n * b ↔ ∃ k : Nat, a = k * b ∧ n = k := by
  constructor
  · intro h
    have hn : 0 ≤ n := Int.le_of_mul_le_mul_right (by rw [Int.zero_mul, ← h]; omega) (Int.natCast_pos.mpr hb)
    obtain ⟨k, rfl⟩ := Int.eq_ofNat_of_zero_le hn
    exact ⟨k, by exact_mod_cast h, rfl⟩
  · rintro ⟨k, rfl, rfl⟩
    exact Int.natCast_mul ..

theorem apply_eq_mul_iff {s : Sign} {a b : Nat} (hb : 0 < b) {n : Int} :
    s.apply a = n * b ↔ ∃ k : Nat, a = k * b ∧ n = if s == .negative then -(k : Int) else k := by
  cases s with
  | positive => exact natCast_eq_mul_iff hb
  | negative =>
    have hneg : -(a : Int) = n * b ↔ (a : Int) = -n * b := by rw [Int.neg_mul, Int.neg_eq_comm, eq_comm]
    refine hneg.trans ((natCast_eq_mul_iff hb).trans ?_)
    exact exists_congr fun k => and_congr_right fun _ => Int.neg_eq_comm.trans eq_comm

/-- A number is whole if it is finite and a multiple of one. -/
theorem whole?_eq_some_iff {x : Float} {n : Int} : whole? x = some n ↔ x.isFinite = true ∧ units x = n * one := by
  have hcanonical : IsCanonical x.toModel.unpack := (unpack_reads x.toModel.toBits.toBitVec).isCanonical
  have hfinite : x.isFinite = x.toModel.unpack.isFinite := rfl
  rw [whole?, parts?_eq, units, hfinite]
  generalize x.toModel.unpack = u at hcanonical
  cases u with
  | notANumber => exact iff_of_false (fun h => by cases h) fun h => Bool.false_ne_true h.1
  | infinity s => exact iff_of_false (fun h => by cases h) fun h => Bool.false_ne_true h.1
  | zero s =>
    have hwhole := Parts.whole?_eq_some_iff (p := ⟨s == .negative, 0, -1074⟩) (n := n) (Int.le_refl _)
    refine hwhole.trans ?_
    rw [← apply_eq_mul_iff one_pos, magnitude, Nat.zero_mul]
    cases s <;> exact (and_iff_right rfl).symm
  | finite s m e hm =>
    have hwhole := Parts.whole?_eq_some_iff (p := ⟨s == .negative, m, e⟩) (n := n) hcanonical.1.least
    refine hwhole.trans ?_
    rw [← apply_eq_mul_iff one_pos]
    exact (and_iff_right rfl).symm

theorem isNaN_of_isFinite {x : Float} (h : x.isFinite = true) : x.isNaN = false := by
  have hfinite : x.toModel.unpack.isFinite = true := h
  have hnan : x.isNaN = x.toModel.unpack.isNaN := rfl
  rw [hnan]
  generalize x.toModel.unpack = u at hfinite
  cases u with
  | notANumber => cases hfinite
  | _ => rfl

theorem isInf_of_isFinite {x : Float} (h : x.isFinite = true) : x.isInf = false := by
  have hfinite : x.toModel.unpack.isFinite = true := h
  have hinf : x.isInf = x.toModel.unpack.isInf := rfl
  rw [hinf]
  generalize x.toModel.unpack = u at hfinite
  cases u with
  | infinity s => cases hfinite
  | _ => rfl

theorem isNaN_of_whole {x : Float} {n : Int} (h : whole? x = some n) : x.isNaN = false :=
  isNaN_of_isFinite (whole?_eq_some_iff.mp h).1

end Curried.Number
