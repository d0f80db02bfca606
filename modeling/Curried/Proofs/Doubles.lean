/-
  Curried.Proofs.Doubles — what equal doubles have in common.

  A double is determined by what it unpacks to, since packing that gives its bits again. Comparing two finds
  them equal only if they unpack to the same or are both zero. So equal numbers are the same one, but for the
  two zeros, and those are shown the same way. Equality of numbers is symmetric and transitive, and a number is
  equal to itself unless it is NaN (`beq_self_iff`).
-/

import Curried.Number

namespace Curried.Number

open Float.Model Float.Model.UnpackedFloat

/-! ## Packing -/

theorem packComponents_unpack (b : BitVec Format.binary64.numBits) :
    packComponents Format.binary64 (.ofBitVec (unpackSign b)) (unpackExponent b) (unpackMantissa b) = b := by
  have hsign : ∀ v : BitVec 1, (Sign.ofBitVec v).toBitVec = v := by decide
  have hpack : packComponents Format.binary64 (.ofBitVec (unpackSign b)) (unpackExponent b) (unpackMantissa b) =
      (Sign.ofBitVec ((b.extractLsb 63 63).cast rfl)).toBitVec ++ (b.extractLsb 62 52).cast rfl ++
        (b.extractLsb 51 0).cast rfl := rfl
  rw [hpack, hsign]
  apply BitVec.eq_of_getLsbD_eq
  intro i hi
  simp only [BitVec.getLsbD_append, BitVec.getLsbD_cast, BitVec.getLsbD_extractLsb]
  -- the bit is one of the mantissa, of the exponent, or the sign
  by_cases hmantissa : i < 52
  · simp [hmantissa]
  · by_cases hexponent : i - 52 < 11
    · have hplace : 52 + (i - 52) = i := by omega
      simp [hmantissa, hexponent, hplace]
    · have hplace : i = 63 := by omega
      subst hplace
      rfl

/-- Below the least exponent there is no implicit bit. -/
theorem pack_subnormal (s : Sign) (m : BitVec 52) {e : Int} (he : e = -1074) (hm : 0 < m.toNat) :
    UnpackedFloat.pack Format.binary64 (.finite s m.toNat e hm) = packComponents Format.binary64 s 0#11 m := by
  subst he
  have hlog : ¬ m.toNat.log2 + 1 = 53 := by
    have hlt : m.toNat.log2 < 52 := (Nat.log2_lt (Nat.ne_of_gt hm)).mpr m.isLt
    omega
  have hpack : UnpackedFloat.pack Format.binary64 (.finite s m.toNat (-1074) hm) =
      if m.toNat.log2 + 1 = 53 then packComponents Format.binary64 s (BitVec.ofNat 11 1) (BitVec.ofNat 52 m.toNat)
      else packComponents Format.binary64 s 0#11 (BitVec.ofNat 52 m.toNat) := rfl
  rw [hpack, if_neg hlog, BitVec.ofNat_toNat, BitVec.setWidth_eq]

theorem pack_normal (s : Sign) (e : BitVec 11) (m : BitVec 52) (he : ¬ e = -1#11) (hm : 0 < (1#1 ++ m).toNat) :
    UnpackedFloat.pack Format.binary64 (.finite s (1#1 ++ m).toNat (e.toNat - 1075) hm) =
      packComponents Format.binary64 s e m := by
  have hlt := m.isLt
  have hmantissa : (1#1 ++ m).toNat = 2 ^ 52 + m.toNat := by
    rw [BitVec.toNat_append, ← Nat.shiftLeft_add_eq_or_of_lt hlt]
    rfl
  have hexponent : ((e.toNat : Int) - 1075 + 1023 + 52).toNat = e.toNat := by omega
  have hbounded : ¬ 2 ^ 11 ≤ e.toNat + 1 := by
    intro hle
    have hlt := e.isLt
    exact he (BitVec.eq_of_toNat_eq (show e.toNat = 2047 by omega))
  have hlog : (1#1 ++ m).toNat.log2 = 52 := by
    rw [hmantissa]
    exact (Nat.log2_eq_iff (by omega)).mpr ⟨by omega, by omega⟩
  have hpack : UnpackedFloat.pack Format.binary64 (.finite s (1#1 ++ m).toNat (e.toNat - 1075) hm) =
      if 2 ^ 11 ≤ ((e.toNat : Int) - 1075 + 1023 + 52).toNat + 1 then packedInfinity Format.binary64 s
      else if (1#1 ++ m).toNat.log2 + 1 = 53 then
        packComponents Format.binary64 s (BitVec.ofNat 11 ((e.toNat : Int) - 1075 + 1023 + 52).toNat)
          (BitVec.ofNat 52 (1#1 ++ m).toNat)
      else packComponents Format.binary64 s 0#11 (BitVec.ofNat 52 (1#1 ++ m).toNat) := rfl
  rw [hpack, hexponent, if_neg hbounded, hlog, if_pos rfl, BitVec.ofNat_toNat, BitVec.setWidth_eq]
  congr 1
  apply BitVec.eq_of_toNat_eq
  rw [BitVec.toNat_ofNat, hmantissa]
  omega

/-- Packing undoes unpacking. -/
theorem pack_unpack {b : BitVec Format.binary64.numBits} (h : Format.binary64.Valid b) :
    UnpackedFloat.pack Format.binary64 (UnpackedFloat.unpack Format.binary64 b) = b := by
  have hcomponents := packComponents_unpack b
  unfold UnpackedFloat.unpack
  dsimp only
  by_cases hspecial : unpackExponent b = -1#_
  · rw [if_pos hspecial]
    by_cases hmantissa : unpackMantissa b = 0#_
    · rw [if_pos hmantissa]
      rwa [hspecial, hmantissa] at hcomponents
    · rw [if_neg hmantissa]
      exact (h.eq_packedNaN hspecial hmantissa).symm
  · rw [if_neg hspecial]
    by_cases hexponent : unpackExponent b = 0#_
    · rw [if_pos hexponent]
      by_cases hmantissa : unpackMantissa b = 0#_
      · rw [dif_pos hmantissa]
        rwa [hexponent, hmantissa] at hcomponents
      · rw [dif_neg hmantissa]
        rw [hexponent] at hcomponents
        exact (pack_subnormal _ _ (by rw [hexponent]; rfl) _).trans hcomponents
    · rw [if_neg hexponent]
      exact (pack_normal _ _ _ hspecial _).trans hcomponents

theorem ofModel_pack_unpack (x : Float) : Float.ofModel (Float.Model.pack x.toModel.unpack) = x := by
  have hext : ∀ {a b : Float.Model}, a.toBits = b.toBits → a = b := by
    rintro ⟨a, ha⟩ ⟨b, hb⟩ h
    cases h
    rfl
  exact congrArg Float.ofModel (hext (congrArg UInt64.ofBitVec (pack_unpack x.toModel.valid)))

/-! ## Comparing -/

theorem eq_of_compare {u v : UnpackedFloat} (h : u.compare v = some .eq) :
    u = v ∨ ∃ s t, u = .zero s ∧ v = .zero t := by
  cases u with
  | notANumber => cases h
  | infinity s =>
    left
    cases v with
    | notANumber => cases s <;> cases h
    | infinity t =>
      cases s with
      | negative =>
        cases t with
        | negative => rfl
        | positive => cases h
      | positive =>
        cases t with
        | negative => cases h
        | positive => rfl
    | zero t => cases s <;> cases h
    | finite t => cases s <;> cases h
  | zero s =>
    cases v with
    | notANumber => cases h
    | infinity t => cases t <;> cases h
    | zero t => exact .inr ⟨s, t, rfl, rfl⟩
    | finite t => cases t <;> cases h
  | finite s m e hm =>
    left
    cases v with
    | notANumber => cases s <;> cases h
    | infinity t => cases s <;> cases t <;> cases h
    | zero t => cases s <;> cases h
    | finite t n f hn =>
      have hsame : (compare e f).then (compare m n) = .eq → e = f ∧ m = n := by
        intro hthen
        obtain ⟨he, hm⟩ := Ordering.then_eq_eq.mp hthen
        exact ⟨Std.LawfulEqOrd.eq_of_compare he, Std.LawfulEqOrd.eq_of_compare hm⟩
      cases s with
      | negative =>
        cases t with
        | negative =>
          obtain ⟨rfl, rfl⟩ := hsame (Ordering.swap_eq_eq.mp (Option.some.inj h))
          rfl
        | positive => cases h
      | positive =>
        cases t with
        | negative => cases h
        | positive =>
          obtain ⟨rfl, rfl⟩ := hsame (Option.some.inj h)
          rfl

theorem zero_or_neg_zero (s : Sign) :
    Float.ofModel (Float.Model.pack (.zero s)) = 0 ∨ Float.ofModel (Float.Model.pack (.zero s)) = -0 := by
  cases s with
  | negative => exact .inr (by decide +kernel)
  | positive => exact .inl (by decide +kernel)

/-- Equal numbers are the same, or both are zero. -/
theorem eq_or_zeros_of_beq {x y : Float} (h : (x == y) = true) : x = y ∨ (x = 0 ∨ x = -0) ∧ (y = 0 ∨ y = -0) := by
  have hcompare : x.toModel.unpack.compare y.toModel.unpack = some .eq := eq_of_beq h
  rw [← ofModel_pack_unpack x, ← ofModel_pack_unpack y]
  rcases eq_of_compare hcompare with heq | ⟨s, t, hs, ht⟩
  · left
    rw [heq]
  · right
    rw [hs, ht]
    exact ⟨zero_or_neg_zero s, zero_or_neg_zero t⟩

theorem beq_of_zeros {x y : Float} (hx : x = 0 ∨ x = -0) (hy : y = 0 ∨ y = -0) : (x == y) = true := by
  rcases hx with rfl | rfl
  · rcases hy with rfl | rfl <;> decide +kernel
  · rcases hy with rfl | rfl <;> decide +kernel

theorem beq_symm {x y : Float} (h : (x == y) = true) : (y == x) = true := by
  rcases eq_or_zeros_of_beq h with rfl | ⟨hx, hy⟩
  · exact h
  · exact beq_of_zeros hy hx

theorem beq_trans {x y z : Float} (h : (x == y) = true) (h' : (y == z) = true) : (x == z) = true := by
  rcases eq_or_zeros_of_beq h with rfl | ⟨hx, hy⟩
  · exact h'
  · rcases eq_or_zeros_of_beq h' with rfl | ⟨-, hz⟩
    · exact h
    · exact beq_of_zeros hx hz

theorem compare_self_iff {u : UnpackedFloat} : u.compare u = some .eq ↔ u.isNaN = false := by
  cases u with
  | notANumber =>
    constructor
    · intro h
      cases h
    · intro h
      cases h
  | infinity s => cases s <;> exact ⟨fun _ => rfl, fun _ => rfl⟩
  | zero s => exact ⟨fun _ => rfl, fun _ => rfl⟩
  | finite s m e hm =>
    have hthen : (compare e e).then (compare m m) = .eq := by
      rw [Std.ReflOrd.compare_self, Std.ReflOrd.compare_self]
      rfl
    refine ⟨fun _ => rfl, fun _ => ?_⟩
    cases s with
    | negative => exact congrArg (fun o => some (Ordering.swap o)) hthen
    | positive => exact congrArg some hthen

/-- A number is equal to itself unless it is NaN. -/
theorem beq_self_iff {x : Float} : (x == x) = true ↔ x.isNaN = false := by
  have hcompare : (x == x) = true ↔ x.toModel.unpack.compare x.toModel.unpack = some .eq := by
    show (x.toModel.unpack.compare x.toModel.unpack == some .eq) = true ↔ _
    exact beq_iff_eq
  exact hcompare.trans compare_self_iff

end Curried.Number
