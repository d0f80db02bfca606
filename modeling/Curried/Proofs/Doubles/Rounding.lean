/-
  Curried.Proofs.Doubles.Rounding — fractions and integers as doubles.

  A fraction is rounded to the nearest mantissa of the exponent that leaves it 53 bits (`roundWithAccuracy_fraction`).
  An integer becomes the nearest double, of two as near the one with an even mantissa (`nearest`), and an infinity
  beyond all doubles (`units_ofNat`). So greater integers do not become less (`units_ofInt_mono`), a double that is
  whole becomes itself again (`units_ofInt_of_whole`), and so does every integer of up to 53 bits (`whole?_ofInt`). No
  odd integer beyond those is a double (`natAbs_le_of_odd`).
-/

import Curried.Proofs.Doubles.Units

namespace Curried.Number

open Float.Model Float.Model.UnpackedFloat

/-! ## Quotients -/

/-- The integer nearest to `a / b`, the even one of two that are as near. -/
def roundedDiv (a b : Nat) : Nat :=
  if 2 * (a % b) < b then a / b
  else if b < 2 * (a % b) then a / b + 1
  else a / b + a / b % 2

theorem div_le_roundedDiv (a b : Nat) : a / b ≤ roundedDiv a b := by
  unfold roundedDiv
  split
  · exact Nat.le_refl _
  · split <;> omega

theorem roundedDiv_le (a b : Nat) : roundedDiv a b ≤ a / b + 1 := by
  unfold roundedDiv
  split
  · omega
  · split <;> omega

theorem roundedDiv_mono {a b : Nat} (h : a ≤ b) (d : Nat) : roundedDiv a d ≤ roundedDiv b d := by
  rcases Nat.lt_or_eq_of_le (Nat.div_le_div_right (c := d) h) with hlt | heq
  · exact (roundedDiv_le a d).trans (hlt.trans_le (div_le_roundedDiv b d))
  · have hmod : a % d ≤ b % d := by
      have ha := Nat.div_add_mod a d
      have hb := Nat.div_add_mod b d
      rw [heq] at ha
      omega
    unfold roundedDiv
    rw [heq]
    split
    · exact div_le_roundedDiv b d
    · split
      · rw [if_neg (by omega), if_pos (by omega)]
      · split
        · omega
        · split <;> omega

theorem roundedDiv_mul (a : Nat) {b : Nat} (hb : 0 < b) : roundedDiv (a * b) b = a := by
  rw [roundedDiv, Nat.mul_mod_left, if_pos hb, Nat.mul_div_cancel _ hb]

theorem roundedDiv_mul_mul (a b : Nat) {c : Nat} (hc : 0 < c) : roundedDiv (a * c) (b * c) = roundedDiv a b := by
  have hlt (r s : Nat) : 2 * (r * c) < s * c ↔ 2 * r < s := by rw [← Nat.mul_assoc, Nat.mul_lt_mul_right hc]
  have hgt (r s : Nat) : s * c < 2 * (r * c) ↔ s < 2 * r := by rw [← Nat.mul_assoc, Nat.mul_lt_mul_right hc]
  simp only [roundedDiv, Nat.mul_mod_mul_right, Nat.mul_div_mul_right _ _ hc, hlt, hgt]

/-! ## Shifts -/

/-- The whole part of a fraction `a / b`, with what is to be known of the remainder. -/
structure Shifted (a b : Nat) (m : ExtendedMantissa) : Prop where
  mantissa : m.mantissa = a / b
  roundBit : m.roundBit = true ↔ b ≤ 2 * (a % b)
  stickyBit : m.stickyBit = true ↔ 2 * (a % b) % b ≠ 0

theorem two_mul_mod {r p : Nat} (h : r < p) : 2 * r % p = if 2 * r < p then 2 * r else 2 * r - p := by
  split
  · exact Nat.mod_eq_of_lt ‹_›
  · rw [Nat.mod_eq_sub_mod (by omega), Nat.mod_eq_of_lt (by omega)]

section

variable {a b : Nat} {m : ExtendedMantissa} (hb : 0 < b)
include hb

theorem Shifted.succ (h : Shifted a b m) : Shifted a (b * 2) m.shiftRightOne := by
  have hr : a % b < b := Nat.mod_lt _ hb
  have hmod : a % (b * 2) = a % b + b * (a / b % 2) := Nat.mod_mul
  have hround := h.roundBit
  have hsticky := h.stickyBit
  constructor
  · show m.mantissa / 2 = a / (b * 2)
    rw [h.mantissa, Nat.div_div_eq_div_mul]
  · show (m.mantissa % 2 != 0) = true ↔ _
    rw [h.mantissa, hmod, bne_iff_ne]
    rcases Nat.mod_two_eq_zero_or_one (a / b) with hbit | hbit
    · rw [hbit]
      omega
    · rw [hbit]
      omega
  · have hrest : 2 * (a % (b * 2)) % (b * 2) = 2 * (a % b) := by
      rw [hmod, Nat.mul_add, ← Nat.mul_assoc, Nat.mul_comm 2 b, Nat.add_mul_mod_self_left]
      exact Nat.mod_eq_of_lt (by omega)
    have htwice := two_mul_mod hr
    show (m.roundBit || m.stickyBit) = true ↔ _
    rw [Bool.or_eq_true, hround, hsticky, htwice, hrest]
    split <;> omega

theorem Shifted.shiftRight (h : Shifted a b m) (k : Nat) : Shifted a (b * 2 ^ k) (m >>> k) := by
  induction k with
  | zero =>
    rw [Nat.pow_zero, Nat.mul_one]
    exact h
  | succ k ih =>
    rw [Nat.pow_succ, ← Nat.mul_assoc]
    exact ih.succ (Nat.mul_pos hb (Nat.two_pow_pos k))

/-- What is known of a fraction is where the remainder lies. -/
theorem shifted_fraction (a : Nat) :
    Shifted a b (.ofMantissaAndAccuracy (a / b) (accuracyOfFraction (a % b) b)) := by
  have hr : a % b < b := Nat.mod_lt _ hb
  have htwice := two_mul_mod hr
  unfold accuracyOfFraction
  by_cases hzero : a % b = 0
  · rw [if_pos hzero]
    exact ⟨rfl, iff_of_false Bool.false_ne_true (by omega), iff_of_false Bool.false_ne_true (by simp [hzero])⟩
  · rw [if_neg hzero]
    rcases Nat.lt_trichotomy (2 * (a % b)) b with hlt | heq | hgt
    · rw [Nat.compare_eq_lt.mpr hlt]
      rw [if_pos hlt] at htwice
      exact ⟨rfl, iff_of_false Bool.false_ne_true (by omega), iff_of_true rfl (by omega)⟩
    · rw [Nat.compare_eq_eq.mpr heq]
      rw [if_neg (by omega)] at htwice
      exact ⟨rfl, iff_of_true rfl (by omega), iff_of_false Bool.false_ne_true (by omega)⟩
    · rw [Nat.compare_eq_gt.mpr hgt]
      rw [if_neg (by omega)] at htwice
      exact ⟨rfl, iff_of_true rfl (by omega), iff_of_true rfl (by omega)⟩

theorem Shifted.roundedMantissa (h : Shifted a b m) : m.roundedMantissa = roundedDiv a b := by
  have hr : a % b < b := Nat.mod_lt a hb
  obtain ⟨hm, hround, hsticky⟩ := h
  rw [two_mul_mod hr] at hsticky
  obtain ⟨mantissa, roundBit, stickyBit⟩ := m
  dsimp only at hm hround hsticky
  subst hm
  unfold roundedDiv
  cases roundBit with
  | false =>
    have hbelow : 2 * (a % b) < b := Nat.lt_of_not_le fun hle => Bool.false_ne_true (hround.mpr hle)
    rw [if_pos hbelow]
    cases stickyBit <;> rfl
  | true =>
    have habove : b ≤ 2 * (a % b) := hround.mp rfl
    rw [if_neg (Nat.not_lt.mpr habove)]
    rw [if_neg (Nat.not_lt.mpr habove)] at hsticky
    cases stickyBit with
    | false =>
      have htie : ¬ b < 2 * (a % b) := fun hlt => Bool.false_ne_true (hsticky.mpr (by omega))
      rw [if_neg htie]
      rfl
    | true =>
      have hmore : b < 2 * (a % b) := by
        have := hsticky.mp rfl
        omega
      rw [if_pos hmore]
      rfl

end

/-! ## Rounding -/

/-- The exponent a value `m * 2 ^ e` has in canonical form. -/
def target (m : Nat) (e : Int) : Int := max (m.log2 + 1 + e - 53) (-1074)

/-- A mantissa of 53 bits or fewer stays as it is. -/
theorem target_le {m : Nat} {e : Int} (hm : m < 2 ^ 53) (he : -1074 ≤ e) : target m e ≤ e := by
  have hlog : m.log2 ≤ 52 := by
    by_cases hzero : m = 0
    · rw [hzero]
      decide
    · exact Nat.le_of_lt_succ ((Nat.log2_lt hzero).mpr hm)
  unfold target
  omega

theorem target_carry {e : Int} (he : -1074 ≤ e) : target (2 ^ 53) e = e + 1 := by
  rw [target, Nat.log2_two_pow]
  omega

theorem log2_le_shift (m : Nat) (e : Int) :
    m.log2 ≤ 52 + (target m e - e).toNat ∧ -1074 ≤ e + (target m e - e).toNat := by
  unfold target
  omega

theorem div_lt_of_log2 {m k : Nat} (h : m.log2 ≤ 52 + k) : m / 2 ^ k < 2 ^ 53 := by
  rw [Nat.div_lt_iff_lt_mul (Nat.two_pow_pos k), ← Nat.pow_add]
  exact Nat.lt_log2_self.trans_le (Nat.pow_le_pow_right Nat.two_pos (by omega))

theorem finite_congr {s : Sign} {m n : Nat} {e f : Int} {hm : 0 < m} {hn : 0 < n} (h : m = n) (h' : e = f) :
    UnpackedFloat.finite s m e hm = .finite s n f hn := by
  subst h h'
  rfl

/-- What is left after rounding is shifted once more. -/
theorem roundWithAccuracy_unfold (s : Sign) {a b : Nat} (hb : 0 < b) {e : Int} {k j : Nat}
    (hk : (target (a / b) e - e).toNat = k)
    (hj : (target (roundedDiv a (b * 2 ^ k)) (e + k) - (e + k)).toNat = j)
    (hpos : 0 < roundedDiv a (b * 2 ^ k) / 2 ^ j) :
    roundWithAccuracy Format.binary64 s (a / b) e (accuracyOfFraction (a % b) b) =
      .finite s (roundedDiv a (b * 2 ^ k) / 2 ^ j) (e + k + j) hpos := by
  have hunfold : roundWithAccuracy Format.binary64 s (a / b) e (accuracyOfFraction (a % b) b) =
      let r := (ExtendedMantissa.ofMantissaAndAccuracy (a / b) (accuracyOfFraction (a % b) b) >>>
        (target (a / b) e - e).toNat).roundedMantissa
      let e' := e + (target (a / b) e - e).toNat
      let m' := (ExtendedMantissa.ofMantissaAndAccuracy r .exact >>> (target r e' - e').toNat).mantissa
      if h : m' = 0 then .zero s else .finite s m' (e' + (target r e' - e').toNat) (Nat.pos_of_ne_zero h) := rfl
  have hexact (r : Nat) : Shifted r (1 * 2 ^ j) (ExtendedMantissa.ofMantissaAndAccuracy r .exact >>> j) := by
    have hr := shifted_fraction Nat.one_pos r
    rw [Nat.div_one, Nat.mod_one] at hr
    exact hr.shiftRight Nat.one_pos j
  rw [hunfold]
  dsimp only
  rw [hk, ((shifted_fraction hb a).shiftRight hb k).roundedMantissa (Nat.mul_pos hb (Nat.two_pow_pos k)), hj,
    (hexact _).mantissa, Nat.one_mul, dif_neg (Nat.ne_of_gt hpos)]

/-- A value is rounded at the exponent it is shifted to; a carry out of the mantissa raises the exponent. -/
theorem roundWithAccuracy_fraction (s : Sign) {a b q c k : Nat} {acc : Accuracy} {e : Int} (hb : 0 < b)
    (hq : a / b = q) (hacc : accuracyOfFraction (a % b) b = acc) (hc : b * 2 ^ k = c)
    (hk : (target q e - e).toNat = k) (hpos : 0 < roundedDiv a c) :
    roundWithAccuracy Format.binary64 s q e acc =
      if roundedDiv a c < 2 ^ 53 then .finite s (roundedDiv a c) (e + k) hpos
      else .finite s (2 ^ 52) (e + k + 1) (Nat.two_pow_pos 52) := by
  subst hq hacc hc
  obtain ⟨hlog, hleast⟩ := log2_le_shift (a / b) e
  rw [hk] at hlog hleast
  by_cases hfits : roundedDiv a (b * 2 ^ k) < 2 ^ 53
  · have hj : (target (roundedDiv a (b * 2 ^ k)) (e + k) - (e + k)).toNat = 0 := by
      have := target_le hfits hleast
      omega
    rw [if_pos hfits, roundWithAccuracy_unfold s hb hk hj (by rwa [Nat.pow_zero, Nat.div_one])]
    exact finite_congr (by rw [Nat.pow_zero, Nat.div_one]) (Int.add_zero _)
  · have hcarry : roundedDiv a (b * 2 ^ k) = 2 ^ 53 := by
      have hle := roundedDiv_le a (b * 2 ^ k)
      have hlt := div_lt_of_log2 hlog
      rw [Nat.div_div_eq_div_mul] at hlt
      omega
    have hj : (target (roundedDiv a (b * 2 ^ k)) (e + k) - (e + k)).toNat = 1 := by
      rw [hcarry, target_carry hleast]
      omega
    rw [if_neg hfits, roundWithAccuracy_unfold s hb hk hj (by rw [hcarry]; decide)]
    exact finite_congr (by rw [hcarry]; rfl) rfl

theorem roundWithAccuracy_eq (s : Sign) {m : Nat} {e : Int} {k : Nat} (hk : (target m e - e).toNat = k)
    (hpos : 0 < roundedDiv m (2 ^ k)) :
    roundWithAccuracy Format.binary64 s m e .exact =
      if roundedDiv m (2 ^ k) < 2 ^ 53 then .finite s (roundedDiv m (2 ^ k)) (e + k) hpos
      else .finite s (2 ^ 52) (e + k + 1) (Nat.two_pow_pos 52) :=
  roundWithAccuracy_fraction s Nat.one_pos (Nat.div_one m) (by rw [Nat.mod_one]; rfl) (Nat.one_mul _) hk hpos

theorem log2_mul_two_pow {m : Nat} (hm : 0 < m) (k : Nat) : (m * 2 ^ k).log2 = m.log2 + k := by
  have hne : m ≠ 0 := Nat.ne_of_gt hm
  refine (Nat.log2_eq_iff (Nat.ne_of_gt (Nat.mul_pos hm (Nat.two_pow_pos k)))).mpr ⟨?_, ?_⟩
  · rw [Nat.pow_add]
    exact Nat.mul_le_mul_right _ (Nat.log2_self_le hne)
  · rw [Nat.add_right_comm, Nat.pow_add]
    exact Nat.mul_lt_mul_of_pos_right Nat.lt_log2_self (Nat.two_pow_pos k)

theorem Canonical.target_eq {m : Nat} {e : Int} (h : Canonical m e) (hm : 0 < m) : target m e = e := by
  have hleast := h.least
  have hlog : m.log2 < 53 := (Nat.log2_lt (Nat.ne_of_gt hm)).mpr h.bits
  unfold target
  rcases h.leading with hleading | heq
  · have hfull : 52 ≤ m.log2 := (Nat.le_log2 (Nat.ne_of_gt hm)).mpr hleading
    omega
  · omega

/-- A canonical value is not changed by rounding, however it is written. -/
theorem roundWithAccuracy_canonical (s : Sign) {m : Nat} {e : Int} (hm : 0 < m) (h : Canonical m e) (k : Nat) :
    roundWithAccuracy Format.binary64 s (m * 2 ^ k) (e - k) .exact = .finite s m e hm := by
  have htarget : target (m * 2 ^ k) (e - k) = e := by
    have heq := h.target_eq hm
    unfold target at heq ⊢
    rw [log2_mul_two_pow hm]
    omega
  have hk : (target (m * 2 ^ k) (e - k) - (e - k)).toNat = k := by omega
  have hexact : roundedDiv (m * 2 ^ k) (2 ^ k) = m := roundedDiv_mul m (Nat.two_pow_pos k)
  rw [roundWithAccuracy_eq s hk (by rwa [hexact]), if_pos (by rw [hexact]; exact h.bits)]
  exact finite_congr hexact (Int.sub_add_cancel e k)

/-! ## Packing -/

theorem Reads.unique {s : Sign} {scale fraction : Nat} {u v : UnpackedFloat} (h : Reads s scale fraction u)
    (h' : Reads s scale fraction v) : u = v := by
  cases h with
  | infinity =>
    cases h' with
    | infinity => rfl
    | notANumber hf => exact absurd hf (Nat.lt_irrefl 0)
    | normal _ _ hlt => exact absurd hlt (Nat.lt_irrefl 2047)
  | notANumber hf =>
    cases h' with
    | infinity => exact absurd hf (Nat.lt_irrefl 0)
    | notANumber => rfl
    | normal _ _ hlt => exact absurd hlt (Nat.lt_irrefl 2047)
  | zero =>
    cases h' with
    | zero => rfl
    | subnormal hf => exact absurd hf (Nat.lt_irrefl 0)
    | normal _ hpos => exact absurd hpos (Nat.lt_irrefl 0)
  | subnormal hf =>
    cases h' with
    | zero => exact absurd hf (Nat.lt_irrefl 0)
    | subnormal => rfl
    | normal _ hpos => exact absurd hpos (Nat.lt_irrefl 0)
  | normal _ hpos hlt _ hm he =>
    cases h' with
    | infinity => exact absurd hlt (Nat.lt_irrefl 2047)
    | notANumber => exact absurd hlt (Nat.lt_irrefl 2047)
    | zero => exact absurd hpos (Nat.lt_irrefl 0)
    | subnormal => exact absurd hpos (Nat.lt_irrefl 0)
    | normal _ _ _ _ hm' he' =>
      subst hm he hm' he'
      rfl

theorem unpackSign_packComponents (s : Sign) (e : BitVec 11) (m : BitVec 52) :
    unpackSign (packComponents Format.binary64 s e m) = s.toBitVec := by
  have hsign : unpackSign (packComponents Format.binary64 s e m) =
    ((s.toBitVec ++ e ++ m).extractLsb 63 63).cast rfl := rfl
  rw [hsign]
  apply BitVec.eq_of_getLsbD_eq
  intro i hi
  have hi : i = 0 := by omega
  subst hi
  rw [BitVec.getLsbD_cast, BitVec.getLsbD_extractLsb, BitVec.getLsbD_append, BitVec.getLsbD_append]
  rfl

/-- What has been put together from its fields is read as they say. -/
theorem packComponents_reads (s : Sign) (e : BitVec 11) (m : BitVec 52) :
    Reads s e.toNat m.toNat (UnpackedFloat.unpack Format.binary64 (packComponents Format.binary64 s e m)) := by
  have hreads := unpack_reads (packComponents Format.binary64 s e m)
  rw [unpackExponent_packComponents, unpackMantissa_packComponents, unpackSign_packComponents] at hreads
  have hsign : Sign.ofBitVec s.toBitVec = s := by cases s <;> rfl
  rwa [hsign] at hreads

theorem pack_finite (s : Sign) {m : Nat} {e : Int} (hm : 0 < m) :
    UnpackedFloat.pack Format.binary64 (.finite s m e hm) =
      if 2 ^ 11 ≤ (e + 1023 + 52).toNat + 1 then packComponents Format.binary64 s (-1#11) 0#52
      else if m.log2 + 1 = 53 then
        packComponents Format.binary64 s (BitVec.ofNat 11 (e + 1023 + 52).toNat) (BitVec.ofNat 52 m)
      else packComponents Format.binary64 s 0#11 (BitVec.ofNat 52 m) := rfl

theorem unpack_pack_finite (s : Sign) {m : Nat} {e : Int} (hm : 0 < m) (h : Canonical m e) (he : e ≤ 971) :
    (Float.Model.pack (.finite s m e hm)).unpack = .finite s m e hm := by
  show UnpackedFloat.unpack Format.binary64 (UnpackedFloat.pack Format.binary64 (.finite s m e hm)) = _
  have hleast := h.least
  have hbits := h.bits
  rw [pack_finite, if_neg (by omega)]
  by_cases hleading : 2 ^ 52 ≤ m
  · have hlog : m.log2 = 52 := (Nat.log2_eq_iff (Nat.ne_of_gt hm)).mpr ⟨hleading, hbits⟩
    rw [hlog, if_pos rfl]
    have hscale : (BitVec.ofNat 11 (e + 1023 + 52).toNat).toNat = (e + 1075).toNat := by
      rw [BitVec.toNat_ofNat]
      omega
    have hfraction : (BitVec.ofNat 52 m).toNat = m - 2 ^ 52 := by
      rw [BitVec.toNat_ofNat]
      omega
    have hreads := packComponents_reads s (BitVec.ofNat 11 (e + 1023 + 52).toNat) (BitVec.ofNat 52 m)
    rw [hscale, hfraction] at hreads
    exact hreads.unique (.normal hm (by omega) (by omega) (by omega) (by omega) (by omega))
  · have hlog : ¬ m.log2 + 1 = 53 := by
      have := (Nat.log2_lt (Nat.ne_of_gt hm)).mpr (Nat.lt_of_not_le hleading)
      omega
    have hfraction : (BitVec.ofNat 52 m).toNat = m := by
      rw [BitVec.toNat_ofNat, Nat.mod_eq_of_lt (Nat.lt_of_not_le hleading)]
    have hreads := packComponents_reads s 0#11 (BitVec.ofNat 52 m)
    rw [hfraction] at hreads
    rw [if_neg hlog]
    obtain rfl := h.leading.resolve_left hleading
    exact hreads.unique (.subnormal hm (Nat.lt_of_not_le hleading))

theorem unpack_pack_infinite (s : Sign) {m : Nat} {e : Int} (hm : 0 < m) (he : 971 < e) :
    (Float.Model.pack (.finite s m e hm)).unpack = .infinity s := by
  show UnpackedFloat.unpack Format.binary64 (UnpackedFloat.pack Format.binary64 (.finite s m e hm)) = _
  rw [pack_finite, if_pos (by omega)]
  exact (packComponents_reads s (-1#11) 0#52).unique .infinity

/-- A value that is too great becomes infinite. -/
theorem unitsOf_pack (s : Sign) {m : Nat} {e : Int} (hm : 0 < m) (h : Canonical m e) :
    unitsOf (Float.Model.pack (.finite s m e hm)).unpack = s.apply (min (magnitude m e) limit : Nat) := by
  by_cases he : e ≤ 971
  · have hlt : magnitude m e < limit := magnitude_lt h.bits h.least (Int.add_le_add_right he 53)
    rw [unpack_pack_finite s hm h he, Nat.min_eq_left (Nat.le_of_lt hlt)]
    rfl
  · have hleading : 2 ^ 52 ≤ m := h.leading.resolve_right (by omega)
    have hle : limit ≤ magnitude m e := le_magnitude hleading h.least (by omega)
    rw [unpack_pack_infinite s hm (by omega), Nat.min_eq_right hle]
    rfl

/-! ## Integers -/

def excess (n : Nat) : Nat := n.log2 - 52

def nearest (n : Nat) : Nat := roundedDiv n (2 ^ excess n) * 2 ^ excess n

theorem nearest_mul_two_pow {m : Nat} (hm : m < 2 ^ 53) (k : Nat) : nearest (m * 2 ^ k) = m * 2 ^ k := by
  by_cases hzero : m = 0
  · subst hzero
    rw [Nat.zero_mul]
    decide
  · have hpos : 0 < m := Nat.pos_of_ne_zero hzero
    have hlog : m.log2 < 53 := (Nat.log2_lt hzero).mpr hm
    have hexcess : excess (m * 2 ^ k) ≤ k := by
      rw [excess, log2_mul_two_pow hpos]
      omega
    obtain ⟨j, hj⟩ := Nat.exists_eq_add_of_le' hexcess
    have hsplit : m * 2 ^ k = m * 2 ^ j * 2 ^ excess (m * 2 ^ k) := by
      rw [Nat.mul_assoc, ← Nat.pow_add, ← hj]
    unfold nearest
    generalize excess (m * 2 ^ k) = x at hsplit
    rw [hsplit, roundedDiv_mul _ (Nat.two_pow_pos _)]

theorem nearest_of_le {n : Nat} (hn : n ≤ 2 ^ 53) : nearest n = n := by
  rcases Nat.lt_or_eq_of_le hn with hlt | heq
  · have h := nearest_mul_two_pow hlt 0
    rwa [Nat.pow_zero, Nat.mul_one] at h
  · have h := nearest_mul_two_pow (m := 1) (by decide) 53
    rwa [Nat.one_mul, ← heq] at h

/-- Beyond 53 bits all that is rounded to is even. -/
theorem two_dvd_nearest {n : Nat} (hn : 2 ^ 53 ≤ n) : 2 ∣ nearest n := by
  have hlog : 53 ≤ n.log2 := (Nat.le_log2 (by omega)).mpr hn
  have hexcess : excess n = excess n - 1 + 1 := by
    unfold excess
    omega
  rw [nearest, hexcess, Nat.pow_succ, ← Nat.mul_assoc]
  exact Nat.dvd_mul_left _ _

theorem le_div_excess {n : Nat} (hn : 52 ≤ n.log2) : 2 ^ 52 ≤ n / 2 ^ excess n := by
  have hne : n ≠ 0 := by
    rintro rfl
    exact absurd hn (by decide)
  rw [Nat.le_div_iff_mul_le (Nat.two_pow_pos _), ← Nat.pow_add, excess, Nat.add_sub_cancel' hn]
  exact Nat.log2_self_le hne

theorem nearest_le (n : Nat) : nearest n ≤ 2 ^ (53 + excess n) := by
  have hdiv : n / 2 ^ excess n < 2 ^ 53 := div_lt_of_log2 (by unfold excess; omega)
  have hround := roundedDiv_le n (2 ^ excess n)
  rw [nearest, Nat.pow_add]
  exact Nat.mul_le_mul_right _ (by omega)

theorem nearest_mono {a b : Nat} (h : a ≤ b) : nearest a ≤ nearest b := by
  have hlog : a.log2 ≤ b.log2 := by
    by_cases hzero : a = 0
    · rw [hzero]
      exact Nat.zero_le _
    · exact (Nat.le_log2 (by omega)).mpr ((Nat.log2_self_le hzero).trans h)
  have hexcess : excess a ≤ excess b := Nat.sub_le_sub_right hlog 52
  rcases Nat.lt_or_eq_of_le hexcess with hlt | heq
  · -- the greater one has a power of two below it that the other does not pass
    have hlog : 52 ≤ b.log2 := by
      unfold excess at hlt
      omega
    calc nearest a
        ≤ 2 ^ (53 + excess a) := nearest_le a
      _ ≤ 2 ^ (52 + excess b) := Nat.pow_le_pow_right Nat.two_pos (by omega)
      _ = 2 ^ 52 * 2 ^ excess b := Nat.pow_add ..
      _ ≤ nearest b := Nat.mul_le_mul_right _ ((le_div_excess hlog).trans (div_le_roundedDiv _ _))
  · unfold nearest
    rw [heq]
    exact Nat.mul_le_mul_right _ (roundedDiv_mono h _)

/-- A canonical value that is an integer is not rounded. -/
theorem nearest_of_magnitude {m n : Nat} {e : Int} (hm : m < 2 ^ 53) (he : -1074 ≤ e) (h : magnitude m e = n * one) :
    nearest n = n := by
  cases e with
  | ofNat k =>
    have hn : m * 2 ^ k = n := by
      apply Nat.eq_of_mul_eq_mul_right one_pos
      rw [← h, ← magnitude_zero, ← magnitude_add (by decide), Int.zero_add]
      rfl
    rw [← hn]
    exact nearest_mul_two_pow hm k
  | negSucc k =>
    have hn : n * 2 ^ (k + 1) = m := by
      apply Nat.eq_of_mul_eq_mul_right one_pos
      rw [Nat.mul_right_comm, ← h, magnitude_negSucc (by omega)]
    exact nearest_of_le (by have := Nat.le_mul_of_pos_right n (Nat.two_pow_pos (k + 1)); omega)

/-- An integer of up to 53 bits with its leading bit shifted into place. -/
theorem canonical_aligned {n : Nat} (hpos : 0 < n) (hn : n < 2 ^ 53) :
    Canonical (n * 2 ^ (52 - n.log2)) (n.log2 - 52) := by
  have hlt : n.log2 < 53 := (Nat.log2_lt (Nat.ne_of_gt hpos)).mpr hn
  have hmul : 0 < n * 2 ^ (52 - n.log2) := Nat.mul_pos hpos (Nat.two_pow_pos _)
  have hlog : (n * 2 ^ (52 - n.log2)).log2 = 52 := by
    rw [log2_mul_two_pow hpos]
    omega
  obtain ⟨hleading, hbits⟩ := (Nat.log2_eq_iff (Nat.ne_of_gt hmul)).mp hlog
  exact ⟨hbits, by omega, .inl hleading⟩

theorem magnitude_aligned {n : Nat} (hpos : 0 < n) (hn : n < 2 ^ 53) :
    magnitude (n * 2 ^ (52 - n.log2)) (n.log2 - 52) = n * one := by
  have hlt : n.log2 < 53 := (Nat.log2_lt (Nat.ne_of_gt hpos)).mpr hn
  have hsum : (n.log2 : Int) - 52 + (52 - n.log2 : Nat) = 0 := by omega
  rw [← magnitude_add (by omega), hsum, magnitude_zero]

theorem normalize_small {n : Nat} (hpos : 0 < n) (hn : n < 2 ^ 53) (hm : 0 < n * 2 ^ (52 - n.log2)) :
    UnpackedFloat.normalize Format.binary64 n 0 .positive =
      .finite .positive (n * 2 ^ (52 - n.log2)) (n.log2 - 52) hm := by
  have hlt : n.log2 < 53 := (Nat.log2_lt (Nat.ne_of_gt hpos)).mpr hn
  have hround : UnpackedFloat.round Format.binary64 .positive n 0 = roundWithAccuracy Format.binary64 .positive
    (n <<< (0 - target n 0).toNat) (0 - ((0 - target n 0).toNat : Nat)) .exact := rfl
  have hshift : (0 - target n 0).toNat = 52 - n.log2 := by
    unfold target
    omega
  have hcanonical := roundWithAccuracy_canonical .positive hm (canonical_aligned hpos hn) 0
  rw [Nat.pow_zero, Nat.mul_one] at hcanonical
  rw [UnpackedFloat.normalize, Int.compare_eq_gt.mpr (Int.natCast_pos.mpr hpos)]
  show UnpackedFloat.round Format.binary64 .positive n 0 = _
  rw [hround, hshift, Nat.shiftLeft_eq, ← hcanonical]
  congr 1
  omega

theorem unpack_ofBits_one : (Float.ofBits 0x3FF0000000000000).toModel.unpack =
    .finite .positive (2 ^ 52) (-52) (Nat.two_pow_pos 52) := rfl

theorem ofNat_eq_mul {n : Nat} (hn : n < 2 ^ 53) :
    Float.ofNat n = .ofModel (.pack (UnpackedFloat.mul Format.binary64
      (Float.Model.pack (UnpackedFloat.normalize Format.binary64 n 0 .positive)).unpack
      (.finite .positive (2 ^ 52) (-52) (Nat.two_pow_pos 52)))) := by
  have hword : n.toUInt64.toNat = n := by
    have hmod : n.toUInt64.toNat = n % 2 ^ 64 := rfl
    omega
  have hofNat : Float.ofNat n = Float.ofScientific n false 0 := rfl
  have hmul : n.toUInt64.toFloat * Float.ofBits 0x3FF0000000000000 = .ofModel (.pack (UnpackedFloat.mul Format.binary64
      (Float.Model.pack (UnpackedFloat.normalize Format.binary64 n.toUInt64.toNat 0 .positive)).unpack
      (Float.ofBits 0x3FF0000000000000).toModel.unpack)) := rfl
  rw [hofNat, Float.ofScientific, dif_pos ⟨hn, by decide⟩, ← unpack_ofBits_one]
  rw [hword] at hmul
  exact hmul

/-- Up to 53 bits an integer is multiplied by one, and keeps its value. -/
theorem ofNat_small {n : Nat} (hpos : 0 < n) (hn : n < 2 ^ 53) (hm : 0 < n * 2 ^ (52 - n.log2)) :
    Float.ofNat n = .ofModel (.pack (.finite .positive (n * 2 ^ (52 - n.log2)) (n.log2 - 52) hm)) := by
  have hcanonical := canonical_aligned hpos hn
  have hlt : n.log2 < 53 := (Nat.log2_lt (Nat.ne_of_gt hpos)).mpr hn
  have hmul := roundWithAccuracy_canonical .positive hm hcanonical 52
  rw [ofNat_eq_mul hn, normalize_small hpos hn hm, unpack_pack_finite _ _ hcanonical (by omega)]
  exact congrArg (fun u => Float.ofModel (.pack u)) hmul

theorem ofNat_eq_round {n : Nat} (hn : 2 ^ 53 ≤ n) :
    Float.ofNat n = .ofModel (.pack (roundWithAccuracy Format.binary64 .positive (n * 2 ^ 53) (-53) .exact)) := by
  have hofNat : Float.ofNat n = Float.ofScientific n false 0 := rfl
  have hne : n ≠ 0 := by omega
  have hnotTiny : ¬ Int.ofNat 0 < -((2 : Int) ^ Format.binary64.exponentBits + n.log2) := by
    show ¬ (0 : Int) < -((2 : Int) ^ 11 + n.log2)
    omega
  have hscientific : UnpackedFloat.ofScientific Format.binary64 n (Int.ofNat 0) =
      roundWithAccuracy Format.binary64 .positive (n <<< 53 * 1) (-53) .exact := by
    rw [UnpackedFloat.ofScientific, dif_neg hne, if_neg (by decide), if_neg hnotTiny, if_pos (by decide)]
    rfl
  rw [hofNat, Float.ofScientific, dif_neg (by omega)]
  rw [Nat.mul_one, Nat.shiftLeft_eq] at hscientific
  exact congrArg (fun u => Float.ofModel (.pack u)) hscientific

/-- Beyond 53 bits an integer is rounded where its excess bits begin. -/
theorem ofNat_large {n : Nat} (hn : 2 ^ 53 ≤ n) (hpos : 0 < roundedDiv n (2 ^ excess n)) :
    Float.ofNat n = .ofModel (.pack
      (if roundedDiv n (2 ^ excess n) < 2 ^ 53 then .finite .positive (roundedDiv n (2 ^ excess n)) (excess n) hpos
      else .finite .positive (2 ^ 52) (excess n + 1) (Nat.two_pow_pos 52))) := by
  have hne : 0 < n := by omega
  have hlog : 53 ≤ n.log2 := (Nat.le_log2 (by omega)).mpr hn
  have hexcess : excess n + 53 = n.log2 + 1 := by
    unfold excess
    omega
  have hk : (target (n * 2 ^ 53) (-53) - -53).toNat = excess n + 53 := by
    unfold target
    rw [log2_mul_two_pow hne]
    omega
  have hdiv : roundedDiv (n * 2 ^ 53) (2 ^ (excess n + 53)) = roundedDiv n (2 ^ excess n) := by
    rw [Nat.pow_add]
    exact roundedDiv_mul_mul _ _ (Nat.two_pow_pos 53)
  have hshift : (-53 : Int) + (excess n + 53 : Nat) = excess n := by omega
  rw [ofNat_eq_round hn, roundWithAccuracy_eq .positive hk (by rwa [hdiv])]
  by_cases hfits : roundedDiv n (2 ^ excess n) < 2 ^ 53
  · rw [if_pos hfits, if_pos (by rwa [hdiv])]
    exact congrArg (fun u => Float.ofModel (.pack u)) (finite_congr hdiv hshift)
  · rw [if_neg hfits, if_neg (by rwa [hdiv])]
    exact congrArg (fun u => Float.ofModel (.pack u)) (finite_congr rfl (congrArg (· + 1) hshift))

/-- An integer becomes the double it is rounded to, if that is not too great. -/
theorem ofNat_rounds {n : Nat} (hn : 0 < n) : ∃ (m : Nat) (e : Int) (hm : 0 < m), Canonical m e ∧
    magnitude m e = nearest n * one ∧ Float.ofNat n = .ofModel (.pack (.finite .positive m e hm)) := by
  rcases Nat.lt_or_ge n (2 ^ 53) with hsmall | hlarge
  · have hm : 0 < n * 2 ^ (52 - n.log2) := Nat.mul_pos hn (Nat.two_pow_pos _)
    refine ⟨_, _, hm, canonical_aligned hn hsmall, ?_, ofNat_small hn hsmall hm⟩
    rw [magnitude_aligned hn hsmall, nearest_of_le (Nat.le_of_lt hsmall)]
  · have hlog : 53 ≤ n.log2 := (Nat.le_log2 (Nat.ne_of_gt hn)).mpr hlarge
    have hleading : 2 ^ 52 ≤ roundedDiv n (2 ^ excess n) := (le_div_excess (by omega)).trans (div_le_roundedDiv _ _)
    have hpos : 0 < roundedDiv n (2 ^ excess n) := by omega
    have hunits : magnitude (roundedDiv n (2 ^ excess n)) (excess n) = nearest n * one := by
      rw [← Int.zero_add (excess n : Int), magnitude_add (by decide), magnitude_zero, nearest]
    have hofNat := ofNat_large hlarge hpos
    by_cases hfits : roundedDiv n (2 ^ excess n) < 2 ^ 53
    · rw [if_pos hfits] at hofNat
      exact ⟨_, _, hpos, ⟨hfits, by omega, .inl hleading⟩, hunits, hofNat⟩
    · have hcarry : roundedDiv n (2 ^ excess n) = 2 ^ 52 * 2 ^ 1 := by
        have := roundedDiv_le n (2 ^ excess n)
        have : n / 2 ^ excess n < 2 ^ 53 := div_lt_of_log2 (by unfold excess; omega)
        omega
      rw [if_neg hfits] at hofNat
      refine ⟨_, _, Nat.two_pow_pos 52, ⟨by decide, by omega, .inl (Nat.le_refl _)⟩, ?_, hofNat⟩
      rw [hcarry, ← magnitude_add (by omega)] at hunits
      exact hunits

/-! ## Units of integers -/

theorem isNaN_ofNat (n : Nat) : (Float.ofNat n).isNaN = false := by
  by_cases hn : n = 0
  · subst hn
    decide +kernel
  · obtain ⟨m, e, hm, hcanonical, -, hofNat⟩ := ofNat_rounds (Nat.pos_of_ne_zero hn)
    rw [hofNat]
    show (Float.Model.pack (.finite .positive m e hm)).unpack.isNaN = false
    by_cases he : e ≤ 971
    · rw [unpack_pack_finite _ hm hcanonical he]
      rfl
    · rw [unpack_pack_infinite _ hm (by omega)]
      rfl

/-- What an integer becomes as a double, and an infinity if it is too great. -/
def rounded (n : Nat) : Nat := min (nearest n * one) limit

theorem rounded_zero : rounded 0 = 0 := by
  rw [rounded, nearest_of_le (Nat.zero_le _), Nat.zero_mul, Nat.zero_min]

theorem rounded_mono {a b : Nat} (h : a ≤ b) : rounded a ≤ rounded b := by
  have hle : nearest a * one ≤ nearest b * one := Nat.mul_le_mul_right _ (nearest_mono h)
  unfold rounded
  omega

theorem units_ofNat (n : Nat) : units (Float.ofNat n) = rounded n := by
  by_cases hn : n = 0
  · have hzero : units (Float.ofNat 0) = 0 := by decide +kernel
    rw [hn, hzero, rounded_zero]
    rfl
  · obtain ⟨m, e, hm, hcanonical, hunits, hofNat⟩ := ofNat_rounds (Nat.pos_of_ne_zero hn)
    rw [hofNat, rounded, ← hunits]
    exact unitsOf_pack .positive hm hcanonical

theorem unpack_neg (x : Float) : (-x).toModel.unpack = x.toModel.unpack.neg := by
  have hneg : (-x).toModel.unpack = (Float.Model.pack x.toModel.unpack.neg).unpack := rfl
  have hcanonical : IsCanonical x.toModel.unpack := (unpack_reads x.toModel.toBits.toBitVec).isCanonical
  rw [hneg]
  generalize x.toModel.unpack = u at hcanonical
  cases u with
  | notANumber => rfl
  | infinity s => cases s <;> rfl
  | zero s => cases s <;> rfl
  | finite s m e hm => exact unpack_pack_finite _ hm hcanonical.1 hcanonical.2

theorem units_neg (x : Float) : units (-x) = -units x := by
  have hsign (s : Sign) (n : Int) : (-s).apply n = -s.apply n := by
    cases s with
    | negative => exact (Int.neg_neg n).symm
    | positive => rfl
  rw [units, units, unpack_neg]
  cases x.toModel.unpack with
  | notANumber => rfl
  | infinity s => exact hsign s limit
  | zero s => rfl
  | finite s m e hm => exact hsign s (magnitude m e)

theorem isNaN_neg (x : Float) : (-x).isNaN = x.isNaN := by
  show (-x).toModel.unpack.isNaN = x.toModel.unpack.isNaN
  rw [unpack_neg]
  cases x.toModel.unpack <;> rfl

theorem isNaN_ofInt (n : Int) : (ofInt n).isNaN = false := by
  cases n with
  | ofNat n => exact isNaN_ofNat n
  | negSucc n => exact (isNaN_neg _).trans (isNaN_ofNat (n + 1))

theorem units_ofInt_natCast (n : Nat) : units (ofInt n) = rounded n :=
  units_ofNat n

theorem units_ofInt_neg (n : Nat) : units (ofInt (-n)) = -(rounded n : Int) := by
  cases n with
  | zero =>
    rw [rounded_zero]
    exact (units_ofNat 0).trans (congrArg _ rounded_zero)
  | succ n => exact (units_neg _).trans (congrArg _ (units_ofNat (n + 1)))

/-- A greater integer does not become a lesser double. -/
theorem units_ofInt_mono {a b : Int} (h : a ≤ b) : units (ofInt a) ≤ units (ofInt b) := by
  rcases Int.eq_nat_or_neg a with ⟨m, rfl | rfl⟩
  · obtain ⟨n, rfl⟩ := Int.eq_ofNat_of_zero_le ((Int.natCast_nonneg m).trans h)
    rw [units_ofInt_natCast, units_ofInt_natCast]
    exact Int.ofNat_le.mpr (rounded_mono (Int.ofNat_le.mp h))
  · rw [units_ofInt_neg]
    rcases Int.eq_nat_or_neg b with ⟨n, rfl | rfl⟩
    · rw [units_ofInt_natCast]
      omega
    · have hle : rounded n ≤ rounded m := rounded_mono (by omega)
      rw [units_ofInt_neg]
      omega

theorem one_dvd_magnitude (m k : Nat) : one ∣ magnitude m k := by
  rw [← Int.zero_add (k : Int), magnitude_add (by decide), magnitude_zero]
  exact Nat.dvd_mul_left one _

theorem one_dvd_rounded (n : Nat) : one ∣ rounded n := by
  rw [rounded]
  rcases Nat.le_total (nearest n * one) limit with h | h
  · rw [Nat.min_eq_left h]
    exact Nat.dvd_mul_left one (nearest n)
  · rw [Nat.min_eq_right h]
    exact one_dvd_magnitude 1 1024

theorem one_dvd_units_ofInt (n : Int) : (one : Int) ∣ units (ofInt n) := by
  rcases Int.eq_nat_or_neg n with ⟨m, rfl | rfl⟩
  · rw [units_ofInt_natCast]
    exact Int.natCast_dvd_natCast.mpr (one_dvd_rounded m)
  · rw [units_ofInt_neg, Int.dvd_neg]
    exact Int.natCast_dvd_natCast.mpr (one_dvd_rounded m)

theorem isFinite_iff_units {x : Float} (hx : x.isNaN = false) : x.isFinite = true ↔ (units x).natAbs < limit := by
  have hnan : x.toModel.unpack.isNaN = false := hx
  have hcanonical : IsCanonical x.toModel.unpack := (unpack_reads x.toModel.toBits.toBitVec).isCanonical
  have hfinite : x.isFinite = x.toModel.unpack.isFinite := rfl
  rw [hfinite, units]
  generalize x.toModel.unpack = u at hnan hcanonical
  cases u with
  | notANumber => cases hnan
  | infinity s =>
    rw [natAbs_unitsOf_infinity]
    exact iff_of_false Bool.false_ne_true (Nat.lt_irrefl limit)
  | zero s => exact iff_of_true rfl limit_pos
  | finite s m e hm =>
    rw [natAbs_unitsOf_finite]
    exact iff_of_true rfl hcanonical.bounded.2

/-- A whole double is an integer that is not rounded. -/
theorem nearest_of_whole {x : Float} {n : Int} (h : whole? x = some n) :
    nearest n.natAbs = n.natAbs ∧ n.natAbs * one < limit := by
  obtain ⟨hfinite, hunits⟩ := whole?_eq_some_iff.mp h
  have hcanonical : IsCanonical x.toModel.unpack := (unpack_reads x.toModel.toBits.toBitVec).isCanonical
  have habs : (units x).natAbs = n.natAbs * one := by rw [hunits, Int.natAbs_mul, Int.natAbs_natCast]
  have hfinite : x.toModel.unpack.isFinite = true := hfinite
  rw [units] at habs
  generalize x.toModel.unpack = u at hfinite habs hcanonical
  cases u with
  | notANumber => cases hfinite
  | infinity => cases hfinite
  | zero s =>
    have hn : n.natAbs = 0 := (Nat.mul_eq_zero.mp habs.symm).resolve_right (Nat.ne_of_gt one_pos)
    rw [hn, Nat.zero_mul]
    exact ⟨nearest_of_le (Nat.zero_le _), limit_pos⟩
  | finite s m e hm =>
    have hmagnitude : magnitude m e = n.natAbs * one := by rw [← habs, natAbs_unitsOf_finite]
    exact ⟨nearest_of_magnitude hcanonical.1.bits hcanonical.1.least hmagnitude, hmagnitude ▸ hcanonical.bounded.2⟩

theorem units_ofInt_of_nearest {n : Int} (h : nearest n.natAbs = n.natAbs) (hlimit : n.natAbs * one < limit) :
    units (ofInt n) = n * one := by
  have hrounded : rounded n.natAbs = n.natAbs * one := by
    rw [rounded, h, Nat.min_eq_left (Nat.le_of_lt hlimit)]
  rcases Int.eq_nat_or_neg n with ⟨m, rfl | rfl⟩
  · rw [Int.natAbs_natCast] at hrounded
    rw [units_ofInt_natCast, hrounded, Int.natCast_mul]
  · rw [Int.natAbs_neg, Int.natAbs_natCast] at hrounded
    rw [units_ofInt_neg, hrounded, Int.natCast_mul, Int.neg_mul]

theorem units_ofInt_of_whole {x : Float} {n : Int} (h : whole? x = some n) : units (ofInt n) = units x := by
  obtain ⟨hnearest, hlimit⟩ := nearest_of_whole h
  rw [units_ofInt_of_nearest hnearest hlimit, (whole?_eq_some_iff.mp h).2]

theorem whole?_ofInt_of_units {n : Int} (hunits : units (ofInt n) = n * one) (hlimit : n.natAbs * one < limit) :
    whole? (ofInt n) = some n := by
  refine whole?_eq_some_iff.mpr ⟨(isFinite_iff_units (isNaN_ofInt n)).mpr ?_, hunits⟩
  rwa [hunits, Int.natAbs_mul, Int.natAbs_natCast]

/-- An integer of up to 53 bits becomes a double that is equal to it. -/
theorem whole?_ofInt {n : Int} (h : n.natAbs ≤ 2 ^ 53) : whole? (ofInt n) = some n := by
  have hlimit : n.natAbs * one < limit := by
    calc n.natAbs * one
        ≤ 1 * 2 ^ 53 * one := Nat.mul_le_mul_right _ (by omega)
      _ = magnitude 1 53 := by rw [← magnitude_zero, ← magnitude_add (by decide), Int.zero_add]; rfl
      _ < magnitude 1 1024 := magnitude_lt (by decide) (by decide) (by decide)
  exact whole?_ofInt_of_units (units_ofInt_of_nearest (nearest_of_le h) hlimit) hlimit

/-- A whole double that is odd has no more than 53 bits. -/
theorem natAbs_le_of_odd {x : Float} {n : Int} (h : whole? x = some n) (hodd : n % 2 = 1) : n.natAbs ≤ 2 ^ 53 := by
  by_contra hgt
  have hdvd := two_dvd_nearest (n := n.natAbs) (by omega)
  rw [(nearest_of_whole h).1] at hdvd
  omega

end Curried.Number
