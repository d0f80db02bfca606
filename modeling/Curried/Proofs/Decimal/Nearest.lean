/-
  Curried.Proofs.Decimal.Nearest — a decimal is read as the nearest double.

  Around each double lies the span of the reals that are nearer to it than to any other (`Span.Covers`). A fraction in
  the span of a double is rounded to that double (`roundWithAccuracy_of_around`). Numerals are read by one product or
  one quotient of exact values that is rounded once, by a short way for few digits and a long one for the others, so a
  numeral in the span of a double is read as that double (`nearest_of_around`).
-/

import Curried.Decimal.Reader
import Curried.Proofs.Doubles.Rounding
import Mathlib.Algebra.Order.Field.Power
import Mathlib.Data.Rat.Cast.Order
import Mathlib.Tactic.FieldSimp
import Mathlib.Tactic.Linarith
import Mathlib.Tactic.Ring

namespace Curried

namespace Decimal

open Number

def Numeral.value (d : Numeral) : ℚ := d.digits * 10 ^ d.exponent

def Span.Covers (s : Span) (v : ℚ) : Prop :=
  if s.closed then s.low / s.den ≤ v ∧ v ≤ s.high / s.den else s.low / s.den < v ∧ v < s.high / s.den

/-! ## The span of a double -/

/-- How far a span reaches down, in quarters of the unit of the mantissa. -/
def reach (m : Nat) (e : Int) : Nat := if m == 2 ^ 52 && e != -1074 then 1 else 2

theorem reach_le_two (m : Nat) (e : Int) : 0 < reach m e ∧ reach m e ≤ 2 := by
  unfold reach
  split <;> decide

theorem reach_cast_le (m : Nat) (e : Int) : (reach m e : ℚ) ≤ 2 := by exact_mod_cast (reach_le_two m e).2

/-- A span is a few quarters of the unit of the mantissa wide. -/
theorem Span.of_eq (p : Parts) : ∃ unit den : Nat, 0 < den ∧ (unit / den : ℚ) = 2 ^ (p.exponent - 2) ∧
    Span.of p = ⟨(4 * p.mantissa - reach p.mantissa p.exponent) * unit, 4 * p.mantissa * unit,
      (4 * p.mantissa + 2) * unit, den, p.mantissa % 2 == 0⟩ := by
  unfold Span.of reach
  dsimp only
  cases p.exponent - 2 with
  | ofNat e => exact ⟨2 ^ e, 1, Nat.one_pos, by simp, rfl⟩
  | negSucc e =>
    refine ⟨1, 2 ^ (e + 1), Nat.two_pow_pos _, ?_, ?_⟩
    · rw [zpow_negSucc, Nat.cast_one, one_div, Nat.cast_pow, Nat.cast_ofNat]
    · simp only [Nat.mul_one]
      rfl

structure Around (m : Nat) (e : Int) (v : ℚ) : Prop where
  low : (4 * m - reach m e : ℚ) * 2 ^ (e - 2) ≤ v
  high : v ≤ (4 * m + 2 : ℚ) * 2 ^ (e - 2)
  odd : m % 2 = 1 → (4 * m - reach m e : ℚ) * 2 ^ (e - 2) < v ∧ v < (4 * m + 2 : ℚ) * 2 ^ (e - 2)

theorem Around.of_lt {m : Nat} {e : Int} {v : ℚ} (hlow : (4 * m - reach m e : ℚ) * 2 ^ (e - 2) < v)
    (hhigh : v < (4 * m + 2 : ℚ) * 2 ^ (e - 2)) : Around m e v :=
  ⟨hlow.le, hhigh.le, fun _ => ⟨hlow, hhigh⟩⟩

theorem covers_iff {p : Parts} (hm : 0 < p.mantissa) {v : ℚ} :
    (Span.of p).Covers v ↔ Around p.mantissa p.exponent v := by
  obtain ⟨unit, den, hden, hunit, hspan⟩ := Span.of_eq p
  have hreach := reach_le_two p.mantissa p.exponent
  have hlow : (((4 * p.mantissa - reach p.mantissa p.exponent) * unit : ℕ) : ℚ) / den =
      (4 * p.mantissa - reach p.mantissa p.exponent : ℚ) * 2 ^ (p.exponent - 2) := by
    rw [← hunit, Nat.cast_mul, Nat.cast_sub (by omega), mul_div_assoc]
    norm_num
  have hhigh : (((4 * p.mantissa + 2) * unit : ℕ) : ℚ) / den = (4 * p.mantissa + 2 : ℚ) * 2 ^ (p.exponent - 2) := by
    rw [← hunit, Nat.cast_mul, mul_div_assoc]
    norm_num
  unfold Span.Covers
  rw [hspan]
  dsimp only
  rw [hlow, hhigh]
  by_cases heven : p.mantissa % 2 = 0
  · rw [if_pos (by simpa using heven)]
    exact ⟨fun h => ⟨h.1, h.2, fun hodd => by omega⟩, fun h => ⟨h.low, h.high⟩⟩
  · rw [if_neg (by simpa using heven)]
    exact ⟨fun h => ⟨h.1.le, h.2.le, fun _ => h⟩, fun h => h.odd (by omega)⟩

/-! ## Rounding a fraction -/

/-- The nearest integer, if a tie goes to it. -/
theorem roundedDiv_eq {a b n : Nat} (hb : 0 < b) (hlow : 2 * (n * b) ≤ 2 * a + b) (hhigh : 2 * a ≤ 2 * (n * b) + b)
    (hodd : n % 2 = 1 → 2 * (n * b) < 2 * a + b ∧ 2 * a < 2 * (n * b) + b) : roundedDiv a b = n := by
  have hr : a % b < b := Nat.mod_lt a hb
  have ha : a / b * b + a % b = a := by
    rw [Nat.mul_comm]
    exact Nat.div_add_mod a b
  have hle : n ≤ a / b + 1 := by
    by_contra hgt
    have hmul : (a / b + 2) * b ≤ n * b := Nat.mul_le_mul_right b (by omega)
    rw [Nat.add_mul] at hmul
    omega
  have hge : a / b ≤ n := by
    by_contra hlt
    have hmul : (n + 1) * b ≤ a / b * b := Nat.mul_le_mul_right b (by omega)
    rw [Nat.add_mul] at hmul
    omega
  unfold roundedDiv
  obtain rfl | rfl : n = a / b ∨ n = a / b + 1 := by omega
  · split
    · rfl
    · rw [if_neg (by omega)]
      omega
  · rw [Nat.add_mul, Nat.one_mul] at hlow hodd
    rw [if_neg (by omega)]
    split
    · rfl
    · omega

theorem roundedDiv_eq_of_rat {a b n : Nat} (hb : 0 < b) (hlow : (n - 1 / 2 : ℚ) ≤ a / b)
    (hhigh : (a / b : ℚ) ≤ n + 1 / 2) (hodd : n % 2 = 1 → (n - 1 / 2 : ℚ) < a / b ∧ (a / b : ℚ) < n + 1 / 2) :
    roundedDiv a b = n := by
  have hb' : (0 : ℚ) < b := Nat.cast_pos.mpr hb
  rw [le_div_iff₀ hb'] at hlow
  rw [div_le_iff₀ hb'] at hhigh
  rw [lt_div_iff₀ hb', div_lt_iff₀ hb'] at hodd
  have hle {x y : Nat} (h : (x : ℚ) ≤ y) : x ≤ y := Nat.cast_le.mp h
  have hlt {x y : Nat} (h : (x : ℚ) < y) : x < y := Nat.cast_lt.mp h
  refine roundedDiv_eq hb (hle ?_) (hle ?_) fun h => ⟨hlt ?_, hlt ?_⟩
  · push_cast
    linarith
  · push_cast
    linarith
  · push_cast
    linarith [(hodd h).1]
  · push_cast
    linarith [(hodd h).2]

section

variable {a b : Nat} {e : Int} (hb : 0 < b)
include hb

/-- The leading bit of the whole part of a fraction bounds the fraction. -/
theorem fraction_lt : (a / b * 2 ^ e : ℚ) < 2 ^ ((a / b).log2 + 1 + e) := by
  have hb' : (0 : ℚ) < b := Nat.cast_pos.mpr hb
  have hlt : (a / b : ℚ) < 2 ^ ((a / b).log2 + 1) := by
    rw [div_lt_iff₀ hb']
    exact_mod_cast (Nat.div_lt_iff_lt_mul hb).mp (Nat.lt_log2_self (n := a / b))
  calc (a / b * 2 ^ e : ℚ)
      < 2 ^ ((a / b).log2 + 1) * 2 ^ e := mul_lt_mul_of_pos_right hlt (zpow_pos two_pos e)
    _ = 2 ^ ((a / b).log2 + 1 + e) := by
      rw [zpow_add₀ two_ne_zero, ← Nat.cast_add_one, zpow_natCast]

theorem le_fraction (h : a / b ≠ 0) : (2 ^ ((a / b).log2 + e) : ℚ) ≤ a / b * 2 ^ e := by
  have hb' : (0 : ℚ) < b := Nat.cast_pos.mpr hb
  have hle : (2 ^ (a / b).log2 : ℚ) ≤ a / b := by
    rw [le_div_iff₀ hb']
    exact_mod_cast (Nat.le_div_iff_mul_le hb).mp (Nat.log2_self_le h)
  rw [zpow_add₀ two_ne_zero, zpow_natCast]
  exact mul_le_mul_of_nonneg_right hle (zpow_pos two_pos e).le

end

theorem two_pow_mul_zpow (n : Nat) {f g : Int} (h : n + f = g) : (2 ^ n * 2 ^ f : ℚ) = 2 ^ g := by
  rw [← h, zpow_add₀ two_ne_zero, zpow_natCast]

theorem two_mul_zpow (e : Int) : (2 * 2 ^ (e - 2) : ℚ) = 2 ^ (e - 1) := by
  rw [← two_pow_mul_zpow 1 (show ((1 : Nat) : Int) + (e - 2) = e - 1 by omega), pow_one]

theorem four_mul_zpow (e : Int) : (4 * 2 ^ (e - 2) : ℚ) = 2 ^ e := by
  rw [← two_pow_mul_zpow 2 (show ((2 : Nat) : Int) + (e - 2) = e by omega)]
  norm_num

namespace Around

variable {m : Nat} {f : Int} {v : ℚ}

/-- A value in units of the mantissa. -/
theorem scaled {x : ℚ} (h : Around m f (x * 2 ^ f)) : (4 * m - reach m f : ℚ) ≤ 4 * x ∧ 4 * x ≤ 4 * m + 2 ∧
    (m % 2 = 1 → (4 * m - reach m f : ℚ) < 4 * x ∧ 4 * x < 4 * m + 2) := by
  have hunit : (0 : ℚ) < 2 ^ (f - 2) := zpow_pos two_pos _
  have hx : x * 2 ^ f = 4 * x * 2 ^ (f - 2) := by
    rw [← four_mul_zpow]
    ring
  rw [hx] at h
  exact ⟨le_of_mul_le_mul_right h.low hunit, le_of_mul_le_mul_right h.high hunit, fun hodd =>
    ⟨lt_of_mul_lt_mul_right (h.odd hodd).1 hunit.le, lt_of_mul_lt_mul_right (h.odd hodd).2 hunit.le⟩⟩

theorem lt_two_zpow (h : Around m f v) (hm : Canonical m f) : v < 2 ^ (f + 53) := by
  have hbits : (4 * m + 2 : ℚ) < 2 ^ 55 := by
    have := hm.bits
    exact_mod_cast (show 4 * m + 2 < 2 ^ 55 by omega)
  calc v ≤ (4 * m + 2 : ℚ) * 2 ^ (f - 2) := h.high
    _ < 2 ^ 55 * 2 ^ (f - 2) := mul_lt_mul_of_pos_right hbits (zpow_pos two_pos _)
    _ = 2 ^ (f + 53) := two_pow_mul_zpow 55 (by omega)

theorem mul_zpow_le (h : Around m f v) {q : ℚ} (hq : q ≤ 4 * m - reach m f) : q * 2 ^ (f - 2) ≤ v :=
  (mul_le_mul_of_nonneg_right hq (zpow_pos two_pos _).le).trans h.low

theorem two_zpow_le (h : Around m f v) (hm : 2 ^ 52 ≤ m) : 2 ^ (f + 51) ≤ v := by
  have hleading : (2 ^ 53 : ℚ) ≤ 4 * m - reach m f := by
    have hreach := reach_cast_le m f
    have hm' : (2 ^ 52 : ℚ) ≤ m := by exact_mod_cast hm
    linarith
  calc (2 ^ (f + 51) : ℚ) = 2 ^ 53 * 2 ^ (f - 2) := (two_pow_mul_zpow 53 (by omega)).symm
    _ ≤ v := h.mul_zpow_le hleading

/-- Only the span of a power of two goes below it. -/
theorem eq_of_lt (h : Around m f v) (hm : 2 ^ 52 ≤ m) (hv : v < 2 ^ (f + 52)) : m = 2 ^ 52 := by
  by_contra hne
  have hreach : reach m f = 2 := if_neg (by rw [Bool.and_eq_true, beq_iff_eq]; exact fun h => hne h.1)
  have hmore : (2 ^ 54 : ℚ) ≤ 4 * m - reach m f := by
    have hm' : (2 ^ 52 + 1 : ℚ) ≤ m := by exact_mod_cast (show 2 ^ 52 + 1 ≤ m by omega)
    rw [hreach, Nat.cast_ofNat]
    linarith
  have hle : (2 ^ (f + 52) : ℚ) ≤ v := calc
    (2 ^ (f + 52) : ℚ) = 2 ^ 54 * 2 ^ (f - 2) := (two_pow_mul_zpow 54 (by omega)).symm
    _ ≤ v := h.mul_zpow_le hmore
  exact absurd hv hle.not_gt

/-- A fraction is rounded at the exponent of the double around which it lies, or, below a power of two, at the one
before. -/
theorem target_eq (hcanonical : Canonical m f) {a b : Nat} {e : Int} (hb : 0 < b) (he : e ≤ target (a / b) e)
    (h : Around m f (a / b * 2 ^ e)) :
    target (a / b) e = f ∨
      target (a / b) e = f - 1 ∧ m = 2 ^ 52 ∧ reach m f = 1 ∧ (a / b * 2 ^ e : ℚ) < 2 ^ (f + 52) := by
  have hleast := hcanonical.least
  have hlt := fraction_lt (a := a) (e := e) hb
  have hone : (1 : ℚ) < 2 := one_lt_two
  have hle : target (a / b) e ≤ f := by
    by_contra hgt
    have hne : a / b ≠ 0 := by
      intro hzero
      rw [hzero] at he hgt
      have hlog : (0 : Nat).log2 = 0 := rfl
      unfold target at he hgt
      rw [hlog] at he hgt
      omega
    have hexponent :=
      (zpow_lt_zpow_iff_right₀ hone).mp ((le_fraction (e := e) hb hne).trans_lt (h.lt_two_zpow hcanonical))
    unfold target at hgt
    omega
  by_cases heq : target (a / b) e = f
  · exact .inl heq
  · right
    have hleading : 2 ^ 52 ≤ m := hcanonical.leading.resolve_right (by unfold target at heq hle; omega)
    have hexponent := (zpow_lt_zpow_iff_right₀ hone).mp ((h.two_zpow_le hleading).trans_lt hlt)
    have hbelow : (a / b * 2 ^ e : ℚ) < 2 ^ (f + 52) := by
      refine hlt.trans_le (zpow_le_zpow_right₀ hone.le ?_)
      unfold target at heq hle
      omega
    have hm := h.eq_of_lt hleading hbelow
    refine ⟨by unfold target at heq hle ⊢; omega, hm, ?_, hbelow⟩
    have hne : f ≠ -1074 := by
      unfold target at heq hle
      omega
    exact if_pos (by rw [Bool.and_eq_true, beq_iff_eq, bne_iff_ne]; exact ⟨hm, hne⟩)

end Around

open Float.Model Float.Model.UnpackedFloat in
/-- A fraction in the span of a double is rounded to that double. -/
theorem roundWithAccuracy_of_around (s : Sign) {m : Nat} {f : Int} (hm : 0 < m) (hcanonical : Canonical m f)
    {a b q : Nat} {acc : Accuracy} {e : Int} (hb : 0 < b) (hq : a / b = q) (hacc : accuracyOfFraction (a % b) b = acc)
    (he : e ≤ target q e) (h : Around m f (a / b * 2 ^ e)) :
    roundWithAccuracy Format.binary64 s q e acc = .finite s m f hm := by
  subst hq
  obtain ⟨k, hk⟩ : ∃ k : Nat, e + k = target (a / b) e := ⟨(target (a / b) e - e).toNat, by omega⟩
  have hshift : (target (a / b) e - e).toNat = k := by omega
  have hc : 0 < b * 2 ^ k := Nat.mul_pos hb (Nat.two_pow_pos k)
  have hscaled : (a / b * 2 ^ e : ℚ) = a / (b * 2 ^ k : ℕ) * 2 ^ (e + k) := by
    rw [zpow_add₀ two_ne_zero, zpow_natCast]
    push_cast
    field_simp
  rcases h.target_eq hcanonical hb he with hf | ⟨hf, hpower, hreach, hlt⟩
  · rw [hscaled, hk, hf] at h
    obtain ⟨hlow, hhigh, hodd⟩ := h.scaled
    have hreach := reach_cast_le m f
    have hrounded : roundedDiv a (b * 2 ^ k) = m := roundedDiv_eq_of_rat hc (by linarith) (by linarith) fun h =>
      ⟨by linarith [(hodd h).1], by linarith [(hodd h).2]⟩
    rw [roundWithAccuracy_fraction s hb rfl hacc rfl hshift (by rwa [hrounded]),
      if_pos (by rw [hrounded]; exact hcanonical.bits)]
    exact finite_congr hrounded (hk.trans hf)
  · -- the fraction is less than the power of two, and is rounded up to it
    have hlow := h.low
    have hpow : (2 ^ (f + 52) : ℚ) = 2 ^ 53 * 2 ^ (f - 1) := (two_pow_mul_zpow 53 (by omega)).symm
    rw [hscaled, hk, hf] at hlt hlow
    rw [hpow] at hlt
    rw [hreach, ← two_mul_zpow, ← mul_assoc] at hlow
    have hupper := lt_of_mul_lt_mul_right hlt (zpow_pos two_pos _).le
    have hlower := le_of_mul_le_mul_right hlow (zpow_pos two_pos _)
    rw [hpower] at hlower
    push_cast at hlower hupper
    have hrounded : roundedDiv a (b * 2 ^ k) = 2 ^ 53 := roundedDiv_eq_of_rat hc (by push_cast; linarith)
      (by push_cast; linarith) fun h => absurd h (by decide)
    have hpos : 0 < roundedDiv a (b * 2 ^ k) := hrounded ▸ Nat.two_pow_pos 53
    rw [roundWithAccuracy_fraction s hb rfl hacc rfl hshift hpos, if_neg (by rw [hrounded]; exact Nat.lt_irrefl _)]
    exact finite_congr hpower.symm (by omega)

/-! ## Products and quotients -/

open Float.Model Float.Model.UnpackedFloat

section

variable {m : Nat} {f : Int} (hm : 0 < m) (hcanonical : Canonical m f) {m₁ m₂ : Nat} {e₁ e₂ : Int} (h₁ : 0 < m₁)
  (h₂ : 0 < m₂)
include hcanonical

theorem mul_of_around (hbits : 2 ^ 52 ≤ m₁ * m₂) (h : Around m f (m₁ * 2 ^ e₁ * (m₂ * 2 ^ e₂))) :
    UnpackedFloat.mul Format.binary64 (.finite .positive m₁ e₁ h₁) (.finite .positive m₂ e₂ h₂) =
      .finite .positive m f hm := by
  have hlog : 52 ≤ (m₁ * m₂).log2 := (Nat.le_log2 (by omega)).mpr hbits
  have hvalue : ((m₁ * m₂ : ℕ) / (1 : ℕ) * 2 ^ (e₁ + e₂) : ℚ) = m₁ * 2 ^ e₁ * (m₂ * 2 ^ e₂) := by
    rw [zpow_add₀ two_ne_zero]
    push_cast
    ring
  exact roundWithAccuracy_of_around .positive hm hcanonical Nat.one_pos (Nat.div_one _) (by rw [Nat.mod_one]; rfl)
    (by unfold target; omega) (by rwa [hvalue])

omit hcanonical in
include h₁ h₂ in
/-- A quotient of a long enough dividend has all bits of a mantissa. -/
theorem le_target_div {k : Nat} {e : Int} (h : e ≤ -1074 ∨ m₂.log2 + 53 ≤ m₁.log2 + k) :
    e ≤ target (m₁ * 2 ^ k / m₂) e := by
  rcases h with h | h
  · unfold target
    omega
  · have hbits : 2 ^ 52 ≤ m₁ * 2 ^ k / m₂ := by
      rw [Nat.le_div_iff_mul_le h₂]
      calc 2 ^ 52 * m₂
          ≤ 2 ^ 52 * 2 ^ (m₂.log2 + 1) := Nat.mul_le_mul_left _ (Nat.le_of_lt Nat.lt_log2_self)
        _ = 2 ^ (52 + (m₂.log2 + 1)) := (Nat.pow_add ..).symm
        _ ≤ 2 ^ (m₁.log2 + k) := Nat.pow_le_pow_right Nat.two_pos (by omega)
        _ = 2 ^ m₁.log2 * 2 ^ k := Nat.pow_add ..
        _ ≤ m₁ * 2 ^ k := Nat.mul_le_mul_right _ (Nat.log2_self_le (Nat.ne_of_gt h₁))
    have hlog : 52 ≤ (m₁ * 2 ^ k / m₂).log2 := (Nat.le_log2 (by omega)).mpr hbits
    unfold target
    omega

theorem div_of_around (h : Around m f (m₁ * 2 ^ e₁ / (m₂ * 2 ^ e₂))) :
    UnpackedFloat.div Format.binary64 (.finite .positive m₁ e₁ h₁) (.finite .positive m₂ e₂ h₂) =
      .finite .positive m f hm := by
  let e := min (e₁ - e₂) (max (m₁.log2 + 1 + e₁ - (m₂.log2 + 1 + e₂) - 53) (-1074))
  obtain ⟨k, hk⟩ : ∃ k : Nat, (e₁ - e₂ - e).toNat = k := ⟨_, rfl⟩
  have hdiv : UnpackedFloat.div Format.binary64 (.finite .positive m₁ e₁ h₁) (.finite .positive m₂ e₂ h₂) =
    roundWithAccuracy Format.binary64 .positive (m₁ <<< (e₁ - e₂ - e).toNat / m₂) e
      (accuracyOfFraction (m₁ <<< (e₁ - e₂ - e).toNat % m₂) m₂) := rfl
  have hvalue : ((m₁ * 2 ^ k : ℕ) / m₂ * 2 ^ e : ℚ) = m₁ * 2 ^ e₁ / (m₂ * 2 ^ e₂) := by
    have he : e = e₁ - e₂ - k := by omega
    rw [he, zpow_sub₀ two_ne_zero, zpow_sub₀ two_ne_zero, zpow_natCast]
    push_cast
    field_simp
  rw [hdiv, hk, Nat.shiftLeft_eq]
  exact roundWithAccuracy_of_around .positive hm hcanonical h₂ rfl rfl (le_target_div h₁ h₂ (by omega))
    (by rwa [hvalue])

end

/-! ## Numerals -/

def isInteger (x : Float) (n : Nat) : Bool :=
  match x.toModel.unpack with
  | .finite .positive m e _ => 2 ^ 52 ≤ m && -52 ≤ e && m * 2 ^ (e + 52).toNat == n * 2 ^ 52
  | _ => false

theorem unpack_of_isInteger {x : Float} {n : Nat} (h : isInteger x n = true) :
    ∃ (m : Nat) (e : Int) (hm : 0 < m), x.toModel.unpack = .finite .positive m e hm ∧ 2 ^ 52 ≤ m ∧
      (m * 2 ^ e : ℚ) = n := by
  unfold isInteger at h
  generalize x.toModel.unpack = u at h
  cases u with
  | finite s m e hm =>
    cases s with
    | negative => cases h
    | positive =>
      have hbits : (2 ^ 52 ≤ m && -52 ≤ e && m * 2 ^ (e + 52).toNat == n * 2 ^ 52) = true := h
      simp only [Bool.and_eq_true, decide_eq_true_eq, beq_iff_eq] at hbits
      obtain ⟨⟨hleading, hleast⟩, hvalue⟩ := hbits
      refine ⟨m, e, hm, rfl, hleading, ?_⟩
      have hcast : (m * 2 ^ (e + 52).toNat : ℚ) = n * 2 ^ 52 := by exact_mod_cast hvalue
      have hshift : ((e + 52).toNat : Int) = e + (52 : Nat) := by omega
      rw [← zpow_natCast, hshift, zpow_add₀ two_ne_zero, zpow_natCast, ← mul_assoc] at hcast
      exact mul_right_cancel₀ (by positivity) hcast
  | _ => cases h

theorem powersOfTen_isInteger :
    ∀ k : Fin 23, isInteger (Float.exactlyRepresentablePowersOfTen[k]) (10 ^ k.val) = true := by
  decide +kernel

theorem unpack_powerOfTen {k : Nat} (hk : k < Float.exactlyRepresentablePowersOfTen.size) :
    ∃ (m : Nat) (e : Int) (hm : 0 < m),
      Float.exactlyRepresentablePowersOfTen[k].toModel.unpack = .finite .positive m e hm ∧ 2 ^ 52 ≤ m ∧
      (m * 2 ^ e : ℚ) = 10 ^ k := by
  obtain ⟨m, e, hm, hunpack, hleading, hvalue⟩ := unpack_of_isInteger (powersOfTen_isInteger ⟨k, hk⟩)
  exact ⟨m, e, hm, hunpack, hleading, by rw [hvalue, Nat.cast_pow]; rfl⟩

theorem unpack_word {n : Nat} (hpos : 0 < n) (hn : n < 2 ^ 53) :
    ∃ (m : Nat) (e : Int) (hm : 0 < m), n.toUInt64.toFloat.toModel.unpack = .finite .positive m e hm ∧ 2 ^ 52 ≤ m ∧
      (m * 2 ^ e : ℚ) = n := by
  have hm : 0 < n * 2 ^ (52 - n.log2) := Nat.mul_pos hpos (Nat.two_pow_pos _)
  have hlog : n.log2 < 53 := (Nat.log2_lt (Nat.ne_of_gt hpos)).mpr hn
  have hcanonical := canonical_aligned hpos hn
  have hword : n.toUInt64.toNat = n := by
    have hmod : n.toUInt64.toNat = n % 2 ^ 64 := rfl
    omega
  have hmodel : n.toUInt64.toFloat.toModel =
    Float.Model.pack (UnpackedFloat.normalize Format.binary64 n.toUInt64.toNat 0 .positive) := rfl
  refine ⟨_, n.log2 - 52, hm, ?_, hcanonical.leading.resolve_right (by omega), ?_⟩
  · rw [hmodel, hword, normalize_small hpos hn hm]
    exact unpack_pack_finite .positive hm hcanonical (by omega)
  · have hsum : ((52 - n.log2 : Nat) : Int) + (n.log2 - 52) = 0 := by omega
    push_cast
    rw [mul_assoc, two_pow_mul_zpow _ hsum, zpow_zero, mul_one]

section

variable {m : Nat} {f : Int} (hm : 0 < m) (hcanonical : Canonical m f) {n : Nat} (hn : 0 < n)
include hcanonical hn

/-- Up to 53 bits and the greatest power of ten that is a double, both are exact. -/
theorem ofScientific_small (hsmall : n < 2 ^ 53) {e : Nat} (he : e ≤ 22) :
    (Around m f (n * 10 ^ e) → Float.ofScientific n false e = .ofModel (.pack (.finite .positive m f hm))) ∧
      (Around m f (n / 10 ^ e) → Float.ofScientific n true e = .ofModel (.pack (.finite .positive m f hm))) := by
  have hk : e < Float.exactlyRepresentablePowersOfTen.size := Nat.lt_succ_of_le he
  obtain ⟨m₁, e₁, h₁, hunpack₁, hleading₁, hvalue₁⟩ := unpack_word hn hsmall
  obtain ⟨m₂, e₂, h₂, hunpack₂, hleading₂, hvalue₂⟩ := unpack_powerOfTen hk
  rw [← hvalue₁, ← hvalue₂]
  constructor
  · intro h
    have hmul : Float.ofScientific n false e = .ofModel (.pack (UnpackedFloat.mul Format.binary64
        n.toUInt64.toFloat.toModel.unpack Float.exactlyRepresentablePowersOfTen[e].toModel.unpack)) := by
      rw [Float.ofScientific, dif_pos ⟨hsmall, he⟩]
      rfl
    have hbits : 2 ^ 52 * 1 ≤ m₁ * m₂ := Nat.mul_le_mul hleading₁ h₂
    rw [hmul, hunpack₁, hunpack₂, mul_of_around hm hcanonical h₁ h₂ (by omega) h]
  · intro h
    have hdiv : Float.ofScientific n true e = .ofModel (.pack (UnpackedFloat.div Format.binary64
        n.toUInt64.toFloat.toModel.unpack Float.exactlyRepresentablePowersOfTen[e].toModel.unpack)) := by
      rw [Float.ofScientific, dif_pos ⟨hsmall, he⟩]
      rfl
    rw [hdiv, hunpack₁, hunpack₂, div_of_around hm hcanonical h₁ h₂ h]

/-- Otherwise the power of ten is an integer, and the product of two integers is rounded. -/
theorem ofScientific_product {e : Nat} (hlarge : ¬ (n < 2 ^ 53 ∧ e ≤ 22)) (hbound : e ≤ 2048)
    (h : Around m f (n * 10 ^ e)) :
    Float.ofScientific n false e = .ofModel (.pack (.finite .positive m f hm)) := by
  have hten : 0 < 10 ^ e := Nat.pow_pos (by decide)
  have hlong : 0 < n <<< 53 := by
    rw [Nat.shiftLeft_eq]
    exact Nat.mul_pos hn (Nat.two_pow_pos 53)
  have hmodel : UnpackedFloat.ofScientific Format.binary64 n (Int.ofNat e) = UnpackedFloat.mul Format.binary64
      (.finite .positive (n <<< 53) (-53) hlong) (.finite .positive (10 ^ e) 0 hten) := by
    have hfits : ¬ Int.ofNat e > (2 : Int) ^ 11 := by
      show ¬ (e : Int) > 2 ^ 11
      omega
    have hfine : ¬ Int.ofNat e < -((2 : Int) ^ 11 + n.log2) := by
      show ¬ (e : Int) < -((2 : Int) ^ 11 + n.log2)
      omega
    have hnonneg : 0 ≤ Int.ofNat e := Int.natCast_nonneg e
    rw [UnpackedFloat.ofScientific, dif_neg (Nat.ne_of_gt hn), if_neg hfits, if_neg hfine, if_pos hnonneg]
    rfl
  have hbits : 2 ^ 52 ≤ n <<< 53 * 10 ^ e := by
    rw [Nat.shiftLeft_eq]
    calc 2 ^ 52 ≤ 1 * 2 ^ 53 * 1 := by decide
      _ ≤ n * 2 ^ 53 * 10 ^ e := Nat.mul_le_mul (Nat.mul_le_mul_right _ hn) hten
  have hvalue : ((n <<< 53 : ℕ) * 2 ^ (-53 : ℤ) * ((10 ^ e : ℕ) * 2 ^ (0 : ℤ)) : ℚ) = n * 10 ^ e := by
    have hone : (2 ^ 53 * 2 ^ (-53 : ℤ) : ℚ) = 1 := two_pow_mul_zpow 53 (g := 0) (by decide)
    rw [Nat.shiftLeft_eq, Nat.cast_mul, Nat.cast_pow, Nat.cast_ofNat, mul_assoc (n : ℚ), hone, zpow_zero]
    push_cast
    ring
  rw [Float.ofScientific, dif_neg hlarge]
  refine congrArg (fun u => Float.ofModel (.pack u)) (hmodel.trans ?_)
  exact mul_of_around hm hcanonical hlong hten hbits (by rwa [hvalue])

theorem ofScientific_quotient {e : Nat} (hlarge : ¬ (n < 2 ^ 53 ∧ e + 1 ≤ 22)) (hbound : e < 2048 + n.log2)
    (h : Around m f (n / 10 ^ (e + 1))) :
    Float.ofScientific n true (e + 1) = .ofModel (.pack (.finite .positive m f hm)) := by
  have hten : 0 < 10 ^ (e + 1) := Nat.pow_pos (by decide)
  have hmodel : UnpackedFloat.ofScientific Format.binary64 n (Int.negSucc e) = UnpackedFloat.div Format.binary64
      (.finite .positive n 0 hn) (.finite .positive (10 ^ (e + 1)) 0 hten) := by
    have hfits : ¬ Int.negSucc e > (2 : Int) ^ 11 := by omega
    have hfine : ¬ Int.negSucc e < -((2 : Int) ^ 11 + n.log2) := by omega
    have hnegative : ¬ 0 ≤ Int.negSucc e := by omega
    rw [UnpackedFloat.ofScientific, dif_neg (Nat.ne_of_gt hn), if_neg hfits, if_neg hfine, if_neg hnegative]
    rfl
  have hvalue : (n * 2 ^ (0 : ℤ) / ((10 ^ (e + 1) : ℕ) * 2 ^ (0 : ℤ)) : ℚ) = n / 10 ^ (e + 1) := by
    push_cast
    ring
  rw [Float.ofScientific, dif_neg hlarge]
  refine congrArg (fun u => Float.ofModel (.pack u)) (hmodel.trans ?_)
  exact div_of_around hm hcanonical hn hten (by rwa [hvalue])

end

/-- A number lies between two powers of ten, by the count of its digits. -/
theorem numDigits_bounds {n : Nat} (hn : 0 < n) :
    10 ^ (numDigits n - 1) ≤ n ∧ n < 10 ^ numDigits n ∧ 0 < numDigits n := by
  have hpos : 0 < numDigits n := Nat.length_toDigits_pos
  refine ⟨?_, (Nat.length_toDigits_le_iff (by decide) hpos).mp (Nat.le_refl _), hpos⟩
  by_contra hlt
  rcases Nat.eq_zero_or_pos (numDigits n - 1) with hone | hmore
  · rw [hone] at hlt
    omega
  · have := (Nat.length_toDigits_le_iff (by decide) hmore).mpr (Nat.lt_of_not_le hlt)
    unfold numDigits at this hmore hpos
    omega

theorem numDigits_le_log2 (n : Nat) : numDigits n ≤ n.log2 + 1 :=
  (Nat.length_toDigits_le_iff (by decide) (Nat.succ_pos _)).mpr
    (Nat.lt_log2_self.trans_le (Nat.pow_le_pow_left (by decide) _))

theorem Numeral.value_bounds {d : Numeral} (hd : 0 < d.digits) :
    (10 ^ ((numDigits d.digits : Int) - 1 + d.exponent) : ℚ) ≤ d.value ∧
      d.value < 10 ^ ((numDigits d.digits : Int) + d.exponent) := by
  have hten : (10 : ℚ) ≠ 0 := by norm_num
  have hscale : (0 : ℚ) < 10 ^ d.exponent := zpow_pos (by norm_num) _
  obtain ⟨hle, hlt, hpos⟩ := numDigits_bounds hd
  have hplace : (numDigits d.digits : Int) - 1 = (numDigits d.digits - 1 : Nat) := by omega
  rw [zpow_add₀ hten, zpow_add₀ hten, hplace, zpow_natCast, zpow_natCast]
  exact ⟨mul_le_mul_of_nonneg_right (by exact_mod_cast hle) hscale.le,
    mul_lt_mul_of_pos_right (by exact_mod_cast hlt) hscale⟩

namespace Around

variable {m : Nat} {f : Int} {v : ℚ}

/-- What is around a double is neither too great nor too small to be read. -/
theorem places (h : Around m f v) (hm : 0 < m) (hcanonical : Canonical m f) (hf : f ≤ 971) :
    (10 ^ (-324 : ℤ) : ℚ) < v ∧ v < 10 ^ (309 : ℤ) := by
  have hgreat : (2 : ℕ) ^ 1024 < 10 ^ 309 := by decide +kernel
  have hsmall : (2 : ℕ) ^ 1075 < 10 ^ 324 := by decide +kernel
  have hleast := hcanonical.least
  constructor
  · have hquarters : (2 : ℚ) ≤ 4 * m - reach m f := by
      have hreach := reach_cast_le m f
      have hm' : (1 : ℚ) ≤ m := by exact_mod_cast hm
      linarith
    calc (10 ^ (-324 : ℤ) : ℚ)
        < 2 ^ (-((1075 : ℕ) : ℤ)) := by
          rw [zpow_neg, zpow_neg, zpow_natCast]
          exact inv_strictAnti₀ (by positivity) (by exact_mod_cast hsmall)
      _ ≤ 2 ^ (f - 1) := zpow_le_zpow_right₀ one_le_two (by omega)
      _ = 2 * 2 ^ (f - 2) := (two_mul_zpow f).symm
      _ ≤ v := h.mul_zpow_le hquarters
  · calc v < 2 ^ (f + 53) := h.lt_two_zpow hcanonical
      _ ≤ 2 ^ ((1024 : ℕ) : ℤ) := zpow_le_zpow_right₀ one_le_two (by omega)
      _ < 10 ^ (309 : ℤ) := by
        rw [zpow_natCast]
        exact_mod_cast hgreat

theorem pos (h : Around m f v) (hm : 0 < m) (hcanonical : Canonical m f) (hf : f ≤ 971) : 0 < v :=
  (zpow_pos (by norm_num) _).trans (h.places hm hcanonical hf).1

end Around

theorem Numeral.digits_pos {d : Numeral} (h : 0 < d.value) : 0 < d.digits := by
  refine Nat.pos_of_ne_zero fun hzero => ?_
  rw [Numeral.value, hzero, Nat.cast_zero, zero_mul] at h
  exact lt_irrefl _ h

/-- A numeral in the span of a double is read as that double. -/
theorem nearest_of_around {m : Nat} {f : Int} (hm : 0 < m) (hcanonical : Canonical m f) (hf : f ≤ 971) {d : Numeral}
    (h : Around m f d.value) : nearest d = .ofModel (.pack (.finite .positive m f hm)) := by
  obtain ⟨hsmall, hgreat⟩ := h.places hm hcanonical hf
  have hone : (1 : ℚ) < 10 := by norm_num
  have hdigits : 0 < d.digits := Numeral.digits_pos (h.pos hm hcanonical hf)
  obtain ⟨hleast, hmost⟩ := Numeral.value_bounds hdigits
  have htop := (zpow_lt_zpow_iff_right₀ hone).mp (hleast.trans_lt hgreat)
  have hbottom := (zpow_lt_zpow_iff_right₀ hone).mp (hsmall.trans hmost)
  obtain ⟨n, exponent⟩ := d
  dsimp only at hdigits htop hbottom
  unfold nearest
  dsimp only
  rw [if_neg (by simpa using Nat.ne_of_gt hdigits), if_neg (by omega), if_neg (by omega)]
  cases exponent with
  | ofNat e =>
    have hvalue : Numeral.value ⟨n, .ofNat e⟩ = n * 10 ^ e := congrArg ((n : ℚ) * ·) (zpow_natCast (10 : ℚ) e)
    have hexponent : (numDigits n : Int) - 1 + (e : Int) < 309 := htop
    rw [hvalue] at h
    by_cases hfew : n < 2 ^ 53 ∧ e ≤ 22
    · exact (ofScientific_small hm hcanonical hdigits hfew.1 hfew.2).1 h
    · exact ofScientific_product hm hcanonical hdigits hfew (by omega) h
  | negSucc e =>
    have hvalue : Numeral.value ⟨n, .negSucc e⟩ = n / 10 ^ (e + 1) := by
      rw [Numeral.value, zpow_negSucc, div_eq_mul_inv]
    rw [hvalue] at h
    by_cases hfew : n < 2 ^ 53 ∧ e + 1 ≤ 22
    · exact (ofScientific_small hm hcanonical hdigits hfew.1 hfew.2).2 h
    · have hlog := numDigits_le_log2 n
      exact ofScientific_quotient hm hcanonical hdigits hfew (by omega) h

end Decimal

end Curried
