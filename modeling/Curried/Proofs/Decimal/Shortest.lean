/-
  Curried.Proofs.Decimal.Shortest — the shortest digits of a double are in its span.

  A search for digits tries the two neighbours of a number on one decimal grid after the other, and takes one that is in
  the span of the number (`hit?_covers`). With seventeen digits the grid is so fine that one of the neighbours is
  (`hit?_isSome`), so the search finds one (`shortest_covers`).
-/

import Curried.Proofs.Decimal.Nearest

namespace Curried.Decimal

open Number

/-! ## Grids -/

namespace Span

/-- On a grid a span is measured in units of it. -/
theorem onGrid_eq (s : Span) (k : Int) (hden : 0 < s.den) :
    (s.onGrid k).closed = s.closed ∧ 0 < (s.onGrid k).den ∧
      ((s.onGrid k).low / (s.onGrid k).den * 10 ^ k : ℚ) = s.low / s.den ∧
      ((s.onGrid k).value / (s.onGrid k).den * 10 ^ k : ℚ) = s.value / s.den ∧
      ((s.onGrid k).high / (s.onGrid k).den * 10 ^ k : ℚ) = s.high / s.den := by
  cases k with
  | ofNat e =>
    have hscale (x : ℕ) : (x / (s.den * 10 ^ e : ℕ) * 10 ^ (Int.ofNat e) : ℚ) = x / s.den := by
      rw [Int.ofNat_eq_natCast, zpow_natCast]
      push_cast
      field_simp
    exact ⟨rfl, Nat.mul_pos hden (Nat.pow_pos (by decide)), hscale _, hscale _, hscale _⟩
  | negSucc e =>
    have hscale (x : ℕ) : ((x * 10 ^ (e + 1) : ℕ) / s.den * 10 ^ (Int.negSucc e) : ℚ) = x / s.den := by
      rw [zpow_negSucc]
      push_cast
      field_simp
    exact ⟨rfl, hden, hscale _, hscale _, hscale _⟩

theorem holds_onGrid {s : Span} {k : Int} (hden : 0 < s.den) (n : Nat) :
    (s.onGrid k).holds (n * (s.onGrid k).den) = true ↔ s.Covers (n * 10 ^ k) := by
  obtain ⟨hclosed, hden', hlow, -, hhigh⟩ := s.onGrid_eq k hden
  have hscale : (0 : ℚ) < 10 ^ k := zpow_pos (by norm_num) k
  have hd : (0 : ℚ) < (s.onGrid k).den := Nat.cast_pos.mpr hden'
  unfold holds Covers
  rw [hclosed, ← hlow, ← hhigh]
  generalize s.onGrid k = g at hd
  have hle (x : ℕ) : ((x / g.den * 10 ^ k : ℚ) ≤ n * 10 ^ k ↔ x ≤ n * g.den) ∧
      ((n * 10 ^ k : ℚ) ≤ x / g.den * 10 ^ k ↔ n * g.den ≤ x) := by
    rw [mul_le_mul_iff_left₀ hscale, mul_le_mul_iff_left₀ hscale, div_le_iff₀ hd, le_div_iff₀ hd]
    exact ⟨by exact_mod_cast Iff.rfl, by exact_mod_cast Iff.rfl⟩
  cases s.closed with
  | true =>
    simp only [if_true, Bool.and_eq_true, decide_eq_true_eq]
    rw [(hle _).1, (hle _).2]
  | false =>
    simp only [Bool.false_eq_true, if_false, Bool.and_eq_true, decide_eq_true_eq]
    rw [← not_le, ← not_le, ← not_le, ← not_le, (hle _).1, (hle _).2]

variable {s : Span} {k : Int}

/-- What is taken on a grid is in the span. -/
theorem hit?_covers (hden : 0 < s.den) {d : Numeral} (h : s.hit? k = some d) : s.Covers d.value := by
  unfold hit? at h
  dsimp only at h
  generalize hbelow : (s.onGrid k).value / (s.onGrid k).den = n at h
  have hn := holds_onGrid (k := k) hden n
  have hn' := holds_onGrid (k := k) hden (n + 1)
  cases hb : (s.onGrid k).holds (n * (s.onGrid k).den) with
  | true =>
    cases ha : (s.onGrid k).holds ((n + 1) * (s.onGrid k).den) with
    | true =>
      rw [hb, ha] at h
      cases h
      dsimp only [Numeral.value]
      split
      · exact hn.mp hb
      · exact hn'.mp ha
    | false =>
      rw [hb, ha] at h
      cases h
      exact hn.mp hb
  | false =>
    cases ha : (s.onGrid k).holds ((n + 1) * (s.onGrid k).den) with
    | true =>
      rw [hb, ha] at h
      cases h
      exact hn'.mp ha
    | false =>
      rw [hb, ha] at h
      cases h

/-- The value of a span lies between two neighbours on a grid. -/
theorem exists_neighbours (hden : 0 < s.den) (k : Int) : ∃ n : Nat, (n * 10 ^ k : ℚ) ≤ s.value / s.den ∧
    (s.value / s.den : ℚ) < (n + 1 : ℕ) * 10 ^ k ∧
    (s.Covers (n * 10 ^ k) ∨ s.Covers ((n + 1 : ℕ) * 10 ^ k) → (s.hit? k).isSome = true) := by
  obtain ⟨-, hden', -, hvalue, -⟩ := s.onGrid_eq k hden
  have hscale : (0 : ℚ) < 10 ^ k := zpow_pos (by norm_num) k
  have hd : (0 : ℚ) < (s.onGrid k).den := Nat.cast_pos.mpr hden'
  refine ⟨(s.onGrid k).value / (s.onGrid k).den, ?_, ?_, fun h => ?_⟩
  · rw [← hvalue, mul_le_mul_iff_left₀ hscale, le_div_iff₀ hd]
    exact_mod_cast Nat.div_mul_le_self _ _
  · rw [← hvalue, mul_lt_mul_iff_left₀ hscale, div_lt_iff₀ hd]
    exact_mod_cast Nat.lt_mul_of_div_lt (Nat.lt_succ_self _) hden'
  · rw [← holds_onGrid hden, ← holds_onGrid hden] at h
    unfold hit?
    dsimp only
    rcases h with h | h
    · rw [h]
      cases (s.onGrid k).holds (((s.onGrid k).value / (s.onGrid k).den + 1) * (s.onGrid k).den) <;> rfl
    · rw [h]
      cases (s.onGrid k).holds ((s.onGrid k).value / (s.onGrid k).den * (s.onGrid k).den) <;> rfl

end Span

/-! ## Seventeen digits -/

theorem ten_zpow_magnitude_le {num den : Nat} (hnum : 0 < num) (hden : 0 < den) :
    (10 ^ magnitude num den : ℚ) ≤ num / den := by
  have hd : (0 : ℚ) < den := Nat.cast_pos.mpr hden
  unfold magnitude
  by_cases hle : den ≤ num
  · rw [if_pos hle]
    have hpos : 0 < num / den := Nat.div_pos hle hden
    obtain ⟨hdigits, -, hone⟩ := numDigits_bounds hpos
    have hplace : (numDigits (num / den) : Int) - 1 = (numDigits (num / den) - 1 : Nat) := by omega
    rw [hplace, zpow_natCast, le_div_iff₀ hd]
    exact_mod_cast (Nat.mul_le_mul_right den hdigits).trans (Nat.div_mul_le_self num den)
  · rw [if_neg hle]
    have hpos : 0 < den / num := Nat.div_pos (Nat.le_of_not_le hle) hnum
    obtain ⟨-, hdigits, hone⟩ := numDigits_bounds hpos
    have hfraction {j : Nat} (h : den ≤ num * 10 ^ j) : (10 ^ (-(j : Int)) : ℚ) ≤ num / den := by
      have hten : (0 : ℚ) < 10 ^ j := by positivity
      rw [zpow_neg, zpow_natCast, le_div_iff₀ hd, inv_mul_le_iff₀ hten, mul_comm]
      exact_mod_cast h
    dsimp only
    split
    · have hplace : 1 - (numDigits (den / num) : Int) = -((numDigits (den / num) - 1 : Nat) : Int) := by omega
      rw [hplace]
      exact hfraction ‹_›
    · refine hfraction (Nat.le_of_lt ?_)
      rw [Nat.mul_comm]
      exact Nat.lt_mul_of_div_lt hdigits hnum

/-- With seventeen digits neighbours on the grid are closer than the ends of the span. -/
theorem grid_lt {m : Nat} {e top : Int} (hm : m < 2 ^ 53) (htop : (10 ^ top : ℚ) ≤ m * 2 ^ e) :
    (10 ^ (top - 16) : ℚ) < (2 + reach m e) * 2 ^ (e - 2) := by
  have hunit : (0 : ℚ) < 2 ^ (e - 2) := zpow_pos two_pos _
  have hgrid : (10 ^ (top - 16) : ℚ) ≤ m * 4 / 10 ^ 16 * 2 ^ (e - 2) := by
    have hsplit : (10 ^ (top - 16) : ℚ) = 10 ^ top / 10 ^ 16 := by
      rw [zpow_sub₀ (by norm_num)]
      norm_num
    rw [hsplit, div_mul_eq_mul_div, mul_assoc, four_mul_zpow]
    exact div_le_div_of_nonneg_right htop (by norm_num)
  refine hgrid.trans_lt (mul_lt_mul_of_pos_right ?_ hunit)
  unfold reach
  split
  · rename_i hpower
    rw [Bool.and_eq_true, beq_iff_eq] at hpower
    rw [hpower.1]
    norm_num
  · have hm' : (m : ℚ) < 2 ^ 53 := by exact_mod_cast hm
    rw [div_lt_iff₀ (by norm_num)]
    push_cast
    linarith

theorem Span.of_value (p : Parts) :
    0 < (Span.of p).den ∧ ((Span.of p).value / (Span.of p).den : ℚ) = p.mantissa * 2 ^ p.exponent := by
  obtain ⟨unit, den, hden, hunit, hspan⟩ := Span.of_eq p
  rw [hspan]
  refine ⟨hden, ?_⟩
  dsimp only
  rw [← four_mul_zpow, ← hunit]
  push_cast
  ring

/-- One of the neighbours is in the span then. -/
theorem hit?_isSome {p : Parts} (hm : 0 < p.mantissa) (hbits : p.mantissa < 2 ^ 53) :
    ((Span.of p).hit? (magnitude (Span.of p).value (Span.of p).den - 16)).isSome = true := by
  obtain ⟨hden, hvalue⟩ := Span.of_value p
  have hpos : 0 < (Span.of p).value := by
    refine Nat.pos_of_ne_zero fun hzero => ?_
    have hm' : (0 : ℚ) < p.mantissa * 2 ^ p.exponent := mul_pos (Nat.cast_pos.mpr hm) (zpow_pos two_pos _)
    rw [← hvalue, hzero, Nat.cast_zero, zero_div] at hm'
    exact lt_irrefl _ hm'
  have htop := ten_zpow_magnitude_le hpos hden
  rw [hvalue] at htop
  have hgrid := grid_lt hbits htop
  obtain ⟨n, hbelow, habove, hhit⟩ :=
    Span.exists_neighbours hden (magnitude (Span.of p).value (Span.of p).den - 16)
  have hunit : (0 : ℚ) < 2 ^ (p.exponent - 2) := zpow_pos two_pos _
  have hreach : (0 : ℚ) < reach p.mantissa p.exponent := Nat.cast_pos.mpr (reach_le_two _ _).1
  rw [hvalue, ← four_mul_zpow] at hbelow habove
  have hdown : (0 : ℚ) < reach p.mantissa p.exponent * 2 ^ (p.exponent - 2) := mul_pos hreach hunit
  apply hhit
  rw [covers_iff hm, covers_iff hm]
  rcases lt_or_ge ((4 * p.mantissa - reach p.mantissa p.exponent : ℚ) * 2 ^ (p.exponent - 2))
    (n * 10 ^ (magnitude (Span.of p).value (Span.of p).den - 16)) with hnear | hfar
  · exact .inl (.of_lt hnear (by linarith))
  · right
    push_cast at habove ⊢
    exact .of_lt (by linarith) (by linarith)

/-- The digits that are found for a number are in its span. -/
theorem shortest_covers {p : Parts} (hm : 0 < p.mantissa) (hbits : p.mantissa < 2 ^ 53) :
    (Span.of p).Covers (shortest p).value := by
  obtain ⟨hden, -⟩ := Span.of_value p
  have hfound : ((List.range 17).findSome? fun n : Nat =>
      (Span.of p).hit? (magnitude (Span.of p).value (Span.of p).den - (n : Int))).isSome = true := by
    rw [List.findSome?_isSome_iff]
    exact ⟨16, List.mem_range.mpr (by decide), hit?_isSome hm hbits⟩
  obtain ⟨d, hd⟩ := Option.isSome_iff_exists.mp hfound
  obtain ⟨n, -, hhit⟩ := List.exists_of_findSome?_eq_some hd
  unfold shortest
  dsimp only
  rw [if_neg (by simpa using Nat.ne_of_gt hm), hd]
  exact Span.hit?_covers hden hhit

end Curried.Decimal
