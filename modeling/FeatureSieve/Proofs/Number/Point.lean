import FeatureSieve.Proofs.Number.Grid
import FeatureSieve.Proofs.Number.Shortest

/-! # The point of a written double

A double and its shortest decimal are on the same side of `1e-5` and of `1e16`, since there the
power of ten is the shortest decimal itself. Between these two a double is written without an
exponent.
-/

namespace FeatureSieve

open Nat (toDigits)

namespace FiniteDouble

/-- Where the shortest decimal of a double is not above it, the doubles that reach the decimal are
those whose shortest decimals do. -/
theorem le_value_shortestDecimal_iff {x y : FiniteDouble} (hs : y.negative = x.negative)
    (hy : y.shortestDecimal.value ≤ y.size.value) :
    y.shortestDecimal.value ≤ x.shortestDecimal.value ↔ y.shortestDecimal.value ≤ x.size.value := by
  have hround := x.toDouble?_shortestDecimal
  have hround' := y.toDouble?_shortestDecimal
  rw [hs] at hround'
  constructor
  · intro h
    exact hy.trans (Decimal.value_size_le_of_le hround' hround h)
  · intro h
    by_contra hlt
    have hxy := Decimal.value_size_le_of_le hround hround' (not_le.mp hlt).le
    have hyx : y.size.value ≤ x.size.value := by
      apply Decimal.value_size_le_of_le hround' x.toDouble?_exactDecimal
      rwa [value_exactDecimal, ← value_size]
    have hsame : y = x := by
      have hm := magnitude_eq_of_value_size_eq (le_antisymm hyx hxy)
      cases x
      cases y
      simp_all
    rw [hsame] at hlt
    exact hlt le_rfl

theorem coefficient_shortestDecimal_ne {x : FiniteDouble} (h : x.magnitude ≠ 0) :
    x.shortestDecimal.coefficient ≠ 0 := by
  have hpos := Decimal.value_pos_of_toDouble? h x.toDouble?_shortestDecimal
  rintro hzero
  simp [Decimal.value, hzero] at hpos

end FiniteDouble

/-- The place of the point tells the powers of ten around a decimal. -/
theorem Decimal.lt_point_iff {d : Decimal} (h : d.coefficient ≠ 0) (e : Int) :
    e < (toDigits 10 d.coefficient).length + d.exponent ↔ 10 ^ e ≤ d.value := by
  have hlower := pow_digitCount_le h
  have hupper := lt_pow_digitCount d.coefficient
  have hpos := one_le_digitCount d.coefficient
  unfold digitCount at *
  generalize (toDigits 10 d.coefficient).length = k at *
  have hten : (0 : ℚ) < 10 ^ d.exponent := zpow_pos (by norm_num) _
  constructor
  · intro hlt
    calc (10 : ℚ) ^ e ≤ 10 ^ (((k - 1 : Nat) : Int) + d.exponent) :=
          zpow_le_zpow_right₀ (by norm_num) (by omega)
      _ = 10 ^ (k - 1) * 10 ^ d.exponent := (ten_pow_mul_zpow _ _).symm
      _ ≤ d.value := mul_le_mul_of_nonneg_right (by exact_mod_cast hlower) hten.le
  · intro hle
    by_contra hge
    have hlt : d.value < 10 ^ e := by
      calc d.value < 10 ^ k * 10 ^ d.exponent :=
            mul_lt_mul_of_pos_right (by exact_mod_cast hupper) hten
        _ = 10 ^ ((k : Int) + d.exponent) := ten_pow_mul_zpow k _
        _ ≤ 10 ^ e := zpow_le_zpow_right₀ (by norm_num) (by omega)
    exact absurd hle (not_le.mpr hlt)

namespace Decimal

variable {negative : Bool} {d : Decimal}

theorem exponent_numeral_eq_none_iff : (d.numeral negative).exponent = none ↔
    isPositional ((toDigits 10 d.coefficient).length + d.exponent) = true := by
  rw [numeral_eq]
  simp only
  split
  · next h => simp [positional, h]
  · next h => simp [scientific, h]

/-- An exponent is written with a sign. -/
theorem isSome_sign_of_mem_exponent : ∀ e ∈ (d.numeral negative).exponent, e.sign.isSome = true := by
  rw [numeral_eq]
  simp only
  split
  · simp [positional]
  · simp [scientific]

end Decimal

namespace FiniteDouble

theorem pow_le_value_shortestDecimal_iff {x : FiniteDouble} {e : Int} (magnitude : Nat)
    (hm : magnitude < magnitudeBound)
    (hd : ∀ negative, shortestDecimal ⟨negative, magnitude, hm⟩ = ⟨1, e⟩)
    (hle : unitsPerOne * Decimal.tenPow e.toNat ≤ unitsOf magnitude * Decimal.tenPow (-e).toNat) :
    10 ^ e ≤ x.shortestDecimal.value ↔ 10 ^ e ≤ |x.value| := by
  have hy : Decimal.value ⟨1, e⟩ ≤ (size ⟨x.negative, magnitude, hm⟩).value := by
    rwa [value_le_value_size_iff, Nat.one_mul]
  have hiff := le_value_shortestDecimal_iff (x := x) (y := ⟨x.negative, magnitude, hm⟩) rfl
  rw [hd] at hiff
  rw [abs_value, ← Decimal.value_one]
  exact hiff hy

/-- A double is written without an exponent from `1e-5` on and below `1e16`, and so is a zero. -/
theorem exponent_numeral_eq_none_iff (x : FiniteDouble) : x.numeral.exponent = none ↔
    x.value = 0 ∨ (10 : ℚ) ^ (-5 : Int) ≤ |x.value| ∧ |x.value| < 10 ^ (16 : Int) := by
  by_cases h : x.magnitude = 0
  · have hvalue : x.value = 0 := by
      rw [← abs_eq_zero, abs_value, value_size, units, h, unitsOf_zero, Nat.cast_zero, zero_div]
    have hexponent : x.numeral.exponent = none := by
      rw [numeral, shortestDecimal, if_pos h]
      rfl
    exact iff_of_true hexponent (Or.inl hvalue)
  · have hvalue : x.value ≠ 0 := by
      rw [← abs_pos, abs_value]
      exact value_size_pos h
    have hne := coefficient_shortestDecimal_ne h
    have hlow : (10 : ℚ) ^ (-5 : Int) ≤ x.shortestDecimal.value ↔ (10 : ℚ) ^ (-5 : Int) ≤ |x.value| :=
      pow_le_value_shortestDecimal_iff 0x3EE4F8B588E368F1 (by decide) (by decide +kernel)
        (by decide +kernel)
    have hhigh : (10 : ℚ) ^ (16 : Int) ≤ x.shortestDecimal.value ↔ (10 : ℚ) ^ (16 : Int) ≤ |x.value| :=
      pow_le_value_shortestDecimal_iff 0x4341C37937E08000 (by decide) (by decide +kernel)
        (by decide +kernel)
    rw [numeral, Decimal.exponent_numeral_eq_none_iff, Decimal.isPositional, Bool.and_eq_true,
      decide_eq_true_eq, decide_eq_true_eq, ← not_lt, Decimal.lt_point_iff hne,
      Decimal.lt_point_iff hne, hlow, hhigh, not_le, or_iff_right hvalue]

end FiniteDouble

end FeatureSieve
