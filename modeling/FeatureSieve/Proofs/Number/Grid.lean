import FeatureSieve.Number.Shortest
import FeatureSieve.Proofs.Number.Decimal

/-! # Decimal grids

A double has a place among the powers of ten and stands between two neighbours on the grid of
each. If a number on a grid rounds to the double then one of the neighbours does.
-/

namespace FeatureSieve

theorem one_le_digitCount (n : Nat) : 1 ≤ digitCount n := Nat.length_toDigits_pos

theorem digitCount_le_iff {n k : Nat} (hk : 1 ≤ k) : digitCount n ≤ k ↔ n < 10 ^ k :=
  Nat.length_toDigits_le_iff (by decide) hk

theorem lt_pow_digitCount (n : Nat) : n < 10 ^ digitCount n :=
  (digitCount_le_iff (one_le_digitCount n)).mp le_rfl

theorem pow_digitCount_le {n : Nat} (h : n ≠ 0) : 10 ^ (digitCount n - 1) ≤ n := by
  have hcount := one_le_digitCount n
  by_contra hlt
  rcases Nat.eq_zero_or_pos (digitCount n - 1) with hz | hpos
  · rw [hz, Nat.pow_zero] at hlt
    omega
  · have hle := (digitCount_le_iff hpos).mpr (not_le.mp hlt)
    omega

/-- The digits of a quotient tell the powers of ten around it. -/
theorem digitCount_div {a b : Nat} (hb : 0 < b) (h : b ≤ a) :
    10 ^ (digitCount (a / b) - 1) * b ≤ a ∧ a < 10 ^ digitCount (a / b) * b :=
  ⟨(Nat.le_div_iff_mul_le hb).mp (pow_digitCount_le (Nat.div_pos h hb).ne'),
    (Nat.div_lt_iff_lt_mul hb).mp (lt_pow_digitCount (a / b))⟩

namespace FiniteDouble

/-- The decimal place of a double, in powers of ten. -/
theorem value_size_mem_place {x : FiniteDouble} (h : x.magnitude ≠ 0) :
    (10 : ℚ) ^ (decimalPlace x.units - 1) ≤ x.size.value ∧
      x.size.value < (10 : ℚ) ^ decimalPlace x.units := by
  have hunits : 0 < x.units := unitsOf_strictMono (Nat.pos_of_ne_zero h)
  have hU := unitsPerOne_pos_rat
  rw [value_size, le_div_iff₀ hU, div_lt_iff₀ hU]
  unfold decimalPlace
  split
  · next hle =>
    have hplace := digitCount_div unitsPerOne_pos hle
    have hpos := one_le_digitCount (x.units / unitsPerOne)
    generalize digitCount (x.units / unitsPerOne) = k at *
    rw [show (k : Int) - 1 = (k - 1 : Nat) by omega, zpow_natCast, zpow_natCast]
    exact_mod_cast hplace
  · next hlt =>
    have hplace := digitCount_div hunits (show x.units ≤ unitsPerOne - 1 by omega)
    have hpos := one_le_digitCount ((unitsPerOne - 1) / x.units)
    generalize digitCount ((unitsPerOne - 1) / x.units) = k at *
    have hten (j : Nat) : (0 : ℚ) < 10 ^ j := pow_pos (by norm_num) j
    have hbounds : unitsPerOne ≤ 10 ^ k * x.units ∧ 10 ^ (k - 1) * x.units < unitsPerOne := by omega
    rw [show 1 - (k : Int) - 1 = -(k : Nat) by omega, show 1 - (k : Int) = -(k - 1 : Nat) by omega,
      zpow_neg, zpow_neg, zpow_natCast, zpow_natCast, inv_mul_le_iff₀ (hten _),
      lt_inv_mul_iff₀ (hten _)]
    exact_mod_cast hbounds

theorem value_le_value_size_iff {x : FiniteDouble} {n : Nat} {e : Int} :
    Decimal.value ⟨n, e⟩ ≤ x.size.value ↔
      n * (unitsPerOne * Decimal.tenPow e.toNat) ≤ x.units * Decimal.tenPow (-e).toNat := by
  have hden : (0 : ℚ) < Decimal.denominator ⟨n, e⟩ := by exact_mod_cast Decimal.denominator_pos _
  rw [← Decimal.numerator_div_denominator, value_size, div_le_div_iff₀ hden unitsPerOne_pos_rat,
    Decimal.numerator, Decimal.denominator, ← Nat.mul_assoc, Nat.mul_right_comm n,
    ← Nat.cast_mul, ← Nat.cast_mul, Nat.cast_le]

theorem roundHalfEven_eq_or (a b : Nat) : roundHalfEven a b = a / b ∨ roundHalfEven a b = a / b + 1 := by
  have hle := div_le_roundHalfEven a b
  have hsucc := roundHalfEven_le_succ a b
  omega

/-- A double stands between its two neighbours on a grid. -/
theorem gridNeighbours_spec (x : FiniteDouble) (e : Int) : ∃ n : Nat,
    (Decimal.value ⟨n, e⟩ ≤ x.size.value ∧ x.size.value < Decimal.value ⟨n + 1, e⟩) ∧
    ∀ d, d ∈ gridNeighbours x.units e ↔ d = ⟨n, e⟩ ∨ d = ⟨n + 1, e⟩ := by
  let num := x.units * Decimal.tenPow (-e).toNat
  let den := unitsPerOne * Decimal.tenPow e.toNat
  have hden : 0 < den := Nat.mul_pos unitsPerOne_pos (Nat.pow_pos (by decide))
  refine ⟨num / den, ⟨?_, ?_⟩, fun d => ?_⟩
  · exact value_le_value_size_iff.mpr (Nat.div_mul_le_self num den)
  · rw [← not_le, value_le_value_size_iff, Nat.not_le]
    exact (Nat.div_lt_iff_lt_mul hden).mp (Nat.lt_succ_self (num / den))
  · have hgrid : gridNeighbours x.units e = [⟨roundHalfEven num den, e⟩,
      ⟨if roundHalfEven num den = num / den then num / den + 1 else num / den, e⟩] := rfl
    rw [hgrid]
    rcases roundHalfEven_eq_or num den with h | h
    · rw [h, if_pos rfl]
      simp
    · rw [h, if_neg (Nat.succ_ne_self _)]
      simp [or_comm]

/-- If a number on a grid rounds to a double then one of its neighbours on the grid does. -/
theorem exists_mem_gridNeighbours {x : FiniteDouble} {n : Nat} {e : Int}
    (h : Decimal.toDouble? x.negative ⟨n, e⟩ = some x) :
    ∃ d ∈ gridNeighbours x.units e, d.toDouble? x.negative = some x := by
  obtain ⟨c, ⟨hl, hu⟩, hmem⟩ := x.gridNeighbours_spec e
  rcases Nat.lt_or_ge c n with hlt | hge
  · refine ⟨⟨c + 1, e⟩, (hmem _).mpr (Or.inr rfl), Decimal.toDouble?_of_between h (Or.inl ?_)⟩
    exact ⟨hu.le, Decimal.value_le_value hlt e⟩
  · refine ⟨⟨c, e⟩, (hmem _).mpr (Or.inl rfl), Decimal.toDouble?_of_between h (Or.inr ?_)⟩
    exact ⟨Decimal.value_le_value hge e, hl⟩

end FiniteDouble

end FeatureSieve
