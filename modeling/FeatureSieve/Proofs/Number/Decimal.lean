import FeatureSieve.Number.Decimal
import FeatureSieve.Proofs.Number.Overflow

/-! # Decimals as doubles

Decimals of every size are rounded to the nearest double. Those whose exponent shows at once
that they overflow, or that nothing is left of them, are no exceptions: they come to what
rounding gives for them.
-/

namespace FeatureSieve

namespace Decimal

open FiniteDouble

theorem tenPow_pos (k : Nat) : 0 < tenPow k := Nat.pow_pos (by decide)

theorem denominator_pos (d : Decimal) : 0 < d.denominator := tenPow_pos _

theorem tenPow_le_tenPow {k l : Nat} (h : k ≤ l) : tenPow k ≤ tenPow l :=
  Nat.pow_le_pow_right (by decide) h

/-- Powers of ten from the 309th on are too large. -/
theorem nearest?_eq_none_of_le {d : Decimal} (hc : d.coefficient ≠ 0) (he : 309 ≤ d.exponent)
    (negative : Bool) : nearest? negative d.numerator d.denominator = none := by
  have hden : d.denominator = 1 := by
    rw [denominator, Int.toNat_of_nonpos (by omega)]
    rfl
  have hnum : tenPow 309 ≤ d.numerator := by
    have hpow : tenPow 309 ≤ tenPow d.exponent.toNat := tenPow_le_tenPow (by omega)
    exact hpow.trans (Nat.le_mul_of_pos_left _ (Nat.pos_of_ne_zero hc))
  have htop : (2 ^ 54 - 1) * (topHalfStep * 1) ≤ tenPow 309 * unitsPerOne := by decide +kernel
  have hlarge : ¬ nearestMagnitude d.numerator d.denominator < magnitudeBound := by
    rw [nearestMagnitude_lt_iff _ d.denominator_pos, hden, not_lt]
    exact htop.trans (Nat.mul_le_mul_right _ hnum)
  exact dif_neg hlarge

/-- What is negligible is below half a unit. -/
theorem two_mul_numerator_lt {d : Decimal} (h : d.isNegligible = true) :
    2 * (d.numerator * unitsPerOne) < d.denominator := by
  have hexp : d.coefficient.log2 + 1076 ≤ 3 * (-d.exponent).toNat := of_decide_eq_true h
  have hnum : d.numerator = d.coefficient := by
    rw [numerator, Int.toNat_of_nonpos (by omega)]
    exact Nat.mul_one _
  have htwo (m : Nat) : 2 * (d.coefficient * 2 ^ m) < 2 ^ (d.coefficient.log2 + (m + 2)) := by
    calc 2 * (d.coefficient * 2 ^ m) = d.coefficient * 2 ^ (m + 1) := by
          rw [Nat.pow_succ]
          ring
      _ < 2 ^ (d.coefficient.log2 + 1) * 2 ^ (m + 1) :=
          Nat.mul_lt_mul_of_pos_right Nat.lt_log2_self (Nat.two_pow_pos _)
      _ = 2 ^ (d.coefficient.log2 + (m + 2)) := by
          rw [← Nat.pow_add]
          congr 1
          omega
  rw [hnum, unitsPerOne, Nat.one_shiftLeft]
  calc 2 * (d.coefficient * 2 ^ 1074) < 2 ^ (d.coefficient.log2 + (1074 + 2)) := htwo 1074
    _ ≤ 2 ^ (3 * (-d.exponent).toNat) := Nat.pow_le_pow_right (by decide) hexp
    _ = 8 ^ (-d.exponent).toNat := Nat.pow_mul 2 3 _
    _ ≤ d.denominator := Nat.pow_le_pow_left (by decide) _

/-- The scales that are told apart first come to what rounding gives for them. -/
theorem toDouble?_eq_nearest? (negative : Bool) (d : Decimal) :
    d.toDouble? negative = nearest? negative d.numerator d.denominator := by
  unfold toDouble?
  split
  · next hc =>
    rw [numerator, hc, Nat.zero_mul, nearest?_zero negative d.denominator_pos]
  · next hc =>
    split
    · next he => rw [nearest?_eq_none_of_le hc he]
    · split
      · next hn =>
        have hzero := nearestMagnitude_eq_zero (two_mul_numerator_lt hn)
        exact (nearest?_eq_some_iff.mpr ⟨rfl, hzero.symm⟩).symm
      · rfl

/-- The number that a decimal stands for. -/
def value (d : Decimal) : ℚ := d.coefficient * 10 ^ d.exponent

theorem ten_pow_mul_zpow (k : Nat) (e : Int) : (10 : ℚ) ^ k * 10 ^ e = 10 ^ (k + e) := by
  rw [zpow_add₀ (by norm_num), zpow_natCast]

theorem value_mul_pow (n k : Nat) (e : Int) : value ⟨n * 10 ^ k, e⟩ = n * 10 ^ (k + e) := by
  rw [value, ← ten_pow_mul_zpow, ← mul_assoc]
  push_cast
  rfl

theorem value_one (e : Int) : value ⟨1, e⟩ = 10 ^ e := by
  rw [value, Nat.cast_one, one_mul]

theorem value_le_value {m n : Nat} (h : m ≤ n) (e : Int) : value ⟨m, e⟩ ≤ value ⟨n, e⟩ :=
  mul_le_mul_of_nonneg_right (by exact_mod_cast h) (zpow_nonneg (by norm_num) e)

theorem value_nonneg (d : Decimal) : 0 ≤ d.value :=
  mul_nonneg (Nat.cast_nonneg _) (zpow_nonneg (by norm_num) _)

theorem numerator_div_denominator (d : Decimal) : (d.numerator : ℚ) / d.denominator = d.value := by
  have hcast (k : Nat) : (tenPow k : ℚ) = 10 ^ (k : Int) := by
    rw [zpow_natCast]
    exact_mod_cast rfl
  have hexp : d.exponent = (d.exponent.toNat : Int) - ((-d.exponent).toNat : Int) := by omega
  rw [numerator, denominator, Nat.cast_mul, hcast, hcast, value, hexp, zpow_sub₀ (by norm_num),
    ← hexp]
  ring

/-- The nearest double with the sign of the decimal, if that is not an infinity. -/
theorem toDouble?_eq_some_iff {negative : Bool} {d : Decimal} {x : FiniteDouble} :
    d.toDouble? negative = some x ↔ d.value < 2 ^ 1024 - 2 ^ 970 ∧ x.negative = negative ∧
      x.IsNearest (signed negative d.value) := by
  rw [toDouble?_eq_nearest?, nearest?_eq_some_iff_isNearest d.denominator_pos,
    numerator_div_denominator]

theorem exists_toDouble?_iff {negative : Bool} {d : Decimal} :
    (∃ x, d.toDouble? negative = some x) ↔ d.value < 2 ^ 1024 - 2 ^ 970 := by
  constructor
  · rintro ⟨x, hx⟩
    exact (toDouble?_eq_some_iff.mp hx).1
  · intro h
    rw [← numerator_div_denominator, ← nearestMagnitude_lt_iff_div_lt _ d.denominator_pos] at h
    refine ⟨⟨negative, _, h⟩, ?_⟩
    rw [toDouble?_eq_nearest?, nearest?_eq_some_iff]
    exact ⟨rfl, rfl⟩

section Sizes

variable {d d' : Decimal} {x y : FiniteDouble} {negative : Bool}

/-- The sign is kept, and the size is rounded to the nearest. -/
theorem toDouble?_eq_some_iff_size : d.toDouble? negative = some x ↔
    x.negative = negative ∧ d.value < 2 ^ 1024 - 2 ^ 970 ∧ x.size.IsNearest d.value := by
  have hsize : d.toDouble? false = some x.size ↔ _ := toDouble?_eq_some_iff
  rw [toDouble?_eq_nearest?, nearest?_eq_some_iff] at hsize ⊢
  apply and_congr_right
  intro _
  simpa [size, signed] using hsize

/-- The numbers that round to a double have no gaps. -/
theorem toDouble?_of_between (h : d.toDouble? negative = some x)
    (hd : x.size.value ≤ d'.value ∧ d'.value ≤ d.value ∨
      d.value ≤ d'.value ∧ d'.value ≤ x.size.value) : d'.toDouble? negative = some x := by
  obtain ⟨hs, hlt, hx⟩ := toDouble?_eq_some_iff_size.mp h
  refine toDouble?_eq_some_iff_size.mpr ⟨hs, ?_, hx.of_between hd⟩
  have hfinite : x.size.value < 2 ^ 1024 - 2 ^ 970 := x.value_size ▸ x.units_div_lt
  rcases hd with hd | hd
  · exact hd.2.trans_lt hlt
  · exact hd.2.trans_lt hfinite

/-- Rounding keeps the order of sizes. -/
theorem value_size_le_of_le (hx : d.toDouble? negative = some x)
    (hy : d'.toDouble? negative = some y) (h : d.value ≤ d'.value) :
    x.size.value ≤ y.size.value :=
  (toDouble?_eq_some_iff_size.mp hx).2.2.value_le (toDouble?_eq_some_iff_size.mp hy).2.2 h

theorem toDouble?_congr (h : d.toDouble? negative = some x) (hd : d.value = d'.value) :
    d'.toDouble? negative = some x := by
  rw [toDouble?_eq_some_iff] at h ⊢
  rwa [← hd]

theorem value_pos_of_toDouble? (hx : x.magnitude ≠ 0) (h : d.toDouble? negative = some x) :
    0 < d.value := by
  apply d.value_nonneg.lt_of_ne
  intro hzero
  have hd : toDouble? negative ⟨0, 0⟩ = some x := by
    apply toDouble?_congr h
    rw [← hzero]
    simp [value]
  cases hd
  exact hx rfl

end Sizes

end Decimal

end FeatureSieve
