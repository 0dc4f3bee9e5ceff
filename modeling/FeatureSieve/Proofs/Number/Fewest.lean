import FeatureSieve.Proofs.Number.Grid
import FeatureSieve.Proofs.Number.Shortest

/-! # Fewest digits

No decimal with fewer digits rounds to a double than the one that is written for it. The numbers
that round to a double have no gaps, so if a decimal of so many digits does then a neighbour of the
double does, and neighbours are what is looked at. Doubles stand further apart than decimals of
seventeen digits, so one is found among these at the latest.
-/

namespace FeatureSieve

namespace FiniteDouble

/-- Another double is further away than a part of `2 ^ 53`, or as far. -/
theorem units_le_spacing {x y : FiniteDouble} (h : y.value ≠ x.size.value) :
    (x.units : Int) ≤ 2 ^ 53 * |y.signedUnits - x.units| := by
  have hle := le_abs_self (y.signedUnits - x.units)
  have hneg := neg_le_abs (y.signedUnits - x.units)
  generalize |y.signedUnits - x.units| = a at *
  cases hs : y.negative with
  | true =>
    rw [signedUnits, hs, if_pos rfl] at hneg
    omega
  | false =>
    rw [signedUnits, hs, if_neg (by decide)] at hle hneg
    rcases Nat.lt_trichotomy y.magnitude x.magnitude with hlt | heq | hgt
    · have hspacing : 2 * binade * y.units + x.units ≤ 2 * binade * x.units := unitsOf_spacing hlt
      simp only [binade] at hspacing
      omega
    · have hsame : y.value = x.size.value := by
        rw [value_eq_signed, value_size, hs, units, heq]
        rfl
      exact absurd hsame h
    · have hspacing : 2 * binade * x.units + y.units ≤ 2 * binade * y.units := unitsOf_spacing hgt
      have hmono : x.units < y.units := unitsOf_strictMono hgt
      simp only [binade] at hspacing
      omega

theorem value_size_le_spacing {x y : FiniteDouble} (h : y.value ≠ x.size.value) :
    x.size.value ≤ 2 ^ 53 * |y.value - x.size.value| := by
  have hU := unitsPerOne_pos_rat
  have hvalue : y.value - x.size.value = ((y.signedUnits - x.units : Int) : ℚ) / unitsPerOne := by
    rw [value_size, value]
    push_cast
    ring
  rw [hvalue, abs_div, abs_of_pos hU, ← mul_div_assoc, value_size, div_le_div_iff_of_pos_right hU]
  exact_mod_cast units_le_spacing h

theorem isNearest_of_close {x : FiniteDouble} {w : ℚ}
    (h : 2 ^ 54 * |x.size.value - w| < x.size.value) : x.size.IsNearest w := by
  have hfar (y : FiniteDouble) (hy : y.value ≠ x.size.value) : |x.size.value - w| < |y.value - w| := by
    have hspacing := value_size_le_spacing hy
    have htriangle := abs_sub_le y.value w x.size.value
    rw [abs_sub_comm w] at htriangle
    linarith
  constructor
  · intro y
    by_cases hy : y.value = x.size.value
    · rw [hy]
    · exact (hfar y hy).le
  · intro y heq
    left
    by_contra hy
    exact (hfar y hy).ne' heq

/-- A decimal that is much closer to a double than the next one is rounds to it. -/
theorem toDouble?_of_close {x : FiniteDouble} {d : Decimal}
    (h : 2 ^ 54 * |x.size.value - d.value| < x.size.value) : d.toDouble? x.negative = some x := by
  refine Decimal.toDouble?_eq_some_iff_size.mpr ⟨rfl, ?_, isNearest_of_close h⟩
  have hle : x.size.value ≤ (2 ^ 54 - 2) * 2 ^ 970 := x.value_size ▸ x.units_div_le
  have hstep : (0 : ℚ) < 2 ^ 970 := pow_pos (by norm_num) _
  have habs := neg_le_abs (x.size.value - d.value)
  rw [midpoint_eq]
  generalize (2 : ℚ) ^ 970 = t at *
  linarith

/-- A decimal of seventeen digits. -/
theorem exists_toDouble?_seventeen {x : FiniteDouble} (h : x.magnitude ≠ 0) :
    ∃ n : Nat, Decimal.toDouble? x.negative ⟨n, decimalPlace x.units - 17⟩ = some x := by
  obtain ⟨n, ⟨hl, hu⟩, -⟩ := x.gridNeighbours_spec (decimalPlace x.units - 17)
  have hplace := (value_size_mem_place h).1
  have hten : (0 : ℚ) < 10 ^ (decimalPlace x.units - 17) := zpow_pos (by norm_num) _
  have hstep : (10 : ℚ) ^ (decimalPlace x.units - 1) =
      10 ^ 16 * 10 ^ (decimalPlace x.units - 17) := by
    rw [Decimal.ten_pow_mul_zpow]
    congr 1
    omega
  have hnext : Decimal.value ⟨n + 1, decimalPlace x.units - 17⟩ =
      Decimal.value ⟨n, decimalPlace x.units - 17⟩ + 10 ^ (decimalPlace x.units - 17) := by
    simp only [Decimal.value]
    push_cast
    ring
  rw [hstep] at hplace
  -- The nearer one of the two neighbours is off by half a step at most.
  rcases le_total (x.size.value - Decimal.value ⟨n, decimalPlace x.units - 17⟩)
      (Decimal.value ⟨n + 1, decimalPlace x.units - 17⟩ - x.size.value) with hnear | hnear
  · refine ⟨n, toDouble?_of_close ?_⟩
    rw [abs_of_nonneg (by linarith)]
    linarith
  · refine ⟨n + 1, toDouble?_of_close ?_⟩
    rw [abs_of_nonpos (by linarith)]
    linarith

theorem mem_before_of_range_eq {n i j : Nat} {before after : List Nat}
    (h : List.range n = before ++ i :: after) (hj : j < i) : j ∈ before := by
  have hi : i ∈ List.range n := by
    rw [h]
    simp
  have hmem : j ∈ before ++ i :: after := by
    rw [← h, List.mem_range]
    exact hj.trans (List.mem_range.mp hi)
  have hsorted := List.pairwise_lt_range (n := n)
  rw [h] at hsorted
  have hafter := (List.pairwise_cons.mp (List.pairwise_append.mp hsorted).2.1).1
  rcases List.mem_append.mp hmem with hb | hb
  · exact hb
  · rcases List.mem_cons.mp hb with rfl | hb
    · exact absurd hj (Nat.lt_irrefl j)
    · exact absurd hj (Nat.lt_asymm (hafter j hb))

/-- The first grid on which a neighbour rounds to the double decides. -/
theorem shortestDecimal_spec {x : FiniteDouble} (h : x.magnitude ≠ 0) : ∃ i : Nat,
    x.shortestDecimal ∈ gridNeighbours x.units (decimalPlace x.units - (i + 1)) ∧
    ∀ j < i, ∀ d ∈ gridNeighbours x.units (decimalPlace x.units - (j + 1)),
      d.toDouble? x.negative ≠ some x := by
  rw [shortestDecimal, if_neg h]
  cases hf : (List.range 17).findSome? _ with
  | none =>
    obtain ⟨n, hn⟩ := exists_toDouble?_seventeen h
    obtain ⟨d, hd, hx⟩ := exists_mem_gridNeighbours hn
    have hnone := List.find?_eq_none.mp (List.findSome?_eq_none_iff.mp hf 16 (by decide)) d hd
    simp [hx] at hnone
  | some d =>
    obtain ⟨before, i, after, hrange, hi, hbefore⟩ := List.findSome?_eq_some_iff.mp hf
    refine ⟨i, List.mem_of_find?_eq_some hi, fun j hj d' hd' hx => ?_⟩
    have hmem : j ∈ before := mem_before_of_range_eq hrange hj
    have hnone := List.find?_eq_none.mp (hbefore j hmem) d' hd'
    simp [hx] at hnone

end FiniteDouble

/-- A number that has so many digits at most. -/
def WithinDigits (k : Nat) (v : ℚ) : Prop := ∃ (n : Nat) (e : Int), n < 10 ^ k ∧ v = n * 10 ^ e

theorem WithinDigits.mono {k l : Nat} {v : ℚ} (h : WithinDigits k v) (hkl : k ≤ l) : WithinDigits l v := by
  obtain ⟨n, e, hn, hv⟩ := h
  exact ⟨n, e, hn.trans_le (Nat.pow_le_pow_right (by decide) hkl), hv⟩

/-- Only zero has no digits. -/
theorem WithinDigits.pos {k : Nat} {v : ℚ} (h : WithinDigits k v) (hv : 0 < v) : 0 < k := by
  obtain ⟨n, e, hn, rfl⟩ := h
  rcases Nat.eq_zero_or_pos k with rfl | hk
  · obtain rfl : n = 0 := by simpa using hn
    simp at hv
  · exact hk

theorem withinDigits_of_le {k n : Nat} {e : Int} (hk : 1 ≤ k) (h : n ≤ 10 ^ k) :
    WithinDigits k (Decimal.value ⟨n, e⟩) := by
  rcases h.eq_or_lt with rfl | hlt
  · refine ⟨1, k + e, Nat.one_lt_pow (by omega) (by decide), ?_⟩
    rw [← Nat.one_mul (10 ^ k), Decimal.value_mul_pow]
  · exact ⟨n, e, hlt, rfl⟩

/-- Powers of ten may go from the exponent to the coefficient. -/
theorem eq_mul_pow_of_le {m n : Nat} {e f : Int} (h : (m : ℚ) * 10 ^ e = n * 10 ^ f) (hle : e ≤ f) :
    m = n * 10 ^ (f - e).toNat := by
  have hexp : f = (f - e).toNat + e := by omega
  have hten : (10 : ℚ) ^ e ≠ 0 := zpow_ne_zero _ (by norm_num)
  rw [hexp, ← Decimal.ten_pow_mul_zpow, ← mul_assoc] at h
  exact_mod_cast mul_right_cancel₀ hten h

namespace FiniteDouble

theorem withinDigits_of_mem_gridNeighbours {x : FiniteDouble} (h : x.magnitude ≠ 0) {i : Nat}
    {d : Decimal} (hd : d ∈ gridNeighbours x.units (decimalPlace x.units - (i + 1))) :
    WithinDigits (i + 1) d.value := by
  obtain ⟨n, ⟨hl, -⟩, hmem⟩ := x.gridNeighbours_spec (decimalPlace x.units - (i + 1))
  have hten : (0 : ℚ) < 10 ^ (decimalPlace x.units - (i + 1)) := zpow_pos (by norm_num) _
  have hplace : (n : ℚ) * 10 ^ (decimalPlace x.units - (i + 1)) <
      10 ^ (i + 1) * 10 ^ (decimalPlace x.units - (i + 1)) := by
    calc (n : ℚ) * 10 ^ (decimalPlace x.units - (i + 1)) ≤ x.size.value := hl
      _ < 10 ^ decimalPlace x.units := (value_size_mem_place h).2
      _ = 10 ^ (i + 1) * 10 ^ (decimalPlace x.units - (i + 1)) := by
        rw [Decimal.ten_pow_mul_zpow]
        congr 1
        omega
  have hn : n < 10 ^ (i + 1) := by exact_mod_cast lt_of_mul_lt_mul_right hplace hten.le
  rcases (hmem d).mp hd with rfl | rfl
  · exact withinDigits_of_le (by omega) hn.le
  · exact withinDigits_of_le (by omega) hn

/-- With a decimal of so many digits a number on the grid of so many digits rounds to the double. -/
theorem exists_toDouble?_on_grid {x : FiniteDouble} (hx : x.magnitude ≠ 0) {d : Decimal} {j : Nat}
    (hd : d.toDouble? x.negative = some x) (hj : WithinDigits (j + 1) d.value) :
    ∃ n : Nat, Decimal.toDouble? x.negative ⟨n, decimalPlace x.units - (j + 1)⟩ = some x := by
  obtain ⟨n, f, hn, hv⟩ := hj
  rcases le_or_gt (decimalPlace x.units - (j + 1)) f with hle | hlt
  · obtain ⟨m, rfl⟩ : ∃ m : Nat, f = m + (decimalPlace x.units - (j + 1)) :=
      ⟨(f - (decimalPlace x.units - (j + 1))).toNat, by omega⟩
    refine ⟨n * 10 ^ m, Decimal.toDouble?_congr hd ?_⟩
    rw [hv, Decimal.value_mul_pow]
  · -- The decimal is below the place of the double, and the power of ten there lies between them.
    have hplace := (value_size_mem_place hx).1
    have hpower : Decimal.value ⟨1 * 10 ^ j, decimalPlace x.units - (j + 1)⟩ =
        10 ^ (decimalPlace x.units - 1) := by
      rw [Decimal.value_mul_pow, Nat.cast_one, one_mul]
      congr 1
      omega
    have hbelow : d.value ≤ 10 ^ (decimalPlace x.units - 1) := by
      calc d.value ≤ 10 ^ (j + 1) * 10 ^ f := by
            rw [hv]
            exact mul_le_mul_of_nonneg_right (by exact_mod_cast hn.le) (zpow_nonneg (by norm_num) f)
        _ = 10 ^ (((j + 1 : Nat) : Int) + f) := Decimal.ten_pow_mul_zpow _ f
        _ ≤ 10 ^ (decimalPlace x.units - 1) := zpow_le_zpow_right₀ (by norm_num) (by omega)
    refine ⟨1 * 10 ^ j, Decimal.toDouble?_of_between hd (Or.inr ?_)⟩
    rw [hpower]
    exact ⟨hbelow, hplace⟩

/-- The shortest decimal has no more digits than any other one that rounds to the double. -/
theorem withinDigits_shortestDecimal {x : FiniteDouble} {d : Decimal} {k : Nat}
    (hd : d.toDouble? x.negative = some x) (hk : WithinDigits k d.value) :
    WithinDigits k x.shortestDecimal.value := by
  by_cases hx : x.magnitude = 0
  · rw [shortestDecimal, if_pos hx]
    exact ⟨0, 0, Nat.pow_pos (by decide), rfl⟩
  obtain ⟨i, hmem, hfirst⟩ := shortestDecimal_spec hx
  rcases Nat.lt_or_ge i k with hik | hki
  · exact (withinDigits_of_mem_gridNeighbours hx hmem).mono hik
  · -- With so few digits no neighbour rounds to the double, so no decimal does.
    obtain ⟨j, rfl⟩ : ∃ j, k = j + 1 :=
      Nat.exists_eq_add_one.mpr (hk.pos (Decimal.value_pos_of_toDouble? hx hd))
    obtain ⟨n, hn⟩ := exists_toDouble?_on_grid hx hd hk
    obtain ⟨d', hmem', hd'⟩ := exists_mem_gridNeighbours hn
    exact absurd hd' (hfirst j hki d' hmem')

end FiniteDouble

/-- The digits up to the last one that is not zero are the fewest for the value. -/
theorem length_significant_le_iff {d : Decimal} {k : Nat} :
    (significant d.coefficient).length ≤ k ↔ WithinDigits k d.value := by
  constructor
  · intro h
    refine WithinDigits.mono ⟨_, _, ?_, d.value_eq_significant⟩ h
    have hvalue := ofDigitChars_significant d.coefficient
    have hlt := lt_pow_digitCount d.coefficient
    have hlength := (significant_begins_toDigits d.coefficient).length_le
    rw [digitCount, ← Nat.add_sub_of_le hlength, Nat.pow_add] at hlt
    exact Nat.lt_of_mul_lt_mul_right (hvalue.trans_lt hlt)
  · rintro ⟨n, e, hn, hv⟩
    rcases le_total d.exponent e with hle | hle
    · rw [eq_mul_pow_of_le hv hle, significant_mul_ten_pow]
      exact length_significant_le_of_lt hn
    · rw [← significant_mul_ten_pow d.coefficient (d.exponent - e).toNat,
        ← eq_mul_pow_of_le hv.symm hle]
      exact length_significant_le_of_lt hn

/-- The number of digits of a numeral between zeros at its ends. -/
def Numeral.figures (n : Numeral) : Nat := (significant n.decimal.coefficient).length

namespace FiniteDouble

theorem figures_numeral_le {x : FiniteDouble} {n : Numeral} (h : n.toDouble? = some x) :
    x.numeral.figures ≤ n.figures := by
  have hs : x.negative = n.isNegative := (Decimal.toDouble?_eq_some_iff.mp h).2.1
  rw [Numeral.toDouble?, ← hs] at h
  have hk : WithinDigits n.figures n.decimal.value := length_significant_le_iff.mp le_rfl
  rw [Numeral.figures, length_significant_le_iff, x.numeral_writes.value]
  exact withinDigits_shortestDecimal h hk

end FiniteDouble

end FeatureSieve
