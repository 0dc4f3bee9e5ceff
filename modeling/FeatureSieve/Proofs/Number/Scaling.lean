import FeatureSieve.Number.Scaling
import FeatureSieve.Proofs.Number.Decimal

/-! # Where scaling is exact

Whole numbers of 53 bits and the powers of ten up to `10 ^ 22` are doubles. A numeral with so few
digits and so small an exponent is scaled in a single step, which is the only one that rounds, and
comes to the nearest double.
-/

namespace FeatureSieve

namespace FiniteDouble

/-- A significand of 53 bits that is shifted stands on the grid of doubles. -/
theorem exists_grid_shift {m : Nat} (hm : m < 2 * binade) (k : Nat) : ∃ drop r, drop ≤ k ∧
    (binade ≤ r ∨ drop = 0) ∧ r < 2 * binade ∧ r * 2 ^ drop = m * 2 ^ k := by
  induction k with
  | zero => exact ⟨0, m, le_rfl, Or.inr rfl, hm, rfl⟩
  | succ k ih =>
    obtain ⟨drop, r, hle, hr, hlt, heq⟩ := ih
    have hdouble : m * 2 ^ (k + 1) = 2 * (r * 2 ^ drop) := by
      rw [heq]
      ring
    -- A short significand has room for one more bit; a full one moves on to the next grid.
    by_cases hsmall : r < binade
    · obtain rfl : drop = 0 := hr.resolve_left hsmall.not_ge
      refine ⟨0, 2 * r, Nat.zero_le _, Or.inr rfl, by omega, ?_⟩
      rw [hdouble]
      ring
    · refine ⟨drop + 1, r, by omega, Or.inl (not_lt.mp hsmall), hlt, ?_⟩
      rw [hdouble]
      ring

theorem exists_units_eq (negative : Bool) {m k : Nat} (hm : m < 2 * binade) (hk : k ≤ 2045) :
    ∃ x : FiniteDouble, x.negative = negative ∧ x.units = m * 2 ^ k := by
  obtain ⟨drop, r, hle, hr, hlt, heq⟩ := exists_grid_shift hm k
  have hbound : drop * binade + r < magnitudeBound := by
    simp only [binade, magnitudeBound] at *
    omega
  refine ⟨⟨negative, _, hbound⟩, rfl, ?_⟩
  rw [units, unitsOf_add hr hlt.le, heq]

/-- A whole number that is a double is rounded to itself. -/
theorem exists_nearest?_eq (negative : Bool) {m k : Nat} (hm : m < 2 * binade) (hk : k ≤ 971) :
    ∃ x, nearest? negative (m * 2 ^ k) 1 = some x ∧ x.negative = negative ∧
      x.units = m * 2 ^ k * unitsPerOne := by
  obtain ⟨x, rfl, hx⟩ := exists_units_eq negative hm (Nat.add_le_add_right hk 1074)
  have hunits : x.units = m * 2 ^ k * unitsPerOne := by
    rw [hx, unitsPerOne_eq_shiftLeft, Nat.shiftLeft_eq, Nat.pow_add, mul_assoc]
  refine ⟨x, nearest?_of_div_eq one_pos ?_, rfl, hunits⟩
  rw [hunits, Nat.cast_one, div_one, Nat.cast_mul _ unitsPerOne,
    mul_div_cancel_right₀ _ unitsPerOne_pos_rat.ne']

theorem exists_tenPower?_eq {k : Nat} (h : k ≤ 22) :
    ∃ p, tenPower? k = some p ∧ p.units = Decimal.tenPow k * unitsPerOne := by
  have hten : Decimal.tenPow k = 5 ^ k * 2 ^ k := Nat.mul_pow 5 2 k
  have hfive : 5 ^ k < 2 * binade := (Nat.pow_le_pow_right (by decide) h).trans_lt (by decide)
  obtain ⟨p, hp, -, hunits⟩ := exists_nearest?_eq false hfive (h.trans (by decide))
  rw [tenPower?, hten]
  exact ⟨p, hp, hunits⟩

section Scaling

variable {x p : FiniteDouble} {m k : Nat}

theorem timesTenPower?_of_tenPower? (hp : tenPower? k = some p) : x.timesTenPower? k =
    nearest? x.negative (x.units * p.units) (unitsPerOne * unitsPerOne) := by
  rw [timesTenPower?, hp, Option.bind_eq_bind, Option.bind_some]

theorem overTenPower?_of_tenPower? (hp : tenPower? k = some p) :
    x.overTenPower? k = nearest? x.negative x.units p.units := by
  rw [overTenPower?, hp, Option.bind_eq_bind, Option.bind_some]

/-- The unit is any number here, so that nothing computes with `2 ^ 1074`. -/
theorem product_div_unit {u : Nat} (hu : u ≠ 0) (m t : Nat) :
    ((m * u * (t * u) : Nat) / (u * u : Nat) : ℚ) = (m * t : Nat) / (1 : Nat) := by
  have hne : (u * u : ℚ) ≠ 0 := by exact_mod_cast Nat.mul_ne_zero hu hu
  push_cast
  rw [mul_mul_mul_comm, mul_div_cancel_right₀ _ hne, div_one]

theorem timesTenPower?_eq (hx : x.units = m * unitsPerOne) (hk : k ≤ 22) :
    x.timesTenPower? k = nearest? x.negative (m * Decimal.tenPow k) 1 := by
  have hone : 0 < unitsPerOne := unitsPerOne_pos
  obtain ⟨p, hp, hunits⟩ := exists_tenPower?_eq hk
  rw [timesTenPower?_of_tenPower? hp, hx, hunits]
  exact nearest?_congr (Nat.mul_pos hone hone) one_pos (product_div_unit hone.ne' m _)

theorem overTenPower?_eq (hx : x.units = m * unitsPerOne) (hk : k ≤ 22) :
    x.overTenPower? k = nearest? x.negative m (Decimal.tenPow k) := by
  have hone : 0 < unitsPerOne := unitsPerOne_pos
  obtain ⟨p, hp, hunits⟩ := exists_tenPower?_eq hk
  rw [overTenPower?_of_tenPower? hp, hx, hunits]
  apply nearest?_congr (Nat.mul_pos (Decimal.tenPow_pos k) hone) (Decimal.tenPow_pos k)
  rw [Nat.cast_mul, Nat.cast_mul, mul_div_mul_right _ _ unitsPerOne_pos_rat.ne']

theorem scale?_of_nonneg {e : Int} (h : 0 ≤ e) (hle : e ≤ lastTenPower) :
    x.scale? e = x.timesTenPower? e.toNat := by
  rw [scale?, if_neg hle.not_gt, if_pos h]

theorem scale?_of_neg {e : Int} (h : e < 0) (hle : -lastTenPower ≤ e) :
    x.scale? e = x.overTenPower? (-e).toNat := by
  have hlast : ¬ (lastTenPower : Int) < e := by omega
  have htimes : ((-e).toNat - 1) / lastTenPower = 0 := by
    rw [lastTenPower] at *
    omega
  rw [scale?, if_neg hlast, if_neg h.not_ge]
  dsimp only
  rw [htimes, overLastTenPowers?, Option.bind_some, Nat.mul_zero, Nat.sub_zero]

/-- A whole number times or over an exact power of ten is rounded once. -/
theorem scale?_eq_toDouble? (hx : x.units = m * unitsPerOne) {e : Int} (he : e.natAbs ≤ 22) :
    x.scale? e = Decimal.toDouble? x.negative ⟨m, e⟩ := by
  have hlast : lastTenPower = 308 := rfl
  have hzero : Decimal.tenPow 0 = 1 := rfl
  rw [Decimal.toDouble?_eq_nearest?, Decimal.numerator, Decimal.denominator]
  by_cases hsign : 0 ≤ e
  · have hdown : (-e).toNat = 0 := by omega
    rw [scale?_of_nonneg hsign (by omega), timesTenPower?_eq hx (by omega), hdown, hzero]
  · have hup : e.toNat = 0 := by omega
    rw [scale?_of_neg (by omega) (by omega), overTenPower?_eq hx (by omega), hup, hzero,
      Nat.mul_one]

end Scaling

end FiniteDouble

namespace Numeral

theorem le_ofDigitChars (cs : List Char) (n : Nat) : n ≤ Nat.ofDigitChars 10 cs n := by
  rw [Nat.ofDigitChars_eq_ofDigitChars_zero]
  have hle : n ≤ 10 ^ cs.length * n := Nat.le_mul_of_pos_left n (Nat.pow_pos (by decide))
  omega

/-- Digits are all taken as long as their number fits in 64 bits. -/
theorem takeDigits_of_lt {cs : List Char} {whole : Nat}
    (h : Nat.ofDigitChars 10 cs whole < 0x10000000000000000) :
    takeDigits whole cs = (Nat.ofDigitChars 10 cs whole, []) := by
  induction cs generalizing whole with
  | nil => rfl
  | cons c cs ih =>
    rw [Nat.ofDigitChars_cons] at h ⊢
    rw [takeDigits, if_pos ((le_ofDigitChars cs _).trans_lt h), ih h]

/-- The digits make a whole number of 53 bits, and the exponent is at most 22 either way. -/
structure IsShort (n : Numeral) : Prop where
  coefficient_lt : n.decimal.coefficient < 2 ^ 53
  exponent_le : n.decimal.exponent.natAbs ≤ 22

/-- A short numeral is scaled to the nearest double. -/
theorem scaled?_eq_toDouble? {n : Numeral} (h : n.IsShort) : n.scaled? = n.toDouble? := by
  have hcoefficient : Nat.ofDigitChars 10 (n.fraction.getD []) (Nat.ofDigitChars 10 n.whole 0) =
      n.decimal.coefficient := (Nat.ofDigitChars_append 0).symm
  have hfraction : Nat.ofDigitChars 10 (n.fraction.getD []) (Nat.ofDigitChars 10 n.whole 0) <
      0x10000000000000000 := by
    rw [hcoefficient]
    exact h.coefficient_lt.trans (by decide)
  have hwhole : Nat.ofDigitChars 10 n.whole 0 < 0x10000000000000000 :=
    (le_ofDigitChars _ _).trans_lt hfraction
  obtain ⟨x, hx, hnegative, hunits⟩ :=
    FiniteDouble.exists_nearest?_eq n.isNegative h.coefficient_lt (Nat.zero_le 971)
  rw [Nat.pow_zero, Nat.mul_one] at hx hunits
  simp only [scaled?, takeDigits_of_lt hwhole, takeDigits_of_lt hfraction, hcoefficient, hx,
    Option.bind_some, List.length_nil, Nat.cast_zero, add_zero]
  rw [FiniteDouble.scale?_eq_toDouble? hunits h.exponent_le, hnegative]
  rfl

end Numeral

end FeatureSieve
