import FeatureSieve.Number.Double

/-! # Rounding to the nearest double

A quotient of naturals is rounded on the grid of doubles, a half going to the
even neighbour. The grid has one point per unit up to `2 ^ 53` units and drops
one low bit for each doubling after that; magnitudes count its points in order,
so a carry out of the significand needs no case of its own.
-/

namespace FeatureSieve

/-- The natural nearest to `a / b`; a half goes to the even neighbour. -/
def roundHalfEven (a b : Nat) : Nat :=
  if 2 * (a % b) < b ∨ 2 * (a % b) = b ∧ a / b % 2 = 0 then a / b else a / b + 1

theorem roundHalfEven_le_succ (a b : Nat) : roundHalfEven a b ≤ a / b + 1 := by
  unfold roundHalfEven
  split <;> omega

theorem div_le_roundHalfEven (a b : Nat) : a / b ≤ roundHalfEven a b := by
  unfold roundHalfEven
  split <;> omega

namespace FiniteDouble

/-- Low bits of a count of units that a significand of 53 bits leaves out. -/
def droppedBits (units : Nat) : Nat := units.log2 - 52

/-- The magnitude nearest to `num / den`, not bounded: it may reach an infinity's. -/
def nearestMagnitude (num den : Nat) : Nat :=
  let drop := droppedBits (num * unitsPerOne / den)
  drop * binade + roundHalfEven (num * unitsPerOne) (den <<< drop)

/-- The double nearest to `num / den`, or `none` where that is an infinity. -/
def nearest? (negative : Bool) (num den : Nat) : Option FiniteDouble :=
  if h : nearestMagnitude num den < magnitudeBound then some ⟨negative, _, h⟩ else none

/-- What is left of a count of units fits in 53 bits. -/
theorem shiftRight_droppedBits_lt (units : Nat) : units >>> droppedBits units < 2 * binade := by
  have h := Nat.lt_log2_self (n := units)
  rw [Nat.shiftRight_eq_div_pow, Nat.div_lt_iff_lt_mul (Nat.two_pow_pos _),
    show 2 * binade = 2 ^ 53 from rfl, ← Nat.pow_add]
  exact Nat.lt_of_lt_of_le h (Nat.pow_le_pow_right (by decide) (by unfold droppedBits; omega))

/-- The rounded significand has at most one point beyond its 53 bits. -/
theorem nearestMagnitude_le (num den : Nat) :
    nearestMagnitude num den ≤ droppedBits (num * unitsPerOne / den) * binade + 2 * binade := by
  have hq := shiftRight_droppedBits_lt (num * unitsPerOne / den)
  have hr := roundHalfEven_le_succ (num * unitsPerOne)
    (den <<< droppedBits (num * unitsPerOne / den))
  rw [Nat.shiftRight_eq_div_pow, Nat.div_div_eq_div_mul, ← Nat.shiftLeft_eq] at hq
  simp only [nearestMagnitude]
  omega

theorem log2_shiftLeft_le (n k : Nat) : (n <<< k).log2 ≤ n.log2 + k := by
  rcases Nat.eq_zero_or_pos n with rfl | hn
  · simp
  · have hlt : (n <<< k).log2 < n.log2 + 1 + k := by
      rw [Nat.shiftLeft_eq, Nat.log2_lt (Nat.ne_of_gt (Nat.mul_pos hn (Nat.two_pow_pos k))),
        Nat.pow_add]
      exact Nat.mul_lt_mul_of_pos_right Nat.lt_log2_self (Nat.two_pow_pos k)
    omega

/-- Whole numbers of 64 bits are far from the infinities. -/
theorem nearestMagnitude_lt_of_lt {n : Nat} (h : n < 0x10000000000000000) :
    nearestMagnitude n 1 < magnitudeBound := by
  have hle := nearestMagnitude_le n 1
  have hdrop : droppedBits (n * unitsPerOne / 1) ≤ 1086 := by
    have hlog := log2_shiftLeft_le n 1074
    have hn : n.log2 ≤ 64 := by
      rcases Nat.eq_zero_or_pos n with rfl | hn
      · simp
      · exact Nat.le_of_lt ((Nat.log2_lt (Nat.ne_of_gt hn)).2 h)
    rw [Nat.div_one, droppedBits, unitsPerOne_eq_shiftLeft]
    omega
  simp only [magnitudeBound, binade] at *
  omega

/-- The double nearest to a whole number of 64 bits. -/
def ofNatural (negative : Bool) (n : Nat) (h : n < 0x10000000000000000) : FiniteDouble :=
  ⟨negative, nearestMagnitude n 1, nearestMagnitude_lt_of_lt h⟩

end FiniteDouble

end FeatureSieve
