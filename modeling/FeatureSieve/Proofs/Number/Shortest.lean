import FeatureSieve.Proofs.Number.Layout

/-! # Doubles are read back

The shortest decimal of a double rounds to it, also where all decimal places are due, and its
numeral stands for that decimal. So what is written for a double reads as the same double, a
zero with its sign.
-/

namespace FeatureSieve.FiniteDouble

theorem mul_five_pow (units k : Nat) :
    ((units * Nat.pow 5 k : Nat) : ℚ) * (10 : ℚ) ^ (-(k : Int)) = units / (1 <<< k : Nat) := by
  have hfive : ((units * Nat.pow 5 k : Nat) : ℚ) = units * 5 ^ k := by
    rw [Nat.cast_mul]
    exact congrArg _ (Nat.cast_pow 5 k)
  have hten : (10 : ℚ) ^ k = 2 ^ k * 5 ^ k := by
    rw [← mul_pow]
    norm_num
  rw [hfive, Nat.one_shiftLeft, zpow_neg, zpow_natCast, hten, ← div_eq_mul_inv, Nat.cast_pow,
    mul_div_mul_right _ _ (pow_ne_zero k (by norm_num))]
  rfl

theorem value_exactDecimal (x : FiniteDouble) : x.exactDecimal.value = x.units / unitsPerOne := by
  rw [Decimal.value, exactDecimal, unitsPerOne, show (-1074 : Int) = -((1074 : Nat) : Int) from rfl]
  -- The power is never formed.
  generalize 1074 = k
  exact mul_five_pow x.units k

theorem toDouble?_exactDecimal (x : FiniteDouble) :
    x.exactDecimal.toDouble? x.negative = some x := by
  rw [Decimal.toDouble?_eq_some_iff, value_exactDecimal]
  refine ⟨x.units_div_lt, rfl, ?_⟩
  rw [← value_eq_signed]
  exact x.isNearest_value

theorem shortestDecimal_eq_or (x : FiniteDouble) :
    x.magnitude = 0 ∧ x.shortestDecimal = ⟨0, 0⟩ ∨
      x.magnitude ≠ 0 ∧ x.shortestDecimal.toDouble? x.negative = some x := by
  unfold shortestDecimal
  split
  · next h => exact Or.inl ⟨h, rfl⟩
  · next h =>
    refine Or.inr ⟨h, ?_⟩
    cases hf : (List.range 17).findSome? _ with
    | none => exact x.toDouble?_exactDecimal
    | some d =>
      obtain ⟨i, -, hi⟩ := List.exists_of_findSome?_eq_some hf
      simpa using List.find?_some hi

theorem toDouble?_shortestDecimal (x : FiniteDouble) :
    x.shortestDecimal.toDouble? x.negative = some x := by
  rcases x.shortestDecimal_eq_or with ⟨hm, hd⟩ | ⟨-, hd⟩
  · obtain ⟨negative, magnitude, hlt⟩ := x
    subst hm
    rw [hd]
    rfl
  · exact hd

theorem exponent_shortestDecimal (x : FiniteDouble) (h : x.shortestDecimal.coefficient = 0) :
    x.shortestDecimal.exponent = 0 := by
  rcases x.shortestDecimal_eq_or with ⟨-, hd⟩ | ⟨hm, hd⟩
  · rw [hd]
  · rw [Decimal.toDouble?, if_pos h, Option.some.injEq] at hd
    exact absurd (congrArg magnitude hd).symm hm

theorem numeral_writes (x : FiniteDouble) :
    x.numeral.Writes x.negative x.shortestDecimal.value :=
  Decimal.numeral_writes x.negative x.exponent_shortestDecimal

theorem toDouble?_numeral (x : FiniteDouble) : x.numeral.toDouble? = some x := by
  have hw := x.numeral_writes
  have hx := Decimal.toDouble?_eq_some_iff.mp x.toDouble?_shortestDecimal
  rw [Numeral.toDouble?, hw.isNegative, Decimal.toDouble?_eq_some_iff, hw.value]
  exact hx

end FeatureSieve.FiniteDouble
