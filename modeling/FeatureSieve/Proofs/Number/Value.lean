import FeatureSieve.Number.Double
import Mathlib.Algebra.Order.Field.Rat
import Mathlib.Algebra.Order.Field.Basic
import Mathlib.Tactic.Ring
import Mathlib.Tactic.Linarith

/-! # Values of doubles

The value of a finite double is rational. Magnitudes count the values that are not
negative in order, so doubles compare by their keys as they do by their values.
-/

namespace FeatureSieve.FiniteDouble

/-- On the grid that leaves out `drop` bits, each step of the magnitude is a step of the grid. -/
theorem unitsOf_add {drop r : Nat} (hl : binade ≤ r ∨ drop = 0) (hu : r ≤ 2 * binade) :
    unitsOf (drop * binade + r) = r * 2 ^ drop := by
  unfold unitsOf
  split
  · next h =>
    have hd : drop = 0 := by
      simp only [binade] at *
      omega
    subst hd
    simp
  · next h =>
    by_cases htop : r = 2 * binade
    · have hq : (drop * binade + r) / binade = drop + 2 := by
        simp only [binade] at *
        omega
      have hr : (drop * binade + r) % binade = 0 := by
        simp only [binade] at *
        omega
      rw [hq, hr, Nat.shiftLeft_eq, htop]
      simp only [Nat.add_zero, show drop + 2 - 1 = drop + 1 from rfl]
      ring
    · have hq : (drop * binade + r) / binade = drop + 1 := by
        simp only [binade] at *
        omega
      have hr : (drop * binade + r) % binade = r - binade := by
        simp only [binade] at *
        omega
      have hb : binade + (r - binade) = r := by
        simp only [binade] at *
        omega
      rw [hq, hr, hb, Nat.shiftLeft_eq, Nat.add_sub_cancel]

/-- Each magnitude stands on a grid, not at its end. -/
theorem exists_grid (magnitude : Nat) : ∃ drop r, magnitude = drop * binade + r ∧
    (binade ≤ r ∨ drop = 0) ∧ r < 2 * binade := by
  by_cases h : magnitude < 2 * binade
  · exact ⟨0, magnitude, by simp, Or.inr rfl, h⟩
  · refine ⟨magnitude / binade - 1, magnitude % binade + binade, ?_, Or.inl ?_, ?_⟩
    · simp only [binade] at *
      omega
    · omega
    · simp only [binade]
      omega

theorem unitsOf_strictMono : StrictMono unitsOf := by
  apply strictMono_nat_of_lt_succ
  intro magnitude
  obtain ⟨drop, r, rfl, hl, hu⟩ := exists_grid magnitude
  have hl' : binade ≤ r + 1 ∨ drop = 0 := hl.imp_left fun h => by omega
  rw [Nat.add_assoc, unitsOf_add hl (Nat.le_of_lt hu), unitsOf_add hl' hu]
  exact Nat.mul_lt_mul_of_pos_right (Nat.lt_succ_self r) (Nat.two_pow_pos drop)

/-- Two doubles are apart by more than the larger one divided by `2 ^ 53`, or as much. -/
theorem unitsOf_spacing {m n : Nat} (h : m < n) :
    2 * binade * unitsOf m + unitsOf n ≤ 2 * binade * unitsOf n := by
  obtain ⟨before, rfl⟩ : ∃ before, n = before + 1 := ⟨n - 1, by omega⟩
  obtain ⟨drop, r, rfl, hl, hu⟩ := exists_grid before
  have hm : unitsOf m ≤ r * 2 ^ drop := by
    rw [← unitsOf_add hl hu.le]
    exact unitsOf_strictMono.monotone (Nat.le_of_lt_succ h)
  have hn : unitsOf (drop * binade + r + 1) = r * 2 ^ drop + 2 ^ drop := by
    rw [Nat.add_assoc, unitsOf_add (hl.imp_left fun h => by omega) hu, Nat.succ_mul]
  have hstep := Nat.mul_le_mul_right (2 ^ drop) hu
  rw [Nat.succ_mul] at hstep
  rw [hn]
  generalize r * 2 ^ drop = a at *
  generalize 2 ^ drop = b at *
  simp only [binade] at *
  omega

@[simp] theorem unitsOf_zero : unitsOf 0 = 0 := rfl

theorem natAbs_key (x : FiniteDouble) : x.key.natAbs = x.magnitude := by
  unfold key
  split
  · rw [Int.natAbs_neg, Int.natAbs_natCast]
  · exact Int.natAbs_natCast _

/-- The units with their sign. -/
def signedUnits (x : FiniteDouble) : Int := if x.negative then -x.units else x.units

theorem signedUnits_lt_iff {x y : FiniteDouble} : x.signedUnits < y.signedUnits ↔ x.key < y.key := by
  have hxy : x.units < y.units ↔ x.magnitude < y.magnitude := unitsOf_strictMono.lt_iff_lt
  have hyx : y.units < x.units ↔ y.magnitude < x.magnitude := unitsOf_strictMono.lt_iff_lt
  have hx : unitsOf 0 < x.units ↔ 0 < x.magnitude := unitsOf_strictMono.lt_iff_lt
  have hy : unitsOf 0 < y.units ↔ 0 < y.magnitude := unitsOf_strictMono.lt_iff_lt
  rw [unitsOf_zero] at hx hy
  unfold signedUnits key
  cases x.negative <;> cases y.negative
  · simp only [Bool.false_eq_true, if_false]
    omega
  · simp only [Bool.false_eq_true, if_false, if_true]
    omega
  · simp only [Bool.false_eq_true, if_false, if_true]
    omega
  · simp only [if_true]
    omega

def value (x : FiniteDouble) : ℚ := x.signedUnits / unitsPerOne

theorem unitsPerOne_pos_rat : (0 : ℚ) < unitsPerOne := by
  exact_mod_cast unitsPerOne_pos

theorem value_lt_iff {x y : FiniteDouble} : x.value < y.value ↔ x.key < y.key := by
  rw [value, value, div_lt_div_iff_of_pos_right unitsPerOne_pos_rat, Int.cast_lt,
    signedUnits_lt_iff]

theorem value_inj {x y : FiniteDouble} : x.value = y.value ↔ x.key = y.key := by
  constructor
  · intro h
    have hxy : ¬ x.key < y.key := fun hlt => (value_lt_iff.mpr hlt).ne h
    have hyx : ¬ y.key < x.key := fun hlt => (value_lt_iff.mpr hlt).ne h.symm
    omega
  · intro h
    have hxy : ¬ x.value < y.value := fun hlt => (value_lt_iff.mp hlt).ne h
    have hyx : ¬ y.value < x.value := fun hlt => (value_lt_iff.mp hlt).ne h.symm
    exact le_antisymm (not_lt.mp hyx) (not_lt.mp hxy)

@[simp] theorem value_zero (negative : Bool) : (zero negative).value = 0 := by
  cases negative <;> simp [value, signedUnits, units, zero]

@[simp] theorem value_one : one.value = 1 := by
  have h : one.signedUnits = unitsPerOne := by decide +kernel
  rw [value, h, Int.cast_natCast]
  exact div_self unitsPerOne_pos_rat.ne'

end FeatureSieve.FiniteDouble
