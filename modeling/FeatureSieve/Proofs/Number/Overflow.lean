import FeatureSieve.Proofs.Number.Nearest

/-! # Where rounding overflows

The midpoint between the largest double and the next power of two is the least number that
rounds to an infinity, since the magnitude of the largest double is odd. At the other end
all that is below half a unit rounds to zero.
-/

namespace FeatureSieve

namespace FiniteDouble

/-- Half the distance between the two largest doubles, in units. -/
def topHalfStep : Nat := 2 ^ 2044

theorem two_pow_add (k : Nat) : 2 ^ (2044 + k) = topHalfStep * 2 ^ k := by
  have h (m : Nat) : 2 ^ (m + k) = 2 ^ m * 2 ^ k := Nat.pow_add 2 m k
  exact h 2044

theorem unitsOf_magnitudeBound : unitsOf magnitudeBound = 2 ^ 54 * topHalfStep := by
  have h : unitsOf ((2044 + 2) * binade + binade) = binade * 2 ^ (2044 + 2) :=
    unitsOf_add (Or.inl le_rfl) (by decide)
  rw [show magnitudeBound = (2044 + 2) * binade + binade from rfl, h, two_pow_add]
  simp only [binade]
  omega

theorem unitsOf_largest : unitsOf (magnitudeBound - 1) = (2 ^ 54 - 2) * topHalfStep := by
  have h : unitsOf ((2044 + 1) * binade + (2 * binade - 1)) = (2 * binade - 1) * 2 ^ (2044 + 1) :=
    unitsOf_add (Or.inl (by decide)) (by decide)
  rw [show magnitudeBound - 1 = (2044 + 1) * binade + (2 * binade - 1) from rfl, h, two_pow_add]
  simp only [binade]
  omega

/-- A quotient stays finite exactly below the midpoint. -/
theorem nearestMagnitude_lt_iff (num : Nat) {den : Nat} (hd : 0 < den) :
    nearestMagnitude num den < magnitudeBound ↔
      num * unitsPerOne < (2 ^ 54 - 1) * (topHalfStep * den) := by
  have htop : unitsOf magnitudeBound * den = 2 ^ 54 * (topHalfStep * den) := by
    rw [unitsOf_magnitudeBound, Nat.mul_assoc]
  have hlast : unitsOf (magnitudeBound - 1) * den = (2 ^ 54 - 2) * (topHalfStep * den) := by
    rw [unitsOf_largest, Nat.mul_assoc]
  obtain ⟨hmin, heven⟩ := distance_nearestMagnitude_le num hd magnitudeBound
  obtain ⟨hmin', -⟩ := distance_nearestMagnitude_le num hd (magnitudeBound - 1)
  unfold distance at hmin heven hmin'
  rw [htop] at hmin heven
  rw [hlast] at hmin'
  constructor
  · intro hlt
    have hle : unitsOf (nearestMagnitude num den) * den ≤ unitsOf (magnitudeBound - 1) * den :=
      Nat.mul_le_mul_right den (unitsOf_strictMono.monotone (Nat.le_sub_one_of_lt hlt))
    by_contra hge
    -- the largest double is as near as the infinity, so it would have to be even
    have hsame : unitsOf (nearestMagnitude num den) * den = unitsOf (magnitudeBound - 1) * den := by
      omega
    have hmagnitude : nearestMagnitude num den = magnitudeBound - 1 :=
      unitsOf_strictMono.injective (Nat.eq_of_mul_eq_mul_right hd hsame)
    rcases heven (by omega) with h | h
    · exact hlt.ne h.symm
    · rw [hmagnitude] at h
      exact absurd h (by decide)
  · intro hlt
    by_contra hge
    have hle : unitsOf magnitudeBound * den ≤ unitsOf (nearestMagnitude num den) * den :=
      Nat.mul_le_mul_right den (unitsOf_strictMono.monotone (not_lt.mp hge))
    rw [htop] at hle
    omega

theorem topHalfStep_cast : (topHalfStep : ℚ) = 2 ^ 970 * unitsPerOne := by
  have hunits : (unitsPerOne : ℚ) = 2 ^ 1074 := by
    simp only [unitsPerOne, Nat.one_shiftLeft, Nat.cast_pow, Nat.cast_ofNat]
  rw [hunits, topHalfStep, Nat.cast_pow, Nat.cast_ofNat, ← pow_add]

theorem midpoint_eq : (2 : ℚ) ^ 1024 - 2 ^ 970 = (2 ^ 54 - 1) * 2 ^ 970 := by
  rw [show 1024 = 54 + 970 from rfl, pow_add, sub_mul, one_mul]

theorem nearestMagnitude_lt_iff_div_lt (num : Nat) {den : Nat} (hd : 0 < den) :
    nearestMagnitude num den < magnitudeBound ↔ (num : ℚ) / den < 2 ^ 1024 - 2 ^ 970 := by
  have hden : (0 : ℚ) < den := by exact_mod_cast hd
  have hscaled : (((2 ^ 54 - 1) * (topHalfStep * den) : Nat) : ℚ) =
      (2 ^ 1024 - 2 ^ 970) * den * unitsPerOne := by
    rw [midpoint_eq, Nat.cast_mul, Nat.cast_mul, topHalfStep_cast]
    generalize (2 : ℚ) ^ 970 = t
    push_cast
    ring
  rw [nearestMagnitude_lt_iff num hd, div_lt_iff₀ hden,
    ← mul_lt_mul_iff_of_pos_right unitsPerOne_pos_rat, ← hscaled, ← Nat.cast_mul, Nat.cast_lt]

/-- The size of a double is half a step below the midpoint at least. -/
theorem units_div_le (x : FiniteDouble) : (x.units : ℚ) / unitsPerOne ≤ (2 ^ 54 - 2) * 2 ^ 970 := by
  have hle : x.units ≤ (2 ^ 54 - 2) * topHalfStep := by
    rw [← unitsOf_largest]
    exact unitsOf_strictMono.monotone (Nat.le_pred_of_lt x.magnitude_lt)
  have hcast : (((2 ^ 54 - 2) * topHalfStep : Nat) : ℚ) = (2 ^ 54 - 2) * 2 ^ 970 * unitsPerOne := by
    rw [Nat.cast_mul, topHalfStep_cast]
    generalize (2 : ℚ) ^ 970 = t
    push_cast
    ring
  rw [div_le_iff₀ unitsPerOne_pos_rat, ← hcast]
  exact_mod_cast hle

/-- So rounding it again does not overflow. -/
theorem units_div_lt (x : FiniteDouble) : (x.units : ℚ) / unitsPerOne < 2 ^ 1024 - 2 ^ 970 := by
  have hstep : (0 : ℚ) < 2 ^ 970 := pow_pos (by norm_num) _
  rw [midpoint_eq]
  exact x.units_div_le.trans_lt (mul_lt_mul_of_pos_right (by norm_num) hstep)

/-- A number below half a unit rounds to zero. -/
theorem nearestMagnitude_eq_zero {num den : Nat} (h : 2 * (num * unitsPerOne) < den) :
    nearestMagnitude num den = 0 := by
  have hd : 0 < den := by omega
  obtain ⟨hmin, -⟩ := distance_nearestMagnitude_le num hd 0
  by_contra hne
  have hpos : unitsOf 0 < unitsOf (nearestMagnitude num den) :=
    unitsOf_strictMono (Nat.pos_of_ne_zero hne)
  have hle : den ≤ unitsOf (nearestMagnitude num den) * den := Nat.le_mul_of_pos_left den hpos
  unfold distance at hmin
  rw [unitsOf_zero, Nat.zero_mul] at hmin
  omega

theorem nearest?_eq_some_iff {negative : Bool} {num den : Nat} {x : FiniteDouble} :
    nearest? negative num den = some x ↔
      x.negative = negative ∧ x.magnitude = nearestMagnitude num den := by
  unfold nearest?
  split
  · next h =>
    constructor
    · rintro ⟨⟩
      exact ⟨rfl, rfl⟩
    · rintro ⟨rfl, hm⟩
      obtain ⟨negative, magnitude, hlt⟩ := x
      obtain rfl : magnitude = nearestMagnitude num den := hm
      rfl
  · next h =>
    simp only [reduceCtorEq, false_iff]
    rintro ⟨-, hm⟩
    exact h (hm ▸ x.magnitude_lt)

theorem nearest?_zero (negative : Bool) {den : Nat} (hd : 0 < den) :
    nearest? negative 0 den = some (zero negative) := by
  have h : nearestMagnitude 0 den = 0 := nearestMagnitude_eq_zero (by omega)
  exact nearest?_eq_some_iff.mpr ⟨rfl, h.symm⟩

section Quotients

variable {negative : Bool} {num den num' den' : Nat} {x : FiniteDouble}

/-- The nearest double with the sign, if that is not an infinity. -/
theorem nearest?_eq_some_iff_isNearest (hd : 0 < den) : nearest? negative num den = some x ↔
    (num / den : ℚ) < 2 ^ 1024 - 2 ^ 970 ∧ x.negative = negative ∧
      x.IsNearest (signed negative (num / den)) := by
  rw [nearest?_eq_some_iff, ← nearestMagnitude_lt_iff_div_lt _ hd]
  constructor
  · rintro ⟨rfl, hm⟩
    exact ⟨hm ▸ x.magnitude_lt, rfl, isNearest_of_magnitude_eq hd hm⟩
  · rintro ⟨hlt, rfl, hx⟩
    have hy : IsNearest ⟨x.negative, _, hlt⟩ _ := isNearest_of_magnitude_eq hd rfl
    have hkey := value_inj.mp (hx.value_eq hy)
    refine ⟨rfl, ?_⟩
    rw [← natAbs_key, hkey, natAbs_key]

/-- Rounding depends on the quotient alone. -/
theorem nearest?_congr (hd : 0 < den) (hd' : 0 < den') (h : (num / den : ℚ) = num' / den') :
    nearest? negative num den = nearest? negative num' den' := by
  apply Option.ext
  intro x
  rw [nearest?_eq_some_iff_isNearest hd, nearest?_eq_some_iff_isNearest hd', h]

/-- A double is not changed by rounding. -/
theorem nearest?_of_div_eq (hd : 0 < den) (h : (num / den : ℚ) = x.units / unitsPerOne) :
    nearest? x.negative num den = some x := by
  rw [nearest?_eq_some_iff_isNearest hd, h, ← value_eq_signed]
  exact ⟨x.units_div_lt, rfl, x.isNearest_value⟩

end Quotients

end FiniteDouble

end FeatureSieve
