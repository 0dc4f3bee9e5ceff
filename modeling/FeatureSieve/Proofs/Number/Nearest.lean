import FeatureSieve.Json.Basic
import FeatureSieve.Number.Rounding
import FeatureSieve.Proofs.Number.Value

/-! # Rounding gives the nearest double

No double is nearer to a quotient than the one that it is rounded to, and of two that are
equally near the one with the even magnitude is taken. Distances are compared without
dividing; below the grid on which a quotient is rounded, its first point is the nearest.
-/

namespace FeatureSieve

/-- How far `u` is from `a / b`, in parts of which `b` make one. -/
def distance (a b u : Nat) : Nat := ((u * b : Nat) - a : Int).natAbs

theorem distance_mul_pow (a b u k : Nat) : distance a b (u * 2 ^ k) = distance a (b * 2 ^ k) u := by
  rw [distance, distance, Nat.mul_assoc, Nat.mul_comm (2 ^ k) b]

theorem distance_lt_of_lt {a b u v : Nat} (hb : 0 < b) (h : u < v) (hv : v * b ≤ a) :
    distance a b v < distance a b u := by
  have hlt := Nat.mul_lt_mul_of_pos_right h hb
  unfold distance
  omega

/-- No other natural is nearer to `a / b`, and on a tie the rounded one is even. -/
theorem distance_roundHalfEven_le (a : Nat) {b : Nat} (hb : 0 < b) (k : Nat) :
    distance a b (roundHalfEven a b) ≤ distance a b k ∧
    (distance a b k = distance a b (roundHalfEven a b) →
      k = roundHalfEven a b ∨ roundHalfEven a b % 2 = 0) := by
  have ha : a / b * b + a % b = a := Nat.div_add_mod' a b
  have hlt := Nat.mod_lt a hb
  have hsucc : (a / b + 1) * b = a / b * b + b := Nat.succ_mul _ _
  have hk : k + 1 ≤ a / b ∧ k * b + b ≤ a / b * b ∨ k = a / b ∨ k = a / b + 1 ∨
      a / b + 1 + 1 ≤ k ∧ a / b * b + b + b ≤ k * b := by
    rcases Nat.lt_or_ge k (a / b) with h | h
    · have hm := Nat.mul_le_mul_right b h
      rw [Nat.succ_mul] at hm
      exact Or.inl ⟨h, hm⟩
    · rcases Nat.lt_or_ge (a / b + 1) k with h' | h'
      · have hm := Nat.mul_le_mul_right b h'
        rw [Nat.succ_mul, Nat.succ_mul] at hm
        exact Or.inr (Or.inr (Or.inr ⟨h', hm⟩))
      · omega
  unfold distance roundHalfEven
  split
  · rcases hk with ⟨h, hm⟩ | rfl | rfl | ⟨h, hm⟩
    · omega
    · omega
    · omega
    · omega
  · rcases hk with ⟨h, hm⟩ | rfl | rfl | ⟨h, hm⟩
    · omega
    · omega
    · omega
    · omega

namespace FiniteDouble

/-- Where bits are left out, what is left fills a significand. -/
theorem binade_le_shiftRight_droppedBits {units : Nat} (h : droppedBits units ≠ 0) :
    binade ≤ units / 2 ^ droppedBits units := by
  have hlog : units.log2 = 52 + droppedBits units := by
    unfold droppedBits at *
    omega
  have hne : units ≠ 0 := by
    rintro rfl
    simp [droppedBits] at h
  have hle := Nat.log2_self_le hne
  rw [Nat.le_div_iff_mul_le (Nat.two_pow_pos _), show binade = 2 ^ 52 from rfl, ← Nat.pow_add]
  rwa [hlog] at hle

theorem nearestMagnitude_eq (num : Nat) {den : Nat} (hd : 0 < den) :
    ∃ drop r, nearestMagnitude num den = drop * binade + r ∧
      r = roundHalfEven (num * unitsPerOne) (den * 2 ^ drop) ∧ r ≤ 2 * binade ∧
      (binade * (den * 2 ^ drop) ≤ num * unitsPerOne ∧ binade ≤ r ∨ drop = 0) := by
  have hdiv (drop : Nat) : num * unitsPerOne / (den * 2 ^ drop) =
      num * unitsPerOne / den / 2 ^ drop := (Nat.div_div_eq_div_mul _ _ _).symm
  refine ⟨droppedBits (num * unitsPerOne / den), _, ?_, rfl, ?_, ?_⟩
  · rw [nearestMagnitude, Nat.shiftLeft_eq]
  · have hlt := shiftRight_droppedBits_lt (num * unitsPerOne / den)
    have hle := roundHalfEven_le_succ (num * unitsPerOne)
      (den * 2 ^ droppedBits (num * unitsPerOne / den))
    rw [Nat.shiftRight_eq_div_pow, ← hdiv] at hlt
    omega
  · by_cases hdrop : droppedBits (num * unitsPerOne / den) = 0
    · exact Or.inr hdrop
    · left
      have hge := binade_le_shiftRight_droppedBits hdrop
      rw [← hdiv] at hge
      have hpos : 0 < den * 2 ^ droppedBits (num * unitsPerOne / den) :=
        Nat.mul_pos hd (Nat.two_pow_pos _)
      exact ⟨(Nat.le_div_iff_mul_le hpos).mp hge, hge.trans (div_le_roundHalfEven _ _)⟩

theorem distance_nearestMagnitude_le (num : Nat) {den : Nat} (hd : 0 < den) (m : Nat) :
    distance (num * unitsPerOne) den (unitsOf (nearestMagnitude num den)) ≤
      distance (num * unitsPerOne) den (unitsOf m) ∧
    (distance (num * unitsPerOne) den (unitsOf m) =
      distance (num * unitsPerOne) den (unitsOf (nearestMagnitude num den)) →
      m = nearestMagnitude num den ∨ nearestMagnitude num den % 2 = 0) := by
  obtain ⟨drop, r, hM, hr, hu, hl⟩ := nearestMagnitude_eq num hd
  obtain ⟨e, k, hm, hl', hu'⟩ := exists_grid m
  have hpos : 0 < den * 2 ^ drop := Nat.mul_pos hd (Nat.two_pow_pos _)
  have hMunits : unitsOf (nearestMagnitude num den) = r * 2 ^ drop :=
    hM ▸ unitsOf_add (hl.imp_left And.right) hu
  have hmunits : unitsOf m = k * 2 ^ e := hm ▸ unitsOf_add hl' hu'.le
  rcases Nat.lt_or_ge e drop with h | h
  · -- The magnitude is below the grid, and the quotient is not.
    have hbelow : unitsOf m < binade * 2 ^ drop := by
      rw [← unitsOf_add (Or.inl le_rfl) (by omega), hm]
      apply unitsOf_strictMono
      have hsucc := Nat.mul_le_mul_right binade h
      rw [Nat.succ_mul] at hsucc
      omega
    have hstart : binade * 2 ^ drop * den ≤ num * unitsPerOne := by
      rcases hl with hl | hl
      · rw [Nat.mul_assoc, Nat.mul_comm (2 ^ drop)]
        exact hl.1
      · omega
    have hlt := distance_lt_of_lt hd hbelow hstart
    have hle := (distance_roundHalfEven_le (num * unitsPerOne) hpos binade).1
    rw [distance_mul_pow] at hlt
    rw [hMunits, distance_mul_pow, hr]
    exact ⟨hle.trans hlt.le, fun heq => absurd heq (hle.trans_lt hlt).ne'⟩
  · obtain ⟨more, rfl⟩ := Nat.exists_eq_add_of_le h
    have hk : unitsOf m = k * 2 ^ more * 2 ^ drop := by
      rw [hmunits, Nat.add_comm, Nat.pow_add, Nat.mul_assoc]
    obtain ⟨hle, heven⟩ := distance_roundHalfEven_le (num * unitsPerOne) hpos (k * 2 ^ more)
    rw [← hr] at hle heven
    rw [hMunits, hk, distance_mul_pow, distance_mul_pow]
    refine ⟨hle, fun heq => ?_⟩
    rcases heven heq with hsame | hzero
    · left
      apply unitsOf_strictMono.injective
      rw [hk, hMunits, hsame]
    · right
      simp only [binade] at hM
      omega

/-- No double is nearer to `v`, and if another one is as near then `x` is the even one. -/
structure IsNearest (x : FiniteDouble) (v : ℚ) : Prop where
  le : ∀ y : FiniteDouble, |x.value - v| ≤ |y.value - v|
  even : ∀ y : FiniteDouble, |y.value - v| = |x.value - v| →
    y.value = x.value ∨ x.magnitude % 2 = 0

/-- A size with a sign. -/
def signed (negative : Bool) (size : ℚ) : ℚ := if negative then -size else size

theorem value_eq_signed (x : FiniteDouble) : x.value = signed x.negative (x.units / unitsPerOne) := by
  unfold value signedUnits signed
  split
  · push_cast
    exact neg_div _ _
  · rfl

theorem abs_signed (negative : Bool) {size : ℚ} (h : 0 ≤ size) : |signed negative size| = size := by
  cases negative
  · exact abs_of_nonneg h
  · exact (abs_neg size).trans (abs_of_nonneg h)

theorem abs_signed_sub_signed (negative : Bool) (a b : ℚ) :
    |signed negative a - signed negative b| = |a - b| := by
  cases negative
  · rfl
  · rw [signed, signed, if_pos rfl, if_pos rfl, ← abs_neg]
    congr 1
    ring

theorem abs_signed_not_sub_signed {negative : Bool} {a b : ℚ} (ha : 0 ≤ a) (hb : 0 ≤ b) :
    |signed (!negative) a - signed negative b| = a + b := by
  cases negative
  · have h : signed (!false) a - signed false b = -(a + b) := by
      simp only [signed, Bool.not_false, if_true, Bool.false_eq_true, if_false]
      ring
    rw [h, abs_neg, abs_of_nonneg (add_nonneg ha hb)]
  · have h : signed (!true) a - signed true b = a + b := by
      simp only [signed, Bool.not_true, if_true, Bool.false_eq_true, if_false]
      ring
    rw [h, abs_of_nonneg (add_nonneg ha hb)]

theorem abs_units_sub (u num : Nat) {den : Nat} (hd : 0 < den) :
    |(u : ℚ) / unitsPerOne - num / den| =
      distance (num * unitsPerOne) den u / (unitsPerOne * den) := by
  have hU := unitsPerOne_pos_rat
  have hden : (0 : ℚ) < den := by exact_mod_cast hd
  have hcast : (distance (num * unitsPerOne) den u : ℚ) = |(u : ℚ) * den - num * unitsPerOne| := by
    rw [distance, Nat.cast_natAbs]
    push_cast
    rfl
  have hsub : (u : ℚ) / unitsPerOne - num / den =
      (u * den - num * unitsPerOne) / (unitsPerOne * den) := by
    rw [div_sub_div _ _ hU.ne' hden.ne', mul_comm (unitsPerOne : ℚ) (num : ℚ)]
  rw [hcast, hsub, abs_div, abs_of_pos (mul_pos hU hden)]

theorem abs_value_sub_of_same {y : FiniteDouble} {negative : Bool} (h : y.negative = negative)
    (num : Nat) {den : Nat} (hd : 0 < den) : |y.value - signed negative (num / den)| =
      distance (num * unitsPerOne) den (unitsOf y.magnitude) / (unitsPerOne * den) := by
  rw [value_eq_signed, h, abs_signed_sub_signed, abs_units_sub _ _ hd]
  rfl

/-- The sizes add up where the signs differ. -/
theorem abs_value_sub_of_other {y : FiniteDouble} {negative : Bool} (h : y.negative ≠ negative)
    {v : ℚ} (hv : 0 ≤ v) : |y.value - signed negative v| = y.units / unitsPerOne + v := by
  have hunits : (0 : ℚ) ≤ y.units / unitsPerOne := div_nonneg (Nat.cast_nonneg _) (Nat.cast_nonneg _)
  rw [value_eq_signed, Bool.eq_not_of_ne h, abs_signed_not_sub_signed hunits hv]

theorem isNearest_of_magnitude_eq {x : FiniteDouble} {num den : Nat} (hd : 0 < den)
    (hx : x.magnitude = nearestMagnitude num den) :
    x.IsNearest (signed x.negative (num / den)) := by
  have hscale : (0 : ℚ) < unitsPerOne * den :=
    mul_pos unitsPerOne_pos_rat (by exact_mod_cast hd)
  have hsize : (0 : ℚ) ≤ num / den := div_nonneg (Nat.cast_nonneg _) (Nat.cast_nonneg _)
  have hzero : (distance (num * unitsPerOne) den (unitsOf 0) : ℚ) / (unitsPerOne * den) =
      num / den := by
    have h := abs_units_sub 0 num hd
    rw [Nat.cast_zero, zero_div, zero_sub, abs_neg, abs_of_nonneg hsize] at h
    exact h.symm
  have hunits (y : FiniteDouble) : (0 : ℚ) ≤ y.units / unitsPerOne :=
    div_nonneg (Nat.cast_nonneg _) (Nat.cast_nonneg _)
  have hle (m : Nat) : (distance (num * unitsPerOne) den (unitsOf x.magnitude) : ℚ) /
      (unitsPerOne * den) ≤ distance (num * unitsPerOne) den (unitsOf m) / (unitsPerOne * den) := by
    rw [hx]
    apply div_le_div_of_nonneg_right _ hscale.le
    exact_mod_cast (distance_nearestMagnitude_le num hd m).1
  have heven (m : Nat) (h : (distance (num * unitsPerOne) den (unitsOf m) : ℚ) /
      (unitsPerOne * den) ≤
        distance (num * unitsPerOne) den (unitsOf x.magnitude) / (unitsPerOne * den)) :
      m = x.magnitude ∨ x.magnitude % 2 = 0 := by
    have hnat : distance (num * unitsPerOne) den (unitsOf m) ≤
        distance (num * unitsPerOne) den (unitsOf x.magnitude) := by
      exact_mod_cast (div_le_div_iff_of_pos_right hscale).mp h
    obtain ⟨hmin, hpar⟩ := distance_nearestMagnitude_le num hd m
    rw [← hx] at hmin hpar
    exact hpar (Nat.le_antisymm hnat hmin)
  constructor
  · intro y
    rw [abs_value_sub_of_same rfl num hd]
    by_cases h : y.negative = x.negative
    · rw [abs_value_sub_of_same h num hd]
      exact hle y.magnitude
    · rw [abs_value_sub_of_other h hsize]
      have hu := hunits y
      have h0 := hle 0
      linarith
  · intro y hy
    rw [abs_value_sub_of_same rfl num hd] at hy
    by_cases h : y.negative = x.negative
    · rw [abs_value_sub_of_same h num hd] at hy
      rcases heven y.magnitude hy.le with hm | hm
      · left
        rw [value_eq_signed, value_eq_signed, units, units, h, hm]
      · exact Or.inr hm
    · rw [abs_value_sub_of_other h hsize] at hy
      have hu := hunits y
      rcases heven 0 (by linarith) with hm | hm
      · exact Or.inr (hm ▸ rfl)
      · exact Or.inr hm

theorem exists_key_eq {k : Int} (h : k.natAbs < magnitudeBound) : ∃ y : FiniteDouble, y.key = k := by
  refine ⟨⟨decide (k < 0), k.natAbs, h⟩, ?_⟩
  unfold key
  by_cases hk : k < 0
  · simp only [hk, decide_true, if_true]
    omega
  · simp only [hk, decide_false, Bool.false_eq_true, if_false]
    omega

theorem IsNearest.not_value_lt {x x' : FiniteDouble} {v : ℚ} (h : x.IsNearest v) (h' : x'.IsNearest v) :
    ¬ x.value < x'.value := by
  intro hlt
  have hd : |x.value - v| = |x'.value - v| := le_antisymm (h.le x') (h'.le x)
  have he : x.magnitude % 2 = 0 := (h.even x' hd.symm).resolve_left hlt.ne'
  have he' : x'.magnitude % 2 = 0 := (h'.even x hd).resolve_left hlt.ne
  -- Both keys are even, so there is a double between the two that is nearer than both.
  have hkeys : x.key + 2 ≤ x'.key ∧ (x.key + 1).natAbs < magnitudeBound := by
    have hk := value_lt_iff.mp hlt
    have hx := x.magnitude_lt
    have hx' := x'.magnitude_lt
    have hm := x.natAbs_key
    have hm' := x'.natAbs_key
    omega
  obtain ⟨y, hy⟩ := exists_key_eq hkeys.2
  have hxy : x.value < y.value := value_lt_iff.mpr (by omega)
  have hyx : y.value < x'.value := value_lt_iff.mpr (by omega)
  rcases abs_eq_abs.mp hd with hs | hs
  · linarith
  · have hneg : |x.value - v| = -(x.value - v) := abs_of_neg (by linarith)
    have hnear : |y.value - v| < |x.value - v| := by
      rw [hneg, abs_lt]
      constructor
      · linarith
      · linarith
    exact absurd (h.le y) (not_le.mpr hnear)

/-- Only one value is the nearest. -/
theorem IsNearest.value_eq {x x' : FiniteDouble} {v : ℚ} (h : x.IsNearest v) (h' : x'.IsNearest v) :
    x.value = x'.value := le_antisymm (not_lt.mp (h'.not_value_lt h)) (not_lt.mp (h.not_value_lt h'))

theorem isNearest_value (x : FiniteDouble) : x.IsNearest x.value := by
  constructor
  · intro y
    rw [sub_self, abs_zero]
    exact abs_nonneg _
  · intro y hy
    rw [sub_self, abs_zero, abs_eq_zero, sub_eq_zero] at hy
    exact Or.inl hy

/-- A number between a double and one that the double is nearest to. -/
theorem IsNearest.of_between {x : FiniteDouble} {u w : ℚ} (h : x.IsNearest u)
    (hw : x.value ≤ w ∧ w ≤ u ∨ u ≤ w ∧ w ≤ x.value) : x.IsNearest w := by
  have hsum : |x.value - w| + |w - u| = |x.value - u| := by
    rcases hw with ⟨hx, hu⟩ | ⟨hu, hx⟩
    · rw [abs_of_nonpos (by linarith), abs_of_nonpos (by linarith), abs_of_nonpos (by linarith)]
      ring
    · rw [abs_of_nonneg (by linarith), abs_of_nonneg (by linarith), abs_of_nonneg (by linarith)]
      ring
  have htriangle (y : FiniteDouble) : |y.value - u| ≤ |y.value - w| + |w - u| := abs_sub_le _ _ _
  constructor
  · intro y
    have hle := h.le y
    have hy := htriangle y
    linarith
  · intro y heq
    have hle := h.le y
    have hy := htriangle y
    exact h.even y (by linarith)

/-- Rounding keeps the order. -/
theorem IsNearest.value_le {x y : FiniteDouble} {u v : ℚ} (hx : x.IsNearest u)
    (hy : y.IsNearest v) (h : u ≤ v) : x.value ≤ y.value := by
  rcases h.eq_or_lt with rfl | hlt
  · exact (hx.value_eq hy).le
  · by_contra hgt
    have hprod : 0 < (x.value - y.value) * (v - u) :=
      mul_pos (sub_pos.mpr (not_le.mp hgt)) (sub_pos.mpr hlt)
    have hxy := sq_le_sq.mpr (hx.le y)
    have hyx := sq_le_sq.mpr (hy.le x)
    linarith

/-- A double without its sign. -/
def size (x : FiniteDouble) : FiniteDouble := ⟨false, x.magnitude, x.magnitude_lt⟩

theorem value_size (x : FiniteDouble) : x.size.value = x.units / unitsPerOne :=
  x.size.value_eq_signed

theorem abs_value (x : FiniteDouble) : |x.value| = x.size.value := by
  have hsize : (0 : ℚ) ≤ x.units / unitsPerOne := div_nonneg (Nat.cast_nonneg _) (Nat.cast_nonneg _)
  rw [value_eq_signed, abs_signed _ hsize, value_size]

theorem value_size_pos {x : FiniteDouble} (h : x.magnitude ≠ 0) : 0 < x.size.value := by
  have hunits : unitsOf 0 < x.units := unitsOf_strictMono (Nat.pos_of_ne_zero h)
  rw [value_size]
  exact div_pos (by exact_mod_cast hunits) unitsPerOne_pos_rat

theorem magnitude_eq_of_value_size_eq {x y : FiniteDouble} (h : x.size.value = y.size.value) :
    x.magnitude = y.magnitude := by
  have hkey : (x.magnitude : Int) = y.magnitude := value_inj.mp h
  exact_mod_cast hkey

end FiniteDouble

namespace Json.Number

/-- The number as it is written, before it is rounded. -/
def value : Json.Number → ℚ
  | .integer n => n.value
  | .double x => x.value

theorem toDouble_isNearest (n : Json.Number) : n.toDouble.IsNearest n.value := by
  cases n with
  | integer n =>
    have hx : n.toDouble.IsNearest _ := FiniteDouble.isNearest_of_magnitude_eq Nat.one_pos rfl
    have hv : FiniteDouble.signed n.toDouble.negative (n.value.natAbs / (1 : Nat)) = n.value := by
      have hneg : n.toDouble.negative = decide (n.value < 0) := rfl
      rw [Nat.cast_one, div_one, Nat.cast_natAbs, hneg, FiniteDouble.signed]
      by_cases h : n.value < 0
      · simp [h, abs_of_neg h]
      · simp [h, abs_of_nonneg (not_lt.mp h)]
    rwa [hv] at hx
  | double x => exact x.isNearest_value

end Json.Number

end FeatureSieve
