/-! # Double-precision numbers

A finite double is a sign and a magnitude. The magnitude is the 63-bit word below
the sign bit; it grows with the absolute value, so magnitudes compare as the
values do, and the two zeros have the same one. Every finite double is a whole
number of units of `2 ^ (-1074)`.
-/

namespace FeatureSieve

/-- The number of doubles from one power of two up to the next, which is `2 ^ 52`. -/
abbrev FiniteDouble.binade : Nat := 0x10000000000000

/-- The magnitude of an infinity: all exponent bits set. -/
abbrev FiniteDouble.magnitudeBound : Nat := 0x7FF0000000000000

structure FiniteDouble where
  negative : Bool
  magnitude : Nat
  magnitude_lt : magnitude < FiniteDouble.magnitudeBound
deriving DecidableEq

inductive Double where
  | nan
  | infinite (negative : Bool)
  | finite (x : FiniteDouble)
deriving DecidableEq

namespace FiniteDouble

def zero (negative : Bool) : FiniteDouble := ⟨negative, 0, by decide⟩

def one : FiniteDouble := ⟨false, 0x3FF0000000000000, by decide⟩

/-- The number of units of `2 ^ (-1074)` in one. -/
def unitsPerOne : Nat := 1 <<< 1074

theorem unitsPerOne_eq_shiftLeft (n : Nat) : n * unitsPerOne = n <<< 1074 := by
  simp only [unitsPerOne, Nat.shiftLeft_eq, Nat.one_mul]

theorem unitsPerOne_pos : 0 < unitsPerOne := by
  simp only [unitsPerOne, Nat.shiftLeft_eq, Nat.one_mul]
  apply Nat.pow_pos
  decide

/-- The number of units in a magnitude: the significand, shifted by the exponent. -/
def unitsOf (magnitude : Nat) : Nat :=
  if magnitude < binade then magnitude
  else (binade + magnitude % binade) <<< (magnitude / binade - 1)

def units (x : FiniteDouble) : Nat := unitsOf x.magnitude

/-- The 64-bit word of a finite double. -/
def word (x : FiniteDouble) : Nat :=
  if x.negative then 0x8000000000000000 + x.magnitude else x.magnitude

/-- The signed magnitude, which orders doubles by value. -/
def key (x : FiniteDouble) : Int := if x.negative then -x.magnitude else x.magnitude

/-- Order by value. Nothing is comparable with a NaN. -/
def compare? (x : FiniteDouble) : Double → Option Ordering
  | .nan => none
  | .infinite negative => some (if negative then .gt else .lt)
  | .finite y => some (compare x.key y.key)

end FiniteDouble

end FeatureSieve
