import FeatureSieve.Number.Decimal

/-! # Shortest decimals of doubles

The shortest decimal of a double is the first one, by number of digits, among the
neighbours of its value on the decimal grids that rounds back to it; of two on one
grid the nearer is preferred, and an exact tie goes to the even digit. What is
found rounds back because that is what it was tested for.
-/

namespace FeatureSieve

def digitCount (n : Nat) : Nat := (Nat.toDigits 10 n).length

namespace FiniteDouble

/-- The least `k` for which a positive number of units is below `10 ^ k`. -/
def decimalPlace (units : Nat) : Int :=
  if unitsPerOne ≤ units then digitCount (units / unitsPerOne)
  else 1 - digitCount ((unitsPerOne - 1) / units)

/-- The two neighbours of a number of units on the grid of `10 ^ exponent`, preferred one first. -/
def gridNeighbours (units : Nat) (exponent : Int) : List Decimal :=
  let num := units * Decimal.tenPow (-exponent).toNat
  let den := unitsPerOne * Decimal.tenPow exponent.toNat
  let preferred := roundHalfEven num den
  let other := if preferred = num / den then num / den + 1 else num / den
  [⟨preferred, exponent⟩, ⟨other, exponent⟩]

/-- All decimal places of a double. -/
def exactDecimal (x : FiniteDouble) : Decimal := ⟨x.units * Nat.pow 5 1074, -1074⟩

def shortestDecimal (x : FiniteDouble) : Decimal :=
  if x.magnitude = 0 then ⟨0, 0⟩
  else ((List.range 17).findSome? fun (i : Nat) =>
    (gridNeighbours x.units (decimalPlace x.units - (i + 1))).find? fun d =>
      d.toDouble? x.negative = some x).getD x.exactDecimal

end FiniteDouble

end FeatureSieve
