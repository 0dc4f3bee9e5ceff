import FeatureSieve.Number.Numeral
import FeatureSieve.Number.Shortest

/-! # Written form of doubles

A double is written by its shortest digits. Where the point falls near them the
form is positional and always has a fraction (`10.0`); otherwise one digit stands
before the point and the exponent always has a sign (`1e+16`).
-/

namespace FeatureSieve

namespace Decimal

/-- Positions of the point, counted from the first digit, that are written positionally. -/
def isPositional (point : Int) : Bool := -5 < point && point ≤ 16

def positional (sign : Option Sign) (digits : List Char) (point : Int) : Numeral :=
  let padded := List.replicate (-point).toNat '0' ++ digits
  let whole := padded.take point.toNat
  let fraction := padded.drop point.toNat
  { sign
    whole := if point ≤ 0 then ['0'] else whole.rightpad point.toNat '0'
    fraction := some (if fraction.isEmpty then ['0'] else fraction)
    exponent := none }

def scientific (sign : Option Sign) (digits : List Char) (point : Int) : Numeral where
  sign
  whole := digits.take 1
  fraction := if (digits.drop 1).isEmpty then none else some (digits.drop 1)
  exponent := some ⟨some (if 1 ≤ point then .plus else .minus), Nat.toDigits 10 (point - 1).natAbs⟩

/-- The numeral of a decimal; zeros at the end of its coefficient are not written. -/
def numeral (negative : Bool) (d : Decimal) : Numeral :=
  let written := Nat.toDigits 10 d.coefficient
  let digits := (written.reverse.dropWhile (· = '0')).reverse
  let point := written.length + d.exponent
  let sign := if negative then some .minus else none
  if isPositional point then positional sign digits point else scientific sign digits point

end Decimal

namespace FiniteDouble

def numeral (x : FiniteDouble) : Numeral := x.shortestDecimal.numeral x.negative

def chars (x : FiniteDouble) : List Char := x.numeral.chars

def text (x : FiniteDouble) : String := String.ofList x.chars

end FiniteDouble

end FeatureSieve
