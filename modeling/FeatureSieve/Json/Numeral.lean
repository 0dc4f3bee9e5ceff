import FeatureSieve.Json.Basic
import FeatureSieve.Number.Layout
import FeatureSieve.Number.Scaling

/-! # Numerals in JSON

A numeral without a point or an exponent is a whole number and stays one while it
fits in 64 bits. Minus zero is a double, which alone can tell it from zero. How exactly
a double is read is left to a reader, and not every reader finds the nearest double.
-/

namespace FeatureSieve

namespace Integer64

def ofInt? (value : Int) : Option Integer64 :=
  if h : -0x8000000000000000 ≤ value ∧ value < 0x10000000000000000 then some ⟨value, h.1, h.2⟩
  else none

/-- The numeral's whole number, if it is written as one and fits. -/
def ofNumeral? (n : Numeral) : Option Integer64 :=
  let magnitude : Int := Nat.ofDigitChars 10 n.whole 0
  if n.fraction.isSome ∨ n.exponent.isSome ∨ n.isNegative ∧ magnitude = 0 then none
  else ofInt? (if n.isNegative then -magnitude else magnitude)

def numeral (n : Integer64) : Numeral where
  sign := if n.value < 0 then some .minus else none
  whole := Nat.toDigits 10 n.value.natAbs
  fraction := none
  exponent := none

end Integer64

class Json.DoubleReader where
  /-- The double that is taken for a numeral; `none` where that is an infinity. -/
  double? : Numeral → Option FiniteDouble

/-- The reader in use does not round exactly. -/
instance Json.scalingReader : Json.DoubleReader := ⟨Numeral.scaled?⟩

namespace Json.Number

/-- The value of a numeral; `none` where a double overflows. -/
def ofNumeral? [DoubleReader] (n : Numeral) : Option Json.Number :=
  match Integer64.ofNumeral? n with
  | some i => some (.integer i)
  | none => (DoubleReader.double? n).map .double

def numeral : Json.Number → Numeral
  | .integer n => n.numeral
  | .double x => x.numeral

end Json.Number

end FeatureSieve
