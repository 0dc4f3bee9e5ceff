import FeatureSieve.Number.Rounding

/-! # Decimal numbers

`coefficient * 10 ^ exponent`. Exponents typed by hand have no bound, so the
scales at which every decimal rounds to an infinity or to zero are told apart
before any power of ten is formed.
-/

namespace FeatureSieve

structure Decimal where
  coefficient : Nat
  exponent : Int
deriving DecidableEq

namespace Decimal

def tenPow (k : Nat) : Nat := Nat.pow 10 k

def numerator (d : Decimal) : Nat := d.coefficient * tenPow d.exponent.toNat

def denominator (d : Decimal) : Nat := tenPow (-d.exponent).toNat

/-- Below half a unit, judged by lengths in bits: `10 ^ k` has more than `3 * k` of them. -/
def isNegligible (d : Decimal) : Bool :=
  d.coefficient.log2 + 1076 ≤ 3 * (-d.exponent).toNat

/-- The double nearest to a decimal with the given sign; `none` where it rounds to an infinity. -/
def toDouble? (negative : Bool) (d : Decimal) : Option FiniteDouble :=
  if d.coefficient = 0 then some (FiniteDouble.zero negative)
  else if 309 ≤ d.exponent then none
  else if d.isNegligible then some (FiniteDouble.zero negative)
  else FiniteDouble.nearest? negative d.numerator d.denominator

end Decimal

end FeatureSieve
