import FeatureSieve.Number.Numeral

/-! # Doubles by scaling

The quick way to a double. As many leading digits as fit in 64 bits are kept as a whole
number, which is rounded and then multiplied or divided by a rounded power of ten. Each
of these steps rounds, so the outcome is close to the numeral, but it need not be the
nearest double.
-/

namespace FeatureSieve

namespace FiniteDouble

/-- The last power of ten below the infinities is `10 ^ 308`. -/
def lastTenPower : Nat := 308

def tenPower? (k : Nat) : Option FiniteDouble := nearest? false (Decimal.tenPow k) 1

def timesTenPower? (x : FiniteDouble) (k : Nat) : Option FiniteDouble := do
  let p ← tenPower? k
  nearest? x.negative (x.units * p.units) (unitsPerOne * unitsPerOne)

def overTenPower? (x : FiniteDouble) (k : Nat) : Option FiniteDouble := do
  let p ← tenPower? k
  nearest? x.negative x.units p.units

/-- Divides by the last power of ten so many times, unless nothing is left before. -/
def overLastTenPowers? : Nat → FiniteDouble → Option FiniteDouble
  | 0, x => some x
  | times + 1, x =>
    if x.magnitude = 0 then some x
    else (x.overTenPower? lastTenPower).bind (overLastTenPowers? times)

/-- Multiplies by a power of ten, or divides by one. -/
def scale? (x : FiniteDouble) (exponent : Int) : Option FiniteDouble :=
  if lastTenPower < exponent then if x.magnitude = 0 then some x else none
  else if 0 ≤ exponent then x.timesTenPower? exponent.toNat
  else
    let k := (-exponent).toNat
    let times := (k - 1) / lastTenPower
    (overLastTenPowers? times x).bind fun y => y.overTenPower? (k - lastTenPower * times)

end FiniteDouble

namespace Numeral

/-- Takes digits on to a whole number while it fits in 64 bits, and returns what is left of them. -/
def takeDigits (whole : Nat) : List Char → Nat × List Char
  | [] => (whole, [])
  | c :: rest =>
    let next := 10 * whole + (c.toNat - '0'.toNat)
    if next < 0x10000000000000000 then takeDigits next rest else (whole, c :: rest)

/-- The digits after the point have a chance of their own: a zero may still fit. -/
def scaled? (n : Numeral) : Option FiniteDouble :=
  let (whole, dropped) := takeDigits 0 n.whole
  let (significand, left) := takeDigits whole (n.fraction.getD [])
  (FiniteDouble.nearest? n.isNegative significand 1).bind fun x =>
    x.scale? (n.decimal.exponent + dropped.length + left.length)

end Numeral

end FeatureSieve
