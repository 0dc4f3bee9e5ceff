import FeatureSieve.Keyed
import FeatureSieve.Number.Rounding

/-! # JSON values

Whole numbers that fit in 64 bits, signed or unsigned, keep their integer value;
every other number is a finite double. Members of an object have distinct keys
and keep their order.
-/

namespace FeatureSieve

structure Integer64 where
  value : Int
  lower : -0x8000000000000000 ≤ value
  upper : value < 0x10000000000000000
deriving DecidableEq

/-- The nearest double. -/
def Integer64.toDouble (n : Integer64) : FiniteDouble :=
  .ofNatural (n.value < 0) n.value.natAbs (by have := n.lower; have := n.upper; omega)

inductive Json.Number where
  | integer (n : Integer64)
  | double (x : FiniteDouble)
deriving DecidableEq

def Json.Number.toDouble : Json.Number → FiniteDouble
  | .integer n => n.toDouble
  | .double x => x

inductive Json where
  | null
  | bool (b : Bool)
  | number (n : Json.Number)
  | string (s : String)
  | array (elements : List Json)
  | object (members : List (String × Json))

namespace Json

/-- A double as a value; JSON has no numeral for a NaN or an infinity and writes null. -/
def ofDouble : Double → Json
  | .finite x => .number (.double x)
  | _ => .null

mutual

/-- The number of arrays and objects around the innermost value. -/
def depth : Json → Nat
  | .array elements => elementsDepth elements + 1
  | .object members => membersDepth members + 1
  | _ => 0

def elementsDepth : List Json → Nat
  | [] => 0
  | v :: rest => max v.depth (elementsDepth rest)

def membersDepth : List (String × Json) → Nat
  | [] => 0
  | (_, v) :: rest => max v.depth (membersDepth rest)

end

end Json

end FeatureSieve
