import FeatureSieve.Json.Written

/-! # Records

A record is written as an object, whose unknown members are ignored, or as the
array of its fields in order, where the last ones may be left out. A field given
twice spoils an object, and an element too many an array.
-/

namespace FeatureSieve.Json.Written

/-- The named fields of a record in the order of their names; absent ones are `none`. -/
def fields? (names : List String) : Written → Option (List (Option Written))
  | .array elements =>
    if elements.length ≤ names.length then
      some ((elements.map some).rightpad names.length none)
    else none
  | .object members => do
    let keyed ← members.mapM fun (units, w) => (CodeUnit.text? units).map (·, w)
    if names.all fun name => (keyed.filter (·.1 = name)).length ≤ 1 then
      some (names.map fun name => Keyed.get? name keyed)
    else none
  | _ => none

def list? : Written → Option (List Written)
  | .array elements => some elements
  | _ => none

/-- The name of a variant without content: a string, or an object whose one member is null. -/
def variant? : Written → Option String
  | .quoted units => CodeUnit.text? units
  | .object [(units, .null)] => CodeUnit.text? units
  | _ => none

end FeatureSieve.Json.Written
