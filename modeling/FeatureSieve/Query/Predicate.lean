import FeatureSieve.Number.Numeral
import FeatureSieve.Predicate.Basic
import FeatureSieve.Query.Basic
import FeatureSieve.Text.Comma

/-! # Predicates of operators

The predicate for an operator and a typed text. Equality compares numbers where the
text is one, whatever kind of values the field has, and strings otherwise. A text
that is no number where one is due gives a NaN, which nothing passes.
-/

namespace FeatureSieve.Operator

/-- The typed number, or a NaN. -/
def typed (text : String) : Double :=
  match FiniteDouble.ofText? text with
  | some x => .finite x
  | none => .nan

def predicate (operator : Operator) (field text : String) : Predicate :=
  match operator with
  | equals =>
    match FiniteDouble.ofText? text with
    | some x => .numericComparison .equal field (.finite x)
    | none => .comparison .equal (.raw field) (.text text)
  | lessThan => .numericComparison .less field (typed text)
  | greaterThan => .numericComparison .greater field (typed text)
  | between =>
    let (low, high) := Text.cut text.toList
    .all [.numericComparison .greater field (typed (String.ofList low)),
      .numericComparison .less field (typed (String.ofList high))]
  | oneOf => .membership field ((Text.segments text.toList).map String.ofList)

end FeatureSieve.Operator
