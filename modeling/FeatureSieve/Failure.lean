import FeatureSieve.Renderer.Basic
import FeatureSieve.History.Entry
import FeatureSieve.Query.Screening

/-! # Failures

Why a filter was not applied or not reverted.
-/

namespace FeatureSieve

inductive Failure where
  | unknownLayer (layer : String)
  | unknownField (layer field : String)
  | operatorNotApplicable (field : String) (operator : Operator)
  | rejected (rejection : Rejection)
  | noTargets
  | mismatchedPriors (targets priors : Nat)
  | entryNotFound (id : FilterId)
  | renderer (target : String) (refusal : Refusal)
deriving DecidableEq

def Failure.message : Failure → String
  | unknownLayer layer => s!"Unknown layer: {layer}"
  | unknownField layer field => s!"Unknown field {field} on layer {layer}"
  | operatorNotApplicable field operator =>
    s!"Operator {operator} cannot be used with field {field}"
  | rejected rejection => s!"Invalid input: {rejection.message}"
  | noTargets => "A filter needs at least one target"
  | mismatchedPriors targets priors =>
    s!"Expected one prior predicate per target: {targets} targets, {priors} priors"
  | entryNotFound id => s!"Filter history entry not found: {id.text}"
  | renderer target refusal => s!"Map engine failed on target {target}: {refusal.text}"

end FeatureSieve
