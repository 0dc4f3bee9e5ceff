import FeatureSieve.Predicate.Basic

/-! # Filters and entries

A filter names the targets it is pushed to, the predicate that goes there and the
one that each target held before. An applied filter becomes an entry with an id.
-/

namespace FeatureSieve

structure Caption where
  title : String
  body : String
deriving DecidableEq

structure Filter where
  layer : String
  targets : List String
  predicate : Predicate
  /-- Aligned with the targets; `none` for a target without a predicate. -/
  priors : List (Option Predicate)
  caption : Caption
deriving DecidableEq

/-- Entries are numbered in the order in which they were applied. -/
structure FilterId where
  number : Nat
deriving DecidableEq

def FilterId.text (id : FilterId) : String := s!"#{id.number}"

structure Entry extends Filter where
  id : FilterId
deriving DecidableEq

/-- Whether the filter is on `name`, as its layer or as one of its targets. -/
def Filter.concerns (f : Filter) (name : String) : Bool := f.layer = name || f.targets.contains name

end FeatureSieve
