import FeatureSieve.Json.Basic
import FeatureSieve.Number.Numeral
import FeatureSieve.Predicate.Basic
import FeatureSieve.Text.Blank

/-! # Meaning of predicates

A feature is the association of its attributes. A cast read makes a number of a
missing or null attribute, a boolean, a number or a numeric string; a comparison of
values that are not comparable selects nothing.
-/

namespace FeatureSieve

abbrev Feature := Keyed Json

def Comparator.holds : Comparator → Ordering → Bool
  | equal, o => o = .eq
  | less, o => o = .lt
  | greater, o => o = .gt

/-- A string as a number: blanks around it do not count, and nothing but blanks is zero. -/
def castText? (s : String) : Option FiniteDouble :=
  let trimmed := Text.trim s.toList
  if trimmed.isEmpty then some (.zero false) else FiniteDouble.ofText? (String.ofList trimmed)

/-- An attribute as a number. -/
def cast? : Option Json → Option FiniteDouble
  | none | some .null => some (.zero false)
  | some (.bool b) => some (if b then .one else .zero false)
  | some (.number n) => some n.toDouble
  | some (.string s) => castText? s
  | some (.array _) | some (.object _) => none

namespace Predicate

/-- How the attribute that is read compares with an operand, where it does. -/
def order? (feature : Feature) : Accessor → Operand → Option Ordering
  | .numeric field, .number y => (cast? (feature.get? field)).bind (·.compare? y)
  | .raw field, .number y =>
    match feature.get? field with
    | some (.number n) => n.toDouble.compare? y
    | _ => none
  | .raw field, .text t =>
    match feature.get? field with
    | some (.string s) => some (compare s t)
    | _ => none
  | .numeric _, .text _ => none

mutual

/-- Whether a feature passes the predicate. -/
def selects (feature : Feature) : Predicate → Bool
  | comparison c accessor operand => (order? feature accessor operand).any c.holds
  | membership field members =>
    match feature.get? field with
    | some (.string s) => members.contains s
    | _ => false
  | all children => selectsAll feature children
  | any children => selectsAny feature children
  | not child => !selects feature child
  | nothing => false

def selectsAll (feature : Feature) : List Predicate → Bool
  | [] => true
  | p :: rest => selects feature p && selectsAll feature rest

def selectsAny (feature : Feature) : List Predicate → Bool
  | [] => false
  | p :: rest => selects feature p || selectsAny feature rest

end

end Predicate

end FeatureSieve
