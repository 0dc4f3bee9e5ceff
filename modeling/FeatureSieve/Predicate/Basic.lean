import FeatureSieve.Number.Double

/-! # Predicates

Boolean trees over the attributes of a feature. A comparison reads one attribute,
as it is or cast to a number, and compares it with an operand; a membership asks for
one of a list of strings.
-/

namespace FeatureSieve

inductive Comparator where
  | equal
  | less
  | greater
deriving DecidableEq

/-- How a comparison reads an attribute. -/
inductive Accessor where
  | raw (field : String)
  | numeric (field : String)
deriving DecidableEq

def Accessor.field : Accessor → String
  | raw field => field
  | numeric field => field

inductive Operand where
  | number (x : Double)
  | text (s : String)
deriving DecidableEq

inductive Predicate where
  | comparison (comparator : Comparator) (accessor : Accessor) (operand : Operand)
  | membership (field : String) (members : List String)
  | all (children : List Predicate)
  | any (children : List Predicate)
  | not (child : Predicate)
  /-- Excludes every feature. -/
  | nothing

namespace Predicate

mutual

def decEq : (p q : Predicate) → Decidable (p = q)
  | comparison c a l, comparison c' a' l' =>
    decidable_of_iff (c = c' ∧ a = a' ∧ l = l') (by simp)
  | membership f ms, membership f' ms' => decidable_of_iff (f = f' ∧ ms = ms') (by simp)
  | all ps, all qs =>
    match decEqList ps qs with
    | isTrue h => isTrue (by rw [h])
    | isFalse h => isFalse (by simpa using h)
  | any ps, any qs =>
    match decEqList ps qs with
    | isTrue h => isTrue (by rw [h])
    | isFalse h => isFalse (by simpa using h)
  | not p, not q =>
    match decEq p q with
    | isTrue h => isTrue (by rw [h])
    | isFalse h => isFalse (by simpa using h)
  | nothing, nothing => isTrue rfl
  | comparison .., membership .. | comparison .., all _ | comparison .., any _
  | comparison .., not _ | comparison .., nothing
  | membership .., comparison .. | membership .., all _ | membership .., any _
  | membership .., not _ | membership .., nothing
  | all _, comparison .. | all _, membership .. | all _, any _ | all _, not _ | all _, nothing
  | any _, comparison .. | any _, membership .. | any _, all _ | any _, not _ | any _, nothing
  | not _, comparison .. | not _, membership .. | not _, all _ | not _, any _ | not _, nothing
  | nothing, comparison .. | nothing, membership .. | nothing, all _ | nothing, any _
  | nothing, not _ => isFalse (by simp)

def decEqList : (ps qs : List Predicate) → Decidable (ps = qs)
  | [], [] => isTrue rfl
  | p :: ps, q :: qs =>
    match decEq p q, decEqList ps qs with
    | isTrue h, isTrue hs => isTrue (by rw [h, hs])
    | isFalse h, _ => isFalse (by simp [h])
    | _, isFalse hs => isFalse (by simp [hs])
  | [], _ :: _ | _ :: _, [] => isFalse (by simp)

end

instance : DecidableEq Predicate := decEq

/-- The attribute named in a cast comparison with a number. -/
def numericComparison (comparator : Comparator) (field : String) (x : Double) : Predicate :=
  comparison comparator (.numeric field) (.number x)

end Predicate

end FeatureSieve
