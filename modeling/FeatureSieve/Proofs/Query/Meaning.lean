import FeatureSieve.Predicate.Meaning
import FeatureSieve.Proofs.Number.Nearest
import FeatureSieve.Proofs.Query.Predicate

/-! # What an operator asks of an attribute

The condition that an operator and a typed text put on an attribute is stated on rational
values. The predicate of a screened text selects the features whose attribute meets it.
-/

namespace FeatureSieve

open FiniteDouble (ofText?)

/-- As a number the attribute is worth `v`; a number in JSON counts as the double nearest to it. -/
inductive CastsTo : Option Json → ℚ → Prop where
  | missing : CastsTo none 0
  | null : CastsTo (some .null) 0
  | no : CastsTo (some (.bool false)) 0
  | yes : CastsTo (some (.bool true)) 1
  | number {n : Json.Number} {x : FiniteDouble} (hx : x.IsNearest n.value) :
    CastsTo (some (.number n)) x.value
  | blank {s : String} (hs : Text.trim s.toList = []) : CastsTo (some (.string s)) 0
  | numeral {s : String} {x : FiniteDouble} (hs : Text.trim s.toList ≠ [])
    (hx : ofText? (.ofList (Text.trim s.toList)) = some x) : CastsTo (some (.string s)) x.value

/-- Whether an attribute meets the condition of an operator with a typed text. -/
def Operator.Admits (operator : Operator) (text : String) (a : Option Json) : Prop :=
  match operator with
  | equals => (∃ x, ofText? text = some x ∧ CastsTo a x.value) ∨
    ofText? text = none ∧ a = some (.string text)
  | lessThan => ∃ x v, ofText? text = some x ∧ CastsTo a v ∧ v < x.value
  | greaterThan => ∃ x v, ofText? text = some x ∧ CastsTo a v ∧ x.value < v
  | between => ∃ low high x y v, text = low ++ "," ++ high ∧ ofText? low = some x ∧
    ofText? high = some y ∧ CastsTo a v ∧ x.value < v ∧ v < y.value
  | oneOf => ∃ first second, text = first ++ "," ++ second ∧
    (a = some (.string first) ∨ a = some (.string second))

/-- The comparison of values that a comparator stands for. -/
def Comparator.Relates : Comparator → ℚ → ℚ → Prop
  | equal, v, w => v = w
  | less, v, w => v < w
  | greater, v, w => w < v

theorem Comparator.holds_compare_iff (c : Comparator) (x y : FiniteDouble) :
    c.holds (compare x.key y.key) = true ↔ c.Relates x.value y.value := by
  cases c with
  | equal =>
    rw [holds, Relates, FiniteDouble.value_inj, decide_eq_true_iff]
    exact Std.compare_eq_iff_eq
  | less =>
    rw [holds, Relates, FiniteDouble.value_lt_iff, decide_eq_true_iff]
    exact Std.compare_eq_lt
  | greater =>
    rw [holds, Relates, FiniteDouble.value_lt_iff, decide_eq_true_iff]
    exact Std.compare_eq_gt

theorem castsTo_iff {a : Option Json} {v : ℚ} : CastsTo a v ↔ ∃ x, cast? a = some x ∧ x.value = v := by
  constructor
  · intro h
    cases h with
    | missing | null => exact ⟨_, rfl, FiniteDouble.value_zero false⟩
    | no => exact ⟨_, rfl, FiniteDouble.value_zero false⟩
    | yes => exact ⟨_, rfl, FiniteDouble.value_one⟩
    | @number n x hx => exact ⟨_, rfl, n.toDouble_isNearest.value_eq hx⟩
    | blank hs => exact ⟨_, by simp [cast?, castText?, hs], FiniteDouble.value_zero false⟩
    | numeral hs hx => exact ⟨_, by simp [cast?, castText?, hs, hx], rfl⟩
  · rintro ⟨x, h, rfl⟩
    cases a with
    | none =>
      cases h
      rw [FiniteDouble.value_zero]
      exact .missing
    | some j =>
      cases j with
      | null =>
        cases h
        rw [FiniteDouble.value_zero]
        exact .null
      | bool b =>
        cases b with
        | false =>
          cases h
          simp only [Bool.false_eq_true, if_false, FiniteDouble.value_zero]
          exact .no
        | true =>
          cases h
          simp only [if_true, FiniteDouble.value_one]
          exact .yes
      | number n =>
        cases h
        exact .number n.toDouble_isNearest
      | string s =>
        by_cases hs : Text.trim s.toList = []
        · simp only [cast?, castText?, hs, List.isEmpty_nil, if_true, Option.some.injEq] at h
          rw [← h, FiniteDouble.value_zero]
          exact .blank hs
        · refine .numeral hs ?_
          simpa [cast?, castText?, hs] using h
      | array elements => cases h
      | object members => cases h

theorem CastsTo.unique {a : Option Json} {v w : ℚ} (hv : CastsTo a v) (hw : CastsTo a w) : v = w := by
  obtain ⟨x, hx, rfl⟩ := castsTo_iff.mp hv
  obtain ⟨y, hy, rfl⟩ := castsTo_iff.mp hw
  rw [hx] at hy
  rw [Option.some.inj hy]

namespace Predicate

theorem selects_numericComparison_iff (feature : Feature) (c : Comparator) (field : String)
    (y : FiniteDouble) : (numericComparison c field (.finite y)).selects feature = true ↔
      ∃ v, CastsTo (feature.get? field) v ∧ c.Relates v y.value := by
  simp only [numericComparison, selects, order?, castsTo_iff]
  cases hx : cast? (feature.get? field) with
  | none => simp
  | some x =>
    simp only [Option.bind_some, FiniteDouble.compare?, Option.any_some, Option.some.injEq]
    rw [c.holds_compare_iff]
    constructor
    · exact fun h => ⟨x.value, ⟨x, rfl, rfl⟩, h⟩
    · rintro ⟨v, ⟨_, rfl, rfl⟩, h⟩
      exact h

theorem selects_text_iff (feature : Feature) (field text : String) :
    (comparison .equal (.raw field) (.text text)).selects feature = true ↔
      feature.get? field = some (.string text) := by
  simp only [selects, order?]
  split
  · next s hs =>
    rw [hs, Option.any_some, Comparator.holds, decide_eq_true_iff, Std.compare_eq_iff_eq]
    simp
  · next hs =>
    simp only [Option.any_none, Bool.false_eq_true, false_iff]
    exact fun h => hs text h

theorem selects_membership_iff (feature : Feature) (field : String) (members : List String) :
    (membership field members).selects feature = true ↔
      ∃ s ∈ members, feature.get? field = some (.string s) := by
  simp only [selects]
  split
  · next s hs =>
    rw [hs, List.contains_iff_mem]
    simp
  · next hs =>
    simp only [Bool.false_eq_true, false_iff]
    rintro ⟨s, -, h⟩
    exact hs s h

end Predicate

namespace Operator

theorem admits_between_iff {low high : String} {x y : FiniteDouble} {a : Option Json}
    (hl : ',' ∉ low.toList) (hh : ',' ∉ high.toList) (hx : ofText? low = some x)
    (hy : ofText? high = some y) :
    between.Admits (low ++ "," ++ high) a ↔ ∃ v, CastsTo a v ∧ x.value < v ∧ v < y.value := by
  constructor
  · rintro ⟨low', high', x', y', v, ht, hx', hy', hv, hlow, hhigh⟩
    obtain ⟨rfl, rfl⟩ := eq_of_joined hl hh ht
    rw [hx] at hx'
    rw [hy] at hy'
    cases hx'
    cases hy'
    exact ⟨v, hv, hlow, hhigh⟩
  · rintro ⟨v, hv, hlow, hhigh⟩
    exact ⟨low, high, x, y, v, rfl, hx, hy, hv, hlow, hhigh⟩

theorem admits_oneOf_iff {first second : String} {a : Option Json} (hf : ',' ∉ first.toList)
    (hs : ',' ∉ second.toList) : oneOf.Admits (first ++ "," ++ second) a ↔
      a = some (.string first) ∨ a = some (.string second) := by
  constructor
  · rintro ⟨first', second', ht, ha⟩
    obtain ⟨rfl, rfl⟩ := eq_of_joined hf hs ht
    exact ha
  · exact fun ha => ⟨first, second, rfl, ha⟩

/-- The predicate of a screened text selects what the operator admits. -/
theorem selects_predicate_iff {operator : Operator} {text : String}
    (h : operator.screenText text = .ok ()) (field : String) (feature : Feature) :
    (operator.predicate field text).selects feature = true ↔
      operator.Admits text (feature.get? field) := by
  cases operator with
  | equals =>
    simp only [predicate, Admits]
    cases hx : ofText? text with
    | none => simp [Predicate.selects_text_iff]
    | some x =>
      rw [Predicate.selects_numericComparison_iff]
      simp [Comparator.Relates]
  | lessThan =>
    obtain ⟨x, hx⟩ := screenText_comparison_eq_ok (Or.inl rfl) h
    simp only [predicate, typed_of_ofText hx, Admits]
    rw [Predicate.selects_numericComparison_iff]
    simp [hx, Comparator.Relates]
  | greaterThan =>
    obtain ⟨x, hx⟩ := screenText_comparison_eq_ok (Or.inr rfl) h
    simp only [predicate, typed_of_ofText hx, Admits]
    rw [Predicate.selects_numericComparison_iff]
    simp [hx, Comparator.Relates]
  | between =>
    obtain ⟨low, high, x, y, rfl, hl, hh, hx, hy⟩ := screenText_between_eq_ok h
    rw [predicate_between field hl hx hy, admits_between_iff hl hh hx hy]
    simp only [Predicate.selects, Predicate.selectsAll, Bool.and_true, Bool.and_eq_true]
    rw [Predicate.selects_numericComparison_iff, Predicate.selects_numericComparison_iff]
    constructor
    · rintro ⟨⟨v, hv, hlow⟩, w, hw, hhigh⟩
      obtain rfl := hv.unique hw
      exact ⟨v, hv, hlow, hhigh⟩
    · rintro ⟨v, hv, hlow, hhigh⟩
      exact ⟨⟨v, hv, hlow⟩, v, hv, hhigh⟩
  | oneOf =>
    obtain ⟨first, second, rfl, hf, hs⟩ := screenText_oneOf_eq_ok h
    rw [predicate_oneOf field hf hs, admits_oneOf_iff hf hs, Predicate.selects_membership_iff]
    simp

end Operator

end FeatureSieve
