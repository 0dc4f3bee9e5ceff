import FeatureSieve.Proofs.Predicate.RoundTrip
import FeatureSieve.Proofs.Text.Comma
import FeatureSieve.Query.Predicate
import FeatureSieve.Query.Screening

/-! # Predicates of screened texts

Screening and the making of predicates take a text apart in the same places. A text that
passes gives a predicate without a NaN, and any text gives one that reads the field alone.
-/

namespace FeatureSieve

open FiniteDouble (ofText?)

theorem isNumeric_iff {text : String} : isNumeric text = true ↔ ∃ x, ofText? text = some x := by
  rw [isNumeric, Option.isSome_iff_exists]

namespace Operator

theorem typed_of_ofText {text : String} {x : FiniteDouble} (h : ofText? text = some x) :
    typed text = .finite x := by
  simp only [typed, h]

theorem toList_joined (first second : String) :
    (first ++ "," ++ second).toList = first.toList ++ ',' :: second.toList := by
  simp

theorem eq_joined_of_toList {text : String} {first second : List Char}
    (h : text.toList = first ++ ',' :: second) : text = .ofList first ++ "," ++ .ofList second := by
  apply String.toList_inj.mp
  simpa using h

theorem exists_joined_of_length_segments {text : String}
    (h : (Text.segments text.toList).length = 2) :
    ∃ first second, text = first ++ "," ++ second ∧ ',' ∉ first.toList ∧ ',' ∉ second.toList := by
  obtain ⟨first, second, hcs, hf, hs⟩ := Text.length_segments_eq_two_iff.mp h
  exact ⟨_, _, eq_joined_of_toList hcs, by simpa using hf, by simpa using hs⟩

theorem screenText_between_eq_ok {text : String} (h : between.screenText text = .ok ()) :
    ∃ low high x y, text = low ++ "," ++ high ∧ ',' ∉ low.toList ∧ ',' ∉ high.toList ∧
      ofText? low = some x ∧ ofText? high = some y := by
  simp only [screenText, screenBounds] at h
  split at h
  · cases h
  split at h
  · cases h
  split at h
  · cases h
  split at h
  · cases h
  next hlen hnum =>
  obtain ⟨low, high, rfl, hl, hh⟩ := exists_joined_of_length_segments (not_not.mp hlen)
  rw [toList_joined, Text.segments_append_comma hl, Text.segments_of_not_mem hh] at hnum
  simp only [List.all_cons, List.all_nil, Bool.and_true, Bool.not_eq_true', Bool.not_eq_false,
    Bool.and_eq_true, String.ofList_toList, isNumeric_iff] at hnum
  obtain ⟨⟨x, hx⟩, y, hy⟩ := hnum
  exact ⟨low, high, x, y, rfl, hl, hh, hx, hy⟩

theorem screenText_oneOf_eq_ok {text : String} (h : oneOf.screenText text = .ok ()) :
    ∃ first second, text = first ++ "," ++ second ∧ ',' ∉ first.toList ∧ ',' ∉ second.toList := by
  simp only [screenText, screenMembers] at h
  split at h
  · cases h
  next hlen => exact exists_joined_of_length_segments (not_not.mp hlen)

theorem eq_of_joined {first second first' second' : String} (hf : ',' ∉ first.toList)
    (hs : ',' ∉ second.toList) (h : first ++ "," ++ second = first' ++ "," ++ second') :
    first = first' ∧ second = second' := by
  have hlist : first.toList ++ ',' :: second.toList = first'.toList ++ ',' :: second'.toList := by
    simpa only [toList_joined] using congrArg String.toList h
  obtain ⟨hfirst, hsecond⟩ := Text.eq_of_append_comma hf hs hlist
  exact ⟨String.toList_inj.mp hfirst, String.toList_inj.mp hsecond⟩

theorem predicate_between {low high : String} {x y : FiniteDouble} (field : String)
    (hl : ',' ∉ low.toList) (hx : ofText? low = some x) (hy : ofText? high = some y) :
    between.predicate field (low ++ "," ++ high) =
      .all [.numericComparison .greater field (.finite x),
        .numericComparison .less field (.finite y)] := by
  have hcut : Text.cut (low ++ "," ++ high).toList = (low.toList, high.toList) := by
    simpa using Text.cut_append_comma hl high.toList
  simp only [predicate, hcut, String.ofList_toList, typed_of_ofText hx, typed_of_ofText hy]

theorem predicate_oneOf {first second : String} (field : String) (hf : ',' ∉ first.toList)
    (hs : ',' ∉ second.toList) :
    oneOf.predicate field (first ++ "," ++ second) = .membership field [first, second] := by
  have hseg : Text.segments (first ++ "," ++ second).toList = [first.toList, second.toList] := by
    simpa [Text.segments_of_not_mem hs] using Text.segments_append_comma hf second.toList
  simp only [predicate, hseg, List.map_cons, List.map_nil, String.ofList_toList]

theorem screenText_comparison_eq_ok {operator : Operator} {text : String}
    (ho : operator = lessThan ∨ operator = greaterThan) (h : operator.screenText text = .ok ()) :
    ∃ x, ofText? text = some x := by
  rw [← isNumeric_iff]
  rcases ho with rfl | rfl
  · simpa [screenText] using h
  · simpa [screenText] using h

/-- Whatever the text, only the given field is read. -/
theorem eq_of_mem_fields_predicate {operator : Operator} {field text name : String}
    (h : name ∈ (operator.predicate field text).fields) : name = field := by
  cases operator with
  | equals =>
    simp only [predicate] at h
    split at h
    · simpa [Predicate.numericComparison, Predicate.fields, Accessor.field] using h
    · simpa [Predicate.fields, Accessor.field] using h
  | lessThan | greaterThan | between =>
    simpa [predicate, Predicate.numericComparison, Predicate.fields, Predicate.fieldsEach,
      Accessor.field] using h
  | oneOf => simpa [predicate, Predicate.fields] using h

/-- The parts of a text that have to be numbers. -/
def limits (operator : Operator) (text : String) : List String :=
  match operator with
  | lessThan | greaterThan => [text]
  | between => [.ofList (Text.cut text.toList).1, .ofList (Text.cut text.toList).2]
  | equals | oneOf => []

theorem limits_between_joined {low : String} (hl : ',' ∉ low.toList) (high : String) :
    between.limits (low ++ "," ++ high) = [low, high] := by
  rw [limits, toList_joined, Text.cut_append_comma hl, String.ofList_toList, String.ofList_toList]

theorem isFinite_of_limits {operator : Operator} {text : String} (field : String)
    (h : ∀ s ∈ operator.limits text, ∃ x, ofText? s = some x) :
    ∀ o ∈ (operator.predicate field text).operands, o.isFinite = true := by
  cases operator with
  | equals =>
    simp only [predicate]
    split
    · simp [Predicate.numericComparison, Predicate.operands, Operand.isFinite]
    · simp [Predicate.operands, Operand.isFinite]
  | lessThan | greaterThan =>
    obtain ⟨x, hx⟩ := h text List.mem_cons_self
    simp [predicate, typed_of_ofText hx, Predicate.numericComparison, Predicate.operands,
      Operand.isFinite]
  | between =>
    obtain ⟨x, hx⟩ := h _ List.mem_cons_self
    obtain ⟨y, hy⟩ := h _ (List.mem_cons_of_mem _ List.mem_cons_self)
    simp [predicate, typed_of_ofText hx, typed_of_ofText hy, Predicate.numericComparison,
      Predicate.operands, Predicate.operandsEach, Operand.isFinite]
  | oneOf => simp [predicate, Predicate.operands]

theorem limits_of_screenText {operator : Operator} {text : String}
    (h : operator.screenText text = .ok ()) :
    ∀ s ∈ operator.limits text, ∃ x, ofText? s = some x := by
  cases operator with
  | equals | oneOf => simp [limits]
  | lessThan => simpa [limits] using screenText_comparison_eq_ok (Or.inl rfl) h
  | greaterThan => simpa [limits] using screenText_comparison_eq_ok (Or.inr rfl) h
  | between =>
    obtain ⟨low, high, x, y, rfl, hl, -, hx, hy⟩ := screenText_between_eq_ok h
    simp [limits_between_joined hl, hx, hy]

theorem isFinite_of_mem_operands_predicate {operator : Operator} {text : String} (field : String)
    (h : operator.screenText text = .ok ()) :
    ∀ o ∈ (operator.predicate field text).operands, o.isFinite = true :=
  isFinite_of_limits field (limits_of_screenText h)

end Operator

end FeatureSieve
