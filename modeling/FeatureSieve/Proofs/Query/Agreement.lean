import FeatureSieve.Predicate.Meaning
import FeatureSieve.Proofs.Predicate.Normalization
import FeatureSieve.Proofs.Query.Rules

/-! # Screening agrees with the predicates

Screening takes a text apart at every comma and a predicate at the first one, but both want
a number in the same parts. Where one is missing the text is refused and the predicate holds
a NaN, so it cannot be read back and selects nothing.
-/

namespace FeatureSieve

open FiniteDouble (ofText?)

namespace Text

theorem intercalate_segments (cs : List Char) : [','].intercalate (segments cs) = cs := by
  rw [segments_eq_splitOn]
  exact List.intercalate_splitOn ','

theorem intercalate_map_segments (text : String) :
    ",".intercalate ((segments text.toList).map .ofList) = text := by
  apply String.toList_inj.mp
  have hid : String.toList ∘ String.ofList = id := funext fun _ => String.toList_ofList
  rw [String.toList_intercalate, List.map_map, hid, List.map_id]
  exact intercalate_segments text.toList

end Text

namespace Predicate

theorem selects_numericComparison_nan (feature : Feature) (c : Comparator) (field : String) :
    (numericComparison c field .nan).selects feature = false := by
  simp only [numericComparison, selects, order?]
  cases cast? (feature.get? field) <;> rfl

end Predicate

namespace Operator

theorem nan_eq_typed_iff {text : String} : .nan = typed text ↔ ofText? text = none := by
  cases h : ofText? text <;> simp [typed, h]

theorem nan_mem_operands_iff {operator : Operator} {field text : String} :
    .number .nan ∈ (operator.predicate field text).operands ↔
      ∃ s ∈ operator.limits text, ofText? s = none := by
  cases operator with
  | equals =>
    simp only [predicate, limits]
    cases ofText? text <;> simp [Predicate.numericComparison, Predicate.operands]
  | lessThan | greaterThan =>
    simp [predicate, limits, Predicate.numericComparison, Predicate.operands, nan_eq_typed_iff]
  | between =>
    simp [predicate, limits, Predicate.numericComparison, Predicate.operands,
      Predicate.operandsEach, nan_eq_typed_iff]
  | oneOf => simp [predicate, limits, Predicate.operands]

theorem nan_not_mem_operands_iff {operator : Operator} {field text : String} :
    .number .nan ∉ (operator.predicate field text).operands ↔
      ∀ s ∈ operator.limits text, ∃ x, ofText? s = some x := by
  rw [nan_mem_operands_iff]
  simp [← Option.ne_none_iff_exists']

theorem ofJson_toJson_predicate {operator : Operator} {field text : String}
    (h : .number .nan ∉ (operator.predicate field text).operands) :
    Predicate.ofJson (operator.predicate field text).toJson = .ok (operator.predicate field text) :=
  Predicate.ofJson_toJson_of_finite _ (isFinite_of_limits field (nan_not_mem_operands_iff.mp h))

theorem exists_ofJson_toJson_predicate_iff {operator : Operator} {field text : String} :
    (∃ p, Predicate.ofJson (operator.predicate field text).toJson = .ok p) ↔
      .number .nan ∉ (operator.predicate field text).operands := by
  refine ⟨?_, fun h => ⟨_, ofJson_toJson_predicate h⟩⟩
  rintro ⟨p, hp⟩ hnan
  rw [Predicate.ofJson_toJson_of_not_finite _ ⟨_, hnan, rfl⟩] at hp
  cases hp

theorem selects_predicate_of_nan {operator : Operator} {field text : String} (feature : Feature)
    (h : .number .nan ∈ (operator.predicate field text).operands) :
    (operator.predicate field text).selects feature = false := by
  obtain ⟨s, hs, hnone⟩ := nan_mem_operands_iff.mp h
  have hnan := nan_eq_typed_iff.mpr hnone
  cases operator with
  | equals | oneOf => simp [limits] at hs
  | lessThan | greaterThan =>
    obtain rfl := List.mem_singleton.mp hs
    rw [predicate, ← hnan, Predicate.selects_numericComparison_nan]
  | between =>
    simp only [limits, List.mem_cons, List.not_mem_nil, or_false] at hs
    rcases hs with rfl | rfl
    · simp [predicate, Predicate.selects, Predicate.selectsAll, ← hnan,
        Predicate.selects_numericComparison_nan]
    · simp [predicate, Predicate.selects, Predicate.selectsAll, ← hnan,
        Predicate.selects_numericComparison_nan]

theorem ofText?_empty : ofText? "" = none := by decide

/-- A second bound that is a number holds no comma, so the first comma is the only one; where
there is none, the second bound is empty. -/
theorem accepts_between_of_limits {text : String}
    (h : ∀ s ∈ between.limits text, ∃ x, ofText? s = some x) : between.Accepts text := by
  by_cases hc : ',' ∈ text.toList
  · obtain ⟨low, high, hcs, hl⟩ := List.eq_append_cons_of_mem hc
    rw [limits, hcs, Text.cut_append_comma hl] at h
    obtain ⟨x, hx⟩ := h _ List.mem_cons_self
    obtain ⟨y, hy⟩ := h _ (List.mem_cons_of_mem _ List.mem_cons_self)
    exact ⟨_, _, x, y, eq_joined_of_toList hcs, hx, hy⟩
  · rw [limits, Text.cut_of_not_mem hc] at h
    obtain ⟨y, hy⟩ := h "" (by simp)
    rw [ofText?_empty] at hy
    cases hy

theorem screen_none_eq_ok_iff_limits {operator : Operator} {text : String}
    (ho : operator ∈ [lessThan, greaterThan, between]) :
    operator.screen text none none = .ok () ↔
      ∀ s ∈ operator.limits text, ∃ x, ofText? s = some x := by
  rw [screen_none_eq_ok_iff]
  refine ⟨fun h => limits_of_screenText h.2, fun h => ?_⟩
  have hne : text ≠ "" := by
    rintro rfl
    have hmem : "" ∈ operator.limits "" := by
      cases operator with
      | equals | oneOf => simp at ho
      | lessThan | greaterThan | between => exact List.mem_cons_self
    obtain ⟨x, hx⟩ := h "" hmem
    rw [ofText?_empty] at hx
    cases hx
  have ha : operator.Accepts text := by
    cases operator with
    | equals | oneOf => simp at ho
    | lessThan | greaterThan => exact h text List.mem_cons_self
    | between => exact accepts_between_of_limits h
  exact ⟨hne, screenText_of_accepts ha⟩

theorem limits_eq_nil {operator : Operator} (ho : operator ∈ [equals, oneOf]) (text : String) :
    operator.limits text = [] := by
  cases operator with
  | equals | oneOf => rfl
  | lessThan | greaterThan | between => simp at ho

/-- Of a comparison with numbers, the texts that pass are those whose predicate has no NaN,
and those whose predicate can be read back; the others select nothing. Of the other operators
no text gives a NaN, and every predicate can be read back. -/
theorem screening_agrees_with_predicates (field text : String) :
    (∀ operator ∈ [lessThan, greaterThan, between],
      (operator.screen text none none = .ok () ↔
        .number .nan ∉ (operator.predicate field text).operands) ∧
      (.number .nan ∉ (operator.predicate field text).operands ↔
        ∃ p, Predicate.ofJson (operator.predicate field text).toJson = .ok p) ∧
      (operator.screen text none none ≠ .ok () →
        ∀ feature, (operator.predicate field text).selects feature = false)) ∧
    (∀ operator ∈ [equals, oneOf],
      .number .nan ∉ (operator.predicate field text).operands ∧
      Predicate.ofJson (operator.predicate field text).toJson =
        .ok (operator.predicate field text)) ∧
    ∃ members, oneOf.predicate field text = .membership field members ∧
      ",".intercalate members = text ∧
      (oneOf.screen text none none = .ok () → members.length = 2) := by
  refine ⟨fun operator ho => ?_, fun operator ho => ?_, ?_⟩
  · have hscreen : operator.screen text none none = .ok () ↔
        .number .nan ∉ (operator.predicate field text).operands := by
      rw [screen_none_eq_ok_iff_limits ho, nan_not_mem_operands_iff]
    refine ⟨hscreen, exists_ofJson_toJson_predicate_iff.symm, fun h feature => ?_⟩
    exact selects_predicate_of_nan feature (not_not.mp (mt hscreen.mpr h))
  · have hnan : .number .nan ∉ (operator.predicate field text).operands := by
      rw [nan_not_mem_operands_iff, limits_eq_nil ho]
      simp
    exact ⟨hnan, ofJson_toJson_predicate hnan⟩
  · refine ⟨_, rfl, Text.intercalate_map_segments text, fun h => ?_⟩
    obtain ⟨first, second, rfl, hf, hs⟩ := screenText_oneOf_eq_ok (screen_none_eq_ok_iff.mp h).2
    rw [List.length_map, Text.length_segments_eq_two_iff]
    exact ⟨_, _, toList_joined first second, hf, hs⟩

/-- A missing attribute counts as zero, yet it is not selected: the second comma leaves the
predicate without an upper bound. -/
theorem second_comma_selects_nothing :
    between.screen "-1,1,5" none none ≠ .ok () ∧
    .number .nan ∈ (between.predicate "depth" "-1,1,5").operands ∧
    (between.predicate "depth" "-1,1,5").selects [] = false ∧
    oneOf.screen "-1,1" none none = .ok () ∧
    ∃ members, oneOf.predicate "depth" "-1,1" = .membership "depth" members ∧
      ",".intercalate members = "-1,1" ∧ members.length = 2 := by
  have hscreen : between.screen "-1,1,5" none none ≠ .ok () := by decide
  have hmembers : oneOf.screen "-1,1" none none = .ok () := by decide
  obtain ⟨hnumbers, -, -⟩ := screening_agrees_with_predicates "depth" "-1,1,5"
  obtain ⟨hnan, -, hnothing⟩ := hnumbers between (by simp)
  obtain ⟨-, -, members, hpredicate, hjoined, hcount⟩ :=
    screening_agrees_with_predicates "depth" "-1,1"
  exact ⟨hscreen, not_not.mp (mt hnan.mpr hscreen), hnothing hscreen [], hmembers, members,
    hpredicate, hjoined, hcount hmembers⟩

end Operator

end FeatureSieve
