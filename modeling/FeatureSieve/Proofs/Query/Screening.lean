import FeatureSieve.Query.Screening
import Mathlib.Data.List.Basic

/-! # What screening lets through

The check for an active filter stands between the one for an empty text and the rules of
the operator, and it alone answers that a layer is filtered already.
-/

namespace FeatureSieve

theorem Filter.concerns_iff {f : Filter} {name : String} :
    f.concerns name = true ↔ f.layer = name ∨ name ∈ f.targets := by
  simp [Filter.concerns]

namespace Operator

theorem screenText_ne_layerAlreadyFiltered (operator : Operator) (text : String) :
    operator.screenText text ≠ .error .layerAlreadyFiltered := by
  cases operator with
  | equals => simp [screenText]
  | lessThan | greaterThan =>
    simp only [screenText]
    split <;> simp
  | between =>
    simp only [screenText, screenBounds]
    repeat' split
    all_goals simp
  | oneOf =>
    simp only [screenText, screenMembers]
    repeat' split
    all_goals simp

theorem screen_with_history (operator : Operator) (text layer : String) (active : List Entry) :
    operator.screen text (some layer) (some active) =
      if text = "" then .error .empty
      else if ∃ e ∈ active, e.concerns layer = true then .error .layerAlreadyFiltered
      else operator.screenText text := by
  simp [screen]

theorem screen_eq_ok_iff {operator : Operator} {text layer : String} {active : List Entry} :
    operator.screen text (some layer) (some active) = .ok () ↔
      text ≠ "" ∧ (¬ ∃ e ∈ active, e.concerns layer = true) ∧ operator.screenText text = .ok () := by
  rw [screen_with_history]
  by_cases ht : text = ""
  · simp [ht]
  · rw [if_neg ht]
    by_cases ha : ∃ e ∈ active, e.concerns layer = true
    · simp only [if_pos ha, reduceCtorEq, false_iff]
      exact fun h => h.2.1 ha
    · rw [if_neg ha]
      exact ⟨fun h => ⟨ht, ha, h⟩, fun h => h.2.2⟩

theorem screen_eq_layerAlreadyFiltered_iff {operator : Operator} {text layer : String}
    {active : List Entry} :
    operator.screen text (some layer) (some active) = .error .layerAlreadyFiltered ↔
      text ≠ "" ∧ ∃ e ∈ active, e.concerns layer = true := by
  rw [screen_with_history]
  by_cases ht : text = ""
  · simp [ht]
  · rw [if_neg ht]
    by_cases ha : ∃ e ∈ active, e.concerns layer = true
    · rw [if_pos ha]
      exact ⟨fun _ => ⟨ht, ha⟩, fun _ => rfl⟩
    · rw [if_neg ha]
      have hn := operator.screenText_ne_layerAlreadyFiltered text
      exact ⟨fun h => absurd h hn, fun h => absurd h.2 ha⟩

theorem screenText_of_screen {operator : Operator} {text : String} {layer : Option String}
    {active : Option (List Entry)} (h : operator.screen text layer active = .ok ()) :
    operator.screenText text = .ok () := by
  unfold screen at h
  split at h
  · cases h
  split at h
  · cases h
  exact h

/-- Without a history only the text is judged. -/
theorem screen_none_eq_ok_iff {operator : Operator} {text : String} :
    operator.screen text none none = .ok () ↔ text ≠ "" ∧ operator.screenText text = .ok () := by
  unfold screen
  by_cases ht : text = "" <;> simp [ht]

end Operator

end FeatureSieve
