import FeatureSieve.Predicate.Encoding
import FeatureSieve.Proofs.Number.Fewest
import FeatureSieve.Proofs.Number.Point
import FeatureSieve.Proofs.Query.Rules

/-! # Retyping what was written

A double is written as a plain number, which reads as the same double. So whoever types the
number that a filter shows gets the same filter, however the number was first typed.
-/

namespace FeatureSieve

open FiniteDouble (ofText?)

namespace FiniteDouble

theorem read?_chars (x : FiniteDouble) : Numeral.read? x.chars = some x.numeral := by
  have hend : EndsBefore Numeral.goesOn [] := by simp [EndsBefore]
  have hsplit := Numeral.split?_chars_append x.numeral_writes.isSpelled hend
  rw [List.append_nil] at hsplit
  rw [Numeral.read?, chars, hsplit]

theorem isPlain_numeral (x : FiniteDouble) : x.numeral.isPlain = true := by
  rw [Numeral.isPlain_iff]
  exact List.append_ne_nil_of_left_ne_nil x.numeral_writes.isSpelled.whole_ne _

/-- A double is read back from its text, a zero with its sign. -/
theorem ofText?_text (x : FiniteDouble) : ofText? x.text = some x := by
  rw [ofText?, text, String.toList_ofList, x.read?_chars, Option.filter_some, x.isPlain_numeral,
    if_pos rfl, Option.bind_some, x.toDouble?_numeral]

end FiniteDouble

namespace Predicate

theorem text_comparison (c : Comparator) (accessor : Accessor) (x : FiniteDouble) :
    (comparison c accessor (.number (.finite x))).text =
      "[" ++ (Json.string c.symbol).text ++ "," ++ accessor.toJson.text ++ "," ++ x.text ++ "]" := by
  apply String.toList_inj.mp
  simp [text, Json.text, toJson, Operand.toJson, Json.ofDouble, Json.chars, Json.elementChars,
    Json.separated, Json.Number.numeral, FiniteDouble.text, FiniteDouble.chars]

theorem text_all_pair (p q : Predicate) :
    (all [p, q]).text = "[\"all\"," ++ p.text ++ "," ++ q.text ++ "]" := by
  apply String.toList_inj.mp
  simp [text, Json.text, toJson, toJsonEach, Json.chars, Json.elementChars, Json.separated]
  rfl

end Predicate

namespace Operator

/-- A typed number decides the predicate of a comparison by its value alone. -/
theorem predicate_of_ofText? {operator : Operator} (ho : operator ∈ [equals, lessThan, greaterThan]) :
    ∃ c, ∀ (field : String) {text : String} {x : FiniteDouble}, ofText? text = some x →
      operator.predicate field text = .numericComparison c field (.finite x) := by
  cases operator with
  | equals => exact ⟨.equal, fun field text x hx => by simp only [predicate, hx]⟩
  | lessThan => exact ⟨.less, fun field text x hx => by rw [predicate, typed_of_ofText hx]⟩
  | greaterThan => exact ⟨.greater, fun field text x hx => by rw [predicate, typed_of_ofText hx]⟩
  | between | oneOf => simp at ho

/-- A filter shows its number as the last of three elements, or two such comparisons between
bounds. No numeral that reads as a double has fewer digits than the one that is shown, there is no
exponent from `1e-5` on and below `1e16` or for a zero, and an exponent has a sign. The double is
read back from what is shown, so retyping it gives the same predicate as what was typed first. -/
theorem retyping_gives_same_predicate (x : FiniteDouble) :
    (∀ (c : Comparator) (accessor : Accessor),
      (Predicate.comparison c accessor (.number (.finite x))).text =
        "[" ++ (Json.string c.symbol).text ++ "," ++ accessor.toJson.text ++ "," ++ x.text ++ "]") ∧
    (∀ n : Numeral, n.toDouble? = some x → x.numeral.figures ≤ n.figures) ∧
    (x.numeral.exponent = none ↔
      x.value = 0 ∨ (10 : ℚ) ^ (-5 : Int) ≤ |x.value| ∧ |x.value| < 10 ^ (16 : Int)) ∧
    (∀ e ∈ x.numeral.exponent, e.sign.isSome = true) ∧
    ofText? x.text = some x ∧
    (∀ field, equals.predicate field x.text = .numericComparison .equal field (.finite x)) ∧
    (∀ operator ∈ [equals, lessThan, greaterThan], ∃ c, ∀ field text, ofText? text = some x →
      operator.predicate field text = .numericComparison c field (.finite x) ∧
      operator.predicate field x.text = operator.predicate field text) ∧
    ∀ (y : FiniteDouble) (field low high : String), ofText? low = some x → ofText? high = some y →
      between.predicate field (low ++ "," ++ high) = .all
        [.numericComparison .greater field (.finite x), .numericComparison .less field (.finite y)] ∧
      (between.predicate field (low ++ "," ++ high)).text =
        "[\"all\"," ++ (Predicate.numericComparison .greater field (.finite x)).text ++ "," ++
          (Predicate.numericComparison .less field (.finite y)).text ++ "]" ∧
      between.predicate field (x.text ++ "," ++ y.text) =
        between.predicate field (low ++ "," ++ high) := by
  have hback := x.ofText?_text
  refine ⟨fun c accessor => Predicate.text_comparison c accessor x,
    fun n hn => FiniteDouble.figures_numeral_le hn, x.exponent_numeral_eq_none_iff,
    Decimal.isSome_sign_of_mem_exponent, hback, ?_, ?_, ?_⟩
  · intro field
    simp only [predicate, hback]
  · intro operator ho
    obtain ⟨c, hc⟩ := predicate_of_ofText? ho
    exact ⟨c, fun field text hx => ⟨hc field hx, (hc field hback).trans (hc field hx).symm⟩⟩
  · intro y field low high hx hy
    have htyped := predicate_between field (comma_not_mem_of_ofText? hx) hx hy
    have hshown := predicate_between field (comma_not_mem_of_ofText? hback) hback y.ofText?_text
    refine ⟨htyped, ?_, hshown.trans htyped.symm⟩
    rw [htyped, Predicate.text_all_pair]

/-- A double next to zero and the largest one, typed with other digits than they are shown with. -/
theorem outermost_bounds_retyped :
    let low := "-.4e-323"
    let high := "+179769313486231570e291"
    ∃ x y, ofText? low = some x ∧ ofText? high = some y ∧
      x.text = "-5e-324" ∧ y.text = "1.7976931348623157e+308" ∧ ofText? "-5e-324" = some x ∧
      lessThan.predicate "depth" "-5e-324" = lessThan.predicate "depth" low ∧
      between.predicate "depth" "-5e-324,1.7976931348623157e+308" =
        between.predicate "depth" (low ++ "," ++ high) := by
  intro low high
  have hlow : (ofText? low).map FiniteDouble.text = some "-5e-324" := by decide +kernel
  have hhigh : (ofText? high).map FiniteDouble.text = some "1.7976931348623157e+308" := by
    decide +kernel
  obtain ⟨x, hx, hxt⟩ := Option.map_eq_some_iff.mp hlow
  obtain ⟨y, hy, hyt⟩ := Option.map_eq_some_iff.mp hhigh
  obtain ⟨-, -, -, -, hback, -, hcomparison, hbetween⟩ := retyping_gives_same_predicate x
  obtain ⟨c, hc⟩ := hcomparison lessThan (by simp)
  have hless := (hc "depth" low hx).2
  have hbounds := (hbetween y "depth" low high hx hy).2.2
  rw [hxt] at hback hless hbounds
  rw [hyt] at hbounds
  exact ⟨x, y, hx, hy, hxt, hyt, hback, hless, hbounds⟩

end Operator

end FeatureSieve
