import FeatureSieve.Proofs.Json.Value
import FeatureSieve.Proofs.Predicate.Normalization
import FeatureSieve.Proofs.Query.Predicate
import FeatureSieve.Proofs.Query.Screening

/-! # Predicates read back from their texts

The text of a predicate is read as the same predicate, with every string and every double in
it, exactly if its operands are finite and its arrays do not nest too deep. Otherwise there is
an error and no other predicate. Screened texts give predicates that are read back. Nothing is
read back by a reader that does not find the doubles again from their numerals.
-/

namespace FeatureSieve

open Json (Written)

theorem Accessor.depth_toJson_raw (field : String) : (raw field).toJson.depth = 1 := rfl

theorem Accessor.depth_toJson_numeric (field : String) : (numeric field).toJson.depth = 2 := rfl

theorem Operand.depth_toJson (operand : Operand) : operand.toJson.depth = 0 := by
  cases operand with
  | number x =>
    cases x with
    | nan | infinite negative | finite x => rfl
  | text s => rfl

theorem Accessor.isKeyed_toJson (accessor : Accessor) : accessor.toJson.IsKeyed := by
  cases accessor with
  | raw field | numeric field => simp [toJson, Json.IsKeyed, Json.ElementsKeyed]

theorem Operand.isKeyed_toJson (operand : Operand) : operand.toJson.IsKeyed := by
  cases operand with
  | number x =>
    cases x with
    | nan | infinite negative | finite x => trivial
  | text s => trivial

theorem Json.elementsKeyed_map_string (members : List String) :
    ElementsKeyed (members.map .string) := by
  rw [elementsKeyed_iff, List.forall_mem_map]
  exact fun s _ => trivial

theorem Json.elementsDepth_map_string (members : List String) :
    elementsDepth (members.map .string) = 0 := by
  rw [← Nat.le_zero, elementsDepth_le_iff, List.forall_mem_map]
  exact fun s _ => Nat.le_refl 0

namespace Predicate

mutual

/-- There are no objects in the form of a predicate. -/
theorem isKeyed_toJson (p : Predicate) : p.toJson.IsKeyed := by
  cases p with
  | comparison c accessor operand =>
    exact ⟨trivial, accessor.isKeyed_toJson, operand.isKeyed_toJson, trivial⟩
  | membership field members => exact ⟨trivial, trivial, Json.elementsKeyed_map_string members⟩
  | all children | any children => exact ⟨trivial, elementsKeyed_toJsonEach children⟩
  | not child => exact ⟨trivial, isKeyed_toJson child, trivial⟩
  | nothing => trivial

theorem elementsKeyed_toJsonEach (ps : List Predicate) : Json.ElementsKeyed (toJsonEach ps) := by
  cases ps with
  | nil => trivial
  | cons p rest => exact ⟨isKeyed_toJson p, elementsKeyed_toJsonEach rest⟩

end

theorem depth_toJson_comparison (c : Comparator) (accessor : Accessor) (operand : Operand) :
    (comparison c accessor operand).toJson.depth = accessor.toJson.depth + 1 := by
  simp [toJson, Json.depth, Json.elementsDepth, operand.depth_toJson]

theorem depth_toJson_numeric (c : Comparator) (field : String) (operand : Operand) :
    (comparison c (.numeric field) operand).toJson.depth = 3 := by
  rw [depth_toJson_comparison, Accessor.depth_toJson_numeric]

theorem depth_toJson_membership (field : String) (members : List String) :
    (membership field members).toJson.depth = 1 := by
  simp [toJson, Json.depth, Json.elementsDepth, Json.elementsDepth_map_string]

theorem read_text_of_isFinite [Json.DoubleReader] {p : Predicate}
    (hr : ∀ x ∈ p.toJson.doubles, x.ReadsBack) (hf : ∀ o ∈ p.operands, o.isFinite = true)
    (hd : p.toJson.depth ≤ Json.nestingLimit) : read p.text = .ok p := by
  rw [read, text, Json.readFront?_text p.isKeyed_toJson hr, if_pos hd]
  simp only [ofJson_toJson_of_finite p hf]
  rfl

/-- Scaling reads a predicate back if all its numbers are short. -/
theorem read_text_of_isShort {p : Predicate} (hs : ∀ x ∈ p.toJson.doubles, x.numeral.IsShort)
    (hf : ∀ o ∈ p.operands, o.isFinite = true) (hd : p.toJson.depth ≤ Json.nestingLimit) :
    read p.text = .ok p :=
  read_text_of_isFinite (fun x hx => FiniteDouble.readsBack_of_isShort (hs x hx)) hf hd

end Predicate

section AnyReader

variable [Json.DoubleReader]

/-- A null is no operand, and nothing else is written as one. -/
theorem Operand.isFinite_of_value? {operand read : Operand} {v : Json}
    (hv : (Written.ofJson operand.toJson).value? = some v) (h : ofJson v = .ok read) :
    operand.isFinite = true := by
  cases operand with
  | text s => rfl
  | number x =>
    cases x with
    | finite x => rfl
    | nan | infinite negative =>
      cases hv
      cases h

namespace Predicate

mutual

/-- What is written for a predicate can only be read if its operands are finite, whatever the reader
makes of them. -/
theorem isFinite_of_value? (p : Predicate) {q : Predicate} {v : Json}
    (hv : (Written.ofJson p.toJson).value? = some v) (h : ofJson v = .ok q) :
    ∀ o ∈ p.operands, o.isFinite = true := by
  cases p with
  | comparison c accessor operand =>
    obtain ⟨_, hargs, rfl⟩ := Written.value?_ofJson_headed hv
    obtain ⟨_, _, -, hrest, rfl⟩ := Written.elementValues?_ofElements_cons hargs
    obtain ⟨w, _, hw, -, rfl⟩ := Written.elementValues?_ofElements_cons hrest
    rw [ofJson_comparison] at h
    obtain ⟨_, read, _, _, hargs, -, hread, -⟩ := comparisonOfJson_eq_ok h
    cases hargs
    rw [operands, List.forall_mem_singleton]
    exact Operand.isFinite_of_value? hw hread
  | membership field members => simp [operands]
  | all children =>
    obtain ⟨_, hargs, rfl⟩ := Written.value?_ofJson_headed hv
    rw [ofJson_all] at h
    obtain ⟨qs, hqs, -⟩ := map_eq_ok_iff.mp h
    exact isFinite_of_elementValues? children hargs hqs
  | any children =>
    obtain ⟨_, hargs, rfl⟩ := Written.value?_ofJson_headed hv
    rw [ofJson_any] at h
    obtain ⟨qs, hqs, -⟩ := map_eq_ok_iff.mp h
    exact isFinite_of_elementValues? children hargs hqs
  | not child =>
    obtain ⟨_, hargs, rfl⟩ := Written.value?_ofJson_headed hv
    obtain ⟨w, _, hw, hnil, rfl⟩ := Written.elementValues?_ofElements_cons hargs
    cases hnil
    rw [ofJson_not] at h
    obtain ⟨r, hr, -⟩ := map_eq_ok_iff.mp h
    exact isFinite_of_value? child hw hr
  | nothing => simp [operands]

theorem isFinite_of_elementValues? (ps : List Predicate) {qs : List Predicate} {vs : List Json}
    (hvs : Written.elementValues? (Written.ofElements (toJsonEach ps)) = some vs)
    (h : ofJsonEach vs = .ok qs) : ∀ o ∈ operandsEach ps, o.isFinite = true := by
  cases ps with
  | nil => simp [operandsEach]
  | cons p rest =>
    obtain ⟨v, vs, hv, hrest, rfl⟩ := Written.elementValues?_ofElements_cons hvs
    rw [ofJsonEach] at h
    obtain ⟨q, hq, h⟩ := bind_eq_ok_iff.mp h
    obtain ⟨qs, hqs, -⟩ := bind_eq_ok_iff.mp h
    rw [operandsEach, List.forall_mem_append]
    exact ⟨isFinite_of_value? p hv hq, isFinite_of_elementValues? rest hrest hqs⟩

end

theorem isFinite_and_depth_of_read_text {p q : Predicate} (h : read p.text = .ok q) :
    (∀ o ∈ p.operands, o.isFinite = true) ∧ p.toJson.depth ≤ Json.nestingLimit := by
  rw [read, text, Json.readFront?, Written.readFront?_text] at h
  simp only [Option.bind_eq_bind, Option.bind_some] at h
  cases hv : (Written.ofJson p.toJson).valueWithin? Json.nestingLimit with
  | none =>
    rw [hv] at h
    cases h
  | some v =>
    obtain ⟨hdepth, hvalue⟩ := Written.valueWithin?_eq_some_iff.mp hv
    rw [Written.depth_ofJson] at hdepth
    rw [hv] at h
    cases hq : ofJson v with
    | error cause => simp [hq] at h
    | ok q => exact ⟨isFinite_of_value? p hvalue hq, hdepth⟩

end Predicate

end AnyReader

/-- Two bounds nest deepest. -/
theorem Operator.depth_predicate_le (operator : Operator) (field text : String) :
    (operator.predicate field text).toJson.depth ≤ 4 := by
  have hcast (c : Comparator) (x : Double) :
      (Predicate.numericComparison c field x).toJson.depth = 3 :=
    Predicate.depth_toJson_numeric c field (.number x)
  cases operator with
  | equals =>
    rw [predicate]
    split
    · rw [hcast]
      decide
    · rw [Predicate.depth_toJson_comparison, Accessor.depth_toJson_raw]
      decide
  | lessThan | greaterThan =>
    rw [predicate, hcast]
    decide
  | between =>
    simp [predicate, Predicate.toJson, Predicate.toJsonEach, Json.depth, Json.elementsDepth, hcast]
  | oneOf =>
    rw [predicate, Predicate.depth_toJson_membership]
    decide

namespace Predicate

/-- The text of a predicate is read as the same predicate exactly if its operands are finite and
its arrays nest at most 127 deep, those of the accessors included, where the reader finds each
double of it again from its numeral. Otherwise there is an error with every reader. Where the
doubles are found again, every predicate of a screened text is read back. -/
theorem text_reads_back_iff [Json.DoubleReader] (p : Predicate) :
    ((∀ x ∈ p.toJson.doubles, x.ReadsBack) →
      (read p.text = .ok p ↔ (∀ o ∈ p.operands, o.isFinite = true) ∧ p.toJson.depth ≤ 127)) ∧
    (¬ ((∀ o ∈ p.operands, o.isFinite = true) ∧ p.toJson.depth ≤ 127) →
      ∃ failure, read p.text = .error failure) ∧
    (∀ c field operand, (comparison c (.numeric field) operand).toJson.depth = 3) ∧
    ∀ (operator : Operator) field text layer active, operator.screen text layer active = .ok () →
      (∀ x ∈ (operator.predicate field text).toJson.doubles, x.ReadsBack) →
      read (operator.predicate field text).text = .ok (operator.predicate field text) := by
  refine ⟨fun hr => ⟨isFinite_and_depth_of_read_text, fun h => read_text_of_isFinite hr h.1 h.2⟩,
    fun hne => ?_, depth_toJson_numeric, ?_⟩
  · cases h : read p.text with
    | error failure => exact ⟨failure, rfl⟩
    | ok q => exact absurd (isFinite_and_depth_of_read_text h) hne
  · intro operator field text layer active h hr
    have hfinite :=
      Operator.isFinite_of_mem_operands_predicate field (Operator.screenText_of_screen h)
    have hdepth := operator.depth_predicate_le field text
    exact read_text_of_isFinite hr hfinite (hdepth.trans (by decide))

/-- A reader that scales finds the doubles here again: a quote, a line break and a letter beyond 16
bits, a minus zero below a negation, and two screened bounds come back; a NaN does not, and 125
negations of a cast comparison are too many. -/
theorem quotes_and_minus_zero_read_back :
    let zero := comparison .less (.numeric "depth") (.number (.finite (.zero true)))
    let p := any [membership "na\"me" ["a\nb", "𝄞"], not zero]
    let q := comparison .equal (.raw "depth") (.number .nan)
    p.text = "[\"any\",[\"in\",\"na\\\"me\",\"a\\nb\",\"𝄞\"]," ++
      "[\"!\",[\"<\",[\"to-number\",[\"get\",\"depth\"]],-0.0]]]" ∧
    read p.text = .ok p ∧ (∃ failure, read q.text = .error failure) ∧
    read (not^[124] zero).text = .ok (not^[124] zero) ∧
    (∃ failure, read (not^[125] zero).text = .error failure) ∧
    Operator.between.screen "-.5,1e3" none none = .ok () ∧
    read (Operator.between.predicate "depth" "-.5,1e3").text =
      .ok (Operator.between.predicate "depth" "-.5,1e3") := by
  intro zero p q
  have hp : (∀ o ∈ p.operands, o.isFinite = true) ∧ p.toJson.depth ≤ 127 := by decide
  have hq : ¬ ((∀ o ∈ q.operands, o.isFinite = true) ∧ q.toJson.depth ≤ 127) := by decide
  have hfits : (∀ o ∈ (not^[124] zero).operands, o.isFinite = true) ∧
      (not^[124] zero).toJson.depth ≤ 127 := by decide +kernel
  have hdeep : ¬ ((∀ o ∈ (not^[125] zero).operands, o.isFinite = true) ∧
      (not^[125] zero).toJson.depth ≤ 127) := by decide +kernel
  have hscreen : Operator.between.screen "-.5,1e3" none none = .ok () := by decide +kernel
  have hbounds : ∀ x ∈ (Operator.between.predicate "depth" "-.5,1e3").toJson.doubles,
      x.ReadsBack := by decide +kernel
  obtain ⟨hread, -, -, hscreened⟩ := text_reads_back_iff p
  obtain ⟨-, hnan, -, -⟩ := text_reads_back_iff q
  obtain ⟨hlast, -, -, -⟩ := text_reads_back_iff (not^[124] zero)
  obtain ⟨-, hnone, -, -⟩ := text_reads_back_iff (not^[125] zero)
  have hzero : ∀ x ∈ (not^[124] zero).toJson.doubles, x.ReadsBack := by decide +kernel
  have hdoubles : ∀ x ∈ p.toJson.doubles, x.ReadsBack := by decide +kernel
  exact ⟨by decide +kernel, (hread hdoubles).mpr hp, hnan hq, (hlast hzero).mpr hfits,
    hnone hdeep, hscreen, hscreened .between "depth" "-.5,1e3" none none hscreen hbounds⟩

end Predicate

end FeatureSieve
