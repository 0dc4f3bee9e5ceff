import FeatureSieve.Proofs.Number.Plain
import FeatureSieve.Proofs.Query.Predicate
import FeatureSieve.Proofs.Query.Screening

/-! # The rules of the operators

Each operator accepts the texts of a grammar, and a text that is not in it is refused for
the first of the operator's rules that it breaks. Whatever the operator, the empty text and
a layer that is filtered already are refused before.
-/

namespace FeatureSieve

open FiniteDouble (ofText?)

namespace Text

theorem hasSpaceAtComma_of_not_mem {cs : List Char} (h : ',' ∉ cs) : hasSpaceAtComma cs = false := by
  induction cs with
  | nil => rfl
  | cons c rest ih =>
    cases rest with
    | nil => rfl
    | cons d rest =>
      simp only [List.mem_cons, not_or] at h
      have hrest := ih (by simpa using h.2)
      simp [hasSpaceAtComma, Ne.symm h.1, Ne.symm h.2.1, hrest]

/-- Only the neighbours of the comma count. -/
theorem hasSpaceAtComma_append_comma {before rest : List Char} (hb : ',' ∉ before)
    (hr : ',' ∉ rest) : hasSpaceAtComma (before ++ ',' :: rest) = true ↔
      before.getLast? = some ' ' ∨ rest.head? = some ' ' := by
  induction before with
  | nil =>
    cases rest with
    | nil => simp [hasSpaceAtComma]
    | cons d rest => simp [hasSpaceAtComma, hasSpaceAtComma_of_not_mem hr]
  | cons c before ih =>
    simp only [List.mem_cons, not_or] at hb
    have hrest := ih hb.2
    cases before with
    | nil =>
      rw [List.nil_append] at hrest
      simp [hasSpaceAtComma, Ne.symm hb.1, hrest]
    | cons d before =>
      simp only [List.mem_cons, not_or] at hb
      rw [List.cons_append] at hrest
      simp [hasSpaceAtComma, Ne.symm hb.1, Ne.symm hb.2.1, hrest]

end Text

theorem ne_comma_of_isPlainChar {c : Char} (h : isPlainChar c = true) : c ≠ ',' := by
  rintro rfl
  exact absurd h (by decide)

theorem not_isBlank_of_isPlainChar {c : Char} (h : isPlainChar c = true) : Text.isBlank c = false := by
  simp only [isPlainChar, Bool.or_eq_true, decide_eq_true_eq] at h
  rcases h with h | h
  · simp only [Char.isDigit, Bool.and_eq_true, decide_eq_true_eq] at h
    have hd : 48 ≤ c.toNat ∧ c.toNat ≤ 57 := h
    simp [Text.isBlank, Text.blankRanges]
    omega
  · simp only [List.mem_cons, List.not_mem_nil, or_false] at h
    rcases h with rfl | rfl | rfl | rfl | rfl
    all_goals decide

theorem comma_not_mem_of_ofText? {text : String} {x : FiniteDouble} (h : ofText? text = some x) :
    ',' ∉ text.toList :=
  fun hc => ne_comma_of_isPlainChar (FiniteDouble.isPlainChar_of_ofText? h _ hc) rfl

namespace Operator

/-- The texts that an operator takes. -/
def Accepts (operator : Operator) (text : String) : Prop :=
  match operator with
  | equals => True
  | lessThan | greaterThan => ∃ x, ofText? text = some x
  | between => ∃ low high x y, text = low ++ "," ++ high ∧ ofText? low = some x ∧
    ofText? high = some y
  | oneOf => ∃ first second, text = first ++ "," ++ second ∧ ',' ∉ first.toList ∧
    ',' ∉ second.toList ∧ first.toList.getLast? ≠ some ' ' ∧ second.toList.head? ≠ some ' '

/-- The first of an operator's rules that a text breaks. -/
inductive BreaksFirst : Operator → String → Rejection → Prop
  | notANumber {operator : Operator} {text : String}
      (ho : operator = lessThan ∨ operator = greaterThan) (h : ofText? text = none) :
      BreaksFirst operator text .notANumber
  | boundsWithoutComma {text : String} (h : ',' ∉ text.toList) :
      BreaksFirst between text .boundsWithoutComma
  | boundsWithBlank {text : String} (hc : ',' ∈ text.toList)
      (h : ∃ c ∈ text.toList, Text.isBlank c = true) : BreaksFirst between text .boundsWithBlank
  | boundsCount {text : String} (hb : ∀ c ∈ text.toList, Text.isBlank c = false)
      (h : 2 ≤ text.toList.count ',') : BreaksFirst between text .boundsCount
  | boundsNotNumeric {low high : String} (hb : ∀ c ∈ (low ++ "," ++ high).toList, Text.isBlank c = false)
      (hl : ',' ∉ low.toList) (hh : ',' ∉ high.toList)
      (h : ofText? low = none ∨ ofText? high = none) :
      BreaksFirst between (low ++ "," ++ high) .boundsNotNumeric
  | membersCount {text : String} (h : text.toList.count ',' ≠ 1) : BreaksFirst oneOf text .membersCount
  | membersWithSpaceAtComma {first second : String} (hf : ',' ∉ first.toList)
      (hs : ',' ∉ second.toList)
      (h : first.toList.getLast? = some ' ' ∨ second.toList.head? = some ' ') :
      BreaksFirst oneOf (first ++ "," ++ second) .membersWithSpaceAtComma

theorem screenText_comparison {operator : Operator} (ho : operator = lessThan ∨ operator = greaterThan)
    (text : String) :
    operator.screenText text = if isNumeric text then .ok () else .error .notANumber := by
  rcases ho with rfl | rfl
  · rfl
  · rfl

theorem not_isNumeric_iff {text : String} : isNumeric text = false ↔ ofText? text = none := by
  rw [isNumeric, Option.isSome_eq_false_iff, Option.isNone_iff_eq_none]

/-- Between two parts without commas and blanks only their being numbers is left to judge. -/
theorem screenBounds_append_comma {low high : List Char} (hl : ',' ∉ low) (hh : ',' ∉ high)
    (hb : ∀ c ∈ low ++ ',' :: high, Text.isBlank c = false) :
    screenBounds (low ++ ',' :: high) =
      if isNumeric (.ofList low) && isNumeric (.ofList high) then .ok ()
      else .error .boundsNotNumeric := by
  have hm : ',' ∈ low ++ ',' :: high := by simp
  have hany : (low ++ ',' :: high).any Text.isBlank = false := by
    rw [List.any_eq_false]
    exact fun c hc => Bool.not_eq_true _ ▸ hb c hc
  have hlen := Text.length_segments_eq_two_iff.mpr ⟨low, high, rfl, hl, hh⟩
  have hseg : Text.segments (low ++ ',' :: high) = [low, high] := by
    rw [Text.segments_append_comma hl, Text.segments_of_not_mem hh]
  have hall : ([low, high].all fun s => isNumeric (.ofList s)) =
      (isNumeric (.ofList low) && isNumeric (.ofList high)) := by simp
  rw [screenBounds, if_neg (not_not.mpr hm), hany, if_neg (by decide), if_neg (not_not.mpr hlen),
    hseg, hall]
  cases isNumeric (.ofList low) && isNumeric (.ofList high) <;> rfl

theorem screenMembers_append_comma {first second : List Char} (hf : ',' ∉ first)
    (hs : ',' ∉ second) : screenMembers (first ++ ',' :: second) =
      if first.getLast? = some ' ' ∨ second.head? = some ' ' then .error .membersWithSpaceAtComma
      else .ok () := by
  have hlen := Text.length_segments_eq_two_iff.mpr ⟨first, second, rfl, hf, hs⟩
  rw [screenMembers, if_neg (not_not.mpr hlen)]
  simp only [Text.hasSpaceAtComma_append_comma hf hs]

/-- Bounds that are numbers hold no comma and no blank, so the earlier rules are kept too. -/
theorem screenText_between_joined {low high : String} {x y : FiniteDouble}
    (hx : ofText? low = some x) (hy : ofText? high = some y) :
    between.screenText (low ++ "," ++ high) = .ok () := by
  have hb : ∀ c ∈ low.toList ++ ',' :: high.toList, Text.isBlank c = false := by
    intro c hc
    rcases List.mem_append.mp hc with hc | hc
    · exact not_isBlank_of_isPlainChar (FiniteDouble.isPlainChar_of_ofText? hx c hc)
    · rcases List.mem_cons.mp hc with rfl | hc
      · decide
      · exact not_isBlank_of_isPlainChar (FiniteDouble.isPlainChar_of_ofText? hy c hc)
  rw [screenText, toList_joined, screenBounds_append_comma (comma_not_mem_of_ofText? hx)
    (comma_not_mem_of_ofText? hy) hb, String.ofList_toList, String.ofList_toList,
    isNumeric_iff.mpr ⟨x, hx⟩, isNumeric_iff.mpr ⟨y, hy⟩]
  rfl

theorem screenText_of_accepts {operator : Operator} {text : String} (h : operator.Accepts text) :
    operator.screenText text = .ok () := by
  cases operator with
  | equals => rfl
  | lessThan | greaterThan => rw [screenText, isNumeric_iff.mpr h, if_pos rfl]
  | between =>
    obtain ⟨low, high, x, y, rfl, hx, hy⟩ := h
    exact screenText_between_joined hx hy
  | oneOf =>
    obtain ⟨first, second, rfl, hf, hs, hspace⟩ := h
    rw [screenText, toList_joined, screenMembers_append_comma hf hs, if_neg (not_or.mpr hspace)]

theorem screenText_of_breaksFirst {operator : Operator} {text : String} {r : Rejection}
    (h : BreaksFirst operator text r) : operator.screenText text = .error r := by
  cases h with
  | notANumber ho h =>
    rw [screenText_comparison ho, not_isNumeric_iff.mpr h]
    rfl
  | boundsWithoutComma h => rw [screenText, screenBounds, if_pos h]
  | boundsWithBlank hc h =>
    rw [screenText, screenBounds, if_neg (not_not.mpr hc), if_pos (List.any_eq_true.mpr h)]
  | boundsCount hb h =>
    have hc : ',' ∈ text.toList := List.count_pos_iff.mp (by omega)
    have hlen : (Text.segments text.toList).length ≠ 2 := by
      rw [Text.length_segments]
      omega
    rw [screenText, screenBounds, if_neg (not_not.mpr hc), if_neg (by simpa using hb), if_pos hlen]
  | boundsNotNumeric hb hl hh h =>
    rw [toList_joined] at hb
    rw [screenText, toList_joined, screenBounds_append_comma hl hh hb, String.ofList_toList,
      String.ofList_toList]
    rcases h with h | h
    · rw [not_isNumeric_iff.mpr h, Bool.false_and]
      rfl
    · rw [not_isNumeric_iff.mpr h, Bool.and_false]
      rfl
  | membersCount h =>
    have hlen : (Text.segments text.toList).length ≠ 2 := by
      rw [Text.length_segments]
      omega
    rw [screenText, screenMembers, if_pos hlen]
  | membersWithSpaceAtComma hf hs h =>
    rw [screenText, toList_joined, screenMembers_append_comma hf hs, if_pos h]

theorem breaksFirst_or_accepts_between (text : String) :
    between.Accepts text ∨ ∃ r, BreaksFirst between text r := by
  by_cases hc : ',' ∉ text.toList
  · exact .inr ⟨_, .boundsWithoutComma hc⟩
  by_cases hb : ∃ c ∈ text.toList, Text.isBlank c = true
  · exact .inr ⟨_, .boundsWithBlank (not_not.mp hc) hb⟩
  have hb : ∀ c ∈ text.toList, Text.isBlank c = false := by simpa using hb
  by_cases hcount : 2 ≤ text.toList.count ','
  · exact .inr ⟨_, .boundsCount hb hcount⟩
  have hpos : 0 < text.toList.count ',' := List.count_pos_iff.mpr (not_not.mp hc)
  have hlen : (Text.segments text.toList).length = 2 := by
    rw [Text.length_segments]
    omega
  obtain ⟨low, high, rfl, hl, hh⟩ := exists_joined_of_length_segments hlen
  cases hx : ofText? low with
  | none => exact .inr ⟨_, .boundsNotNumeric hb hl hh (.inl hx)⟩
  | some x =>
    cases hy : ofText? high with
    | none => exact .inr ⟨_, .boundsNotNumeric hb hl hh (.inr hy)⟩
    | some y => exact .inl ⟨low, high, x, y, rfl, hx, hy⟩

theorem breaksFirst_or_accepts (operator : Operator) (text : String) :
    operator.Accepts text ∨ ∃ r, BreaksFirst operator text r := by
  cases operator with
  | equals => exact .inl trivial
  | lessThan | greaterThan =>
    cases hx : ofText? text with
    | none => exact .inr ⟨_, .notANumber (by simp) hx⟩
    | some x => exact .inl ⟨x, hx⟩
  | between => exact breaksFirst_or_accepts_between text
  | oneOf =>
    by_cases hcount : text.toList.count ',' = 1
    · have hlen : (Text.segments text.toList).length = 2 := by rw [Text.length_segments, hcount]
      obtain ⟨first, second, rfl, hf, hs⟩ := exists_joined_of_length_segments hlen
      by_cases hspace : first.toList.getLast? = some ' ' ∨ second.toList.head? = some ' '
      · exact .inr ⟨_, .membersWithSpaceAtComma hf hs hspace⟩
      · exact .inl ⟨first, second, rfl, hf, hs, not_or.mp hspace⟩
    · exact .inr ⟨_, .membersCount hcount⟩

theorem screenText_eq_ok_iff {operator : Operator} {text : String} :
    operator.screenText text = .ok () ↔ operator.Accepts text := by
  refine ⟨fun h => ?_, screenText_of_accepts⟩
  rcases operator.breaksFirst_or_accepts text with ha | ⟨r, hr⟩
  · exact ha
  · rw [screenText_of_breaksFirst hr] at h
    cases h

theorem screenText_eq_error_iff {operator : Operator} {text : String} {r : Rejection} :
    operator.screenText text = .error r ↔ BreaksFirst operator text r := by
  refine ⟨fun h => ?_, screenText_of_breaksFirst⟩
  rcases operator.breaksFirst_or_accepts text with ha | ⟨r', hr⟩
  · rw [screenText_of_accepts ha] at h
    cases h
  · rw [screenText_of_breaksFirst hr] at h
    cases h
    exact hr

/-- Some entry has the layer as its own or among its targets. Where either is not given
there is nothing to compare. -/
def Covered (layer : Option String) (active : Option (List Entry)) : Prop :=
  ∃ name ∈ layer, ∃ entries ∈ active, ∃ e ∈ entries, e.layer = name ∨ name ∈ e.targets

theorem screen_of_covered {operator : Operator} {text : String} {layer : Option String}
    {active : Option (List Entry)} (ht : text ≠ "") (h : Covered layer active) :
    operator.screen text layer active = .error .layerAlreadyFiltered := by
  obtain ⟨name, rfl, entries, rfl, e, he, hname⟩ := h
  rw [screen_with_history, if_neg ht, if_pos ⟨e, he, Filter.concerns_iff.mpr hname⟩]

theorem screen_of_not_covered {operator : Operator} {text : String} {layer : Option String}
    {active : Option (List Entry)} (ht : text ≠ "") (h : ¬ Covered layer active) :
    operator.screen text layer active = operator.screenText text := by
  cases layer with
  | none => simp [screen, ht]
  | some name =>
    cases active with
    | none => simp [screen, ht]
    | some entries =>
      have hno : ¬ ∃ e ∈ entries, e.concerns name = true := by
        rintro ⟨e, he, hname⟩
        exact h ⟨name, rfl, entries, rfl, e, he, Filter.concerns_iff.mp hname⟩
      rw [screen_with_history, if_neg ht, if_neg hno]

theorem not_covered_none : ¬ Covered none none := by
  rintro ⟨name, h, -⟩
  cases h

/-- The empty text comes before the covered layer, and the covered layer before the rules of
the operator. Then the texts of the operator are taken, any other is refused for the first
rule it breaks, and it does not matter which layer and entries are given. -/
theorem screening_names_first_broken_rule (operator : Operator) (text : String)
    (layer : Option String) (active : Option (List Entry)) :
    (text = "" → operator.screen text layer active = .error .empty) ∧
    (text ≠ "" → Covered layer active →
      operator.screen text layer active = .error .layerAlreadyFiltered) ∧
    (text ≠ "" → ¬ Covered layer active →
      operator.screen text layer active = operator.screen text none none ∧
      (operator.screen text layer active = .ok () ↔ operator.Accepts text) ∧
      ∀ r, operator.screen text layer active = .error r ↔ BreaksFirst operator text r) := by
  refine ⟨?_, screen_of_covered, ?_⟩
  · rintro rfl
    rfl
  · intro ht hc
    rw [screen_of_not_covered ht hc, screen_of_not_covered ht not_covered_none]
    exact ⟨rfl, screenText_eq_ok_iff, fun r => screenText_eq_error_iff⟩

def riversShown : Entry where
  layer := "waters"
  targets := ["rivers", "lakes"]
  predicate := .nothing
  priors := [none, none]
  caption := ⟨"", ""⟩
  id := ⟨0⟩

/-- The blank is named and not the second comma, nor the part that is no number, unless the
layer is a target already or nothing was typed. -/
theorem blank_named_before_comma :
    between.screen "10, 20,x" (some "roads") (some [riversShown]) = .error .boundsWithBlank ∧
    between.screen "10, 20,x" (some "lakes") (some [riversShown]) = .error .layerAlreadyFiltered ∧
    between.screen "" (some "lakes") (some [riversShown]) = .error .empty := by
  have hb : BreaksFirst between "10, 20,x" .boundsWithBlank :=
    .boundsWithBlank (by decide) ⟨' ', by decide, by decide⟩
  have hroads : ¬ Covered (some "roads") (some [riversShown]) := by
    simp [Covered, riversShown]
  have hlakes : Covered (some "lakes") (some [riversShown]) :=
    ⟨"lakes", rfl, [riversShown], rfl, riversShown, by simp, .inr (by simp [riversShown])⟩
  obtain ⟨-, -, hrules⟩ := screening_names_first_broken_rule between "10, 20,x" (some "roads")
    (some [riversShown])
  obtain ⟨-, hcovered, -⟩ := screening_names_first_broken_rule between "10, 20,x" (some "lakes")
    (some [riversShown])
  obtain ⟨hempty, -⟩ := screening_names_first_broken_rule between "" (some "lakes")
    (some [riversShown])
  exact ⟨((hrules (by decide) hroads).2.2 _).mpr hb, hcovered (by decide) hlakes, hempty rfl⟩

end Operator

end FeatureSieve
