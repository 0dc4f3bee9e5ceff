import FeatureSieve.Proofs.Number.Overflow
import FeatureSieve.Proofs.Query.Agreement
import FeatureSieve.Proofs.Query.Meaning

/-! # One comparison at most

Of the three comparisons of an attribute with an operand, the one for their order holds if they
have one, and otherwise none does. Bounds on both sides are the two comparisons together.
-/

namespace FeatureSieve

open FiniteDouble (ofText?)

/-- The attribute that is read and the operand have an order. Infinite operands have one too,
and only a NaN has none. -/
inductive Comparable (feature : Feature) : Accessor → Operand → Prop where
  | cast {field : String} {v : ℚ} {x : Double} (hv : CastsTo (feature.get? field) v)
    (hx : x ≠ .nan) : Comparable feature (.numeric field) (.number x)
  | number {field : String} {n : Json.Number} {x : Double}
    (hn : feature.get? field = some (.number n)) (hx : x ≠ .nan) :
    Comparable feature (.raw field) (.number x)
  | text {field s t : String} (hs : feature.get? field = some (.string s)) :
    Comparable feature (.raw field) (.text t)

/-- The comparator that holds of an order. -/
def Comparator.ofOrdering : Ordering → Comparator
  | .eq => equal
  | .lt => less
  | .gt => greater

theorem Comparator.holds_iff {c : Comparator} {o : Ordering} : c.holds o = true ↔ c = ofOrdering o := by
  cases c <;> cases o <;> simp [holds, ofOrdering]

namespace FiniteDouble

theorem exists_compare?_iff {x : FiniteDouble} {y : Double} :
    (∃ o, x.compare? y = some o) ↔ y ≠ .nan := by
  cases y <;> simp [compare?]

/-- All values stay below the infinities. -/
theorem abs_value_lt (x : FiniteDouble) : |x.value| < 2 ^ 1024 := by
  have hstep : (0 : ℚ) < 2 ^ 970 := pow_pos (by norm_num) _
  rw [abs_value, value_size]
  exact x.units_div_lt.trans (sub_lt_self _ hstep)

end FiniteDouble

namespace Predicate

theorem selects_comparison_iff {feature : Feature} {c : Comparator} {accessor : Accessor}
    {operand : Operand} : (comparison c accessor operand).selects feature = true ↔
      ∃ o, order? feature accessor operand = some o ∧ c = .ofOrdering o := by
  rw [selects]
  simp only [Option.any_eq_true, Comparator.holds_iff]

theorem exists_order?_iff {feature : Feature} {accessor : Accessor} {operand : Operand} :
    (∃ o, order? feature accessor operand = some o) ↔ Comparable feature accessor operand := by
  constructor
  · rintro ⟨o, h⟩
    cases accessor with
    | numeric field =>
      cases operand with
      | number y =>
        obtain ⟨x, hx, hy⟩ := Option.bind_eq_some_iff.mp h
        exact .cast (castsTo_iff.mpr ⟨x, hx, rfl⟩) (FiniteDouble.exists_compare?_iff.mp ⟨o, hy⟩)
      | text t => cases h
    | raw field =>
      cases operand with
      | number y =>
        simp only [order?] at h
        split at h
        · next n hn => exact .number hn (FiniteDouble.exists_compare?_iff.mp ⟨o, h⟩)
        · cases h
      | text t =>
        simp only [order?] at h
        split at h
        · next s hs => exact .text hs
        · cases h
  · rintro (⟨hv, hy⟩ | ⟨hn, hy⟩ | hs)
    · obtain ⟨x, hx, -⟩ := castsTo_iff.mp hv
      simp only [order?, hx, Option.bind_some]
      exact FiniteDouble.exists_compare?_iff.mpr hy
    · simp only [order?, hn]
      exact FiniteDouble.exists_compare?_iff.mpr hy
    · simp [order?, hs]

/-- A number is the same whether it is read as it is or cast. -/
theorem selects_raw_eq_numeric {feature : Feature} {field : String} {n : Json.Number}
    (hn : feature.get? field = some (.number n)) (c : Comparator) (x : Double) :
    (comparison c (.raw field) (.number x)).selects feature =
      (comparison c (.numeric field) (.number x)).selects feature := by
  simp [selects, order?, hn, cast?]

end Predicate

namespace Operator

/-- Two bounds are one bound and the other, whatever stands after the comma. -/
theorem selects_between_joined {low : String} (hl : ',' ∉ low.toList) (field high : String)
    (feature : Feature) : (between.predicate field (low ++ "," ++ high)).selects feature =
      ((greaterThan.predicate field low).selects feature &&
        (lessThan.predicate field high).selects feature) := by
  simp only [predicate, toList_joined, Text.cut_append_comma hl, String.ofList_toList,
    Predicate.selects, Predicate.selectsAll, Bool.and_true]

/-- A bound that is no number selects nothing. -/
theorem selects_typed_iff {c : Comparator} {field text : String} {feature : Feature} :
    (Predicate.numericComparison c field (typed text)).selects feature = true ↔
      ∃ x v, ofText? text = some x ∧ CastsTo (feature.get? field) v ∧ c.Relates v x.value := by
  cases hx : ofText? text with
  | none => simp [← nan_eq_typed_iff.mpr hx, Predicate.selects_numericComparison_nan]
  | some x => simp [typed_of_ofText hx, Predicate.selects_numericComparison_iff]

/-- Nothing lies between bounds in the wrong order, or between bounds of which one is no number. -/
theorem lt_of_selects_between {low : String} (hl : ',' ∉ low.toList) {field high : String}
    {feature : Feature} (h : (between.predicate field (low ++ "," ++ high)).selects feature = true) :
    ∃ x y, ofText? low = some x ∧ ofText? high = some y ∧ x.value < y.value := by
  rw [selects_between_joined hl, Bool.and_eq_true] at h
  obtain ⟨x, v, hx, hv, hlow⟩ := selects_typed_iff.mp h.1
  obtain ⟨y, w, hy, hw, hhigh⟩ := selects_typed_iff.mp h.2
  obtain rfl := hv.unique hw
  exact ⟨x, y, hx, hy, lt_trans hlow hhigh⟩

end Operator

namespace Predicate

/-- At most one of the comparisons with an operand selects a feature, and one does exactly if
the two are comparable. The cast of an attribute is never infinite, and reads a number as it is.
Two bounds select what each of them selects, which is nothing unless they are in order. -/
theorem one_comparison_holds_iff_comparable (feature : Feature) :
    (∀ accessor operand,
      (∀ c c', (comparison c accessor operand).selects feature = true →
        (comparison c' accessor operand).selects feature = true → c = c') ∧
      ((∃! c, (comparison c accessor operand).selects feature = true) ↔
        Comparable feature accessor operand)) ∧
    (∀ a x, cast? a = some x → CastsTo a x.value ∧ |x.value| < 2 ^ 1024) ∧
    (∀ field n, feature.get? field = some (.number n) → ∀ c x,
      (comparison c (.raw field) (.number x)).selects feature =
        (comparison c (.numeric field) (.number x)).selects feature) ∧
    ∀ field low high, ',' ∉ low.toList →
      ((Operator.between.predicate field (low ++ "," ++ high)).selects feature = true ↔
        (Operator.greaterThan.predicate field low).selects feature = true ∧
        (Operator.lessThan.predicate field high).selects feature = true) ∧
      ((Operator.between.predicate field (low ++ "," ++ high)).selects feature = true →
        ∃ x y, ofText? low = some x ∧ ofText? high = some y ∧ x.value < y.value) := by
  refine ⟨fun accessor operand => ?_, fun a x hx => ?_, fun field n hn c x => ?_,
    fun field low high hl => ⟨?_, Operator.lt_of_selects_between hl⟩⟩
  · have hunique : ∀ c c', (comparison c accessor operand).selects feature = true →
        (comparison c' accessor operand).selects feature = true → c = c' := by
      intro c c' h h'
      obtain ⟨o, ho, rfl⟩ := selects_comparison_iff.mp h
      obtain ⟨o', ho', rfl⟩ := selects_comparison_iff.mp h'
      rw [Option.some.inj (ho.symm.trans ho')]
    refine ⟨hunique, ?_⟩
    rw [← exists_order?_iff]
    constructor
    · rintro ⟨c, hc, -⟩
      obtain ⟨o, ho, -⟩ := selects_comparison_iff.mp hc
      exact ⟨o, ho⟩
    · rintro ⟨o, ho⟩
      have hc := selects_comparison_iff.mpr ⟨o, ho, rfl⟩
      exact ⟨.ofOrdering o, hc, fun c' h' => hunique _ _ h' hc⟩
  · exact ⟨castsTo_iff.mpr ⟨x, hx, rfl⟩, x.abs_value_lt⟩
  · exact selects_raw_eq_numeric hn c x
  · rw [Operator.selects_between_joined hl, Bool.and_eq_true]

/-- The least whole number that is no double compares as the double below it does, as a depth and
as a bound: the two are equal, and nothing is between them. -/
theorem large_depth_equals_double_below :
    let feature : Feature :=
      [("depth", .number (.integer ⟨9007199254740993, by decide, by decide⟩))]
    let x : FiniteDouble := ⟨false, 0x4340000000000000, by decide⟩
    Comparable feature (.raw "depth") (.number (.finite x)) ∧
    (comparison .equal (.raw "depth") (.number (.finite x))).selects feature = true ∧
    (comparison .equal (.numeric "depth") (.number (.finite x))).selects feature = true ∧
    (comparison .greater (.raw "depth") (.number (.finite x))).selects feature ≠ true ∧
    ',' ∉ "9007199254740992".toList ∧
    (Operator.between.predicate "depth" "9007199254740992,9007199254740993").selects feature ≠ true := by
  intro feature x
  have hn : feature.get? "depth" =
      some (.number (.integer ⟨9007199254740993, by decide, by decide⟩)) := rfl
  have hc : ',' ∉ "9007199254740992".toList := by decide
  obtain ⟨hone, -, hraw, hbounds⟩ := one_comparison_holds_iff_comparable feature
  obtain ⟨hunique, hcomparable⟩ := hone (.raw "depth") (.number (.finite x))
  obtain ⟨-, horder⟩ := hbounds "depth" "9007199254740992" "9007199254740993" hc
  have hequal : (comparison .equal (.raw "depth") (.number (.finite x))).selects feature = true := by
    decide +kernel
  refine ⟨hcomparable.mp ⟨_, hequal, fun c h => hunique _ _ h hequal⟩, hequal, ?_, ?_, hc, ?_⟩
  · rw [← hraw "depth" _ hn]
    exact hequal
  · intro h
    exact absurd (hunique _ _ h hequal) (by decide)
  · intro h
    obtain ⟨a, b, ha, hb, hlt⟩ := horder h
    have hsame : ofText? "9007199254740992" = ofText? "9007199254740993" := by decide +kernel
    rw [hsame, hb] at ha
    rw [Option.some.inj ha] at hlt
    exact lt_irrefl _ hlt

end Predicate

end FeatureSieve
