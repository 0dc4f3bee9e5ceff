import FeatureSieve.Proofs.Predicate.Grammar
import FeatureSieve.Proofs.Query.Meaning
import Mathlib.Data.String.Basic

/-! # The meaning of expressions

What an expression selects is stated on its JSON form, for the forms that are only read as well
as for those that are written. Reading an expression and writing its normal form keep that
meaning, also below negations, where a comparison without an order comes out true.
-/

namespace FeatureSieve

/-- The comparison of strings that a comparator stands for. -/
def Comparator.RelatesText : Comparator → String → String → Prop
  | equal, s, t => s = t
  | less, s, t => s < t
  | greater, s, t => t < s

theorem Comparator.holds_compare_text_iff (c : Comparator) (s t : String) :
    c.holds (compare s t) = true ↔ c.RelatesText s t := by
  cases c with
  | equal =>
    rw [holds, RelatesText, decide_eq_true_iff]
    exact compare_eq_iff_eq
  | less =>
    rw [holds, RelatesText, decide_eq_true_iff]
    exact compare_lt_iff_lt
  | greater =>
    rw [holds, RelatesText, decide_eq_true_iff]
    exact compare_gt_iff_gt

namespace Json

/-- The accessor reads the attribute as it is; its name alone stands for its `get`. -/
inductive ReadsRaw : Json → String → Prop
  | name (field : String) : ReadsRaw (.string field) field
  | get (field : String) : ReadsRaw (.array [.string "get", .string field]) field

/-- The accessor casts the attribute to a number. -/
inductive ReadsCast : Json → String → Prop
  | cast {inner : Json} {field : String} (h : ReadsRaw inner field) :
    ReadsCast (.array [.string "to-number", inner]) field

/-- The attribute of a feature and the operand have the order that is asked for. Numbers count
as the doubles nearest to them; values of different kinds have no order. -/
inductive Compares (feature : Feature) (c : Comparator) : Json → Json → Prop
  | cast {accessor : Json} {field : String} {n : Json.Number} {v : ℚ} {x : FiniteDouble}
    (ha : ReadsCast accessor field) (hv : CastsTo (feature.get? field) v)
    (hx : x.IsNearest n.value) (h : c.Relates v x.value) : Compares feature c accessor (.number n)
  | number {accessor : Json} {field : String} {m n : Json.Number} {x y : FiniteDouble}
    (ha : ReadsRaw accessor field) (hm : feature.get? field = some (.number m))
    (hy : y.IsNearest m.value) (hx : x.IsNearest n.value) (h : c.Relates y.value x.value) :
    Compares feature c accessor (.number n)
  | text {accessor : Json} {field s t : String} (ha : ReadsRaw accessor field)
    (hs : feature.get? field = some (.string s)) (h : c.RelatesText s t) :
    Compares feature c accessor (.string t)

mutual

/-- Whether an expression selects a feature. -/
def Selects (feature : Feature) : Json → Prop
  | .bool b => b = true
  | .array (.string "all" :: parts) => SelectsAll feature parts
  | .array (.string "any" :: parts) => SelectsAny feature parts
  | .array [.string "!", part] => ¬ Selects feature part
  | .array (.string "in" :: .string field :: members) =>
    ∃ s, feature.get? field = some (.string s) ∧ .string s ∈ members
  | .array [.string "==", accessor, operand] => Compares feature .equal accessor operand
  | .array [.string "<", accessor, operand] => Compares feature .less accessor operand
  | .array [.string ">", accessor, operand] => Compares feature .greater accessor operand
  | _ => False

def SelectsAll (feature : Feature) : List Json → Prop
  | [] => True
  | part :: rest => Selects feature part ∧ SelectsAll feature rest

def SelectsAny (feature : Feature) : List Json → Prop
  | [] => False
  | part :: rest => Selects feature part ∨ SelectsAny feature rest

end

theorem selects_comparison_iff {feature : Feature} {c : Comparator} {accessor operand : Json} :
    Selects feature (.array [.string c.symbol, accessor, operand]) ↔
      Compares feature c accessor operand := by
  cases c with
  | equal => rw [Comparator.symbol, Selects]
  | less => rw [Comparator.symbol, Selects]
  | greater => rw [Comparator.symbol, Selects]

theorem readsRaw_iff {v : Json} {field : String} :
    ReadsRaw v field ↔ Accessor.ofJson v = .ok (.raw field) := by
  rw [Accessor.ofJson_eq_ok_raw_iff]
  constructor
  · rintro (_ | _)
    · exact Or.inl rfl
    · exact Or.inr rfl
  · rintro (rfl | rfl)
    · exact .name field
    · exact .get field

theorem readsCast_iff {v : Json} {field : String} :
    ReadsCast v field ↔ Accessor.ofJson v = .ok (.numeric field) := by
  rw [Accessor.ofJson_eq_ok_numeric_iff]
  constructor
  · rintro ⟨h⟩
    exact ⟨_, rfl, readsRaw_iff.mp h⟩
  · rintro ⟨inner, rfl, h⟩
    exact .cast (readsRaw_iff.mpr h)

/-- With a number there are two ways to compare, and both use its nearest double. -/
theorem compares_number_iff {feature : Feature} {c : Comparator} {accessor : Json}
    {n : Json.Number} : Compares feature c accessor (.number n) ↔
      (∃ field v, ReadsCast accessor field ∧ CastsTo (feature.get? field) v ∧
        c.Relates v n.toDouble.value) ∨
      ∃ field m, ReadsRaw accessor field ∧ feature.get? field = some (.number m) ∧
        c.Relates m.toDouble.value n.toDouble.value := by
  constructor
  · rintro (⟨ha, hv, hx, h⟩ | ⟨ha, hm, hy, hx, h⟩ | _)
    · rw [← n.toDouble_isNearest.value_eq hx] at h
      exact Or.inl ⟨_, _, ha, hv, h⟩
    · rw [← n.toDouble_isNearest.value_eq hx, ← (Number.toDouble_isNearest _).value_eq hy] at h
      exact Or.inr ⟨_, _, ha, hm, h⟩
  · rintro (⟨field, v, ha, hv, h⟩ | ⟨field, m, ha, hm, h⟩)
    · exact .cast ha hv n.toDouble_isNearest h
    · exact .number ha hm m.toDouble_isNearest n.toDouble_isNearest h

theorem compares_text_iff {feature : Feature} {c : Comparator} {accessor : Json} {t : String} :
    Compares feature c accessor (.string t) ↔
      ∃ field s, ReadsRaw accessor field ∧ feature.get? field = some (.string s) ∧
        c.RelatesText s t := by
  constructor
  · rintro (_ | _ | ⟨ha, hs, h⟩)
    exact ⟨_, _, ha, hs, h⟩
  · rintro ⟨field, s, ha, hs, h⟩
    exact .text ha hs h

end Json

theorem Operand.ofJson_eq_ok_number_iff {v : Json} {x : Double} :
    ofJson v = .ok (number x) ↔ ∃ n : Json.Number, v = .number n ∧ x = .finite n.toDouble := by
  cases v <;> simp [ofJson, eq_comm]

theorem Operand.ofJson_eq_ok_text_iff {v : Json} {s : String} :
    ofJson v = .ok (text s) ↔ v = .string s := by
  cases v <;> simp [ofJson]

namespace Predicate

open Json (Compares Selects)

/-- A number is compared by its nearest double. -/
theorem selects_raw_number_iff {feature : Feature} {c : Comparator} {field : String}
    {y : FiniteDouble} : (comparison c (.raw field) (.number (.finite y))).selects feature = true ↔
      ∃ n : Json.Number, feature.get? field = some (.number n) ∧
        c.Relates n.toDouble.value y.value := by
  simp only [selects, order?]
  split
  · next n hn =>
    simp [hn, FiniteDouble.compare?, c.holds_compare_iff]
  · next hn =>
    simp only [Option.any_none, Bool.false_eq_true, false_iff]
    rintro ⟨n, h, -⟩
    exact hn n h

theorem selects_raw_text_iff {feature : Feature} {c : Comparator} {field t : String} :
    (comparison c (.raw field) (.text t)).selects feature = true ↔
      ∃ s, feature.get? field = some (.string s) ∧ c.RelatesText s t := by
  simp only [selects, order?]
  split
  · next s hs => simp [hs, c.holds_compare_text_iff]
  · next hs =>
    simp only [Option.any_none, Bool.false_eq_true, false_iff]
    rintro ⟨s, h, -⟩
    exact hs s h

/-- A comparison that is read selects what its expression does. -/
theorem selects_iff_compares {feature : Feature} {c : Comparator} {v w : Json}
    {accessor : Accessor} {operand : Operand} (ha : Accessor.ofJson v = .ok accessor)
    (ho : Operand.ofJson w = .ok operand) :
    (comparison c accessor operand).selects feature = true ↔ Compares feature c v w := by
  cases operand with
  | number x =>
    obtain ⟨n, rfl, rfl⟩ := Operand.ofJson_eq_ok_number_iff.mp ho
    rw [Json.compares_number_iff]
    simp only [Json.readsRaw_iff, Json.readsCast_iff, ha]
    cases accessor with
    | raw field => simp [selects_raw_number_iff]
    | numeric field =>
      rw [← numericComparison, selects_numericComparison_iff]
      simp
  | text t =>
    obtain rfl := Operand.ofJson_eq_ok_text_iff.mp ho
    rw [Json.compares_text_iff]
    simp only [Json.readsRaw_iff, ha]
    cases accessor with
    | raw field => simp [selects_raw_text_iff]
    | numeric field => simp [selects, order?]

theorem selects_membership_iff_of_ofJson {feature : Feature} {args : List Json} {p : Predicate}
    (h : membershipOfJson args = .ok p) :
    p.selects feature = true ↔ Selects feature (.array (.string "in" :: args)) := by
  obtain ⟨field, members, rfl⟩ := args_of_membershipOfJson h
  rw [membershipOfJson_map_string] at h
  cases h
  rw [selects_membership_iff, Selects]
  simp [and_comm]

theorem selectsAll_iff_of_forall₂ {feature : Feature} {vs : List Json} {ps : List Predicate}
    (h : List.Forall₂ (fun v q => q.selects feature = true ↔ v.Selects feature) vs ps) :
    selectsAll feature ps = true ↔ Json.SelectsAll feature vs := by
  induction h with
  | nil => simp [selectsAll, Json.SelectsAll]
  | cons hv _ ih => rw [selectsAll, Json.SelectsAll, Bool.and_eq_true, hv, ih]

theorem selectsAny_iff_of_forall₂ {feature : Feature} {vs : List Json} {ps : List Predicate}
    (h : List.Forall₂ (fun v q => q.selects feature = true ↔ v.Selects feature) vs ps) :
    selectsAny feature ps = true ↔ Json.SelectsAny feature vs := by
  induction h with
  | nil => simp [selectsAny, Json.SelectsAny]
  | cons hv _ ih => rw [selectsAny, Json.SelectsAny, Bool.or_eq_true, hv, ih]

mutual

/-- A predicate that is read selects what its expression does. -/
theorem selects_iff_of_ofJson (feature : Feature) (v : Json) {p : Predicate} (h : ofJson v = .ok p) :
    p.selects feature = true ↔ v.Selects feature := by
  rcases ofJson_eq_ok_cases h with ⟨rfl, rfl⟩ | ⟨rfl, rfl⟩ | ⟨c, args, rfl, hc⟩ | ⟨args, rfl, hm⟩ |
    ⟨args, ps, hv, hps, rfl⟩ | ⟨args, ps, hv, hps, rfl⟩ | ⟨child, q, hv, hq, rfl⟩
  · simp [selects, selectsAll, Selects]
  · simp [selects, Selects]
  · obtain ⟨accessor, operand, v, w, rfl, ha, ho, rfl⟩ := comparisonOfJson_eq_ok hc
    rw [Json.selects_comparison_iff, selects_iff_compares ha ho]
  · exact selects_membership_iff_of_ofJson hm
  · have hparts := forall₂_selects_of_ofJsonEach feature args hps
    rw [hv, selects, Selects]
    exact selectsAll_iff_of_forall₂ hparts
  · have hparts := forall₂_selects_of_ofJsonEach feature args hps
    rw [hv, selects, Selects]
    exact selectsAny_iff_of_forall₂ hparts
  · have hchild := selects_iff_of_ofJson feature child hq
    rw [hv, selects, Selects, ← hchild, Bool.not_eq_true', Bool.not_eq_true]
termination_by sizeOf v
decreasing_by all_goals (subst hv; simp; omega)

theorem forall₂_selects_of_ofJsonEach (feature : Feature) (vs : List Json) {ps : List Predicate}
    (h : ofJsonEach vs = .ok ps) :
    List.Forall₂ (fun v q => q.selects feature = true ↔ v.Selects feature) vs ps := by
  cases vs with
  | nil =>
    rw [ofJsonEach] at h
    cases h
    exact .nil
  | cons v rest =>
    rw [ofJsonEach] at h
    obtain ⟨q, hq, h⟩ := bind_eq_ok_iff.mp h
    obtain ⟨qs, hqs, h⟩ := bind_eq_ok_iff.mp h
    cases pure_eq_ok_iff.mp h
    exact .cons (selects_iff_of_ofJson feature v hq) (forall₂_selects_of_ofJsonEach feature rest hqs)
termination_by sizeOf vs

end

/-- A predicate that is read selects what the expression means, and so does its normal form. -/
theorem reading_keeps_meaning {v : Json} {p : Predicate} (h : ofJson v = .ok p) (feature : Feature) :
    (p.selects feature = true ↔ v.Selects feature) ∧
    (p.selects feature = true ↔ p.toJson.Selects feature) := by
  have hnormal : ofJson p.toJson = .ok p := ofJson_toJson_of_finite p (isFinite_of_ofJson p h)
  exact ⟨selects_iff_of_ofJson feature v h, selects_iff_of_ofJson feature p.toJson hnormal⟩

/-- A depth that is no number is not less than anything, so the negation selects the feature,
whether the accessor is a `get` or a bare name. -/
theorem depth_in_words_passes_negation :
    let feature : Feature := [("depth", .string "deep"), ("kind", .string "well")]
    let limit : Json := .number (.integer ⟨5, by decide, by decide⟩)
    let v : Json := .array [.string "all", .bool true,
      .array [.string "!", .array [.string "<", .array [.string "to-number", .string "depth"], limit]],
      .array [.string ">", .string "kind", .string "road"]]
    ∃ p, ofJson v = .ok p ∧ v.Selects feature ∧ p.toJson.Selects feature := by
  intro feature limit v
  have hv : ∃ p, ofJson v = .ok p ∧ p.selects feature = true := ⟨_, rfl, by decide +kernel⟩
  obtain ⟨p, hp, hselects⟩ := hv
  obtain ⟨hmeaning, hnormal⟩ := reading_keeps_meaning hp feature
  exact ⟨p, hp, hmeaning.mp hselects, hnormal.mp hselects⟩

end Predicate

end FeatureSieve
