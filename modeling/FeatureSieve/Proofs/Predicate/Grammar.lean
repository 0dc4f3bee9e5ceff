import FeatureSieve.Proofs.Predicate.Normalization

/-! # The grammar of expressions

The expressions that are read are the least set of values that has the two booleans, the
comparisons of an accessor with an operand and the memberships, and that is closed under
`all`, `any` and `!`. Whatever is not in the set is refused, and a combination is refused
for the first of its parts that is not in the set.
-/

namespace FeatureSieve

namespace Json

/-- A name, the `get` of a name, or the cast of one of these; a cast is not cast again. -/
inductive IsAccessor : Json → Prop
  | name (field : String) : IsAccessor (.string field)
  | get (field : String) : IsAccessor (.array [.string "get", .string field])
  | castName (field : String) : IsAccessor (.array [.string "to-number", .string field])
  | castGet (field : String) :
    IsAccessor (.array [.string "to-number", .array [.string "get", .string field]])

inductive IsOperand : Json → Prop
  | number (n : Json.Number) : IsOperand (.number n)
  | text (s : String) : IsOperand (.string s)

inductive IsExpression : Json → Prop
  | literal (b : Bool) : IsExpression (.bool b)
  | comparison {operator : String} {accessor operand : Json} (ho : operator ∈ ["==", "<", ">"])
    (ha : IsAccessor accessor) (hl : IsOperand operand) :
    IsExpression (.array [.string operator, accessor, operand])
  | membership (field : String) (members : List String) :
    IsExpression (.array (.string "in" :: .string field :: members.map .string))
  | all {parts : List Json} (h : ∀ part ∈ parts, IsExpression part) :
    IsExpression (.array (.string "all" :: parts))
  | any {parts : List Json} (h : ∀ part ∈ parts, IsExpression part) :
    IsExpression (.array (.string "any" :: parts))
  | not {part : Json} (h : IsExpression part) : IsExpression (.array [.string "!", part])

end Json

theorem Comparator.exists_symbol_iff {s : String} :
    (∃ c : Comparator, s = c.symbol) ↔ s ∈ ["==", "<", ">"] := by
  constructor
  · rintro ⟨c, rfl⟩
    cases c <;> simp [symbol]
  · simp only [List.mem_cons, List.not_mem_nil, or_false]
    rintro (rfl | rfl | rfl)
    · exact ⟨.equal, rfl⟩
    · exact ⟨.less, rfl⟩
    · exact ⟨.greater, rfl⟩

namespace Accessor

theorem ofJson_eq_ok_raw_iff {v : Json} {field : String} :
    ofJson v = .ok (raw field) ↔ v = .string field ∨ v = .array [.string "get", .string field] := by
  constructor
  · intro h
    unfold ofJson at h
    split at h
    · cases h
      exact Or.inl rfl
    · split at h
      · next hop =>
        split at h
        · cases h
          exact Or.inr (by rw [hop])
        · cases h
      · split at h
        · split at h <;> cases h
        · cases h
    · cases h
  · rintro (rfl | rfl)
    · simp [ofJson]
    · simp [ofJson]

theorem ofJson_eq_ok_numeric_iff {v : Json} {field : String} :
    ofJson v = .ok (numeric field) ↔
      ∃ inner, v = .array [.string "to-number", inner] ∧ ofJson inner = .ok (raw field) := by
  constructor
  · intro h
    unfold ofJson at h
    split at h
    · cases h
    · next inner =>
      split at h
      · split at h <;> cases h
      · split at h
        · next hop =>
          split at h
          · next hi =>
            cases h
            exact ⟨inner, by rw [hop], hi⟩
          · cases h
          · cases h
        · cases h
    · cases h
  · rintro ⟨inner, rfl, hi⟩
    unfold ofJson
    simp [hi]

theorem exists_ofJson_iff {v : Json} : (∃ accessor, ofJson v = .ok accessor) ↔ v.IsAccessor := by
  constructor
  · rintro ⟨_ | field, h⟩
    · rcases ofJson_eq_ok_raw_iff.mp h with rfl | rfl
      · exact .name _
      · exact .get _
    · obtain ⟨inner, rfl, hi⟩ := ofJson_eq_ok_numeric_iff.mp h
      rcases ofJson_eq_ok_raw_iff.mp hi with rfl | rfl
      · exact .castName field
      · exact .castGet field
  · rintro (field | field | field | field)
    · exact ⟨raw field, ofJson_eq_ok_raw_iff.mpr (Or.inl rfl)⟩
    · exact ⟨raw field, ofJson_eq_ok_raw_iff.mpr (Or.inr rfl)⟩
    · refine ⟨numeric field, ofJson_eq_ok_numeric_iff.mpr ⟨_, rfl, ?_⟩⟩
      exact ofJson_eq_ok_raw_iff.mpr (Or.inl rfl)
    · refine ⟨numeric field, ofJson_eq_ok_numeric_iff.mpr ⟨_, rfl, ?_⟩⟩
      exact ofJson_eq_ok_raw_iff.mpr (Or.inr rfl)

end Accessor

theorem Operand.exists_ofJson_iff {v : Json} : (∃ operand, ofJson v = .ok operand) ↔ v.IsOperand := by
  constructor
  · rintro ⟨operand, h⟩
    cases v with
    | number n => exact .number n
    | string s => exact .text s
    | null | bool b | array elements | object members => cases h
  · rintro (n | s)
    · exact ⟨_, rfl⟩
    · exact ⟨_, rfl⟩

namespace Predicate

theorem memberOfJson_eq_ok_iff {v : Json} {s : String} : memberOfJson v = .ok s ↔ v = .string s := by
  cases v <;> simp [memberOfJson]

/-- Members that are read are strings, and nothing is lost of them. -/
theorem eq_map_string_of_mapM {vs : List Json} {members : List String}
    (h : vs.mapM memberOfJson = .ok members) : vs = members.map .string := by
  have hall := mapM_eq_ok_iff.mp h
  simp only [memberOfJson_eq_ok_iff] at hall
  rwa [← List.forall₂_eq_eq_eq, List.forall₂_map_right_iff]

theorem args_of_membershipOfJson {args : List Json} {p : Predicate}
    (h : membershipOfJson args = .ok p) :
    ∃ field members, args = .string field :: List.map .string members := by
  unfold membershipOfJson at h
  split at h
  · next field rest =>
    obtain ⟨members, hm, -⟩ := map_eq_ok_iff.mp h
    exact ⟨field, members, by rw [eq_map_string_of_mapM hm]⟩
  · cases h

theorem ofJsonEach_eq_mapM (vs : List Json) : ofJsonEach vs = vs.mapM ofJson := by
  induction vs with
  | nil => rfl
  | cons v rest ih => rw [ofJsonEach, List.mapM_cons, ih]

theorem exists_ofJsonEach_iff {vs : List Json} :
    (∃ ps, ofJsonEach vs = .ok ps) ↔ ∀ v ∈ vs, ∃ p, ofJson v = .ok p := by
  simp only [ofJsonEach_eq_mapM, mapM_eq_ok_iff, exists_forall₂_iff]

/-- What is read is an expression. -/
theorem isExpression_of_ofJson (v : Json) (h : ∃ p, ofJson v = .ok p) : v.IsExpression := by
  obtain ⟨p, hp⟩ := h
  rcases ofJson_eq_ok_cases hp with ⟨rfl, -⟩ | ⟨rfl, -⟩ | ⟨c, args, rfl, hc⟩ | ⟨args, rfl, hm⟩ |
    ⟨args, ps, hv, hps, -⟩ | ⟨args, ps, hv, hps, -⟩ | ⟨child, q, hv, hq, -⟩
  · exact .literal true
  · exact .literal false
  · obtain ⟨accessor, operand, v, w, rfl, ha, ho, -⟩ := comparisonOfJson_eq_ok hc
    apply Json.IsExpression.comparison
    · exact Comparator.exists_symbol_iff.mp ⟨c, rfl⟩
    · exact Accessor.exists_ofJson_iff.mp ⟨accessor, ha⟩
    · exact Operand.exists_ofJson_iff.mp ⟨operand, ho⟩
  · obtain ⟨field, members, rfl⟩ := args_of_membershipOfJson hm
    exact .membership field members
  · have hparts := exists_ofJsonEach_iff.mp ⟨ps, hps⟩
    rw [hv]
    exact .all fun part hpart => isExpression_of_ofJson part (hparts part hpart)
  · have hparts := exists_ofJsonEach_iff.mp ⟨ps, hps⟩
    rw [hv]
    exact .any fun part hpart => isExpression_of_ofJson part (hparts part hpart)
  · rw [hv]
    exact .not (isExpression_of_ofJson child ⟨q, hq⟩)
termination_by sizeOf v
decreasing_by
  · have hsize := List.sizeOf_lt_of_mem hpart
    simp [hv]
    omega
  · have hsize := List.sizeOf_lt_of_mem hpart
    simp [hv]
    omega
  · simp [hv]
    omega

/-- Every expression is read. -/
theorem exists_ofJson_of_isExpression {v : Json} (h : v.IsExpression) : ∃ p, ofJson v = .ok p := by
  induction h with
  | literal b => cases b <;> exact ⟨_, by rw [ofJson]⟩
  | comparison ho ha hl =>
    obtain ⟨c, rfl⟩ := Comparator.exists_symbol_iff.mpr ho
    obtain ⟨accessor, ha⟩ := Accessor.exists_ofJson_iff.mpr ha
    obtain ⟨operand, hl⟩ := Operand.exists_ofJson_iff.mpr hl
    refine ⟨comparison c accessor operand, ?_⟩
    simp only [ofJson_comparison, comparisonOfJson, hl, ha]
    rfl
  | membership field members =>
    exact ⟨_, by rw [ofJson_membership, membershipOfJson_map_string]⟩
  | all h ih =>
    obtain ⟨ps, hps⟩ := exists_ofJsonEach_iff.mpr ih
    exact ⟨Predicate.all ps, by rw [ofJson_all, hps]; rfl⟩
  | any h ih =>
    obtain ⟨ps, hps⟩ := exists_ofJsonEach_iff.mpr ih
    exact ⟨Predicate.any ps, by rw [ofJson_any, hps]; rfl⟩
  | not h ih =>
    obtain ⟨q, hq⟩ := ih
    exact ⟨Predicate.not q, by rw [ofJson_not, hq]; rfl⟩

theorem exists_ofJson_iff {v : Json} : (∃ p, ofJson v = .ok p) ↔ v.IsExpression :=
  ⟨isExpression_of_ofJson v, exists_ofJson_of_isExpression⟩

theorem exists_ofJson_eq_error_iff {v : Json} : (∃ m, ofJson v = .error m) ↔ ¬ v.IsExpression := by
  rw [← exists_ofJson_iff]
  cases ofJson v <;> simp

/-- The first of the parts that is no expression is malformed in this way. -/
def FirstMalformed (parts : List Json) (m : Malformed) : Prop :=
  ∃ before part after, parts = before ++ part :: after ∧ (∀ v ∈ before, v.IsExpression) ∧
    ¬ part.IsExpression ∧ ofJson part = .error m

theorem ofJsonEach_eq_error_iff {parts : List Json} {m : Malformed} :
    ofJsonEach parts = .error m ↔ FirstMalformed parts m := by
  have hfault : ∀ part, ofJson part = .error m ↔ ¬ part.IsExpression ∧ ofJson part = .error m :=
    fun part => ⟨fun h => ⟨exists_ofJson_eq_error_iff.mp ⟨m, h⟩, h⟩, And.right⟩
  rw [ofJsonEach_eq_mapM, mapM_eq_error_iff]
  simp only [exists_ofJson_iff, ← hfault, FirstMalformed]

/-- Exactly the expressions are read. All others are refused as malformed, a combination for the
first of its parts that is no expression. -/
theorem reading_follows_grammar (v : Json) :
    ((∃ p, ofJson v = .ok p) ↔ v.IsExpression) ∧
    (¬ v.IsExpression →
      ∃ m, ofJson v = .error m ∧ ∃ detail, m.message = "Invalid expression: " ++ detail) ∧
    ∀ parts m, v = .array (.string "all" :: parts) ∨ v = .array (.string "any" :: parts) →
      (ofJson v = .error m ↔ FirstMalformed parts m) := by
  refine ⟨exists_ofJson_iff, ?_, ?_⟩
  · intro h
    obtain ⟨m, hm⟩ := exists_ofJson_eq_error_iff.mpr h
    exact ⟨m, hm, m.detail, rfl⟩
  · rintro parts m (rfl | rfl)
    · rw [ofJson_all, map_eq_error_iff, ofJsonEach_eq_error_iff]
    · rw [ofJson_any, map_eq_error_iff, ofJsonEach_eq_error_iff]

/-- The cast of a cast is refused below a negation too, and before what is wrong later. -/
theorem reading_refuses_nested_cast :
    let cast : Json := .array [.string "to-number", .string "depth"]
    let nested : Json := .array [.string "to-number", cast]
    let five : Json := .number (.integer ⟨5, by decide, by decide⟩)
    let compare : Json → Json := fun accessor => .array [.string "<", accessor, five]
    let parts : List Json :=
      [compare cast, .array [.string "!", compare nested], .array [.string "in"]]
    (compare cast).IsExpression ∧ ¬ (compare nested).IsExpression ∧
    FirstMalformed parts (.nestedCast nested) ∧
    ofJson (.array (.string "any" :: parts)) = .error (.nestedCast nested) := by
  intro cast nested five compare parts
  obtain ⟨haccepts, -⟩ := reading_follows_grammar (compare cast)
  obtain ⟨hrefuses, -⟩ := reading_follows_grammar (compare nested)
  obtain ⟨-, -, hfirst⟩ := reading_follows_grammar (.array (.string "any" :: parts))
  have herror : ofJson (.array (.string "any" :: parts)) = .error (.nestedCast nested) := rfl
  have hnested : ofJson (compare nested) = .error (.nestedCast nested) := rfl
  refine ⟨haccepts.mp ⟨_, rfl⟩, ?_, (hfirst parts _ (Or.inr rfl)).mp herror, herror⟩
  rw [← hrefuses, hnested]
  simp

end Predicate

end FeatureSieve
