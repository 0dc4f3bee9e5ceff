import FeatureSieve.Proofs.Viewer.Shown

/-! # What a predicate depends on

A predicate reads the attributes that it names and no others. A missing attribute counts as a null
where it is cast and as nothing elsewhere, but only the named ones can be missed. The predicate of
a submission names one attribute, so what is shown after it is decided by that one.
-/

namespace FeatureSieve

namespace Predicate

variable {feature other : Feature}

theorem order?_congr {accessor : Accessor}
    (h : feature.get? accessor.field = other.get? accessor.field) (operand : Operand) :
    order? feature accessor operand = order? other accessor operand := by
  cases accessor with
  | raw field | numeric field =>
    have hfield : feature.get? field = other.get? field := h
    cases operand with
    | number y | text t => simp only [order?, hfield]

mutual

/-- Features that agree on the named attributes are selected alike. -/
theorem selects_congr (p : Predicate) (h : ∀ name ∈ p.fields, feature.get? name = other.get? name) :
    p.selects feature = p.selects other := by
  cases p with
  | comparison c accessor operand =>
    have ha : feature.get? accessor.field = other.get? accessor.field := h _ (by simp [fields])
    rw [selects, selects, order?_congr ha]
  | membership field members =>
    have hf : feature.get? field = other.get? field := h field (by simp [fields])
    rw [selects, selects, hf]
  | all children => rw [selects, selects, selectsAll_congr children h]
  | any children => rw [selects, selects, selectsAny_congr children h]
  | not child => rw [selects, selects, selects_congr child h]
  | nothing => rfl

theorem selectsAll_congr (ps : List Predicate)
    (h : ∀ name ∈ fieldsEach ps, feature.get? name = other.get? name) :
    selectsAll feature ps = selectsAll other ps := by
  cases ps with
  | nil => rfl
  | cons p rest =>
    have hp := selects_congr p fun name hn => h name (List.mem_append_left _ hn)
    have hr := selectsAll_congr rest fun name hn => h name (List.mem_append_right _ hn)
    rw [selectsAll, selectsAll, hp, hr]

theorem selectsAny_congr (ps : List Predicate)
    (h : ∀ name ∈ fieldsEach ps, feature.get? name = other.get? name) :
    selectsAny feature ps = selectsAny other ps := by
  cases ps with
  | nil => rfl
  | cons p rest =>
    have hp := selects_congr p fun name hn => h name (List.mem_append_left _ hn)
    have hr := selectsAny_congr rest fun name hn => h name (List.mem_append_right _ hn)
    rw [selectsAny, selectsAny, hp, hr]

end

end Predicate

/-- A feature without other attributes. -/
def Feature.single (field : String) (a : Option Json) : Feature := (a.map (field, ·)).toList

theorem Feature.get?_single (field : String) (a : Option Json) :
    (Feature.single field a).get? field = a := by
  cases a with
  | none => rfl
  | some v => exact if_pos rfl

/-- Whatever the text, the value of the one attribute decides. -/
theorem Operator.selects_predicate_single (operator : Operator) (field text : String)
    (feature : Feature) : (operator.predicate field text).selects feature =
      (operator.predicate field text).selects (.single field (feature.get? field)) := by
  apply Predicate.selects_congr
  intro name hn
  rw [eq_of_mem_fields_predicate hn, Feature.get?_single]

namespace Viewer

/-- Features that agree on the attributes that a predicate names are selected alike. The predicate
of an operator names the given field alone. So after an accepted submission the targets of the
layer show the features by their values of that field, whatever else they hold. -/
theorem selection_reads_named_attributes :
    (∀ (p : Predicate) (feature other : Feature),
      (∀ name ∈ p.fields, feature.get? name = other.get? name) →
        p.selects feature = p.selects other) ∧
    (∀ (operator : Operator) (field text : String),
      ∀ name ∈ (operator.predicate field text).fields, name = field) ∧
    ∀ (s : Viewer Slots) (d : AtlasDescription), Atlas.build d = .ok s.atlas →
      ∀ (i : Submission) (id : FilterId), (s.submit i).1 = .ok id →
        ∃ layer, s.atlas.layer? i.layer = some layer ∧ ∃ keeps : Option Json → Bool,
          ∀ target ∈ layer.targetIds, ∀ features : List Feature,
            (s.submit i).2.renderer.shown target features =
              features.filter fun feature => keeps (feature.get? i.field) := by
  refine ⟨fun p feature other h => p.selects_congr h,
    fun operator field text name hn => Operator.eq_of_mem_fields_predicate hn, ?_⟩
  intro s d hb i id hi
  obtain ⟨layer, field, hj, hheld⟩ := held_of_submit (Atlas.exclusive_of_build hb) hi
  obtain ⟨hl, -, -, -⟩ := judge_eq_ok_iff.mp hj
  let p := i.operator.predicate i.field i.text
  refine ⟨layer, hl, fun a => p.selects (.single i.field a), fun target ht features => ?_⟩
  rw [Slots.shown_eq_filter (hheld target ht)]
  apply List.filter_congr
  intro feature _
  exact i.operator.selects_predicate_single i.field i.text feature

/-- A remark and the order of the attributes make no difference to a feature without a depth, and
none to what the labels show after a filter on the depth. -/
theorem remark_makes_no_difference :
    let p : Predicate := .all [.numericComparison .less "depth" (.finite .one),
      .not (.membership "code" ["A", "B"])]
    let feature : Feature := [("code", .string "C"), ("depth", .null)]
    let other : Feature := [("remark", .string "A"), ("depth", .null), ("code", .string "C")]
    let s := start .sample (Slots.ofAtlas .sample) 0
    let i : Submission := ⟨"wells", "depth", .lessThan, "5"⟩
    (∀ name ∈ p.fields, feature.get? name = other.get? name) ∧
    p.selects feature = p.selects other ∧
    Atlas.build Atlas.sampleDescription = .ok s.atlas ∧ (s.submit i).1 = .ok ⟨0⟩ ∧
    ∃ keeps : Option Json → Bool, ∀ features : List Feature,
      (s.submit i).2.renderer.shown "wells_labels" features =
        features.filter fun feature => keeps (feature.get? "depth") := by
  intro p feature other s i
  have hagree : ∀ name ∈ p.fields, feature.get? name = other.get? name := by
    intro name hn
    have hnames : name = "depth" ∨ name = "code" := by simpa [p, Predicate.fields,
      Predicate.fieldsEach, Predicate.numericComparison, Accessor.field] using hn
    rcases hnames with rfl | rfl
    · rfl
    · rfl
  have hi : (s.submit i).1 = .ok ⟨0⟩ := by decide +kernel
  obtain ⟨hselects, -, hshown⟩ := selection_reads_named_attributes
  obtain ⟨layer, hl, keeps, hkeeps⟩ := hshown s _ Atlas.build_sample i _ hi
  cases hl
  exact ⟨hagree, hselects p feature other hagree, Atlas.build_sample, hi, keeps,
    hkeeps "wells_labels" (by decide)⟩

end Viewer

end FeatureSieve
