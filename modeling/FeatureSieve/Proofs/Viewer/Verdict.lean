import FeatureSieve.Proofs.History.Reversion
import FeatureSieve.Proofs.Viewer.Baseline

/-! # What a submission is answered

On the slots of an atlas a submission fails for what speaks against it beforehand or not at
all. All targets of the layers have slots, and no request takes a slot away, so there is
nothing that the slots could refuse.
-/

namespace FeatureSieve.Viewer

open FaithfulRenderer

section Objections

variable {ε : Type} {s : Viewer ε} {i : Submission} {failure : Failure}

/-- What speaks against a submission, each ground where none before it does. -/
inductive Objection (s : Viewer ε) (i : Submission) : Failure → Prop
  | unknownLayer (h : ∀ layer ∈ s.atlas.layers, layer.id ≠ i.layer) :
      Objection s i (.unknownLayer i.layer)
  | unknownField (layer : Layer) (hl : s.atlas.layer? i.layer = some layer)
      (h : ∀ field ∈ layer.fields, field.name ≠ i.field) :
      Objection s i (.unknownField i.layer i.field)
  | operatorNotApplicable (offered : List Operator)
      (ho : s.operatorsFor i.layer i.field = some offered) (h : i.operator ∉ offered) :
      Objection s i (.operatorNotApplicable i.field i.operator)
  | rejected (offered : List Operator) (ho : s.operatorsFor i.layer i.field = some offered)
      (hm : i.operator ∈ offered) (rejection : Rejection) (h : s.check i = .error rejection) :
      Objection s i (.rejected rejection)

theorem operatorsFor_eq_some_iff {layer field : String} {offered : List Operator} :
    s.operatorsFor layer field = some offered ↔
      ∃ l f, s.atlas.layer? layer = some l ∧ l.field? field = some f ∧
        f.kind.operators = offered := by
  simp only [operatorsFor, Atlas.field?, Option.map_eq_some_iff, Option.bind_eq_some_iff]
  constructor
  · rintro ⟨f, ⟨l, hl, hf⟩, ho⟩
    exact ⟨l, f, hl, hf, ho⟩
  · rintro ⟨l, f, hl, hf, ho⟩
    exact ⟨f, ⟨l, hl, hf⟩, ho⟩

theorem objection_of_judge (h : s.judge i = .error failure) : s.Objection i failure := by
  unfold judge at h
  cases hl : s.atlas.layer? i.layer with
  | none =>
    rw [hl] at h
    cases h
    exact .unknownLayer (by simpa using List.find?_eq_none.mp hl)
  | some layer =>
    cases hf : layer.field? i.field with
    | none =>
      simp only [hl, hf, Except.error.injEq] at h
      subst h
      exact .unknownField layer hl (by simpa using List.find?_eq_none.mp hf)
    | some field =>
      have ho := operatorsFor_eq_some_iff.mpr ⟨layer, field, hl, hf, rfl⟩
      have hname : field.name = i.field := by simpa using List.find?_some hf
      simp only [hl, hf] at h
      split at h
      · next hm =>
        cases h
        rw [hname]
        exact .operatorNotApplicable _ ho hm
      · next hm =>
        split at h
        · next rejection hc =>
          cases h
          exact .rejected _ ho (not_not.mp hm) rejection hc
        · cases h

theorem judge_of_objection (h : s.Objection i failure) : s.judge i = .error failure := by
  unfold judge
  cases h with
  | unknownLayer h =>
    have hl : s.atlas.layer? i.layer = none := List.find?_eq_none.mpr (by simpa using h)
    rw [hl]
  | unknownField layer hl h =>
    have hf : layer.field? i.field = none := List.find?_eq_none.mpr (by simpa using h)
    simp only [hl, hf]
  | operatorNotApplicable offered ho hm =>
    obtain ⟨layer, field, hl, hf, rfl⟩ := operatorsFor_eq_some_iff.mp ho
    have hname : field.name = i.field := by simpa using List.find?_some hf
    simp only [hl, hf, if_pos hm, hname]
  | rejected offered ho hm rejection hc =>
    obtain ⟨layer, field, hl, hf, rfl⟩ := operatorsFor_eq_some_iff.mp ho
    simp only [hl, hf, if_neg (not_not.mpr hm), hc]

theorem judge_eq_error_iff : s.judge i = .error failure ↔ s.Objection i failure :=
  ⟨objection_of_judge, judge_of_objection⟩

theorem exists_judge_ok_iff : (∃ found, s.judge i = .ok found) ↔
    ∃ offered, s.operatorsFor i.layer i.field = some offered ∧ i.operator ∈ offered ∧
      s.check i = .ok () := by
  constructor
  · rintro ⟨⟨layer, field⟩, hj⟩
    obtain ⟨hl, hf, ho, hc⟩ := judge_eq_ok_iff.mp hj
    exact ⟨_, operatorsFor_eq_some_iff.mpr ⟨layer, field, hl, hf, rfl⟩, ho, hc⟩
  · rintro ⟨offered, ho, hm, hc⟩
    obtain ⟨layer, field, hl, hf, rfl⟩ := operatorsFor_eq_some_iff.mp ho
    exact ⟨(layer, field), judge_eq_ok_iff.mpr ⟨hl, hf, hm, hc⟩⟩

end Objections

/-- Every target of the atlas has a slot. -/
def Covered (s : Viewer Slots) : Prop :=
  ∀ layer ∈ s.atlas.layers, ∀ target ∈ layer.targetIds, s.renderer.knows target = true

theorem covered_run {atlas : Atlas} (ha : atlas.Exclusive) (n : Nat) (qs : List Request) :
    ((start atlas (Slots.ofAtlas atlas) n).run qs).Covered := by
  intro layer hl target ht
  rw [atlas_run] at hl
  have hs : (start atlas (Slots.ofAtlas atlas) n).atlas.Exclusive := ha
  exact (knows_run hs qs target).trans (Slots.knows_ofAtlas hl ht)

variable {s : Viewer Slots} {i : Submission}

/-- What nothing speaks against is recorded and reaches all targets of its layer. -/
theorem Covered.submit_of_judge (h : s.Covered) (ha : s.atlas.Exclusive) {layer : Layer}
    {field : Field} (hj : s.judge i = .ok (layer, field)) :
    ∃ after, s.submit i = (.ok ⟨s.history.nextNumber⟩,
        ⟨s.atlas, after, s.history.record (s.filter layer field i)⟩) ∧
      ∀ target, kept after target = if target ∈ layer.targetIds then
        some (some (s.filter layer field i).predicate) else kept s.renderer target := by
  have hlayer := (Atlas.mem_layers_of_layer? (judge_eq_ok_iff.mp hj).1).1
  have hknown : ∀ w ∈ (s.filter layer field i).pushes, s.renderer.knows w.target = true :=
    fun w hw => h layer hlayer _ (Filter.target_mem_of_pushes hw)
  have hpushed := Slots.writeUntilRefused_of_knows hknown
  rcases submit_cases ha i with ⟨failure, hj', -⟩ | ⟨layer', field', after, hj', hw, hs⟩ |
    ⟨layer', field', stop, after, hj', hw, -⟩
  · cases hj.symm.trans hj'
  · cases hj.symm.trans hj'
    refine ⟨after, hs, fun target => ?_⟩
    rw [kept_of_not_interrupted hw]
    exact Kept.settle_map _ _ _ target
  · cases hj.symm.trans hj'
    cases hpushed.symm.trans hw

theorem Covered.submit_eq_error_iff (h : s.Covered) (ha : s.atlas.Exclusive) {failure : Failure} :
    (s.submit i).1 = .error failure ↔ s.Objection i failure := by
  rw [← judge_eq_error_iff]
  cases hj : s.judge i with
  | error other => simp [submit, hj]
  | ok found =>
    obtain ⟨after, hs, -⟩ := h.submit_of_judge ha hj
    simp [hs]

theorem Covered.revert_of_active (h : s.Covered) (h1 : s.OneFilter) {e : Entry}
    (he : e ∈ s.history.entries) :
    (s.revert e.id).1 = .ok e ∧ (s.revert e.id).2.history.entries = s.history.entries.erase e := by
  obtain ⟨layer, hl, -, hts, -⟩ := h1.exists_layer e he
  have hknown : ∀ w ∈ e.restores, s.renderer.knows w.target = true :=
    fun w hw => h layer hl _ (hts ▸ Filter.target_mem_of_restores hw)
  have hr := History.revert_of_not_interrupted (History.entry?_eq_some_iff.mpr ⟨he, rfl⟩)
    (Slots.writeUntilRefused_of_knows hknown)
  simp only [revert, hr, true_and]
  exact s.history.entries_remove he

/-- A submission is answered by the first objection to it, the check among them, or it goes to
its whole layer; and whatever is active can be reverted. -/
theorem submit_agrees_with_check {d : AtlasDescription} {atlas : Atlas}
    (hb : Atlas.build d = .ok atlas) (n : Nat) (qs : List Request) :
    let s := (start atlas (Slots.ofAtlas atlas) n).run qs
    (∀ i failure, (s.submit i).1 = .error failure ↔ s.Objection i failure) ∧
    (∀ i, (∃ id, (s.submit i).1 = .ok id) ↔ ∃ offered,
      s.operatorsFor i.layer i.field = some offered ∧ i.operator ∈ offered ∧ s.check i = .ok ()) ∧
    (∀ i failure, (s.submit i).1 = .error failure → (s.submit i).2 = s) ∧
    (∀ i id, (s.submit i).1 = .ok id → ∃ layer e, atlas.layer? i.layer = some layer ∧
      (s.submit i).2.history.entries = s.history.entries ++ [e] ∧ e.id = id ∧ e.layer = i.layer ∧
      e.targets = layer.targetIds ∧ e.predicate = i.operator.predicate i.field i.text ∧
      ∀ target, (s.submit i).2.renderer.table.get? target =
        if target ∈ layer.targetIds then some (some (i.operator.predicate i.field i.text))
        else s.renderer.table.get? target) ∧
    ∀ e ∈ s.history.entries, (s.revert e.id).1 = .ok e ∧
      (s.revert e.id).2.history.entries = s.history.entries.erase e := by
  intro s
  have hatlas : s.atlas = atlas := atlas_run _ _
  have ha : s.atlas.Exclusive := hatlas ▸ Atlas.exclusive_of_build hb
  have hcovered : s.Covered := covered_run (Atlas.exclusive_of_build hb) n qs
  have h1 : s.OneFilter := (oneFilter_start atlas _ n).run (Atlas.exclusive_of_build hb) qs
  refine ⟨fun i failure => hcovered.submit_eq_error_iff ha, ?_, ?_, ?_, ?_⟩
  · intro i
    rw [← exists_judge_ok_iff]
    constructor
    · rintro ⟨id, hid⟩
      cases hj : s.judge i with
      | error failure => simp [submit, hj] at hid
      | ok found => exact ⟨found, rfl⟩
    · rintro ⟨found, hj⟩
      obtain ⟨after, hs, -⟩ := hcovered.submit_of_judge ha hj
      exact ⟨_, congrArg Prod.fst hs⟩
  · intro i failure hf
    have hj := judge_of_objection ((hcovered.submit_eq_error_iff ha).mp hf)
    simp only [submit, hj]
  · intro i id hid
    cases hj : s.judge i with
    | error failure => simp [submit, hj] at hid
    | ok found =>
      obtain ⟨layer, field⟩ := found
      obtain ⟨after, hs, hkept⟩ := hcovered.submit_of_judge ha hj
      have hl := (judge_eq_ok_iff.mp hj).1
      have hp : (s.filter layer field i).predicate = i.operator.predicate i.field i.text := by
        rw [filter, name_of_judge hj]
      rw [hs] at hid ⊢
      cases hid
      refine ⟨layer, ⟨s.filter layer field i, ⟨s.history.nextNumber⟩⟩, hatlas ▸ hl, rfl, rfl,
        (Atlas.mem_layers_of_layer? hl).2, rfl, hp, ?_⟩
      rw [← hp]
      exact hkept
  · exact fun e he => hcovered.revert_of_active h1 he

/-- The sample with a filter on the wells. -/
def wellsFiltered : Viewer Slots :=
  (start .sample (Slots.ofAtlas .sample) 0).run [.submit ⟨"wells", "depth", .lessThan, "5"⟩]

/-- Another filter on the wells is rejected, and one on the roads is not. -/
theorem wells_rejected_and_roads_accepted :
    let wells : Submission := ⟨"wells", "code", .equals, "A"⟩
    let roads : Submission := ⟨"roads", "surface", .equals, "gravel"⟩
    Atlas.build Atlas.sampleDescription = .ok .sample ∧
    wellsFiltered.Objection wells (.rejected .layerAlreadyFiltered) ∧
    (wellsFiltered.submit wells).2 = wellsFiltered ∧
    ∃ e, (wellsFiltered.submit roads).2.history.entries = wellsFiltered.history.entries ++ [e] ∧
      e.layer = "roads" := by
  intro wells roads
  obtain ⟨herror, hok, hsame, hentered, -⟩ := submit_agrees_with_check Atlas.build_sample 0
    [.submit ⟨"wells", "depth", .lessThan, "5"⟩]
  rw [← wellsFiltered] at herror hok hsame hentered
  have hwells : (wellsFiltered.submit wells).1 = .error (.rejected .layerAlreadyFiltered) := by
    decide +kernel
  have hoffered : wellsFiltered.operatorsFor "roads" "surface" =
      some ValueKind.text.operators := by decide +kernel
  have hchecked : wellsFiltered.check roads = .ok () := by decide +kernel
  obtain ⟨id, hid⟩ := (hok roads).mpr ⟨_, hoffered, by decide, hchecked⟩
  obtain ⟨-, e, -, hentries, -, hlayer, -⟩ := hentered roads id hid
  exact ⟨Atlas.build_sample, (herror wells _).mp hwells, hsame wells _ hwells, e, hentries, hlayer⟩

end FeatureSieve.Viewer
