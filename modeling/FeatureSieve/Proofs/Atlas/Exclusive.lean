import FeatureSieve.Atlas.Build
import FeatureSieve.Proofs.Except
import FeatureSieve.Proofs.Keyed
import Mathlib.Data.List.Pairwise

/-! # Layers with names and targets of their own

What the checks of `Atlas.build` establish. No two layers have the same name, no
target is listed twice in the whole atlas, and a target is named like a layer only
where it is that layer's own. So a name leads to at most one layer, whether it is
the name of a layer or of a target.
-/

namespace FeatureSieve

theorem firstRepeated?_go_eq_none_iff (seen names : List String) :
    firstRepeated?.go seen names = none ↔ names.Nodup ∧ ∀ name ∈ names, name ∉ seen := by
  induction names generalizing seen with
  | nil => simp [firstRepeated?.go]
  | cons name rest ih =>
    by_cases hs : name ∈ seen
    · simp [firstRepeated?.go, hs]
    · simp only [firstRepeated?.go, hs, if_false, ih, List.nodup_cons, List.mem_cons, not_or,
        forall_eq_or_imp, not_false_eq_true, true_and]
      constructor
      · rintro ⟨hn, hr⟩
        exact ⟨⟨fun h => (hr name h).1 rfl, hn⟩, fun other h => (hr other h).2⟩
      · rintro ⟨⟨hm, hn⟩, hr⟩
        exact ⟨hn, fun other h => ⟨fun e => hm (e ▸ h), hr other h⟩⟩

theorem firstRepeated?_eq_none_iff (names : List String) :
    firstRepeated? names = none ↔ names.Nodup := by
  simp [firstRepeated?, firstRepeated?_go_eq_none_iff]

theorem LayerDescription.targetsOrSelf_ne_nil (d : LayerDescription) : d.targetsOrSelf ≠ [] := by
  unfold LayerDescription.targetsOrSelf
  cases hd : d.targets <;> simp

/-- The checks that a layer has passed, and what became of its description. -/
theorem Layer.ofDescription_eq_ok_iff {d : LayerDescription} {layer : Layer} :
    Layer.ofDescription d = .ok layer ↔
      d.id.isEmpty = false ∧ d.targets.length ≤ maxTargets ∧
      (d.fields.map FieldDescription.field).Nodup ∧
      ∃ targets, List.Forall₂ (fun t target => Target.ofDescription t = .ok target)
          d.targetsOrSelf targets ∧
        layer = ⟨d.id, d.name, d.description, targets, d.fields.map Field.ofDescription⟩ := by
  rw [← firstRepeated?_eq_none_iff]
  unfold Layer.ofDescription
  by_cases hid : d.id.isEmpty = true
  · simp [hid, bind_eq_ok_iff]
  · by_cases hcount : maxTargets < d.targets.length
    · simp [hid, hcount, bind_eq_ok_iff, Nat.not_le.mpr hcount]
    · rw [if_neg hid, if_neg hcount, bind_eq_ok_iff]
      simp only [mapM_eq_ok_iff]
      cases hf : firstRepeated? (d.fields.map FieldDescription.field) with
      | some field => simp
      | none => simp [pure_eq_ok_iff, hid, Nat.le_of_not_lt hcount, @eq_comm _ layer]

namespace Atlas

/-- Layers are added as long as they pass their checks and have new names. -/
theorem extend_eq_ok_iff {layers result : List Layer} {ds : List LayerDescription}
    (hn : (layers.map Layer.id).Nodup) :
    extend layers ds = .ok result ↔
      ∃ added, List.Forall₂ (fun d layer => Layer.ofDescription d = .ok layer) ds added ∧
        result = layers ++ added ∧ (result.map Layer.id).Nodup := by
  induction ds generalizing layers with
  | nil =>
    simp only [extend, Except.ok.injEq, List.forall₂_nil_left_iff, exists_eq_left, List.append_nil]
    constructor
    · rintro rfl
      exact ⟨rfl, hn⟩
    · exact fun h => h.1.symm
  | cons d ds ih =>
    simp only [extend, bind_eq_ok_iff]
    constructor
    · rintro ⟨layer, hl, h⟩
      by_cases hm : layer.id ∈ layers.map Layer.id
      · simp [hm, bind_eq_ok_iff] at h
      · rw [if_neg hm] at h
        have hn' : ((layers ++ [layer]).map Layer.id).Nodup := by
          simpa [List.nodup_append] using ⟨hn, fun other ho e => hm (e ▸ List.mem_map_of_mem ho)⟩
        obtain ⟨added, ha, rfl, hr⟩ := (ih hn').mp h
        exact ⟨layer :: added, .cons hl ha, by simp, hr⟩
    · rintro ⟨_, _ | ⟨hl, ha⟩, rfl, hr⟩
      rename_i layer added
      have hr' : ((layers ++ [layer]).map Layer.id).Nodup ∧ layer.id ∉ layers.map Layer.id := by
        rw [List.append_cons, List.map_append, List.nodup_append] at hr
        refine ⟨hr.1, fun hm => ?_⟩
        have hd := List.nodup_append.mp (List.map_append ▸ hr.1)
        exact hd.2.2 _ hm _ (by simp) rfl
      refine ⟨layer, hl, ?_⟩
      rw [if_neg hr'.2]
      exact (ih hr'.1).mpr ⟨added, ha, by simp, hr⟩

/-- Nothing contradicts a listing exactly when its target is listed nowhere else and no other
layer has the target's name. -/
theorem contradiction?_eq_none_iff {layerIds : List String} {earlier listings : List (String × String)} :
    contradiction? layerIds earlier listings = none ↔
      (listings.map Prod.fst).Nodup ∧ (∀ p ∈ listings, p.1 ∉ earlier.map Prod.fst) ∧
        ∀ p ∈ listings, p.1 ∈ layerIds → p.1 = p.2 := by
  induction listings generalizing earlier with
  | nil => simp [contradiction?]
  | cons p rest ih =>
    obtain ⟨target, layer⟩ := p
    cases hg : Keyed.get? target earlier with
    | some owner =>
      have hm : target ∈ earlier.map Prod.fst := by
        by_contra hm
        exact absurd (Keyed.get?_eq_none_iff.mpr hm) (by simp [hg])
      simp only [contradiction?, hg, reduceCtorEq, false_iff]
      exact fun h => h.2.1 _ List.mem_cons_self hm
    | none =>
      have hm := Keyed.get?_eq_none_iff.mp hg
      by_cases ht : target ≠ layer ∧ target ∈ layerIds
      · simp only [contradiction?, hg, if_pos ht, reduceCtorEq, false_iff]
        exact fun h => ht.1 (h.2.2 _ List.mem_cons_self ht.2)
      · simp only [contradiction?, hg, if_neg ht, ih, List.map_cons, List.nodup_cons,
          List.mem_cons, not_or, forall_eq_or_imp]
        constructor
        · rintro ⟨hn, he, hl⟩
          refine ⟨⟨fun h => ?_, hn⟩, ⟨hm, fun q hq => (he q hq).2⟩, fun h => ?_, hl⟩
          · obtain ⟨q, hq, hqt⟩ := List.mem_map.mp h
            exact (he q hq).1 hqt
          · exact not_not.mp fun hne => ht ⟨hne, h⟩
        · rintro ⟨⟨ht', hn⟩, ⟨_, he⟩, _, hl⟩
          exact ⟨hn, fun q hq => ⟨fun e => ht' (e ▸ List.mem_map_of_mem hq), he q hq⟩, hl⟩

/-- No name is shared: between layers, between targets, or by a target and another layer. -/
structure Exclusive (atlas : Atlas) : Prop where
  layerIds_nodup : (atlas.layers.map Layer.id).Nodup
  targetIds_nodup : (atlas.layers.flatMap Layer.targetIds).Nodup
  targets_ne_nil : ∀ layer ∈ atlas.layers, layer.targets ≠ []
  id_eq_of_mem_targetIds : ∀ layer ∈ atlas.layers, ∀ other ∈ atlas.layers,
    other.id ∈ layer.targetIds → other.id = layer.id

theorem map_fst_listings (layers : List Layer) :
    (listings layers).map Prod.fst = layers.flatMap Layer.targetIds := by
  simp [listings, List.map_flatMap, Function.comp_def]

/-- An atlas is built from layers that pass their checks, have distinct names and do not
contradict each other's targets. -/
theorem build_eq_ok_iff {d : AtlasDescription} {atlas : Atlas} :
    build d = .ok atlas ↔
      List.Forall₂ (fun l layer => Layer.ofDescription l = .ok layer) d.layers atlas.layers ∧
        (atlas.layers.map Layer.id).Nodup ∧
        contradiction? (atlas.layers.map Layer.id) [] (listings atlas.layers) = none := by
  simp only [build, bind_eq_ok_iff, @extend_eq_ok_iff [] _ _ List.nodup_nil, List.nil_append]
  constructor
  · rintro ⟨layers, ⟨_, hl, rfl, hn⟩, h⟩
    cases hc : contradiction? (layers.map Layer.id) [] (listings layers) with
    | some fault => simp [hc] at h
    | none =>
      simp only [hc, pure_eq_ok_iff] at h
      exact h ▸ ⟨hl, hn, hc⟩
  · rintro ⟨hl, hn, hc⟩
    refine ⟨atlas.layers, ⟨_, hl, rfl, hn⟩, ?_⟩
    simp only [hc, pure_eq_ok_iff]

theorem exclusive_of_build {d : AtlasDescription} {atlas : Atlas} (h : build d = .ok atlas) :
    atlas.Exclusive := by
  obtain ⟨hl, hn, hc⟩ := build_eq_ok_iff.mp h
  obtain ⟨ht, -, ho⟩ := contradiction?_eq_none_iff.mp hc
  refine ⟨hn, map_fst_listings _ ▸ ht, fun layer hlayer => ?_, fun layer hlayer other hother hm => ?_⟩
  · obtain ⟨l, -, hld⟩ := exists_of_forall₂_of_mem hl hlayer
    obtain ⟨-, -, -, targets, hts, rfl⟩ := Layer.ofDescription_eq_ok_iff.mp hld
    rintro rfl
    exact l.targetsOrSelf_ne_nil (List.forall₂_nil_right_iff.mp hts)
  · exact ho (other.id, layer.id) (List.mem_flatMap.mpr ⟨layer, hlayer, List.mem_map_of_mem hm⟩)
      (List.mem_map_of_mem hother)

/-- Every layer has a target, since one without any becomes its own. -/
theorem Exclusive.targetIds_ne_nil {atlas : Atlas} (h : atlas.Exclusive) {layer : Layer}
    (hl : layer ∈ atlas.layers) : layer.targetIds ≠ [] := by
  simpa [Layer.targetIds] using h.targets_ne_nil layer hl

theorem Exclusive.targetIds_nodup_of_mem {atlas : Atlas} (h : atlas.Exclusive) {layer : Layer}
    (hl : layer ∈ atlas.layers) : layer.targetIds.Nodup :=
  (List.nodup_flatMap.mp h.targetIds_nodup).1 layer hl

theorem mem_layers_of_layer? {atlas : Atlas} {id : String} {layer : Layer}
    (h : atlas.layer? id = some layer) : layer ∈ atlas.layers ∧ layer.id = id :=
  ⟨List.mem_of_find?_eq_some h, by simpa using List.find?_some h⟩

/-- A name leads to the one layer that has it. -/
theorem Exclusive.layer?_eq_some_iff {atlas : Atlas} (h : atlas.Exclusive) {id : String}
    {layer : Layer} : atlas.layer? id = some layer ↔ layer ∈ atlas.layers ∧ layer.id = id :=
  find?_eq_some_iff_of_nodup h.layerIds_nodup

/-- A target leads to the one layer that lists it. -/
theorem Exclusive.eq_of_mem_targetIds {atlas : Atlas} (h : atlas.Exclusive) {layer other : Layer}
    (hl : layer ∈ atlas.layers) (ho : other ∈ atlas.layers) {target : String}
    (ht : target ∈ layer.targetIds) (ht' : target ∈ other.targetIds) : layer = other := by
  by_contra hne
  have hd := (List.nodup_flatMap.mp h.targetIds_nodup).2
  have hsymm : Std.Symm (Function.onFun List.Disjoint Layer.targetIds) :=
    ⟨fun _ _ hd => List.disjoint_symm hd⟩
  exact hd.forall hl ho hne ht ht'

/-- Wells, shown as points and some of them as labels, and roads, shown as themselves. -/
def sampleDescription : AtlasDescription where
  layers :=
    [⟨"wells", "Wells", "",
        [⟨"wells_points", none⟩,
          ⟨"wells_labels", some (.array [.string "==", .string "kind", .string "label"])⟩],
        [⟨"depth", "Depth", .numeric, ""⟩, ⟨"code", "Well Code", .text, ""⟩]⟩,
      ⟨"roads", "Roads", "", [], [⟨"surface", "Surface", .text, ""⟩]⟩]

def sample : Atlas where
  layers :=
    [⟨"wells", "Wells", "",
        [⟨"wells_points", none⟩,
          ⟨"wells_labels", some (.comparison .equal (.raw "kind") (.text "label"))⟩],
        [⟨"depth", "Depth", .numeric, ""⟩, ⟨"code", "Well Code", .text, ""⟩]⟩,
      ⟨"roads", "Roads", "", [⟨"roads", none⟩], [⟨"surface", "Surface", .text, ""⟩]⟩]

theorem build_sample : build sampleDescription = .ok sample := rfl

end Atlas

end FeatureSieve
