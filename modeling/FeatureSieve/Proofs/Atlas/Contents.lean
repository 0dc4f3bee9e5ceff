import FeatureSieve.Proofs.Atlas.Acceptance
import FeatureSieve.Proofs.Keyed
import FeatureSieve.Renderer.Slots

/-! # What an atlas holds

An atlas holds all that its description says and nothing else, in the same order, and each
layer, field and target is found under its name alone. Looking up the first match and putting
targets into slots one by one lose nothing, because the names are distinct.
-/

namespace FeatureSieve

/-- The target that is described; its default is what the filter reads as. -/
inductive Target.Keeps : TargetDescription → Target → Prop
  | plain (id : String) : Keeps ⟨id, none⟩ ⟨id, none⟩
  | filtered {id : String} {v : Json} {p : Predicate} (h : Predicate.ofJson v = .ok p) :
    Keeps ⟨id, some v⟩ ⟨id, some p⟩

/-- The layer that is described, with itself as target where none is listed. -/
structure Layer.Keeps (l : LayerDescription) (layer : Layer) : Prop where
  id_eq : layer.id = l.id
  name_eq : layer.name = l.name
  description_eq : layer.description = l.description
  fields_eq : layer.fields = l.fields.map fun f => ⟨f.field, f.name, f.kind, f.help⟩
  own_target : l.targets = [] → layer.targets = [⟨l.id, none⟩]
  targets_kept : l.targets ≠ [] → List.Forall₂ Target.Keeps l.targets layer.targets

theorem Target.keeps_of_ofDescription {t : TargetDescription} {target : Target}
    (h : Target.ofDescription t = .ok target) : Target.Keeps t target := by
  obtain ⟨id, filter⟩ := t
  cases filter with
  | none =>
    cases h
    exact .plain id
  | some v =>
    simp only [Target.ofDescription] at h
    split at h
    · next p hp =>
      cases h
      exact .filtered hp
    · cases h

theorem Layer.keeps_of_ofDescription {l : LayerDescription} {layer : Layer}
    (h : Layer.ofDescription l = .ok layer) : Layer.Keeps l layer := by
  obtain ⟨-, -, -, targets, ht, rfl⟩ := Layer.ofDescription_eq_ok_iff.mp h
  have hkept : List.Forall₂ Target.Keeps l.targetsOrSelf targets :=
    ht.imp fun _ _ => Target.keeps_of_ofDescription
  refine ⟨rfl, rfl, rfl, rfl, fun hnil => ?_, fun hne => ?_⟩
  · simp only [LayerDescription.targetsOrSelf, hnil, List.isEmpty_nil, if_true] at hkept
    obtain _ | ⟨hself, hrest⟩ := hkept
    cases hself
    cases hrest
    rfl
  · rwa [LayerDescription.targetsOrSelf, if_neg (by simpa using hne)] at hkept

theorem Layer.fieldNames_nodup_of_ofDescription {l : LayerDescription} {layer : Layer}
    (h : Layer.ofDescription l = .ok layer) : (layer.fields.map Field.name).Nodup := by
  obtain ⟨-, -, hn, targets, -, rfl⟩ := Layer.ofDescription_eq_ok_iff.mp h
  rwa [List.map_map]

namespace Slots

theorem table_foldl_add (slots : Slots) (targets : List Target) :
    (targets.foldl (fun slots target => slots.add target.id target.default) slots).table =
      (targets.map fun target => (target.id, target.default)).foldl
        (fun xs (k, v) => Keyed.put k v xs) slots.table := by
  induction targets generalizing slots with
  | nil => rfl
  | cons target rest ih => exact ih (slots.add target.id target.default)

/-- Targets with distinct names get a slot each, in their order. -/
theorem table_ofAtlas {atlas : Atlas} (h : (atlas.targets.map Target.id).Nodup) :
    (ofAtlas atlas).table = atlas.targets.map fun target => (target.id, target.default) := by
  rw [ofAtlas, table_foldl_add]
  apply Keyed.ofPairs_of_nodup
  rwa [Keyed.keys, List.map_map]

theorem knows_iff {slots : Slots} {target : String} :
    slots.knows target = true ↔ target ∈ slots.table.keys := by
  rw [← not_iff_not, ← Keyed.get?_eq_none_iff, knows, Option.not_isSome_iff_eq_none]

end Slots

namespace Atlas

variable {d : AtlasDescription} {atlas : Atlas}

theorem keeps_of_build (h : build d = .ok atlas) : List.Forall₂ Layer.Keeps d.layers atlas.layers :=
  (build_eq_ok_iff.mp h).1.imp fun _ _ => Layer.keeps_of_ofDescription

theorem fieldNames_nodup_of_build (h : build d = .ok atlas) {layer : Layer}
    (hl : layer ∈ atlas.layers) : (layer.fields.map Field.name).Nodup := by
  obtain ⟨l, -, hd⟩ := exists_of_forall₂_of_mem (build_eq_ok_iff.mp h).1 hl
  exact Layer.fieldNames_nodup_of_ofDescription hd

theorem targetIds_eq_of_build (h : build d = .ok atlas) :
    atlas.targets.map Target.id = d.layers.flatMap LayerDescription.targetIds := by
  have hids : d.layers.map LayerDescription.targetIds = atlas.layers.map Layer.targetIds :=
    map_eq_map_of_forall₂ ((build_eq_ok_iff.mp h).1.imp fun _ _ hl =>
      (Layer.names_of_ofDescription hl).2)
  rw [List.flatMap_def, hids, ← List.flatMap_def, targets, List.map_flatMap]
  rfl

theorem layer?_eq_none_iff (h : build d = .ok atlas) {id : String} :
    atlas.layer? id = none ↔ ∀ l ∈ d.layers, l.id ≠ id := by
  have hids : d.layers.map LayerDescription.id = atlas.layers.map Layer.id :=
    map_eq_map_of_forall₂ ((keeps_of_build h).imp fun _ _ hl => hl.id_eq.symm)
  calc atlas.layer? id = none ↔ id ∉ atlas.layers.map Layer.id := by simp [layer?]
    _ ↔ ∀ l ∈ d.layers, l.id ≠ id := by simp [← hids, eq_comm]

/-- A field is looked up in the one layer of that name, where it is the one field of its name. -/
theorem field?_eq_some_iff (h : build d = .ok atlas) {layer name : String} {field : Field} :
    atlas.field? layer name = some field ↔
      ∃ found ∈ atlas.layers, found.id = layer ∧ field ∈ found.fields ∧ field.name = name := by
  simp only [field?, Option.bind_eq_some_iff, (exclusive_of_build h).layer?_eq_some_iff]
  constructor
  · rintro ⟨found, ⟨hm, hid⟩, hf⟩
    exact ⟨found, hm, hid, (find?_eq_some_iff_of_nodup (fieldNames_nodup_of_build h hm)).mp hf⟩
  · rintro ⟨found, hm, hid, hf⟩
    exact ⟨found, ⟨hm, hid⟩, (find?_eq_some_iff_of_nodup (fieldNames_nodup_of_build h hm)).mpr hf⟩

theorem field?_eq_none_iff (h : build d = .ok atlas) {layer name : String} :
    atlas.field? layer name = none ↔
      ∀ l ∈ d.layers, l.id = layer → ∀ f ∈ l.fields, f.field ≠ name := by
  rw [Option.eq_none_iff_forall_ne_some]
  simp only [ne_eq, field?_eq_some_iff h]
  constructor
  · intro hnone l hl hid f hf hname
    obtain ⟨found, hm, hk⟩ := exists_of_forall₂_of_mem (keeps_of_build h).flip hl
    refine hnone ⟨f.field, f.name, f.kind, f.help⟩ ⟨found, hm, hk.id_eq.trans hid, ?_, hname⟩
    rw [hk.fields_eq]
    exact List.mem_map_of_mem hf
  · rintro hnone field ⟨found, hm, hid, hf, hname⟩
    obtain ⟨l, hl, hk⟩ := exists_of_forall₂_of_mem (keeps_of_build h) hm
    rw [hk.fields_eq] at hf
    obtain ⟨f, hmem, rfl⟩ := List.mem_map.mp hf
    exact hnone l hl (hk.id_eq.symm.trans hid) f hmem hname

/-- An accepted atlas holds all that was described and nothing else. Names find what they name,
and the slots of a new renderer are those of the targets, with their defaults. -/
theorem build_loses_nothing (h : build d = .ok atlas) :
    List.Forall₂ Layer.Keeps d.layers atlas.layers ∧
    (∀ id, (atlas.layer? id = none ↔ ∀ l ∈ d.layers, l.id ≠ id) ∧
      ∀ layer, atlas.layer? id = some layer ↔ layer ∈ atlas.layers ∧ layer.id = id) ∧
    (∀ id name,
      (atlas.field? id name = none ↔
        ∀ l ∈ d.layers, l.id = id → ∀ f ∈ l.fields, f.field ≠ name) ∧
      ∀ field, atlas.field? id name = some field ↔
        ∃ layer ∈ atlas.layers, layer.id = id ∧ field ∈ layer.fields ∧ field.name = name) ∧
    (Slots.ofAtlas atlas).table = atlas.layers.flatMap (fun layer =>
      layer.targets.map fun target => (target.id, target.default)) ∧
    (Slots.ofAtlas atlas).table.keys = d.layers.flatMap LayerDescription.targetIds ∧
    (Slots.ofAtlas atlas).table.keys.Nodup ∧
    ∀ target, (Slots.ofAtlas atlas).knows target = true ↔ ∃ l ∈ d.layers, target ∈ l.targetIds := by
  have hex := exclusive_of_build h
  have hn : (atlas.targets.map Target.id).Nodup := by
    rw [targets, List.map_flatMap]
    exact hex.targetIds_nodup
  have htable := Slots.table_ofAtlas hn
  have hkeys : (Slots.ofAtlas atlas).table.keys = atlas.targets.map Target.id := by
    rw [htable, Keyed.keys, List.map_map]
    rfl
  refine ⟨keeps_of_build h, fun id => ⟨layer?_eq_none_iff h, fun layer => hex.layer?_eq_some_iff⟩,
    fun id name => ⟨field?_eq_none_iff h, fun field => field?_eq_some_iff h⟩, ?_, ?_, ?_, ?_⟩
  · rw [htable, targets, List.map_flatMap]
  · rw [hkeys, targetIds_eq_of_build h]
  · rwa [hkeys]
  · intro target
    rw [Slots.knows_iff, hkeys, targetIds_eq_of_build h, List.mem_flatMap]

/-- The slots of the sample stand in the order of the file. The layer of the wells has no slot of
its own, since it lists targets, and the surface is a field of the roads alone. -/
theorem sample_slots_in_file_order :
    build sampleDescription = .ok sample ∧
    (Slots.ofAtlas sample).table.keys = ["wells_points", "wells_labels", "roads"] ∧
    (Slots.ofAtlas sample).knows "wells" = false ∧
    sample.field? "wells" "surface" = none ∧
    ∃ layer, sample.layer? "roads" = some layer ∧ layer.targets = [⟨"roads", none⟩] := by
  obtain ⟨hkeeps, hlayer, hfield, -, hkeys, -, hknows⟩ := build_loses_nothing build_sample
  obtain _ | ⟨-, _ | ⟨hroads, -⟩⟩ := hkeeps
  refine ⟨build_sample, hkeys, ?_, (hfield "wells" "surface").1.mpr ?_, _,
    ((hlayer "roads").2 _).mpr ⟨List.mem_cons_of_mem _ List.mem_cons_self, rfl⟩,
    hroads.own_target rfl⟩
  · rw [Bool.eq_false_iff, ne_eq, hknows]
    simp [sampleDescription, LayerDescription.targetIds]
  · simp [sampleDescription]

end Atlas

end FeatureSieve
