import FeatureSieve.Proofs.Atlas.Exclusive
import Mathlib.Data.List.Perm.Basic

/-! # Which descriptions are accepted

A description becomes an atlas exactly if its layers stand for themselves and no two of them
claim a name. The order in which layers, targets and fields are given does not matter, though
the checks go through them in that order and stop at the first fault. A fault in what the
layers claim is found only among layers that stand for themselves.
-/

namespace FeatureSieve

namespace LayerDescription

/-- The targets of a layer; one that lists none is its own. -/
def targetIds (l : LayerDescription) : List String :=
  if l.targets = [] then [l.id] else l.targets.map TargetDescription.id

/-- What is asked of a layer by itself. -/
structure Admissible (l : LayerDescription) : Prop where
  id_ne_empty : l.id ≠ ""
  targets_le : l.targets.length ≤ 2
  filters_read : ∀ t ∈ l.targets, ∀ v, t.filter = some v → ∃ p, Predicate.ofJson v = .ok p
  fields_nodup : (l.fields.map FieldDescription.field).Nodup

/-- The same layer, with its targets and its fields in any order. -/
structure Reordered (l m : LayerDescription) : Prop where
  id_eq : l.id = m.id
  targets_perm : l.targets.Perm m.targets
  fields_perm : l.fields.Perm m.fields

end LayerDescription

namespace AtlasDescription

/-- What is asked of the layers before their targets are compared. -/
structure LayersAdmissible (d : AtlasDescription) : Prop where
  each : ∀ l ∈ d.layers, l.Admissible
  ids_nodup : (d.layers.map LayerDescription.id).Nodup

/-- Every target has one owner, and is not named like a layer that is not its owner. -/
structure TargetsOwned (d : AtlasDescription) : Prop where
  targetIds_nodup : (d.layers.flatMap LayerDescription.targetIds).Nodup
  not_other_layer : ∀ l ∈ d.layers, ∀ other ∈ d.layers, other.id ≠ l.id → other.id ∉ l.targetIds

/-- The same layers in any order, each with its targets and its fields in any order. -/
def Reordered (d e : AtlasDescription) : Prop :=
  ∃ layers, d.layers.Perm layers ∧ List.Forall₂ LayerDescription.Reordered layers e.layers

end AtlasDescription

/-- A fault in what layers claim together. -/
def AtlasFault.isOwnership : AtlasFault → Bool
  | sharedTarget .. | targetIsLayer .. => true
  | _ => false

theorem map_eq_map_of_forall₂ {α β γ : Type} {f : α → γ} {g : β → γ} {xs : List α} {ys : List β}
    (h : List.Forall₂ (fun x y => f x = g y) xs ys) : xs.map f = ys.map g := by
  induction h with
  | nil => rfl
  | cons hxy _ ih => simp only [List.map_cons, hxy, ih]

theorem Target.exists_ofDescription_iff {t : TargetDescription} :
    (∃ target, Target.ofDescription t = .ok target) ↔
      ∀ v, t.filter = some v → ∃ p, Predicate.ofJson v = .ok p := by
  unfold Target.ofDescription
  cases t.filter with
  | none => simp
  | some v => cases hv : Predicate.ofJson v <;> simp [hv]

theorem Target.id_of_ofDescription {t : TargetDescription} {target : Target}
    (h : Target.ofDescription t = .ok target) : t.id = target.id := by
  unfold Target.ofDescription at h
  split at h
  · cases h
    rfl
  · split at h
    · cases h
      rfl
    · cases h

theorem Target.not_isOwnership {t : TargetDescription} {fault : AtlasFault}
    (h : Target.ofDescription t = .error fault) : fault.isOwnership = false := by
  unfold Target.ofDescription at h
  split at h
  · cases h
  · split at h
    · cases h
    · cases h
      rfl

theorem LayerDescription.map_id_targetsOrSelf (l : LayerDescription) :
    l.targetsOrSelf.map TargetDescription.id = l.targetIds := by
  unfold targetsOrSelf targetIds
  cases l.targets <;> rfl

/-- The target that stands for a layer without targets has no filter that could be wrong. -/
theorem LayerDescription.filters_read_iff (l : LayerDescription) :
    (∀ t ∈ l.targetsOrSelf, ∀ v, t.filter = some v → ∃ p, Predicate.ofJson v = .ok p) ↔
      ∀ t ∈ l.targets, ∀ v, t.filter = some v → ∃ p, Predicate.ofJson v = .ok p := by
  unfold targetsOrSelf
  cases l.targets <;> simp

namespace Layer

theorem exists_ofDescription_iff {l : LayerDescription} :
    (∃ layer, ofDescription l = .ok layer) ↔ l.Admissible := by
  have htargets : (∃ targets, List.Forall₂ (fun t target => Target.ofDescription t = .ok target)
      l.targetsOrSelf targets) ↔
      ∀ t ∈ l.targets, ∀ v, t.filter = some v → ∃ p, Predicate.ofJson v = .ok p := by
    rw [exists_forall₂_iff, ← l.filters_read_iff]
    simp only [Target.exists_ofDescription_iff]
  constructor
  · rintro ⟨layer, h⟩
    obtain ⟨hid, hcount, hfields, targets, ht, -⟩ := ofDescription_eq_ok_iff.mp h
    exact ⟨by simpa using hid, hcount, htargets.mp ⟨targets, ht⟩, hfields⟩
  · rintro ⟨hid, hcount, hfilters, hfields⟩
    obtain ⟨targets, ht⟩ := htargets.mpr hfilters
    exact ⟨_, ofDescription_eq_ok_iff.mpr ⟨by simpa using hid, hcount, hfields, targets, ht, rfl⟩⟩

/-- A layer keeps the names that its description gives. -/
theorem names_of_ofDescription {l : LayerDescription} {layer : Layer}
    (h : ofDescription l = .ok layer) : l.id = layer.id ∧ l.targetIds = layer.targetIds := by
  obtain ⟨-, -, -, targets, ht, rfl⟩ := ofDescription_eq_ok_iff.mp h
  refine ⟨rfl, ?_⟩
  have hids : List.Forall₂ (fun t target => TargetDescription.id t = Target.id target)
      l.targetsOrSelf targets := ht.imp fun _ _ => Target.id_of_ofDescription
  rw [← l.map_id_targetsOrSelf]
  exact map_eq_map_of_forall₂ hids

theorem not_isOwnership {l : LayerDescription} {fault : AtlasFault}
    (h : ofDescription l = .error fault) : fault.isOwnership = false := by
  unfold ofDescription at h
  by_cases hid : l.id.isEmpty = true
  · rw [if_pos hid] at h
    cases h
    rfl
  · by_cases hcount : maxTargets < l.targets.length
    · rw [if_neg hid, if_pos hcount] at h
      cases h
      rfl
    · rw [if_neg hid, if_neg hcount] at h
      rcases bind_eq_error_iff.mp h with hm | ⟨targets, -, hf⟩
      · obtain ⟨t, -, ht⟩ := exists_of_mapM_eq_error hm
        exact Target.not_isOwnership ht
      · split at hf
        · cases hf
          rfl
        · cases hf

end Layer

namespace Atlas

theorem extend_nil_eq_ok_iff {ds : List LayerDescription} {layers : List Layer} :
    extend [] ds = .ok layers ↔
      List.Forall₂ (fun l layer => Layer.ofDescription l = .ok layer) ds layers ∧
        (layers.map Layer.id).Nodup := by
  rw [@extend_eq_ok_iff [] _ _ List.nodup_nil]
  simp only [List.nil_append]
  constructor
  · rintro ⟨_, hl, rfl, hn⟩
    exact ⟨hl, hn⟩
  · rintro ⟨hl, hn⟩
    exact ⟨layers, hl, rfl, hn⟩

theorem exists_extend_iff {d : AtlasDescription} :
    (∃ layers, extend [] d.layers = .ok layers) ↔ d.LayersAdmissible := by
  simp only [extend_nil_eq_ok_iff]
  constructor
  · rintro ⟨layers, hl, hn⟩
    have hids : d.layers.map LayerDescription.id = layers.map Layer.id :=
      map_eq_map_of_forall₂ (hl.imp fun _ _ h => (Layer.names_of_ofDescription h).1)
    refine ⟨fun l hm => ?_, hids ▸ hn⟩
    obtain ⟨layer, -, h⟩ := exists_of_forall₂_of_mem hl.flip hm
    exact Layer.exists_ofDescription_iff.mp ⟨layer, h⟩
  · rintro ⟨heach, hn⟩
    obtain ⟨layers, hl⟩ := exists_forall₂_iff.mpr fun l hm =>
      Layer.exists_ofDescription_iff.mpr (heach l hm)
    have hids : d.layers.map LayerDescription.id = layers.map Layer.id :=
      map_eq_map_of_forall₂ (hl.imp fun _ _ h => (Layer.names_of_ofDescription h).1)
    exact ⟨layers, hl, hids ▸ hn⟩

theorem not_isOwnership_of_extend {layers : List Layer} {ds : List LayerDescription}
    {fault : AtlasFault} (h : extend layers ds = .error fault) : fault.isOwnership = false := by
  induction ds generalizing layers with
  | nil => cases h
  | cons d ds ih =>
    simp only [extend, bind_eq_error_iff] at h
    rcases h with hl | ⟨layer, -, h⟩
    · exact Layer.not_isOwnership hl
    · by_cases hm : layer.id ∈ layers.map Layer.id
      · rw [if_pos hm] at h
        cases h
        rfl
      · rw [if_neg hm] at h
        exact ih h

theorem isOwnership_of_contradiction {layerIds : List String}
    {earlier listings : List (String × String)} {fault : AtlasFault}
    (h : contradiction? layerIds earlier listings = some fault) : fault.isOwnership = true := by
  induction listings generalizing earlier with
  | nil => cases h
  | cons p rest ih =>
    unfold contradiction? at h
    split at h
    · cases h
      rfl
    · split at h
      · cases h
        rfl
      · exact ih h

/-- The scan of the targets finds nothing exactly if each has its one owner. -/
theorem contradiction?_listings_iff {d : AtlasDescription} {layers : List Layer}
    (h : List.Forall₂ (fun l layer => Layer.ofDescription l = .ok layer) d.layers layers) :
    contradiction? (layers.map Layer.id) [] (listings layers) = none ↔ d.TargetsOwned := by
  have hnames : d.layers.map (fun l => (l.id, l.targetIds)) =
      layers.map fun layer => (layer.id, layer.targetIds) := by
    apply map_eq_map_of_forall₂
    refine h.imp fun l layer hl => ?_
    obtain ⟨hid, hts⟩ := Layer.names_of_ofDescription hl
    rw [hid, hts]
  have hids : layers.flatMap Layer.targetIds = d.layers.flatMap LayerDescription.targetIds := by
    have := congrArg (List.flatMap Prod.snd) hnames
    simpa [List.flatMap_map] using this.symm
  have hmem : ∀ id targets, (∃ layer ∈ layers, layer.id = id ∧ layer.targetIds = targets) ↔
      ∃ l ∈ d.layers, l.id = id ∧ l.targetIds = targets := by
    intro id targets
    have := congrArg ((id, targets) ∈ ·) hnames
    simpa using this.symm
  rw [contradiction?_eq_none_iff, map_fst_listings, hids]
  constructor
  · rintro ⟨hn, -, ho⟩
    refine ⟨hn, fun l hl other hother hne ht => ?_⟩
    obtain ⟨layer, hlayer, hid, hts⟩ := (hmem l.id l.targetIds).mpr ⟨l, hl, rfl, rfl⟩
    obtain ⟨owner, howner, hoid, -⟩ := (hmem other.id other.targetIds).mpr ⟨other, hother, rfl, rfl⟩
    have hlisted : (other.id, l.id) ∈ listings layers := by
      refine List.mem_flatMap.mpr ⟨layer, hlayer, ?_⟩
      rw [hts, hid]
      exact List.mem_map_of_mem ht
    exact hne (ho _ hlisted (hoid ▸ List.mem_map_of_mem howner))
  · rintro ⟨hn, ho⟩
    refine ⟨hn, by simp, fun p hp hid => ?_⟩
    obtain ⟨layer, hlayer, hp⟩ := List.mem_flatMap.mp hp
    obtain ⟨target, ht, rfl⟩ := List.mem_map.mp hp
    obtain ⟨owner, howner, rfl⟩ := List.mem_map.mp hid
    obtain ⟨l, hl, hlid, hts⟩ := (hmem layer.id layer.targetIds).mp ⟨layer, hlayer, rfl, rfl⟩
    obtain ⟨other, hother, hoid, -⟩ := (hmem owner.id owner.targetIds).mp ⟨owner, howner, rfl, rfl⟩
    by_contra hne
    refine ho l hl other hother ?_ ?_
    · rwa [hlid, hoid]
    · rwa [hts, hoid]

/-- Once the layers stand, only the scan of their targets decides. -/
theorem build_of_extend {d : AtlasDescription} {layers : List Layer}
    (h : extend [] d.layers = .ok layers) :
    build d = match contradiction? (layers.map Layer.id) [] (listings layers) with
      | some fault => .error fault
      | none => .ok ⟨layers⟩ := by
  unfold build
  rw [h]
  rfl

theorem exists_build_iff {d : AtlasDescription} :
    (∃ atlas, build d = .ok atlas) ↔ d.LayersAdmissible ∧ d.TargetsOwned := by
  constructor
  · rintro ⟨atlas, h⟩
    obtain ⟨hl, hn, hc⟩ := build_eq_ok_iff.mp h
    have he : extend [] d.layers = .ok atlas.layers := extend_nil_eq_ok_iff.mpr ⟨hl, hn⟩
    exact ⟨exists_extend_iff.mp ⟨_, he⟩, (contradiction?_listings_iff hl).mp hc⟩
  · rintro ⟨hadm, hown⟩
    obtain ⟨layers, he⟩ := exists_extend_iff.mpr hadm
    have hl := (extend_nil_eq_ok_iff.mp he).1
    refine ⟨⟨layers⟩, ?_⟩
    rw [build_of_extend he, (contradiction?_listings_iff hl).mpr hown]

theorem exists_ownership_fault_iff {d : AtlasDescription} :
    (∃ fault, build d = .error fault ∧ fault.isOwnership = true) ↔
      d.LayersAdmissible ∧ ¬ d.TargetsOwned := by
  constructor
  · rintro ⟨fault, h, hf⟩
    cases he : extend [] d.layers with
    | error earlier =>
      have hfault : earlier = fault := by
        unfold build at h
        rw [he] at h
        cases h
        rfl
      rw [← hfault, not_isOwnership_of_extend he] at hf
      cases hf
    | ok layers =>
      refine ⟨exists_extend_iff.mp ⟨layers, he⟩, fun hown => ?_⟩
      have hl := (extend_nil_eq_ok_iff.mp he).1
      rw [build_of_extend he, (contradiction?_listings_iff hl).mpr hown] at h
      cases h
  · rintro ⟨hadm, hown⟩
    obtain ⟨layers, he⟩ := exists_extend_iff.mpr hadm
    have hl := (extend_nil_eq_ok_iff.mp he).1
    rw [build_of_extend he]
    cases hc : contradiction? (layers.map Layer.id) [] (listings layers) with
    | none => exact absurd ((contradiction?_listings_iff hl).mp hc) hown
    | some fault => exact ⟨fault, rfl, isOwnership_of_contradiction hc⟩

end Atlas

namespace LayerDescription

variable {l m : LayerDescription}

theorem Reordered.symm (h : l.Reordered m) : m.Reordered l :=
  ⟨h.id_eq.symm, h.targets_perm.symm, h.fields_perm.symm⟩

theorem Reordered.admissible (h : l.Reordered m) (hl : l.Admissible) : m.Admissible := by
  constructor
  · rw [← h.id_eq]
    exact hl.id_ne_empty
  · rw [← h.targets_perm.length_eq]
    exact hl.targets_le
  · intro t ht
    exact hl.filters_read t (h.targets_perm.mem_iff.mpr ht)
  · exact (h.fields_perm.map _).nodup_iff.mp hl.fields_nodup

theorem Reordered.targetIds_perm (h : l.Reordered m) : l.targetIds.Perm m.targetIds := by
  have hempty : l.targets = [] ↔ m.targets = [] := by
    rw [← List.length_eq_zero_iff, ← List.length_eq_zero_iff, h.targets_perm.length_eq]
  unfold targetIds
  by_cases hm : m.targets = []
  · rw [if_pos hm, if_pos (hempty.mpr hm), h.id_eq]
  · rw [if_neg hm, if_neg (mt hempty.mp hm)]
    exact h.targets_perm.map _

theorem flatMap_targetIds_perm {ls ms : List LayerDescription} (h : List.Forall₂ Reordered ls ms) :
    (ls.flatMap targetIds).Perm (ms.flatMap targetIds) := by
  induction h with
  | nil => exact List.Perm.refl _
  | cons hlm _ ih =>
    rw [List.flatMap_cons, List.flatMap_cons]
    exact hlm.targetIds_perm.append ih

end LayerDescription

namespace AtlasDescription

variable {d e : AtlasDescription}

/-- The layers of one description are those of the other, as far as the checks can tell. -/
structure Resembles (d e : AtlasDescription) : Prop where
  exists_reordered : ∀ m ∈ e.layers, ∃ l ∈ d.layers, l.Reordered m
  ids_perm : (d.layers.map LayerDescription.id).Perm (e.layers.map LayerDescription.id)
  targetIds_perm : (d.layers.flatMap LayerDescription.targetIds).Perm
    (e.layers.flatMap LayerDescription.targetIds)

theorem Resembles.accepted (h : d.Resembles e) (hd : d.LayersAdmissible ∧ d.TargetsOwned) :
    e.LayersAdmissible ∧ e.TargetsOwned := by
  obtain ⟨⟨heach, hids⟩, hts, ho⟩ := hd
  refine ⟨⟨fun m hm => ?_, h.ids_perm.nodup_iff.mp hids⟩, h.targetIds_perm.nodup_iff.mp hts, ?_⟩
  · obtain ⟨l, hl, hr⟩ := h.exists_reordered m hm
    exact hr.admissible (heach l hl)
  · intro m hm other hother hne
    obtain ⟨l, hl, hr⟩ := h.exists_reordered m hm
    obtain ⟨owner, howner, hr'⟩ := h.exists_reordered other hother
    have hlo := ho l hl owner howner (by rwa [hr.id_eq, hr'.id_eq])
    rw [← hr'.id_eq]
    exact fun ht => hlo (hr.targetIds_perm.mem_iff.mpr ht)

theorem Reordered.resembles (h : d.Reordered e) : d.Resembles e ∧ e.Resembles d := by
  obtain ⟨layers, hp, hr⟩ := h
  have hids : layers.map LayerDescription.id = e.layers.map LayerDescription.id :=
    map_eq_map_of_forall₂ (hr.imp fun _ _ h => h.id_eq)
  have hts : (layers.flatMap LayerDescription.targetIds).Perm
      (e.layers.flatMap LayerDescription.targetIds) :=
    LayerDescription.flatMap_targetIds_perm hr
  have hmem : ∀ m ∈ e.layers, ∃ l ∈ d.layers, l.Reordered m := by
    intro m hm
    obtain ⟨l, hl, h⟩ := exists_of_forall₂_of_mem hr hm
    exact ⟨l, hp.mem_iff.mpr hl, h⟩
  have hmem' : ∀ l ∈ d.layers, ∃ m ∈ e.layers, m.Reordered l := by
    intro l hl
    obtain ⟨m, hm, h⟩ := exists_of_forall₂_of_mem hr.flip (hp.mem_iff.mp hl)
    exact ⟨m, hm, h.symm⟩
  have hpi := hids ▸ hp.map LayerDescription.id
  have hpt := (hp.flatMap_right LayerDescription.targetIds).trans hts
  exact ⟨⟨hmem, hpi, hpt⟩, hmem', hpi.symm, hpt.symm⟩

end AtlasDescription

namespace Atlas

/-- Exactly the descriptions that follow the rules are accepted, in whatever order they are given,
and what layers claim together is a fault only where the other rules are followed. -/
theorem build_accepts_iff (d : AtlasDescription) :
    ((∃ atlas, build d = .ok atlas) ↔ d.LayersAdmissible ∧ d.TargetsOwned) ∧
    ((∃ fault, build d = .error fault ∧ fault.isOwnership = true) ↔
      d.LayersAdmissible ∧ ¬ d.TargetsOwned) ∧
    ∀ e, d.Reordered e → ((∃ atlas, build d = .ok atlas) ↔ ∃ atlas, build e = .ok atlas) := by
  refine ⟨exists_build_iff, exists_ownership_fault_iff, fun e h => ?_⟩
  obtain ⟨hde, hed⟩ := h.resembles
  rw [exists_build_iff, exists_build_iff]
  exact ⟨hde.accepted, hed.accepted⟩

/-- The roads first, and the labels before the points. -/
def reorderedSampleDescription : AtlasDescription where
  layers :=
    [⟨"roads", "Roads", "", [], [⟨"surface", "Surface", .text, ""⟩]⟩,
      ⟨"wells", "Wells", "",
        [⟨"wells_labels", some (.array [.string "==", .string "kind", .string "label"])⟩,
          ⟨"wells_points", none⟩],
        [⟨"code", "Well Code", .text, ""⟩, ⟨"depth", "Depth", .numeric, ""⟩]⟩]

theorem build_accepts_reordered_sample :
    sampleDescription.Reordered reorderedSampleDescription ∧
    ∃ atlas, build reorderedSampleDescription = .ok atlas := by
  have hr : sampleDescription.Reordered reorderedSampleDescription := by
    refine ⟨_, List.Perm.swap _ _ _, .cons ?_ (.cons ?_ .nil)⟩
    · exact ⟨rfl, .refl _, .refl _⟩
    · exact ⟨rfl, .swap _ _ _, .swap _ _ _⟩
  obtain ⟨-, -, horder⟩ := build_accepts_iff sampleDescription
  exact ⟨hr, (horder _ hr).mp ⟨sample, build_sample⟩⟩

end Atlas

end FeatureSieve
