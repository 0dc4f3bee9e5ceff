import FeatureSieve.Proofs.Query.Screening
import FeatureSieve.Proofs.Viewer.Run
import FeatureSieve.Renderer.Slots

/-! # One active filter per layer

Whatever a renderer answers and refuses, the active entries of a viewer are on different
layers and on all targets of their layers. Names of layers and targets do not overlap in
an atlas, so the check for an active filter never takes one layer for another.
-/

namespace FeatureSieve.Viewer

variable {ε : Type} [Renderer ε]

/-- An active entry is on the targets of its layer, and no other entry is on that layer. -/
structure OneFilter (s : Viewer ε) : Prop where
  layers_nodup : (s.history.entries.map fun e => e.layer).Nodup
  exists_layer : ∀ e ∈ s.history.entries, ∃ layer ∈ s.atlas.layers,
    e.layer = layer.id ∧ e.targets = layer.targetIds ∧ e.priors.length = e.targets.length

omit [Renderer ε] in
theorem oneFilter_start (atlas : Atlas) (renderer : ε) (n : Nat) :
    (start atlas renderer n).OneFilter := by
  constructor <;> simp [start, History.empty]

omit [Renderer ε] in
theorem not_concerns_of_judge {s : Viewer ε} {i : Submission} {layer : Layer} {field : Field}
    (hj : s.judge i = .ok (layer, field)) :
    ¬ ∃ e ∈ s.history.entries, e.concerns layer.id = true := by
  obtain ⟨hl, -, -, hc⟩ := judge_eq_ok_iff.mp hj
  rw [(Atlas.mem_layers_of_layer? hl).2]
  exact (Operator.screen_eq_ok_iff.mp hc).2.1

theorem OneFilter.after {s : Viewer ε} (ha : s.atlas.Exclusive) (h : s.OneFilter) (q : Request) :
    (s.after q).OneFilter := by
  rcases entries_after_cases ha q with he | ⟨i, layer, field, -, hj, -, he⟩ | ⟨id, -, he⟩
  · constructor
    · rw [he]
      exact h.layers_nodup
    · rw [he, atlas_after]
      exact h.exists_layer
  · constructor
    · rw [he, List.map_append, List.nodup_append]
      refine ⟨h.layers_nodup, List.nodup_singleton _, ?_⟩
      rintro name hm _ hl rfl
      obtain ⟨e, hmem, rfl⟩ := List.mem_map.mp hm
      apply not_concerns_of_judge hj
      exact ⟨e, hmem, Filter.concerns_iff.mpr (Or.inl (by simpa [filter] using hl))⟩
    · rw [he, atlas_after]
      intro e hm
      rcases List.mem_append.mp hm with hm | hm
      · exact h.exists_layer e hm
      · obtain rfl := List.mem_singleton.mp hm
        have hl := Atlas.mem_layers_of_layer? (judge_eq_ok_iff.mp hj).1
        exact ⟨layer, hl.1, rfl, rfl, by simp [filter]⟩
  · constructor
    · rw [he]
      exact h.layers_nodup.sublist (List.filter_sublist.map _)
    · rw [he, atlas_after]
      exact fun e hm => h.exists_layer e (List.mem_filter.mp hm).1

theorem OneFilter.run {s : Viewer ε} (ha : s.atlas.Exclusive) (h : s.OneFilter)
    (qs : List Request) : (s.run qs).OneFilter := by
  induction qs using List.reverseRecOn with
  | nil => exact h
  | append_singleton qs q ih =>
    rw [run_concat]
    exact ih.after (by rwa [atlas_run]) q

omit [Renderer ε] in
theorem OneFilter.layer_eq_of_mem_targets {s : Viewer ε} (ha : s.atlas.Exclusive) (h : s.OneFilter)
    {e e' : Entry} (he : e ∈ s.history.entries) (he' : e' ∈ s.history.entries) {target : String}
    (ht : target ∈ e.targets) (ht' : target ∈ e'.targets) : e.layer = e'.layer := by
  obtain ⟨layer, hl, hid, hts, -⟩ := h.exists_layer e he
  obtain ⟨other, ho, hid', hts', -⟩ := h.exists_layer e' he'
  rw [hid, hid', ha.eq_of_mem_targetIds hl ho (hts ▸ ht) (hts' ▸ ht')]

omit [Renderer ε] in
theorem OneFilter.not_mem_of_judge {s : Viewer ε} (ha : s.atlas.Exclusive) (h : s.OneFilter)
    {i : Submission} {layer : Layer} {field : Field} (hj : s.judge i = .ok (layer, field))
    {e : Entry} (he : e ∈ s.history.entries) {target : String} (ht : target ∈ e.targets) :
    target ∉ layer.targetIds := by
  intro ht'
  obtain ⟨other, ho, hid, hts, -⟩ := h.exists_layer e he
  have hl := (Atlas.mem_layers_of_layer? (judge_eq_ok_iff.mp hj).1).1
  obtain rfl := ha.eq_of_mem_targetIds ho hl (hts ▸ ht) ht'
  exact not_concerns_of_judge hj ⟨e, he, Filter.concerns_iff.mpr (Or.inl hid)⟩

omit [Renderer ε] in
theorem OneFilter.eq_of_mem_targets {s : Viewer ε} (ha : s.atlas.Exclusive) (h : s.OneFilter)
    {e e' : Entry} (he : e ∈ s.history.entries) (he' : e' ∈ s.history.entries) {target : String}
    (ht : target ∈ e.targets) (ht' : target ∈ e'.targets) : e = e' :=
  List.inj_on_of_nodup_map h.layers_nodup he he' (h.layer_eq_of_mem_targets ha he he' ht ht')

omit [Renderer ε] in
theorem OneFilter.targets_nodup {s : Viewer ε} (ha : s.atlas.Exclusive) (h : s.OneFilter) :
    (s.history.entries.flatMap fun e => e.targets).Nodup := by
  apply List.nodup_flatMap.mpr
  constructor
  · intro e he
    obtain ⟨layer, hl, -, ht, -⟩ := h.exists_layer e he
    rw [ht]
    exact ha.targetIds_nodup_of_mem hl
  · apply (List.pairwise_map.mp h.layers_nodup).imp_of_mem
    intro e e' he he' hne target ht ht'
    exact hne (h.layer_eq_of_mem_targets ha he he' ht ht')

omit [Renderer ε] in
/-- An entry concerns the layer it is on, and no other. -/
theorem OneFilter.concerns_iff {s : Viewer ε} (ha : s.atlas.Exclusive) (h : s.OneFilter)
    {e : Entry} (he : e ∈ s.history.entries) {name : String}
    (hn : name ∈ s.atlas.layers.map Layer.id) : e.concerns name = true ↔ e.layer = name := by
  obtain ⟨layer, hl, hid, ht, -⟩ := h.exists_layer e he
  obtain ⟨other, ho, rfl⟩ := List.mem_map.mp hn
  rw [Filter.concerns_iff, ht, hid]
  constructor
  · rintro (h | h)
    · exact h
    · exact (ha.id_eq_of_mem_targetIds layer hl other ho h).symm
  · exact Or.inl

theorem one_filter_per_layer {d : AtlasDescription} {atlas : Atlas}
    (hb : Atlas.build d = .ok atlas) (renderer : ε) (n : Nat) (qs : List Request) :
    let s := (start atlas renderer n).run qs
    (s.history.entries.map fun e => e.layer).Nodup ∧
    (s.history.entries.flatMap fun e => e.targets).Nodup ∧
    (∀ e ∈ s.history.entries, ∃ layer, atlas.layer? e.layer = some layer ∧
      e.targets = layer.targetIds ∧ e.priors.length = e.targets.length) ∧
    ∀ i : Submission, i.layer ∈ atlas.layers.map Layer.id → i.text ≠ "" →
      (s.check i = .error .layerAlreadyFiltered ↔ ∃ e ∈ s.history.entries, e.layer = i.layer) := by
  intro s
  have ha := Atlas.exclusive_of_build hb
  have hat : s.atlas = atlas := atlas_run _ _
  have h : s.OneFilter := (oneFilter_start atlas renderer n).run ha qs
  rw [← hat] at ha ⊢
  refine ⟨h.layers_nodup, h.targets_nodup ha, ?_, ?_⟩
  · intro e he
    obtain ⟨layer, hl, hid, ht, hp⟩ := h.exists_layer e he
    exact ⟨layer, ha.layer?_eq_some_iff.mpr ⟨hl, hid.symm⟩, ht, hp⟩
  · intro i hi ht
    unfold check
    rw [Operator.screen_eq_layerAlreadyFiltered_iff]
    constructor
    · rintro ⟨-, e, he, hc⟩
      exact ⟨e, he, (h.concerns_iff ha he hi).mp hc⟩
    · rintro ⟨e, he, hl⟩
      exact ⟨ht, e, he, (h.concerns_iff ha he hi).mpr hl⟩

/-- A filter on the wells, one on the roads, and another on the wells while the first is active. -/
def sampleRequests : List Request :=
  [.submit ⟨"wells", "depth", .lessThan, "5"⟩, .submit ⟨"roads", "surface", .equals, "gravel"⟩,
    .submit ⟨"wells", "code", .oneOf, "A,B"⟩]

/-- The wells have one entry, and another filter on them is refused for it. -/
theorem one_filter_per_layer_on_sample :
    let s := (start .sample (Slots.ofAtlas .sample) 0).run sampleRequests
    Atlas.build Atlas.sampleDescription = .ok .sample ∧
    (s.history.entries.map fun e => e.layer).Nodup ∧ (∃ e ∈ s.history.entries, e.layer = "wells") ∧
    s.check ⟨"wells", "code", .equals, "A"⟩ = .error .layerAlreadyFiltered := by
  have hl : "wells" ∈ Atlas.sample.layers.map Layer.id := by decide
  have ht : "A" ≠ "" := by decide
  have hwells : ∃ e ∈ ((start .sample (Slots.ofAtlas .sample) 0).run sampleRequests).history.entries,
      e.layer = "wells" := by decide +kernel
  obtain ⟨hnodup, -, -, hc⟩ :=
    one_filter_per_layer Atlas.build_sample (Slots.ofAtlas .sample) 0 sampleRequests
  exact ⟨Atlas.build_sample, hnodup, hwells,
    (hc ⟨"wells", "code", .equals, "A"⟩ hl ht).mpr hwells⟩

end FeatureSieve.Viewer
