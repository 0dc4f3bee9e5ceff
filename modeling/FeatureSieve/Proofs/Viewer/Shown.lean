import FeatureSieve.Proofs.Query.Meaning
import FeatureSieve.Proofs.Query.Screening
import FeatureSieve.Proofs.Renderer.Faithful
import FeatureSieve.Proofs.Viewer.Run

/-! # What is shown after a submission

An accepted submission leaves its predicate on all targets of the layer, and these then
show the features whose attribute the operator admits, in their order.
-/

namespace FeatureSieve

theorem Slots.shown_eq_filter {slots : Slots} {target : String} {p : Predicate}
    (h : slots.held target = some p) (features : List Feature) :
    slots.shown target features = features.filter fun feature => p.selects feature := by
  have hget : slots.table.get? target = some (some p) := Option.join_eq_some_iff.mp h
  apply List.filter_congr
  intro feature _
  simp only [shows, hget]

namespace Viewer

/-- An accepted submission leaves its predicate on every target of its layer. -/
theorem held_of_submit {ε : Type} [SlotRenderer ε] {s : Viewer ε} (h : s.atlas.Exclusive)
    {i : Submission} {id : FilterId} (hi : (s.submit i).1 = .ok id) :
    ∃ layer field, s.judge i = .ok (layer, field) ∧ ∀ target ∈ layer.targetIds,
      Renderer.held (s.submit i).2.renderer target = some (i.operator.predicate i.field i.text) := by
  rcases submit_cases h i with ⟨failure, -, hs⟩ | ⟨layer, field, after, hj, hw, hs⟩ |
    ⟨layer, field, stop, after, -, -, hs⟩
  · simp [hs] at hi
  · refine ⟨layer, field, hj, fun target ht => ?_⟩
    rw [hs, FaithfulRenderer.held_of_not_interrupted hw, ← name_of_judge hj]
    exact if_pos ht
  · simp [hs] at hi

open Classical in
/-- After a submission that is accepted, its layer shows the features that its operator admits. -/
theorem shown_after_submit {d : AtlasDescription} {atlas : Atlas} (hb : Atlas.build d = .ok atlas)
    (n : Nat) (qs : List Request) (i : Submission) {id : FilterId}
    (hi : (((start atlas (Slots.ofAtlas atlas) n).run qs).submit i).1 = .ok id) :
    ∃ layer, atlas.layer? i.layer = some layer ∧
      ∀ target ∈ layer.targetIds, ∀ features : List Feature,
        (((start atlas (Slots.ofAtlas atlas) n).run qs).submit i).2.renderer.shown target features =
          features.filter fun feature => i.operator.Admits i.text (feature.get? i.field) := by
  have hat : ((start atlas (Slots.ofAtlas atlas) n).run qs).atlas = atlas := atlas_run _ _
  have ha : ((start atlas (Slots.ofAtlas atlas) n).run qs).atlas.Exclusive := by
    rw [hat]
    exact Atlas.exclusive_of_build hb
  obtain ⟨layer, field, hj, hheld⟩ := held_of_submit ha hi
  obtain ⟨hl, -, -, hc⟩ := judge_eq_ok_iff.mp hj
  have ht := (Operator.screen_eq_ok_iff.mp hc).2.2
  refine ⟨layer, hat ▸ hl, ?_⟩
  intro target hm features
  rw [Slots.shown_eq_filter (hheld target hm)]
  apply List.filter_congr
  intro feature _
  rw [Bool.eq_iff_iff, decide_eq_true_iff]
  exact Operator.selects_predicate_iff ht i.field feature

open Classical in
theorem labels_shown_after_submit :
    let i : Submission := ⟨"wells", "depth", .lessThan, "5"⟩
    let s := (start .sample (Slots.ofAtlas .sample) 0).run
      [.submit ⟨"roads", "surface", .equals, "gravel"⟩]
    Atlas.build Atlas.sampleDescription = .ok .sample ∧ (s.submit i).1 = .ok ⟨1⟩ ∧
    ∀ features : List Feature, (s.submit i).2.renderer.shown "wells_labels" features =
      features.filter fun feature => i.operator.Admits i.text (feature.get? i.field) := by
  intro i s
  have hi : (s.submit i).1 = .ok ⟨1⟩ := by decide +kernel
  obtain ⟨layer, hl, hshown⟩ := shown_after_submit Atlas.build_sample 0 _ i hi
  cases hl
  exact ⟨Atlas.build_sample, hi, hshown "wells_labels" (by decide)⟩

end Viewer

end FeatureSieve
