import FeatureSieve.Proofs.Renderer.Faithful
import FeatureSieve.Proofs.Viewer.OneFilter

/-! # The baseline of a viewer

What a renderer held when a viewer was started on it. As long as every target whose push
has to be undone is put back, targets without an active filter hold their baseline, and
each entry knows the baseline of its own targets, also after reversions that were refused
half way.
-/

namespace FeatureSieve

open Renderer SlotRenderer FaithfulRenderer

/-- After a refused push, no write that puts a target back is refused as well. -/
def Turn.rollsBack {ε : Type} [Renderer ε] (x : Turn ε) : Bool :=
  match x.request with
  | .submit i =>
    match x.before.judge i with
    | .ok (layer, field) =>
      let f := x.before.filter layer field i
      match writeUntilRefused x.before.renderer f.pushes with
      | (some stop, renderer) => acceptsEach renderer (f.restores.take stop.accepted)
      | (none, _) => true
    | .error _ => true
  | _ => true

/-- The entry is active and the request is to revert it, but that is refused. -/
def Turn.FailsToRevert {ε : Type} [Renderer ε] (x : Turn ε) (e : Entry) : Prop :=
  x.request = .revert e.id ∧ e ∈ x.before.history.entries ∧
    ∃ failure, (x.before.revert e.id).1 = .error failure

namespace Viewer

variable {ε : Type} [SlotRenderer ε]

/-- The targets of `s`, which came from `baseline` by `turns`, hold what they are due. -/
structure OnBaseline (baseline : ε) (turns : List (Turn ε)) (s : Viewer ε) : Prop where
  held_of_free : ∀ target, (∀ e ∈ s.history.entries, target ∉ e.targets) →
    held s.renderer target = held baseline target
  held_of_listed : ∀ e ∈ s.history.entries, ∀ target ∈ e.targets,
    held s.renderer target = some e.predicate ∨ held s.renderer target = held baseline target
  held_of_kept : ∀ e ∈ s.history.entries, (∀ x ∈ turns, ¬ x.FailsToRevert e) →
    ∀ target ∈ e.targets, held s.renderer target = some e.predicate
  priors_eq : ∀ e ∈ s.history.entries, e.priors = e.targets.map (held baseline)

theorem onBaseline_start (atlas : Atlas) (renderer : ε) (n : Nat) :
    (start atlas renderer n).OnBaseline renderer [] := by
  constructor <;> simp [start, History.empty]

variable {baseline : ε} {turns : List (Turn ε)} {s : Viewer ε}

/-- Nothing that a target holds is changed, and no entry. -/
theorem OnBaseline.of_same (h : s.OnBaseline baseline turns) {t : Viewer ε}
    (hr : ∀ target, held t.renderer target = held s.renderer target)
    (he : t.history.entries = s.history.entries) (x : Turn ε) :
    t.OnBaseline baseline (turns ++ [x]) := by
  constructor
  · intro target hf
    rw [hr]
    exact h.held_of_free target (he ▸ hf)
  · rw [he]
    intro e hm target ht
    rw [hr]
    exact h.held_of_listed e hm target ht
  · rw [he]
    intro e hm hx target ht
    rw [hr]
    exact h.held_of_kept e hm (fun y hy => hx y (List.mem_append_left _ hy)) target ht
  · rw [he]
    exact h.priors_eq

theorem OnBaseline.of_recorded (h : s.OnBaseline baseline turns) (ha : s.atlas.Exclusive)
    (h1 : s.OneFilter) {i : Submission} {layer : Layer} {field : Field} {after : ε}
    (hj : s.judge i = .ok (layer, field))
    (hw : writeUntilRefused s.renderer (s.filter layer field i).pushes = (none, after)) (x : Turn ε) :
    OnBaseline baseline (turns ++ [x])
      ⟨s.atlas, after, s.history.record (s.filter layer field i)⟩ := by
  have hheld := held_of_not_interrupted hw
  have hfree : ∀ target ∈ layer.targetIds, held s.renderer target = held baseline target := by
    intro target ht
    apply h.held_of_free
    intro e he ht'
    exact h1.not_mem_of_judge ha hj he ht' ht
  -- The targets of the earlier entries are none of this layer's.
  have hold : ∀ e ∈ s.history.entries, ∀ target ∈ e.targets,
      held after target = held s.renderer target := by
    intro e he target ht
    rw [hheld]
    exact if_neg (h1.not_mem_of_judge ha hj he ht)
  have hnew : ∀ target ∈ layer.targetIds,
      held after target = some (s.filter layer field i).predicate := by
    intro target ht
    rw [hheld]
    exact if_pos ht
  constructor
  · intro target hf
    have hn : target ∉ layer.targetIds :=
      hf _ (List.mem_append_right _ (List.mem_singleton.mpr rfl))
    change held after target = _
    rw [hheld]
    refine (if_neg hn).trans (h.held_of_free target fun e he => hf e ?_)
    exact List.mem_append_left _ he
  · intro e he target ht
    change held after target = _ ∨ held after target = _
    rcases List.mem_append.mp he with he | he
    · rw [hold e he target ht]
      exact h.held_of_listed e he target ht
    · obtain rfl := List.mem_singleton.mp he
      exact Or.inl (hnew target ht)
  · intro e he hx target ht
    change held after target = _
    rcases List.mem_append.mp he with he | he
    · rw [hold e he target ht]
      exact h.held_of_kept e he (fun y hy => hx y (List.mem_append_left _ hy)) target ht
    · obtain rfl := List.mem_singleton.mp he
      exact hnew target ht
  · intro e he
    rcases List.mem_append.mp he with he | he
    · exact h.priors_eq e he
    · obtain rfl := List.mem_singleton.mp he
      exact List.map_congr_left hfree

theorem OnBaseline.of_removed (h : s.OnBaseline baseline turns) (ha : s.atlas.Exclusive)
    (h1 : s.OneFilter) {e : Entry} {after : ε} (he : e ∈ s.history.entries)
    (hw : writeUntilRefused s.renderer e.restores = (none, after)) (x : Turn ε) :
    OnBaseline baseline (turns ++ [x]) ⟨s.atlas, after, s.history.remove e.id⟩ := by
  rw [Filter.restores_eq_map (h.priors_eq e he)] at hw
  have hheld := held_of_not_interrupted hw
  have hother : ∀ e' ∈ s.history.entries.filter (·.id ≠ e.id), e' ∈ s.history.entries ∧
      ∀ target ∈ e'.targets, held after target = held s.renderer target := by
    intro e' hm
    obtain ⟨he', hid⟩ := List.mem_filter.mp hm
    refine ⟨he', fun target ht => ?_⟩
    rw [hheld]
    apply if_neg
    intro ht'
    obtain rfl := h1.eq_of_mem_targets ha he' he ht ht'
    simp at hid
  constructor
  · intro target hf
    change held after target = _
    rw [hheld]
    split
    · rfl
    · next hn =>
      apply h.held_of_free
      intro e' he' ht
      by_cases hid : e'.id = e.id
      · exact hn (s.history.eq_of_id_eq he' he hid ▸ ht)
      · exact hf e' (List.mem_filter.mpr ⟨he', by simpa using hid⟩) ht
  · intro e' hm target ht
    change held after target = _ ∨ held after target = _
    rw [(hother e' hm).2 target ht]
    exact h.held_of_listed e' (hother e' hm).1 target ht
  · intro e' hm hx target ht
    change held after target = _
    rw [(hother e' hm).2 target ht]
    exact h.held_of_kept e' (hother e' hm).1 (fun y hy => hx y (List.mem_append_left _ hy)) target ht
  · intro e' hm
    exact h.priors_eq e' (hother e' hm).1

/-- A reversion that is refused half way has put some of the targets of its entry back. -/
theorem OnBaseline.of_interrupted (h : s.OnBaseline baseline turns) (ha : s.atlas.Exclusive)
    (h1 : s.OneFilter) {e : Entry} {stop : Interruption} {after : ε} (he : e ∈ s.history.entries)
    (hw : writeUntilRefused s.renderer e.restores = (some stop, after)) {x : Turn ε}
    (hx : x.FailsToRevert e) : OnBaseline baseline (turns ++ [x]) ⟨s.atlas, after, s.history⟩ := by
  rw [Filter.restores_eq_map (h.priors_eq e he)] at hw
  have hheld := held_of_interrupted hw
  have hother : ∀ target, target ∉ e.targets → held after target = held s.renderer target := by
    intro target ht
    rw [hheld]
    exact if_neg fun hm => ht (List.mem_of_mem_take hm)
  constructor
  · intro target hf
    change held after target = _
    rw [hother target (hf e he)]
    exact h.held_of_free target hf
  · intro e' he' target ht
    change held after target = _ ∨ held after target = _
    rw [hheld]
    split
    · exact Or.inr rfl
    · exact h.held_of_listed e' he' target ht
  · intro e' he' hk target ht
    have hne : target ∉ e.targets := by
      intro ht'
      obtain rfl := h1.eq_of_mem_targets ha he' he ht ht'
      exact hk x (List.mem_append_right _ (List.mem_singleton.mpr rfl)) hx
    change held after target = _
    rw [hother target hne]
    exact h.held_of_kept e' he' (fun y hy => hk y (List.mem_append_left _ hy)) target ht
  · exact h.priors_eq

/-- What was pushed before a refusal is undone as soon as the writes that undo it are accepted. -/
theorem held_of_rolled_back {i : Submission} {layer : Layer} {field : Field} {stop : Interruption}
    {after : ε}
    (hw : writeUntilRefused s.renderer (s.filter layer field i).pushes = (some stop, after))
    (hb : acceptsEach after ((s.filter layer field i).restores.take stop.accepted) = true)
    (target : String) :
    held (writeEach after ((s.filter layer field i).restores.take stop.accepted)) target =
      held s.renderer target := by
  have hr : (s.filter layer field i).restores =
      layer.targetIds.map fun t => ⟨t, held s.renderer t⟩ := Filter.restores_eq_map rfl
  rw [hr, ← List.map_take] at hb ⊢
  rw [held_writeEach hb]
  split
  · rfl
  · next hn =>
    rw [held_of_interrupted hw]
    exact if_neg hn

theorem OnBaseline.after (h : s.OnBaseline baseline turns) (ha : s.atlas.Exclusive)
    (h1 : s.OneFilter) {q : Request} (hr : (Turn.mk s q).rollsBack = true) :
    (s.after q).OnBaseline baseline (turns ++ [⟨s, q⟩]) := by
  cases q with
  | submit i =>
    rcases submit_cases ha i with ⟨failure, hj, hs⟩ | ⟨layer, field, after, hj, hw, hs⟩ |
      ⟨layer, field, stop, after, hj, hw, hs⟩
    · simp only [Viewer.after, hs]
      exact h.of_same (fun _ => rfl) rfl _
    · simp only [Viewer.after, hs]
      exact h.of_recorded ha h1 hj hw _
    · simp only [Turn.rollsBack, hj, hw] at hr
      simp only [Viewer.after, hs]
      refine h.of_same ?_ ?_ _
      · exact held_of_rolled_back hw hr
      · rfl
  | check i => exact h.of_same (fun _ => rfl) rfl _
  | revert id =>
    rcases s.revert_cases id with ⟨hs, -⟩ | ⟨e, after, he, hw, hs⟩ | ⟨e, stop, after, he, hw, hs⟩
    · simp only [Viewer.after, hs]
      exact h.of_same (fun _ => rfl) rfl _
    · obtain ⟨hm, rfl⟩ := History.mem_of_entry_eq_some he
      simp only [Viewer.after, hs]
      exact h.of_removed ha h1 hm hw _
    · obtain ⟨hm, rfl⟩ := History.mem_of_entry_eq_some he
      simp only [Viewer.after, hs]
      exact h.of_interrupted ha h1 hm hw ⟨rfl, hm, _, congrArg Prod.fst hs⟩

theorem onBaseline_run {atlas : Atlas} (ha : atlas.Exclusive) (renderer : ε) (n : Nat)
    (qs : List Request) (hr : ∀ x ∈ (start atlas renderer n).turns qs, x.rollsBack = true) :
    ((start atlas renderer n).run qs).OnBaseline renderer ((start atlas renderer n).turns qs) := by
  induction qs using List.reverseRecOn with
  | nil => exact onBaseline_start atlas renderer n
  | append_singleton qs q ih =>
    rw [turns_concat] at hr ⊢
    rw [run_concat]
    have hs := ih fun x hx => hr x (List.mem_append_left _ hx)
    have hq := hr _ (List.mem_append_right _ (List.mem_singleton.mpr rfl))
    have hat : ((start atlas renderer n).run qs).atlas.Exclusive := by rwa [atlas_run]
    exact hs.after hat ((oneFilter_start atlas renderer n).run ha qs) hq

theorem knows_after {s : Viewer ε} (ha : s.atlas.Exclusive) (q : Request) (target : String) :
    (slots (s.after q).renderer).knows target = (slots s.renderer).knows target := by
  apply knows_eq_of_kept
  cases q with
  | submit i =>
    rcases submit_cases ha i with ⟨failure, hj, hs⟩ | ⟨layer, field, after, hj, hw, hs⟩ |
      ⟨layer, field, stop, after, hj, hw, hs⟩
    · simp only [Viewer.after, hs]
    · simp only [Viewer.after, hs]
      exact kept_writeUntilRefused_eq_none_iff hw target
    · simp only [Viewer.after, hs]
      rw [kept_writeEach_eq_none_iff]
      exact kept_writeUntilRefused_eq_none_iff hw target
  | check i => rfl
  | revert id =>
    rcases s.revert_cases id with ⟨hs, -⟩ | ⟨e, after, -, hw, hs⟩ | ⟨e, stop, after, -, hw, hs⟩
    · simp only [Viewer.after, hs]
    · simp only [Viewer.after, hs]
      exact kept_writeUntilRefused_eq_none_iff hw target
    · simp only [Viewer.after, hs]
      exact kept_writeUntilRefused_eq_none_iff hw target

theorem knows_run {s : Viewer ε} (ha : s.atlas.Exclusive) (qs : List Request) (target : String) :
    (slots (s.run qs).renderer).knows target = (slots s.renderer).knows target := by
  induction qs using List.reverseRecOn with
  | nil => rfl
  | append_singleton qs q ih => rw [run_concat, knows_after (by rwa [atlas_run]), ih]

/-- While every refused push is undone, each target is on its baseline or on the predicate of
the one entry that lists it. -/
theorem run_keeps_baseline {d : AtlasDescription} {atlas : Atlas} (hb : Atlas.build d = .ok atlas)
    (renderer : ε) (n : Nat) (qs : List Request)
    (hr : ∀ x ∈ (start atlas renderer n).turns qs, x.rollsBack = true) :
    let s := (start atlas renderer n).run qs
    (∀ target, (∀ e ∈ s.history.entries, target ∉ e.targets) →
      held s.renderer target = held renderer target) ∧
    (∀ e ∈ s.history.entries, ∀ target ∈ e.targets,
      (held s.renderer target = some e.predicate ∨
        held s.renderer target = held renderer target) ∧
      ((∀ x ∈ (start atlas renderer n).turns qs, ¬ x.FailsToRevert e) →
        held s.renderer target = some e.predicate)) ∧
    (∀ e ∈ s.history.entries, ∃ layer, atlas.layer? e.layer = some layer ∧
      e.targets = layer.targetIds ∧ e.priors = e.targets.map (held renderer)) ∧
    ∀ target, (slots s.renderer).knows target = (slots renderer).knows target := by
  intro s
  have ha := Atlas.exclusive_of_build hb
  have h := onBaseline_run ha renderer n qs hr
  have h1 := (oneFilter_start atlas renderer n).run ha qs
  refine ⟨h.held_of_free, ?_, ?_, fun target => knows_run ha qs target⟩
  · intro e he target ht
    exact ⟨h.held_of_listed e he target ht, fun hx => h.held_of_kept e he hx target ht⟩
  · intro e he
    obtain ⟨layer, hl, hid, hts, -⟩ := h1.exists_layer e he
    have hat : s.atlas = atlas := atlas_run _ _
    exact ⟨layer, ha.layer?_eq_some_iff.mpr ⟨hat ▸ hl, hid.symm⟩, hts, h.priors_eq e he⟩

/-- The second write and the eighth are refused. -/
def fickleSample : Fickle Slots :=
  ⟨.ofAtlas .sample, fun n => if n = 1 ∨ n = 7 then some ⟨["busy"]⟩ else none⟩

/-- A filter on the wells that is put back, one on the roads, and one on the wells whose
reversion is refused half way. -/
def refusedHalfWay : List Request :=
  [.submit ⟨"wells", "depth", .lessThan, "5"⟩, .submit ⟨"roads", "surface", .equals, "gravel"⟩,
    .submit ⟨"wells", "depth", .lessThan, "5"⟩, .revert ⟨1⟩]

/-- After the first of these requests. -/
def pushedInVain : Viewer (Fickle Slots) :=
  (start .sample fickleSample 0).run (refusedHalfWay.take 1)

/-- After all of them. -/
def halfReverted : Viewer (Fickle Slots) := (start .sample fickleSample 0).run refusedHalfWay

/-- The refused push leaves every target on its baseline. In the end the roads hold their filter.
The labels of the wells hold theirs too, since the reversion was refused before it came to them,
and the points are on their baseline again. -/
theorem run_keeps_baseline_of_refusals :
    Atlas.build Atlas.sampleDescription = .ok .sample ∧
    (∀ x ∈ (start .sample fickleSample 0).turns refusedHalfWay, x.rollsBack = true) ∧
    (∀ target, held pushedInVain.renderer target = held fickleSample target) ∧
    ∃ roads wells, halfReverted.history.entries = [roads, wells] ∧
      roads.targets = ["roads"] ∧ held halfReverted.renderer "roads" = some roads.predicate ∧
      wells.targets = ["wells_points", "wells_labels"] ∧
      held halfReverted.renderer "wells_points" = held fickleSample "wells_points" ∧
      held halfReverted.renderer "wells_labels" = some wells.predicate ∧
      ∀ e ∈ halfReverted.history.entries, e.priors = e.targets.map (held fickleSample) := by
  have hfirst : ∀ x ∈ (start .sample fickleSample 0).turns (refusedHalfWay.take 1),
      x.rollsBack = true := by decide +kernel
  have hr : ∀ x ∈ (start .sample fickleSample 0).turns refusedHalfWay, x.rollsBack = true := by
    decide +kernel
  obtain ⟨hfree, -⟩ :=
    run_keeps_baseline Atlas.build_sample fickleSample 0 (refusedHalfWay.take 1) hfirst
  obtain ⟨-, hlisted, hpriors, -⟩ :=
    run_keeps_baseline Atlas.build_sample fickleSample 0 refusedHalfWay hr
  rw [← pushedInVain] at hfree
  rw [← halfReverted] at hlisted hpriors
  have hnone : pushedInVain.history.entries = [] := by decide +kernel
  have hentries : (halfReverted.history.entries.map fun e => (e.id, e.targets)) =
      [(⟨0⟩, ["roads"]), (⟨1⟩, ["wells_points", "wells_labels"])] := by decide +kernel
  obtain ⟨roads, rest, hs, hroads, hrest⟩ := List.map_eq_cons_iff.mp hentries
  obtain ⟨wells, last, rfl, hwells, hlast⟩ := List.map_eq_cons_iff.mp hrest
  obtain rfl := List.map_eq_nil_iff.mp hlast
  obtain ⟨hid, hroads⟩ := Prod.mk.inj hroads
  obtain ⟨-, hwells⟩ := Prod.mk.inj hwells
  -- Only the reversion of the wells has failed, and it has put back the points alone.
  have hkept : ∀ x ∈ (start .sample fickleSample 0).turns refusedHalfWay,
      x.request ≠ .revert ⟨0⟩ := by decide +kernel
  have hroad := (hlisted roads (by simp [hs]) "roads" (by simp [hroads])).2 fun x hx h =>
    hkept x hx (hid ▸ h.1)
  have hwell (target : String) (ht : target ∈ wells.targets) :=
    (hlisted wells (by simp [hs]) target ht).1
  have hcleared : held halfReverted.renderer "wells_points" = none := by decide +kernel
  have hfiltered : held halfReverted.renderer "wells_labels" ≠ held fickleSample "wells_labels" := by
    decide +kernel
  have hpoints := (hwell "wells_points" (by simp [hwells])).resolve_left (by simp [hcleared])
  have hlabels := (hwell "wells_labels" (by simp [hwells])).resolve_right hfiltered
  refine ⟨Atlas.build_sample, hr, fun target => hfree target (by simp [hnone]), roads, wells, hs,
    hroads, hroad, hwells, hpoints, hlabels, fun e he => ?_⟩
  obtain ⟨layer, -, -, hp⟩ := hpriors e he
  exact hp

end Viewer

end FeatureSieve
