import FeatureSieve.Proofs.History.Journal
import FeatureSieve.Proofs.Query.Predicate
import FeatureSieve.Proofs.Query.Screening
import FeatureSieve.Proofs.Viewer.OneFilter
import FeatureSieve.Renderer.Outage

/-! # Why a viewer writes

Each write that a viewer tries either pushes the predicate of a submission that passed all
checks, or puts back what a target held before such a push. The attempts are seen through
a journal, which the viewer and the renderer below it do not notice.
-/

namespace FeatureSieve

variable {ε : Type} [Renderer ε]

/-- The write carries the predicate of a submission against which nothing speaks. -/
structure Viewer.Pushes (s : Viewer ε) (i : Submission) (w : Write) : Prop where
  target_mem : ∃ layer field, s.atlas.layer? i.layer = some layer ∧
    layer.field? i.field = some field ∧ i.operator ∈ field.kind.operators ∧
    w.target ∈ layer.targetIds
  screened : i.operator.screen i.text none none = .ok ()
  layer_free : ∀ e ∈ s.history.entries, e.layer ≠ i.layer
  value_eq : w.value = some (i.operator.predicate i.field i.text)
  operands_finite : ∀ o ∈ (i.operator.predicate i.field i.text).operands, o.isFinite = true
  fields_eq : ∀ name ∈ (i.operator.predicate i.field i.text).fields, name = i.field
  reads_back : Predicate.ofJson (i.operator.predicate i.field i.text).toJson =
    .ok (i.operator.predicate i.field i.text)

namespace Turn

/-- The writes that are tried in a turn, in order. -/
def attempts (x : Turn (Journal ε)) : List Attempt :=
  x.after.renderer.attempts.drop x.before.renderer.attempts.length

/-- The write goes to a target with an accepted push of the turn among the attempts, and carries
what the target held before the turn. -/
structure Undoes (x : Turn (Journal ε)) (i : Submission) (attempts : List Attempt) (w : Write) :
    Prop where
  pushed : ∃ a ∈ attempts, a.accepted = true ∧ a.write.target = w.target ∧
    x.before.Pushes i a.write
  value_eq : w.value = Renderer.held x.before.renderer w.target

/-- Why a write is tried in a turn, after the attempts `done` in it and after `earlier` turns. -/
inductive Tries (earlier : List (Turn (Journal ε))) (x : Turn (Journal ε)) (done : List Attempt)
    (w : Write) : Prop where
  | push (i : Submission) (hq : x.request = .submit i) (hp : x.before.Pushes i w)
  | rollback (i : Submission) (target : String) (refusal : Refusal) (hq : x.request = .submit i)
    (hf : (x.before.submit i).1 = .error (.renderer target refusal)) (hu : x.Undoes i done w)
  | reversion (id : FilterId) (hq : x.request = .revert id) (y : Turn (Journal ε))
    (hy : y ∈ earlier) (i : Submission) (hi : y.request = .submit i)
    (hs : (y.before.submit i).1 = .ok id) (hu : y.Undoes i y.attempts w)

theorem attempts_eq {x : Turn (Journal ε)} {new : List Attempt}
    (h : x.after.renderer.attempts = x.before.renderer.attempts ++ new) : x.attempts = new := by
  rw [attempts, h, List.drop_left]

end Turn

namespace Viewer

theorem pushes_of_judge {s : Viewer ε} {i : Submission} {layer : Layer} {field : Field}
    (hj : s.judge i = .ok (layer, field)) {w : Write} (hw : w ∈ (s.filter layer field i).pushes) :
    s.Pushes i w := by
  obtain ⟨hl, hf, ho, hc⟩ := judge_eq_ok_iff.mp hj
  obtain ⟨hne, -, ht⟩ := Operator.screen_eq_ok_iff.mp hc
  obtain ⟨target, hm, rfl⟩ := List.mem_map.mp hw
  have hfinite := Operator.isFinite_of_mem_operands_predicate i.field ht
  constructor
  · exact ⟨layer, field, hl, hf, ho, hm⟩
  · exact Operator.screen_none_eq_ok_iff.mpr ⟨hne, ht⟩
  · intro e he heq
    apply not_concerns_of_judge hj
    rw [(Atlas.mem_layers_of_layer? hl).2]
    exact ⟨e, he, Filter.concerns_iff.mpr (Or.inl heq)⟩
  · simp only [filter, name_of_judge hj]
  · exact hfinite
  · exact fun name hn => Operator.eq_of_mem_fields_predicate hn
  · exact Predicate.ofJson_toJson_of_finite _ hfinite

/-- A submission tries nothing, or it pushes to all targets, or it pushes to some, is refused
once and puts back what it pushed. -/
theorem submit_attempts_cases {s : Viewer (Journal ε)} (h : s.atlas.Exclusive) (i : Submission) :
    (∃ failure, s.submit i = (.error failure, s)) ∨
    (∃ layer field id, s.judge i = .ok (layer, field) ∧ (s.submit i).1 = .ok id ∧
      (s.submit i).2.renderer.attempts =
        s.renderer.attempts ++ (s.filter layer field i).pushes.map (⟨·, true⟩)) ∨
    ∃ layer field target refusal count w undone, s.judge i = .ok (layer, field) ∧
      (s.submit i).1 = .error (.renderer target refusal) ∧
      w ∈ (s.filter layer field i).pushes ∧
      undone.map Attempt.write = (s.filter layer field i).restores.take count ∧
      (s.submit i).2.renderer.attempts = s.renderer.attempts ++
        (((s.filter layer field i).pushes.take count).map (⟨·, true⟩) ++ [⟨w, false⟩] ++ undone) := by
  rcases submit_cases h i with ⟨failure, -, hs⟩ | ⟨layer, field, after, hj, hw, hs⟩ |
    ⟨layer, field, stop, after, hj, hw, hs⟩
  · exact Or.inl ⟨failure, hs⟩
  · right
    left
    refine ⟨layer, field, _, hj, by rw [hs], ?_⟩
    rw [hs]
    exact Renderer.attempts_of_not_interrupted hw
  · right
    right
    obtain ⟨w, hget, -, ha⟩ := Renderer.attempts_of_interrupted hw
    obtain ⟨undone, hu, hr⟩ := Renderer.attempts_writeEach after
      ((s.filter layer field i).restores.take stop.accepted)
    refine ⟨layer, field, _, _, stop.accepted, w, undone, hj, by rw [hs], ?_, hu, ?_⟩
    · exact List.mem_of_getElem? hget
    · rw [hs]
      simp only [hr, ha, List.append_assoc]

/-- A reversion tries nothing but to put back what its entry replaced. -/
theorem revert_attempts (s : Viewer (Journal ε)) (id : FilterId) :
    ∃ new, (s.revert id).2.renderer.attempts = s.renderer.attempts ++ new ∧
      ∀ a ∈ new, ∃ e ∈ s.history.entries, e.id = id ∧ a.write ∈ e.restores := by
  rcases s.revert_cases id with ⟨hs, -⟩ | ⟨e, after, he, hw, hs⟩ | ⟨e, stop, after, he, hw, hs⟩
  · exact ⟨[], by simp [hs], by simp⟩
  · refine ⟨_, by rw [hs]; exact Renderer.attempts_of_not_interrupted hw, ?_⟩
    intro a ha
    obtain ⟨w, hm, rfl⟩ := List.mem_map.mp ha
    obtain ⟨hmem, hid⟩ := History.mem_of_entry_eq_some he
    exact ⟨e, hmem, hid, hm⟩
  · obtain ⟨w, hget, -, hat⟩ := Renderer.attempts_of_interrupted hw
    rw [List.append_assoc] at hat
    refine ⟨_, by rw [hs]; exact hat, ?_⟩
    intro a ha
    obtain ⟨hmem, hid⟩ := History.mem_of_entry_eq_some he
    refine ⟨e, hmem, hid, ?_⟩
    rcases List.mem_append.mp ha with ha | ha
    · obtain ⟨v, hm, rfl⟩ := List.mem_map.mp ha
      exact List.mem_of_mem_take hm
    · obtain rfl := List.mem_singleton.mp ha
      exact List.mem_of_getElem? hget

end Viewer

/-- An element of two lists is in the first one, or all of that one stands before it. -/
theorem mem_or_of_append_eq {α : Type} {first second before after : List α} {a : α}
    (h : first ++ second = before ++ a :: after) : a ∈ first ∨ a ∈ second ∧ first ⊆ before := by
  rcases List.append_eq_append_iff.mp h with ⟨more, rfl, rfl⟩ | ⟨more, rfl, hmore⟩
  · right
    exact ⟨List.mem_append_right _ List.mem_cons_self, List.subset_append_left _ _⟩
  · cases more with
    | nil =>
      right
      rw [List.nil_append] at hmore
      rw [← hmore, List.append_nil]
      exact ⟨List.mem_cons_self, List.Subset.refl _⟩
    | cons b more =>
      left
      obtain ⟨rfl, -⟩ := List.cons.inj hmore
      exact List.mem_append_right _ List.mem_cons_self

namespace Turn

theorem undoes_of_mem {x : Turn (Journal ε)} {i : Submission} {layer : Layer} {field : Field}
    (hj : x.before.judge i = .ok (layer, field)) {count : Nat} {w : Write}
    (hw : w ∈ (x.before.filter layer field i).restores.take count) {attempts : List Attempt}
    (hp : ((x.before.filter layer field i).pushes.take count).map (⟨·, true⟩) ⊆ attempts) :
    x.Undoes i attempts w := by
  have hr : (x.before.filter layer field i).restores =
      layer.targetIds.map fun t => ⟨t, Renderer.held x.before.renderer t⟩ :=
    Filter.restores_eq_map rfl
  rw [hr, ← List.map_take] at hw
  obtain ⟨target, ht, rfl⟩ := List.mem_map.mp hw
  have hpush : ⟨target, some (x.before.filter layer field i).predicate⟩ ∈
      (x.before.filter layer field i).pushes.take count := by
    rw [Filter.pushes, ← List.map_take]
    exact List.mem_map_of_mem ht
  constructor
  · refine ⟨_, hp (List.mem_map_of_mem hpush), rfl, rfl, ?_⟩
    exact Viewer.pushes_of_judge hj (List.mem_of_mem_take hpush)
  · rfl

/-- A submission that is recorded tries its pushes and nothing else. -/
theorem attempts_of_recorded {s : Viewer (Journal ε)} (h : s.atlas.Exclusive) {i : Submission}
    {layer : Layer} {field : Field} (hj : s.judge i = .ok (layer, field)) {id : FilterId}
    (hid : (s.submit i).1 = .ok id) :
    (Turn.mk s (.submit i)).attempts = (s.filter layer field i).pushes.map (⟨·, true⟩) := by
  rcases Viewer.submit_attempts_cases h i with ⟨failure, hs⟩ | ⟨layer', field', id', hj', -, hs⟩ |
    ⟨layer', field', target, refusal, count, w, undone, -, hf, -⟩
  · simp [hs] at hid
  · cases hj.symm.trans hj'
    exact attempts_eq hs
  · simp [hf] at hid

theorem tries_of_submit {earlier : List (Turn (Journal ε))} {s : Viewer (Journal ε)}
    (h : s.atlas.Exclusive) {i : Submission} {done rest : List Attempt} {a : Attempt}
    (ha : (Turn.mk s (.submit i)).attempts = done ++ a :: rest) :
    (Turn.mk s (.submit i)).Tries earlier done a.write := by
  rcases Viewer.submit_attempts_cases h i with ⟨failure, hs⟩ | ⟨layer, field, id, hj, -, hs⟩ |
    ⟨layer, field, target, refusal, count, w, undone, hj, hf, hw, hu, hs⟩
  · have hx : (Turn.mk s (.submit i)).attempts = [] := by
      apply attempts_eq
      simp [Turn.after, Viewer.after, hs]
    rw [hx] at ha
    simp at ha
  · have hx : (Turn.mk s (.submit i)).attempts = _ := attempts_eq hs
    have hm : a ∈ (s.filter layer field i).pushes.map (⟨·, true⟩) := by
      rw [← hx, ha]
      exact List.mem_append_right _ List.mem_cons_self
    obtain ⟨v, hv, rfl⟩ := List.mem_map.mp hm
    exact .push i rfl (Viewer.pushes_of_judge hj hv)
  · have hx : (Turn.mk s (.submit i)).attempts = _ := attempts_eq hs
    rw [hx] at ha
    -- The attempt is a push, or all pushes are done and it puts a target back.
    rcases mem_or_of_append_eq ha with hm | ⟨hm, hdone⟩
    · refine .push i rfl (Viewer.pushes_of_judge hj ?_)
      rcases List.mem_append.mp hm with hm | hm
      · obtain ⟨v, hv, rfl⟩ := List.mem_map.mp hm
        exact List.mem_of_mem_take hv
      · obtain rfl := List.mem_singleton.mp hm
        exact hw
    · have hr : a.write ∈ (s.filter layer field i).restores.take count :=
        hu ▸ List.mem_map_of_mem hm
      refine .rollback i target refusal rfl hf (undoes_of_mem hj hr ?_)
      exact List.Subset.trans (List.subset_append_left _ _) hdone

theorem tries_of_revert {earlier : List (Turn (Journal ε))} {s : Viewer (Journal ε)} {id : FilterId}
    (hr : ∀ e ∈ s.history.entries, ∃ y ∈ earlier, y.before.atlas.Exclusive ∧ y.Records e)
    {done : List Attempt} {a : Attempt} (ha : a ∈ (Turn.mk s (.revert id)).attempts) :
    (Turn.mk s (.revert id)).Tries earlier done a.write := by
  obtain ⟨new, hs, hnew⟩ := s.revert_attempts id
  have hx : (Turn.mk s (.revert id)).attempts = new := attempts_eq hs
  obtain ⟨e, he, rfl, hw⟩ := hnew a (hx ▸ ha)
  obtain ⟨⟨t, _⟩, hy, hya, i, layer, field, rfl, hj, hid, hf⟩ := hr e he
  refine .reversion e.id rfl _ hy i rfl hid ?_
  have hall : a.write ∈ (t.filter layer field i).restores.take e.restores.length := by
    rw [hf] at hw ⊢
    rwa [List.take_length]
  apply undoes_of_mem hj hall
  rw [attempts_of_recorded hya hj hid]
  exact List.map_subset _ (List.take_subset _ _)

end Turn

namespace Viewer

theorem attempts_after {s : Viewer (Journal ε)} (h : s.atlas.Exclusive) (q : Request) :
    (s.after q).renderer.attempts = s.renderer.attempts ++ (Turn.mk s q).attempts := by
  have hnew : ∃ new, (s.after q).renderer.attempts = s.renderer.attempts ++ new := by
    cases q with
    | submit i =>
      rcases submit_attempts_cases h i with ⟨failure, hs⟩ | ⟨_, _, _, -, -, hs⟩ |
        ⟨_, _, _, _, _, _, _, -, -, -, -, hs⟩
      · exact ⟨[], by simp [Viewer.after, hs]⟩
      · exact ⟨_, hs⟩
      · exact ⟨_, hs⟩
    | check i => exact ⟨[], (List.append_nil _).symm⟩
    | revert id =>
      obtain ⟨new, hs, -⟩ := s.revert_attempts id
      exact ⟨new, hs⟩
  obtain ⟨new, hs⟩ := hnew
  rw [hs, Turn.attempts_eq (x := ⟨s, q⟩) hs]

theorem attempts_run {s : Viewer (Journal ε)} (h : s.atlas.Exclusive) (qs : List Request) :
    (s.run qs).renderer.attempts = s.renderer.attempts ++ (s.turns qs).flatMap Turn.attempts := by
  induction qs using List.reverseRecOn with
  | nil => simp [run, turns]
  | append_singleton qs q ih =>
    rw [run_concat, turns_concat, attempts_after (by rwa [atlas_run]), ih]
    simp

theorem tries_of_turn {atlas : Atlas} (h : atlas.Exclusive) (journal : Journal ε) (n : Nat)
    (qs : List Request) (q : Request) {done rest : List Attempt} {a : Attempt}
    (ha : (Turn.mk ((start atlas journal n).run qs) q).attempts = done ++ a :: rest) :
    (Turn.mk ((start atlas journal n).run qs) q).Tries ((start atlas journal n).turns qs) done
      a.write := by
  have hat : ((start atlas journal n).run qs).atlas.Exclusive := by rwa [atlas_run]
  cases q with
  | submit i => exact Turn.tries_of_submit hat ha
  | check i =>
    have hx : (Turn.mk ((start atlas journal n).run qs) (.check i)).attempts = [] :=
      Turn.attempts_eq (List.append_nil _).symm
    rw [hx] at ha
    simp at ha
  | revert id =>
    apply Turn.tries_of_revert
    · intro e he
      obtain ⟨y, hy, hr⟩ := exists_turn_records h journal n qs e he
      exact ⟨y, hy, by rwa [atlas_of_mem_turns hy], hr⟩
    · rw [ha]
      exact List.mem_append_right _ List.mem_cons_self

/-- The viewer on what is below the journal. -/
def bare (s : Viewer (Journal ε)) : Viewer ε := ⟨s.atlas, s.renderer.renderer, s.history⟩

theorem submit_bare (s : Viewer (Journal ε)) (i : Submission) :
    s.bare.submit i = ((s.submit i).1, (s.submit i).2.bare) := by
  have hj : s.bare.judge i = s.judge i := rfl
  unfold submit
  rw [hj]
  cases s.judge i with
  | error failure => rfl
  | ok found =>
    obtain ⟨layer, field⟩ := found
    have ha : s.bare.history.apply s.bare.renderer (s.bare.filter layer field i) = _ :=
      s.history.apply_renderer s.renderer (s.filter layer field i)
    simp only [ha]
    rfl

theorem revert_bare (s : Viewer (Journal ε)) (id : FilterId) :
    s.bare.revert id = ((s.revert id).1, (s.revert id).2.bare) := by
  have hr := s.history.revert_renderer s.renderer id
  simp only [revert, bare, hr]

/-- A journal changes nothing in a run. -/
theorem run_bare (s : Viewer (Journal ε)) (qs : List Request) : s.bare.run qs = (s.run qs).bare := by
  induction qs using List.reverseRecOn with
  | nil => rfl
  | append_singleton qs q ih =>
    rw [run_concat, run_concat, ih]
    cases q with
    | submit i => exact congrArg Prod.snd (submit_bare (s.run qs) i)
    | check i => rfl
    | revert id => exact congrArg Prod.snd (revert_bare (s.run qs) id)

/-- Nothing is ever tried but to push what passed all checks and to put it back. -/
theorem every_attempt_pushes_or_undoes {d : AtlasDescription} {atlas : Atlas}
    (hb : Atlas.build d = .ok atlas) (renderer : ε) (n : Nat) (qs : List Request) :
    let s := start atlas (Journal.ofRenderer renderer) n
    (s.run qs).bare = (start atlas renderer n).run qs ∧
    (s.run qs).renderer.attempts = (s.turns qs).flatMap Turn.attempts ∧
    ∀ earlier x later, s.turns qs = earlier ++ x :: later → x.before.atlas = atlas ∧
      (∀ done a rest, x.attempts = done ++ a :: rest → x.Tries earlier done a.write) ∧
      (∀ i, x.request = .check i → x.attempts = [] ∧ x.after = x.before) ∧
      ∀ i failure, x.request = .submit i → (x.before.submit i).1 = .error failure →
        (∀ target refusal, failure ≠ .renderer target refusal) →
        x.attempts = [] ∧ x.after = x.before := by
  intro s
  have ha := Atlas.exclusive_of_build hb
  refine ⟨(run_bare s qs).symm, attempts_run ha qs, ?_⟩
  intro earlier x later hs
  obtain ⟨before, after, rfl, rfl, hx⟩ := eq_of_turns_eq hs
  obtain ⟨t, q⟩ := x
  obtain rfl : t = s.run before := hx
  refine ⟨atlas_run s before, ?_, ?_, ?_⟩
  · intro done a rest hat
    exact tries_of_turn ha _ n before q hat
  · rintro i rfl
    exact ⟨Turn.attempts_eq (List.append_nil _).symm, rfl⟩
  · rintro i failure rfl hf hne
    have hat : (s.run before).atlas.Exclusive := by rwa [atlas_run]
    rcases submit_attempts_cases hat i with ⟨_, hs⟩ | ⟨_, _, _, -, hok, -⟩ |
      ⟨_, _, target, refusal, _, _, _, -, herr, -⟩
    · have hafter : (Turn.mk (s.run before) (.submit i)).after = s.run before :=
        congrArg Prod.snd hs
      refine ⟨Turn.attempts_eq ?_, hafter⟩
      rw [hafter, List.append_nil]
    · simp [hok] at hf
    · cases herr.symm.trans hf
      exact absurd rfl (hne target refusal)

/-- The labels of the wells cannot be written. -/
def withoutLabels : Journal (Faltering Slots) :=
  .ofRenderer ((Faltering.ofRenderer (.ofAtlas .sample)).fail "wells_labels" ⟨0, ⟨["busy"]⟩⟩)

/-- After the refusal the points get back what they held, which is nothing. -/
theorem points_put_back_without_labels :
    let i : Submission := ⟨"wells", "depth", .lessThan, "5"⟩
    let p := i.operator.predicate i.field i.text
    Atlas.build Atlas.sampleDescription = .ok .sample ∧
    (Turn.mk (start .sample withoutLabels 0) (.submit i)).Tries []
      [⟨⟨"wells_points", some p⟩, true⟩, ⟨⟨"wells_labels", some p⟩, false⟩] ⟨"wells_points", none⟩ := by
  intro i p
  obtain ⟨-, -, h⟩ := every_attempt_pushes_or_undoes Atlas.build_sample withoutLabels.renderer 0
    [.submit i]
  obtain ⟨-, htries, -⟩ := h [] ⟨start .sample withoutLabels 0, .submit i⟩ [] rfl
  have hattempts : (Turn.mk (start .sample withoutLabels 0) (.submit i)).attempts =
      [⟨⟨"wells_points", some p⟩, true⟩, ⟨⟨"wells_labels", some p⟩, false⟩] ++
        [⟨⟨"wells_points", none⟩, true⟩] := by
    decide +kernel
  exact ⟨Atlas.build_sample, htries _ _ _ hattempts⟩

end Viewer

end FeatureSieve
