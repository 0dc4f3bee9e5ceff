import FeatureSieve.Proofs.History.Reversion
import FeatureSieve.Proofs.Viewer.Run

/-! # What a reversion restores

Between a submission and the reversion of what it was accepted as, anything may happen:
other requests, reversions that are refused, writes to the renderer from elsewhere. Nothing
of it alters the priors of the entry, so the reversion restores what the submission found.
-/

namespace FeatureSieve

open Renderer FaithfulRenderer

/-- What may happen to a viewer: a request, or a change of the renderer behind its back. -/
inductive Happening (ε : Type) where
  | request (q : Request)
  | meddling (change : ε → ε)

namespace Viewer

section Memory

variable {ε : Type} [Renderer ε]

def meet (s : Viewer ε) : Happening ε → Viewer ε
  | .request q => s.after q
  | .meddling change => { s with renderer := change s.renderer }

def meetAll (s : Viewer ε) (happenings : List (Happening ε)) : Viewer ε := happenings.foldl meet s

/-- The id is no longer free, and only an entry of this filter can have it. -/
structure Remembers (f : Filter) (id : FilterId) (s : Viewer ε) : Prop where
  number_lt : id.number < s.history.nextNumber
  filter_eq : ∀ e ∈ s.history.entries, e.id = id → e.toFilter = f

variable {s : Viewer ε} {f : Filter} {id : FilterId}

theorem remembers_of_submit (ha : s.atlas.Exclusive) {i : Submission}
    (hid : (s.submit i).1 = .ok id) :
    ∃ layer field, s.judge i = .ok (layer, field) ∧
      (s.submit i).2.Remembers (s.filter layer field i) id := by
  rcases submit_cases ha i with ⟨failure, -, hs⟩ | ⟨layer, field, after, hj, -, hs⟩ |
    ⟨layer, field, stop, after, -, -, hs⟩
  · simp [hs] at hid
  · refine ⟨layer, field, hj, ?_⟩
    rw [hs] at hid ⊢
    cases hid
    constructor
    · exact Nat.lt_succ_self _
    · intro e he heq
      rcases List.mem_append.mp he with he | he
      · have hlt := s.history.numbers_lt e he
        rw [heq] at hlt
        exact absurd hlt (Nat.lt_irrefl _)
      · rw [List.mem_singleton.mp he]
  · simp [hs] at hid

theorem Remembers.after (h : s.Remembers f id) (ha : s.atlas.Exclusive) (q : Request) :
    (s.after q).Remembers f id := by
  constructor
  · exact Nat.lt_of_lt_of_le h.number_lt (nextNumber_le_after ha q)
  · intro e he heq
    rcases entries_after_cases ha q with hs | ⟨i, layer, field, -, -, -, hs⟩ | ⟨id', -, hs⟩
    · exact h.filter_eq e (hs ▸ he) heq
    · rw [hs] at he
      rcases List.mem_append.mp he with he | he
      · exact h.filter_eq e he heq
      · -- a new entry has the next number, which the id is below
        have hlt := h.number_lt
        rw [← heq, List.mem_singleton.mp he] at hlt
        exact absurd hlt (Nat.lt_irrefl _)
    · rw [hs] at he
      exact h.filter_eq e (List.mem_filter.mp he).1 heq

theorem atlas_meet (s : Viewer ε) (x : Happening ε) : (s.meet x).atlas = s.atlas := by
  cases x with
  | request q => exact atlas_after s q
  | meddling change => rfl

theorem Remembers.meet (h : s.Remembers f id) (ha : s.atlas.Exclusive) (x : Happening ε) :
    (s.meet x).Remembers f id := by
  cases x with
  | request q => exact h.after ha q
  | meddling change => exact ⟨h.number_lt, h.filter_eq⟩

theorem Remembers.meetAll (h : s.Remembers f id) (ha : s.atlas.Exclusive)
    (happenings : List (Happening ε)) : (s.meetAll happenings).Remembers f id := by
  induction happenings generalizing s with
  | nil => exact h
  | cons x rest ih => exact ih (h.meet ha x) (by rwa [atlas_meet])

end Memory

theorem history_revert {ε : Type} [Renderer ε] (s : Viewer ε) (id : FilterId) :
    s.history.revert s.renderer id =
      ((s.revert id).1, (s.revert id).2.history, (s.revert id).2.renderer) := rfl

variable {ε : Type} [Renderer ε] [FaithfulRenderer ε]

/-- A reversion after whatever happened restores the state of the submission for its own targets
and nothing else. -/
theorem kept_of_reverted_later {s : Viewer ε} (ha : s.atlas.Exclusive) {i : Submission}
    {id : FilterId} (hid : (s.submit i).1 = .ok id) (happenings : List (Happening ε)) {e : Entry}
    (he : (((s.submit i).2.meetAll happenings).revert id).1 = .ok e) :
    ∃ layer, s.atlas.layer? i.layer = some layer ∧ e.targets = layer.targetIds ∧
      ∀ target, kept (((s.submit i).2.meetAll happenings).revert id).2.renderer target =
        if target ∈ e.targets then some (held s.renderer target)
        else kept ((s.submit i).2.meetAll happenings).renderer target := by
  obtain ⟨layer, field, hj, hmem⟩ := remembers_of_submit ha hid
  have hat : (s.submit i).2.atlas = s.atlas := atlas_after s (.submit i)
  have hlater := hmem.meetAll (by rwa [hat]) happenings
  generalize (s.submit i).2.meetAll happenings = t at he hlater ⊢
  have hr := t.history_revert id
  rw [he] at hr
  obtain ⟨hm, heq, -, hkept⟩ := History.kept_of_reverted hr
  have hf : e.toFilter = s.filter layer field i := hlater.filter_eq e hm heq
  have hpriors : e.priors = e.targets.map (held s.renderer) := by
    rw [hf]
    rfl
  refine ⟨layer, (judge_eq_ok_iff.mp hj).1, congrArg Filter.targets hf, fun target => ?_⟩
  rw [hkept, Filter.restores_eq_map hpriors, Kept.settle_map]

/-- Reverting puts an entry back as a whole or stops at the first refusal, refused reversions
are made good by the next one, and what a submission found is what its reversion leaves. -/
theorem revert_restores_what_was_held :
    (∀ (history : History) (renderer : ε), ∀ e ∈ history.entries,
      let (result, after, journal) := history.revert (Journal.ofRenderer renderer) e.id
      history.revert renderer e.id = (result, after, journal.renderer) ∧
      ((result = .ok e ∧ after.entries = history.entries.erase e ∧
          after.nextNumber = history.nextNumber ∧ e.Restored renderer journal) ∨
        ∃ k target prior refusal, result = .error (.renderer target refusal) ∧ after = history ∧
          e.PartlyRestored renderer k target prior refusal journal)) ∧
    (∀ (history h : History) (renderer r : ε), ∀ e ∈ history.entries,
      History.RefusedToRevert e.id history renderer h r →
      ∀ found, (h.revert r e.id).1 = .ok found →
      ∀ {ε' : Type} [Renderer ε'] [FaithfulRenderer ε'] (other : ε'), kept other = kept renderer →
      ∀ found', (history.revert other e.id).1 = .ok found' →
        found = found' ∧ (h.revert r e.id).2.1 = (history.revert other e.id).2.1 ∧
          kept (h.revert r e.id).2.2 = kept (history.revert other e.id).2.2) ∧
    ∀ (d : AtlasDescription) (s : Viewer ε), Atlas.build d = .ok s.atlas →
      ∀ i id, (s.submit i).1 = .ok id → ∀ happenings : List (Happening ε),
      let t := (s.submit i).2.meetAll happenings
      ∀ e, (t.revert id).1 = .ok e →
        ∃ layer, s.atlas.layer? i.layer = some layer ∧ e.targets = layer.targetIds ∧
          (∀ target ∈ e.targets,
            held (t.revert id).2.renderer target = held s.renderer target) ∧
          ∀ target ∉ e.targets,
            kept (t.revert id).2.renderer target = kept t.renderer target := by
  refine ⟨?_, ?_, ?_⟩
  · intro history renderer e he
    refine ⟨history.revert_renderer (Journal.ofRenderer renderer) e.id, ?_⟩
    rcases history.revert_restores_or_stops renderer he rfl with ⟨hok, hafter, hrestored⟩ | hstopped
    · refine Or.inl ⟨hok, ?_, ?_, hrestored⟩
      · rw [hafter, history.entries_remove he]
      · rw [hafter]
        rfl
    · exact Or.inr hstopped
  · intro history h renderer r e he hrefused found hfound ε' _ _ other hkept found' hfound'
    obtain ⟨rfl, hafter, hlast⟩ := hrefused.reverted he (Prod.ext hfound rfl)
    have hnone : History.RefusedToRevert found.id history other history other := .start
    obtain ⟨rfl, hafter', hlast'⟩ := hnone.reverted he (Prod.ext hfound' rfl)
    exact ⟨rfl, hafter.trans hafter'.symm, by rw [hlast, hlast', hkept]⟩
  · intro d s hb i id hid happenings t e he
    obtain ⟨layer, hl, hts, hkept⟩ :=
      kept_of_reverted_later (Atlas.exclusive_of_build hb) hid happenings he
    refine ⟨layer, hl, hts, ?_, ?_⟩
    · intro target ht
      rw [held_eq, hkept, if_pos ht]
      rfl
    · intro target ht
      rw [hkept, if_neg ht]

/-- The labels refuse once to be put back. -/
def stubbornSample : Viewer (Fickle Slots) :=
  start .sample ⟨.ofAtlas .sample, fun n => if n = 3 then some ⟨["busy"]⟩ else none⟩ 0

def shallow : Submission := ⟨"wells", "depth", .lessThan, "5"⟩

def shallowWells : Entry where
  layer := "wells"
  targets := ["wells_points", "wells_labels"]
  predicate := Operator.lessThan.predicate "depth" "5"
  priors := [none, some (.comparison .equal (.raw "kind") (.text "label"))]
  caption := ⟨"Wells Filter:", "Depth < 5"⟩
  id := ⟨0⟩

def shallowViewer : Viewer (Fickle Slots) := (stubbornSample.submit shallow).2

/-- A reversion in vain, labels that somebody else clears, and a filter on another layer. -/
def meanwhile : List (Happening (Fickle Slots)) :=
  [.request (.revert shallowWells.id),
    .meddling fun f => ⟨f.renderer.add "wells_labels" none, f.mood⟩,
    .request (.submit ⟨"roads", "surface", .equals, "gravel"⟩)]

/-- The attempt after the one in vain does what it would have done in its place. -/
theorem shallow_wells_restored_at_second_attempt :
    (shallowViewer.revert shallowWells.id).1 = .error (.renderer "wells_labels" ⟨["busy"]⟩) ∧
    kept ((shallowViewer.revert shallowWells.id).2.revert shallowWells.id).2.renderer =
      kept (shallowViewer.history.revert shallowViewer.renderer.renderer shallowWells.id).2.2 ∧
    held ((shallowViewer.meetAll meanwhile).revert shallowWells.id).2.renderer "wells_labels" =
      held stubbornSample.renderer "wells_labels" := by
  obtain ⟨-, hretried, hrestored⟩ := @revert_restores_what_was_held (Fickle Slots) _ _
  have hid : (stubbornSample.submit shallow).1 = .ok shallowWells.id := by decide +kernel
  have hlisted : shallowWells ∈ shallowViewer.history.entries := by decide +kernel
  have hfirst : (shallowViewer.revert shallowWells.id).1 =
      .error (.renderer "wells_labels" ⟨["busy"]⟩) := by decide +kernel
  have hsecond : ((shallowViewer.revert shallowWells.id).2.revert shallowWells.id).1 =
      .ok shallowWells := by decide +kernel
  have honly : (shallowViewer.history.revert shallowViewer.renderer.renderer shallowWells.id).1 =
      .ok shallowWells := by decide +kernel
  have hlast : ((shallowViewer.meetAll meanwhile).revert shallowWells.id).1 = .ok shallowWells := by
    decide +kernel
  -- for any viewer, so that nothing is evaluated here
  have htwice : ∀ (s : Viewer (Fickle Slots)) (e : Entry) (failure : Failure),
      e ∈ s.history.entries → (s.revert e.id).1 = .error failure →
      ((s.revert e.id).2.revert e.id).1 = .ok e →
      (s.history.revert s.renderer.renderer e.id).1 = .ok e →
      kept ((s.revert e.id).2.revert e.id).2.renderer =
        kept (s.history.revert s.renderer.renderer e.id).2.2 := by
    intro s e failure he h1 h2 h3
    have hrevert := s.history_revert e.id
    rw [h1] at hrevert
    have hrefused := History.RefusedToRevert.start.again hrevert rfl
    exact (hretried _ _ _ _ e he hrefused e h2 s.renderer.renderer rfl e h3).2.2
  obtain ⟨layer, -, -, hheld, -⟩ := hrestored Atlas.sampleDescription stubbornSample
    Atlas.build_sample shallow shallowWells.id hid meanwhile shallowWells hlast
  refine ⟨hfirst, htwice _ shallowWells _ hlisted hfirst hsecond honly, ?_⟩
  unfold shallowViewer
  exact hheld "wells_labels" (by decide)

end Viewer

end FeatureSieve
