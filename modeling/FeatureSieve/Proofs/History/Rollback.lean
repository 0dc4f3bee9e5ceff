import FeatureSieve.Proofs.History.Journal
import FeatureSieve.Proofs.Renderer.Faithful

/-! # Filters on all targets or on none

A filter that is applied is pushed to its targets in order. If one of them refuses it, those
before it are put back, each once and in order, whatever they refuse then. So with the right
priors, and if nothing refuses twice, a renderer keeps what it kept before, also where a
target is listed more than once.
-/

namespace FeatureSieve

open Renderer FaithfulRenderer

variable {ε : Type} [Renderer ε] [FaithfulRenderer ε]

namespace Filter

/-- All targets have the predicate, and nothing else was written. -/
structure Pushed (f : Filter) (renderer : ε) (journal : Journal ε) : Prop where
  attempts_eq : journal.attempts = f.targets.map fun t => ⟨⟨t, some f.predicate⟩, true⟩
  kept_eq : ∀ t, kept journal.renderer t =
    if t ∈ f.targets then some (some f.predicate) else kept renderer t

/-- The target at `k` was the first to refuse the predicate, and those before it were to be put
back to their priors. -/
structure TakenBack (f : Filter) (renderer : ε) (k : Nat) (target : String) (refusal : Refusal)
    (undone : List Attempt) (journal : Journal ε) : Prop where
  target_eq : f.targets[k]? = some target
  refusal_eq : (write (writeEach renderer (f.pushes.take k)) ⟨target, some f.predicate⟩).1 =
    .error refusal
  attempts_eq : journal.attempts =
    (f.targets.take k).map (fun t => ⟨⟨t, some f.predicate⟩, true⟩) ++
      ⟨⟨target, some f.predicate⟩, false⟩ :: undone
  undone_eq : undone.map Attempt.write =
    ((f.targets.zip f.priors).take k).map fun p => ⟨p.1, p.2⟩
  kept_of_not_mem : ∀ t, t ∉ f.targets.take k → kept journal.renderer t = kept renderer t
  kept_of_undone : f.priors = f.targets.map (held renderer) → (∀ a ∈ undone, a.accepted = true) →
    kept journal.renderer = kept renderer

variable {f : Filter}

theorem target_mem_of_restores_take {k : Nat} {w : Write} (hw : w ∈ f.restores.take k) :
    w.target ∈ f.targets.take k := by
  rw [restores, List.take_zipWith] at hw
  exact target_mem_of_restores
    (f := { f with targets := f.targets.take k, priors := f.priors.take k }) hw

theorem pushes_take (k : Nat) :
    f.pushes.take k = (f.targets.take k).map fun t => ⟨t, some f.predicate⟩ :=
  List.map_take.symm

theorem pushed_of_not_interrupted {renderer : ε} {journal : Journal ε}
    (h : writeUntilRefused (Journal.ofRenderer renderer) f.pushes = (none, journal)) :
    f.Pushed renderer journal := by
  have hr : writeUntilRefused renderer f.pushes = (none, journal.renderer) :=
    writeUntilRefused_of_journal h
  constructor
  · rw [attempts_of_not_interrupted h, pushes, List.map_map]
    rfl
  · intro t
    rw [kept_of_not_interrupted hr]
    exact Kept.settle_map _ _ _ t

theorem takenBack_of_interrupted {renderer : ε} {journal : Journal ε} {stop : Interruption}
    (h : writeUntilRefused (Journal.ofRenderer renderer) f.pushes = (some stop, journal)) :
    ∃ undone, f.TakenBack renderer stop.accepted stop.target stop.refusal undone
      (writeEach journal (f.restores.take stop.accepted)) := by
  have hr : writeUntilRefused renderer f.pushes = (some stop, journal.renderer) :=
    writeUntilRefused_of_journal h
  have hkept := kept_of_interrupted hr
  obtain ⟨w, hw, hstop, ha⟩ := attempts_of_interrupted h
  obtain ⟨undone, hu, hb⟩ := attempts_writeEach journal (f.restores.take stop.accepted)
  obtain ⟨target, ht, rfl⟩ : ∃ target, f.targets[stop.accepted]? = some target ∧
      ⟨target, some f.predicate⟩ = w := by
    simpa [pushes] using hw
  refine ⟨undone, ?_⟩
  constructor
  · rw [hstop]
    exact ht
  · rw [hstop]
    exact congrArg Prod.fst (write_of_interrupted hr hw)
  · rw [hb, ha, hstop, pushes_take, List.map_map, List.append_assoc]
    rfl
  · rw [hu, restores_eq_zip, List.map_take]
  · intro t hn
    have hrest : ∀ v ∈ f.restores.take stop.accepted, v.target ≠ t :=
      fun v hv he => hn (he ▸ target_mem_of_restores_take hv)
    rw [writeEach_renderer, kept_writeEach_of_forall_ne hrest, hkept, pushes_take, Kept.settle_map,
      if_neg hn]
  · intro hp haccepted
    have hknown := known_of_interrupted hr
    rw [kept_writeEach_of_accepted hb haccepted, hkept, pushes_take, restores_eq_map hp,
      ← List.map_take]
    apply settle_held
    intro t hm
    exact hknown ⟨t, some f.predicate⟩ (pushes_take _ ▸ List.mem_map_of_mem hm)

end Filter

/-- A filter goes to all of its targets or, as far as nothing refuses twice, to none. -/
theorem History.apply_pushes_all_or_none (history : History) (renderer : ε) (f : Filter)
    {result : Except Failure FilterId} {after : History} {journal : Journal ε}
    (h : history.apply (Journal.ofRenderer renderer) f = (result, after, journal)) :
    history.apply renderer f = (result, after, journal.renderer) ∧
    (f.targets = [] →
      result = .error .noTargets ∧ after = history ∧ journal = Journal.ofRenderer renderer) ∧
    (f.targets ≠ [] → f.targets.length ≠ f.priors.length →
      result = .error (.mismatchedPriors f.targets.length f.priors.length) ∧ after = history ∧
        journal = Journal.ofRenderer renderer) ∧
    (f.targets ≠ [] → f.targets.length = f.priors.length →
      (∃ id, result = .ok id ∧ after.entries = history.entries ++ [⟨f, id⟩] ∧
        f.Pushed renderer journal) ∨
      ∃ k target refusal undone, result = .error (.renderer target refusal) ∧ after = history ∧
        f.TakenBack renderer k target refusal undone journal) := by
  have hbare := history.apply_renderer (Journal.ofRenderer renderer) f
  rw [h] at hbare
  refine ⟨hbare, ?_, ?_, ?_⟩
  · intro ht
    cases (apply_of_no_targets ht history _).symm.trans h
    exact ⟨rfl, rfl, rfl⟩
  · intro ht hp
    cases (apply_of_mismatch ht hp history _).symm.trans h
    exact ⟨rfl, rfl, rfl⟩
  · intro ht hp
    rcases history.apply_cases (Journal.ofRenderer renderer) ht hp with
      ⟨pushed, hw, ha⟩ | ⟨stop, stopped, hw, ha⟩
    · cases ha.symm.trans h
      exact Or.inl ⟨_, rfl, rfl, Filter.pushed_of_not_interrupted hw⟩
    · cases ha.symm.trans h
      obtain ⟨undone, hback⟩ := Filter.takenBack_of_interrupted hw
      exact Or.inr ⟨_, _, _, undone, rfl, rfl, hback⟩

/-- Points that are listed twice before the labels. -/
def twicePoints : Filter :=
  ⟨"wells", ["points", "points", "labels"], .nothing, [none, none, none], ⟨"Wells Filter:", ""⟩⟩

/-- Only the third write is refused. -/
def refusesThird : Fickle Slots :=
  ⟨(Slots.empty.add "points" none).add "labels" none,
    fun n => if n = 2 then some ⟨["busy"]⟩ else none⟩

/-- The labels refuse the predicate that the points took twice, and twice give back. -/
theorem twice_listed_points_put_back :
    let applied := (History.empty 0).apply (Journal.ofRenderer refusesThird) twicePoints
    applied.1 = .error (.renderer "labels" ⟨["busy"]⟩) ∧ applied.2.1 = .empty 0 ∧
      applied.2.2.attempts.length = 5 ∧ kept applied.2.2.renderer = kept refusesThird := by
  intro applied
  have herror : applied.1 = .error (.renderer "labels" ⟨["busy"]⟩) := by decide +kernel
  have hlength : applied.2.2.attempts.length = 5 := by decide +kernel
  obtain ⟨-, -, -, h⟩ := History.apply_pushes_all_or_none (.empty 0) refusesThird twicePoints
    (rfl : _ = (applied.1, applied.2.1, applied.2.2))
  rcases h (by decide) rfl with ⟨id, hok, -⟩ | ⟨k, target, refusal, undone, -, hsame, hback⟩
  · cases herror.symm.trans hok
  · refine ⟨herror, hsame, hlength, hback.kept_of_undone (by decide) ?_⟩
    have hrefused : applied.2.2.attempts.countP (·.accepted = false) = 1 := by decide +kernel
    have hundone : undone.countP (·.accepted = false) = 0 := by
      rw [hback.attempts_eq, List.countP_append, List.countP_cons] at hrefused
      simp only [decide_true, if_true] at hrefused
      omega
    simpa using List.countP_eq_zero.mp hundone

end FeatureSieve
