import FeatureSieve.Proofs.History.Rollback

/-! # Reversions, also of those that were refused

Reverting an entry puts its targets back to their priors in order, up to the first refusal.
What a refused reversion has put back is put back anew by the next one, so it does not matter
how often a reversion was refused before it was not.
-/

namespace FeatureSieve

open Renderer FaithfulRenderer

variable {ε : Type} [Renderer ε] [FaithfulRenderer ε]

namespace Filter

/-- All targets were put back to their priors, and nothing else was written. -/
structure Restored (f : Filter) (renderer : ε) (journal : Journal ε) : Prop where
  attempts_eq : journal.attempts = (f.targets.zip f.priors).map fun p => ⟨⟨p.1, p.2⟩, true⟩
  kept_eq : kept journal.renderer =
    (kept renderer).settle ((f.targets.zip f.priors).map fun p => ⟨p.1, p.2⟩)

/-- The target at `k` was the first to refuse its prior, and only those before it were put
back. -/
structure PartlyRestored (f : Filter) (renderer : ε) (k : Nat) (target : String)
    (prior : Option Predicate) (refusal : Refusal) (journal : Journal ε) : Prop where
  target_eq : f.targets[k]? = some target
  prior_eq : f.priors[k]? = some prior
  refusal_eq : (write (writeEach renderer (f.restores.take k)) ⟨target, prior⟩).1 = .error refusal
  attempts_eq : journal.attempts =
    ((f.targets.zip f.priors).take k).map (fun p => ⟨⟨p.1, p.2⟩, true⟩) ++
      [⟨⟨target, prior⟩, false⟩]
  kept_eq : kept journal.renderer =
    (kept renderer).settle (((f.targets.zip f.priors).take k).map fun p => ⟨p.1, p.2⟩)

variable {f : Filter}

theorem restored_of_not_interrupted {renderer : ε} {journal : Journal ε}
    (h : writeUntilRefused (Journal.ofRenderer renderer) f.restores = (none, journal)) :
    f.Restored renderer journal := by
  constructor
  · rw [attempts_of_not_interrupted h, restores_eq_zip, List.map_map]
    rfl
  · rw [kept_of_not_interrupted (writeUntilRefused_of_journal h), restores_eq_zip]
    rfl

theorem partlyRestored_of_interrupted {renderer : ε} {journal : Journal ε} {stop : Interruption}
    (h : writeUntilRefused (Journal.ofRenderer renderer) f.restores = (some stop, journal)) :
    ∃ prior, f.PartlyRestored renderer stop.accepted stop.target prior stop.refusal journal := by
  have hr : writeUntilRefused renderer f.restores = (some stop, journal.renderer) :=
    writeUntilRefused_of_journal h
  obtain ⟨w, hw, hstop, ha⟩ := attempts_of_interrupted h
  obtain ⟨target, prior, ht, hp, rfl⟩ : ∃ target prior, f.targets[stop.accepted]? = some target ∧
      f.priors[stop.accepted]? = some prior ∧ ⟨target, prior⟩ = w := by
    simpa [restores, List.getElem?_zipWith_eq_some] using hw
  refine ⟨prior, ?_⟩
  constructor
  · rw [hstop]
    exact ht
  · exact hp
  · rw [hstop]
    exact congrArg Prod.fst (write_of_interrupted hr hw)
  · rw [ha, hstop, restores_eq_zip, ← List.map_take, List.map_map]
    rfl
  · rw [kept_of_interrupted hr, restores_eq_zip, ← List.map_take]

end Filter

namespace History

theorem entries_remove (history : History) {e : Entry} (he : e ∈ history.entries) :
    (history.remove e.id).entries = history.entries.erase e := by
  have hnodup : history.entries.Nodup := history.ids_nodup.of_map
  rw [hnodup.erase_eq_filter]
  apply List.filter_congr
  intro e' he'
  have hid : e'.id = e.id ↔ e' = e := ⟨history.eq_of_id_eq he' he, congrArg Entry.id⟩
  rw [Bool.eq_iff_iff]
  simp [hid]

/-- An active entry is put back as a whole and removed, or it stays. -/
theorem revert_restores_or_stops (history : History) (renderer : ε) {e : Entry}
    (he : e ∈ history.entries) {result : Except Failure Entry} {after : History}
    {journal : Journal ε}
    (h : history.revert (Journal.ofRenderer renderer) e.id = (result, after, journal)) :
    (result = .ok e ∧ after = history.remove e.id ∧ e.Restored renderer journal) ∨
    ∃ k target prior refusal, result = .error (.renderer target refusal) ∧ after = history ∧
      e.PartlyRestored renderer k target prior refusal journal := by
  have hentry : history.entry? e.id = some e := entry?_eq_some_iff.mpr ⟨he, rfl⟩
  rcases history.revert_cases (Journal.ofRenderer renderer) e.id with
    ⟨-, hnone⟩ | ⟨e', restored, hsome, hw, hr⟩ | ⟨e', stop, stopped, hsome, hw, hr⟩
  · cases hentry.symm.trans hnone
  · cases hentry.symm.trans hsome
    cases hr.symm.trans h
    exact Or.inl ⟨rfl, rfl, Filter.restored_of_not_interrupted hw⟩
  · cases hentry.symm.trans hsome
    cases hr.symm.trans h
    obtain ⟨prior, hpart⟩ := Filter.partlyRestored_of_interrupted hw
    exact Or.inr ⟨_, _, prior, _, rfl, rfl, hpart⟩

theorem kept_of_reverted {history after : History} {renderer restored : ε} {id : FilterId}
    {e : Entry} (h : history.revert renderer id = (.ok e, after, restored)) :
    e ∈ history.entries ∧ e.id = id ∧ after = history.remove id ∧
      kept restored = (kept renderer).settle e.restores := by
  rcases history.revert_cases renderer id with
    ⟨hr, -⟩ | ⟨e', restored', hsome, hw, hr⟩ | ⟨e', stop, stopped, -, -, hr⟩
  · cases hr.symm.trans h
  · cases hr.symm.trans h
    obtain ⟨hm, hid⟩ := mem_of_entry_eq_some hsome
    exact ⟨hm, hid, rfl, kept_of_not_interrupted hw⟩
  · cases hr.symm.trans h

/-- Reversions of an entry that were refused one after the other. The renderer may refuse
other writes each time, but is written by nothing else. -/
inductive RefusedToRevert (id : FilterId) (history : History) (renderer : ε) :
    History → ε → Prop
  | start : RefusedToRevert id history renderer history renderer
  | again {h h' : History} {r r' next : ε} {failure : Failure} :
      RefusedToRevert id history renderer h r → h.revert r id = (.error failure, h', r') →
      kept next = kept r' → RefusedToRevert id history renderer h' next

variable {history : History} {renderer : ε}

/-- Refused reversions leave the history alone, and nothing that the next one would not put
back in any case. -/
theorem RefusedToRevert.settle_eq {h : History} {r : ε} {e : Entry} (he : e ∈ history.entries)
    (hrefused : RefusedToRevert e.id history renderer h r) :
    h = history ∧ (kept r).settle e.restores = (kept renderer).settle e.restores := by
  induction hrefused with
  | start => exact ⟨rfl, rfl⟩
  | @again h h' r r' next failure _ hr hnext ih =>
    obtain ⟨rfl, hsettle⟩ := ih
    have hentry : h.entry? e.id = some e := entry?_eq_some_iff.mpr ⟨he, rfl⟩
    rw [hnext, ← hsettle]
    rcases h.revert_cases r e.id with
      ⟨hr', hnone⟩ | ⟨e', restored, -, -, hr'⟩ | ⟨e', stop, stopped, hsome, hw, hr'⟩
    · cases hentry.symm.trans hnone
    · cases hr'.symm.trans hr
    · cases hentry.symm.trans hsome
      cases hr'.symm.trans hr
      rw [kept_of_interrupted hw, Kept.settle_settle_take]
      exact ⟨rfl, rfl⟩

/-- Refused reversions make no difference to the one that succeeds after them. -/
theorem RefusedToRevert.reverted {h after : History} {r restored : ε} {e found : Entry}
    (he : e ∈ history.entries) (hrefused : RefusedToRevert e.id history renderer h r)
    (hr : h.revert r e.id = (.ok found, after, restored)) :
    found = e ∧ after = history.remove e.id ∧
      kept restored = (kept renderer).settle e.restores := by
  obtain ⟨rfl, hsettle⟩ := hrefused.settle_eq he
  obtain ⟨hm, hid, rfl, hkept⟩ := kept_of_reverted hr
  obtain rfl := h.eq_of_id_eq hm he hid
  exact ⟨rfl, rfl, hkept.trans hsettle⟩

end History

end FeatureSieve
