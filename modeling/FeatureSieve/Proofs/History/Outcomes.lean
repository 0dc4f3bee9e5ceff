import FeatureSieve.History.Basic
import FeatureSieve.Proofs.Keyed

/-! # What applying and reverting come to

A filter with a prior for each of its targets is either recorded or put back, and an
entry is either removed or kept; nothing else can happen.
-/

namespace FeatureSieve

theorem Filter.restores_eq_map {f : Filter} {value : String → Option Predicate}
    (h : f.priors = f.targets.map value) : f.restores = f.targets.map fun t => ⟨t, value t⟩ := by
  simp [Filter.restores, h, List.zipWith_map_right]

theorem Filter.restores_eq_zip {f : Filter} :
    f.restores = (f.targets.zip f.priors).map fun p => ⟨p.1, p.2⟩ :=
  List.map_uncurry_zip_eq_zipWith.symm

theorem Filter.target_mem_of_pushes {f : Filter} {w : Write} (hw : w ∈ f.pushes) :
    w.target ∈ f.targets := by
  obtain ⟨target, ht, rfl⟩ := List.mem_map.mp hw
  exact ht

theorem Filter.target_mem_of_restores {f : Filter} {w : Write} (hw : w ∈ f.restores) :
    w.target ∈ f.targets := by
  rw [restores_eq_zip] at hw
  obtain ⟨⟨target, value⟩, hz, rfl⟩ := List.mem_map.mp hw
  exact (List.of_mem_zip hz).1

namespace History

open Renderer

theorem mem_of_entry_eq_some {history : History} {id : FilterId} {entry : Entry}
    (h : history.entry? id = some entry) : entry ∈ history.entries ∧ entry.id = id :=
  ⟨List.mem_of_find?_eq_some h, by simpa using List.find?_some h⟩

theorem ids_nodup (history : History) : (history.entries.map Entry.id).Nodup := by
  apply List.pairwise_map.mpr
  apply history.numbers_increase.imp
  intro a b hlt he
  exact Nat.ne_of_lt hlt (congrArg FilterId.number he)

theorem eq_of_id_eq (history : History) {a b : Entry} (ha : a ∈ history.entries)
    (hb : b ∈ history.entries) (h : a.id = b.id) : a = b :=
  List.inj_on_of_nodup_map history.ids_nodup ha hb h

theorem entry?_eq_some_iff {history : History} {id : FilterId} {entry : Entry} :
    history.entry? id = some entry ↔ entry ∈ history.entries ∧ entry.id = id :=
  find?_eq_some_iff_of_nodup history.ids_nodup

variable {ε : Type} [Renderer ε]

theorem apply_of_no_targets {f : Filter} (ht : f.targets = []) (history : History) (renderer : ε) :
    history.apply renderer f = (.error .noTargets, history, renderer) := if_pos ht

theorem apply_of_mismatch {f : Filter} (ht : f.targets ≠ []) (hp : f.targets.length ≠ f.priors.length)
    (history : History) (renderer : ε) :
    history.apply renderer f =
      (.error (.mismatchedPriors f.targets.length f.priors.length), history, renderer) :=
  (if_neg ht).trans (if_pos hp)

theorem apply_of_not_interrupted {history : History} {renderer after : ε} {f : Filter}
    (ht : f.targets ≠ []) (hp : f.targets.length = f.priors.length)
    (h : writeUntilRefused renderer f.pushes = (none, after)) :
    history.apply renderer f = (.ok ⟨history.nextNumber⟩, history.record f, after) := by
  unfold History.apply
  rw [if_neg ht, if_neg (not_not.mpr hp), h]

theorem apply_of_interrupted {history : History} {renderer after : ε} {f : Filter}
    {stop : Interruption} (ht : f.targets ≠ []) (hp : f.targets.length = f.priors.length)
    (h : writeUntilRefused renderer f.pushes = (some stop, after)) :
    history.apply renderer f = (.error (.renderer stop.target stop.refusal), history,
      writeEach after (f.restores.take stop.accepted)) := by
  unfold History.apply
  rw [if_neg ht, if_neg (not_not.mpr hp), h]

theorem apply_cases (history : History) (renderer : ε) {f : Filter} (ht : f.targets ≠ [])
    (hp : f.targets.length = f.priors.length) :
    (∃ after, writeUntilRefused renderer f.pushes = (none, after) ∧
      history.apply renderer f = (.ok ⟨history.nextNumber⟩, history.record f, after)) ∨
    ∃ stop after, writeUntilRefused renderer f.pushes = (some stop, after) ∧
      history.apply renderer f = (.error (.renderer stop.target stop.refusal), history,
        writeEach after (f.restores.take stop.accepted)) := by
  cases hw : writeUntilRefused renderer f.pushes with
  | mk interruption after =>
    cases interruption with
    | none => exact Or.inl ⟨after, rfl, apply_of_not_interrupted ht hp hw⟩
    | some stop => exact Or.inr ⟨stop, after, rfl, apply_of_interrupted ht hp hw⟩

theorem apply_ok_or_error (history : History) (renderer : ε) (f : Filter) :
    (∃ after, history.apply renderer f = (.ok ⟨history.nextNumber⟩, history.record f, after)) ∨
    ∃ failure after, history.apply renderer f = (.error failure, history, after) := by
  by_cases ht : f.targets = []
  · exact Or.inr ⟨_, _, apply_of_no_targets ht history renderer⟩
  · by_cases hp : f.targets.length = f.priors.length
    · rcases history.apply_cases renderer ht hp with ⟨after, -, ha⟩ | ⟨stop, after, -, ha⟩
      · exact Or.inl ⟨after, ha⟩
      · exact Or.inr ⟨_, _, ha⟩
    · exact Or.inr ⟨_, _, apply_of_mismatch ht hp history renderer⟩

/-- An id without an entry is answered without a write. -/
theorem revert_of_entry?_eq_none {history : History} {id : FilterId}
    (h : history.entry? id = none) (renderer : ε) :
    history.revert renderer id = (.error (.entryNotFound id), history, renderer) := by
  unfold History.revert
  rw [h]

theorem revert_of_not_interrupted {history : History} {renderer after : ε} {id : FilterId}
    {entry : Entry} (he : history.entry? id = some entry)
    (h : writeUntilRefused renderer entry.restores = (none, after)) :
    history.revert renderer id = (.ok entry, history.remove id, after) := by
  unfold History.revert
  simp only [he, h]

theorem revert_of_interrupted {history : History} {renderer after : ε} {id : FilterId}
    {entry : Entry} {stop : Interruption} (he : history.entry? id = some entry)
    (h : writeUntilRefused renderer entry.restores = (some stop, after)) :
    history.revert renderer id =
      (.error (.renderer stop.target stop.refusal), history, after) := by
  unfold History.revert
  simp only [he, h]

theorem revert_cases (history : History) (renderer : ε) (id : FilterId) :
    (history.revert renderer id = (.error (.entryNotFound id), history, renderer) ∧
      history.entry? id = none) ∨
    (∃ entry after, history.entry? id = some entry ∧
      writeUntilRefused renderer entry.restores = (none, after) ∧
      history.revert renderer id = (.ok entry, history.remove id, after)) ∨
    ∃ entry stop after, history.entry? id = some entry ∧
      writeUntilRefused renderer entry.restores = (some stop, after) ∧
      history.revert renderer id =
        (.error (.renderer stop.target stop.refusal), history, after) := by
  cases he : history.entry? id with
  | none => exact Or.inl ⟨revert_of_entry?_eq_none he renderer, rfl⟩
  | some entry =>
    right
    cases hw : writeUntilRefused renderer entry.restores with
    | mk interruption after =>
      cases interruption with
      | none => exact Or.inl ⟨entry, after, rfl, hw, revert_of_not_interrupted he hw⟩
      | some stop => exact Or.inr ⟨entry, stop, after, rfl, hw, revert_of_interrupted he hw⟩

theorem revert_ok_or_error (history : History) (renderer : ε) (id : FilterId) :
    (∃ entry after, history.revert renderer id = (.ok entry, history.remove id, after)) ∨
    ∃ failure after, history.revert renderer id = (.error failure, history, after) := by
  rcases history.revert_cases renderer id with ⟨hr, -⟩ | ⟨entry, after, -, -, hr⟩ |
    ⟨entry, stop, after, -, -, hr⟩
  · exact Or.inr ⟨_, _, hr⟩
  · exact Or.inl ⟨entry, after, hr⟩
  · exact Or.inr ⟨_, _, hr⟩

end History

end FeatureSieve
