import FeatureSieve.Viewer
import FeatureSieve.Proofs.Atlas.Exclusive
import FeatureSieve.Proofs.History.Outcomes
import Mathlib.Data.List.Induction

/-! # Runs of a viewer

A run is any finite sequence of requests, each put to the viewer that the ones before
it left behind. Its turns keep the viewers in between.
-/

namespace FeatureSieve

inductive Request where
  | submit (i : Submission)
  | check (i : Submission)
  | revert (id : FilterId)
deriving DecidableEq

/-- A request with the viewer that it is put to. -/
structure Turn (ε : Type) where
  before : Viewer ε
  request : Request

namespace Viewer

variable {ε : Type}

/-- Nothing speaks against a submission exactly when its layer and field are known, the
operator suits the field and the text passes the check. -/
theorem judge_eq_ok_iff {s : Viewer ε} {i : Submission} {layer : Layer} {field : Field} :
    s.judge i = .ok (layer, field) ↔
      s.atlas.layer? i.layer = some layer ∧ layer.field? i.field = some field ∧
        i.operator ∈ field.kind.operators ∧ s.check i = .ok () := by
  unfold Viewer.judge
  cases hl : s.atlas.layer? i.layer with
  | none => simp
  | some found =>
    cases hf : found.field? i.field with
    | none =>
      simp only [hf, reduceCtorEq, Option.some.injEq, false_iff]
      rintro ⟨rfl, h, -⟩
      cases hf.symm.trans h
    | some column =>
      simp only [hf]
      constructor
      · intro h
        split at h
        · cases h
        · next ho =>
          cases hc : s.check i with
          | error rejection => simp [hc] at h
          | ok =>
            simp only [hc, Except.ok.injEq, Prod.mk.injEq] at h
            obtain ⟨rfl, rfl⟩ := h
            exact ⟨rfl, hf, not_not.mp ho, rfl⟩
      · rintro ⟨h, hf', ho, hc⟩
        cases h
        cases hf.symm.trans hf'
        simp only [if_neg (not_not.mpr ho), hc]

theorem name_of_judge {s : Viewer ε} {i : Submission} {layer : Layer} {field : Field}
    (h : s.judge i = .ok (layer, field)) : field.name = i.field := by
  obtain ⟨-, hf, -, -⟩ := judge_eq_ok_iff.mp h
  simpa using List.find?_some hf

variable [Renderer ε]

def after (s : Viewer ε) : Request → Viewer ε
  | .submit i => (s.submit i).2
  | .check _ => s
  | .revert id => (s.revert id).2

def run (s : Viewer ε) (requests : List Request) : Viewer ε := requests.foldl after s

def turns (s : Viewer ε) : List Request → List (Turn ε)
  | [] => []
  | q :: rest => ⟨s, q⟩ :: turns (s.after q) rest

end Viewer

namespace Turn

variable {ε : Type} [Renderer ε]

def after (x : Turn ε) : Viewer ε := x.before.after x.request

/-- The entry is what the turn's submission was recorded as. -/
def Records (x : Turn ε) (e : Entry) : Prop :=
  ∃ i layer field, x.request = .submit i ∧ x.before.judge i = .ok (layer, field) ∧
    (x.before.submit i).1 = .ok e.id ∧ e.toFilter = x.before.filter layer field i

end Turn

namespace Viewer

variable {ε : Type} [Renderer ε]

theorem run_concat (s : Viewer ε) (qs : List Request) (q : Request) :
    s.run (qs ++ [q]) = (s.run qs).after q := by
  simp [run, List.foldl_append]

theorem turns_append (s : Viewer ε) (qs rest : List Request) :
    s.turns (qs ++ rest) = s.turns qs ++ (s.run qs).turns rest := by
  induction qs generalizing s with
  | nil => rfl
  | cons q qs ih => simp only [List.cons_append, turns, ih]; rfl

theorem turns_concat (s : Viewer ε) (qs : List Request) (q : Request) :
    s.turns (qs ++ [q]) = s.turns qs ++ [⟨s.run qs, q⟩] := turns_append s qs [q]

theorem eq_of_turns_eq {s : Viewer ε} {qs : List Request} {earlier later : List (Turn ε)}
    {x : Turn ε} (h : s.turns qs = earlier ++ x :: later) :
    ∃ before after, qs = before ++ x.request :: after ∧ earlier = s.turns before ∧
      x.before = s.run before := by
  induction earlier generalizing s qs with
  | nil =>
    cases qs with
    | nil => cases h
    | cons q rest =>
      cases h
      exact ⟨[], rest, rfl, rfl, rfl⟩
  | cons y earlier ih =>
    cases qs with
    | nil => cases h
    | cons q rest =>
      obtain ⟨rfl, hrest⟩ := List.cons.inj h
      obtain ⟨before, after, rfl, rfl, hx⟩ := ih hrest
      exact ⟨q :: before, after, rfl, rfl, hx⟩

@[simp] theorem atlas_after (s : Viewer ε) (q : Request) : (s.after q).atlas = s.atlas := by
  cases q with
  | submit i =>
    simp only [after, submit]
    split <;> rfl
  | check i => rfl
  | revert id => rfl

@[simp] theorem atlas_run (s : Viewer ε) (qs : List Request) : (s.run qs).atlas = s.atlas := by
  induction qs using List.reverseRecOn with
  | nil => rfl
  | append_singleton qs q ih => rw [run_concat, atlas_after, ih]

theorem atlas_of_mem_turns {s : Viewer ε} {qs : List Request} {x : Turn ε} (hx : x ∈ s.turns qs) :
    x.before.atlas = s.atlas := by
  obtain ⟨earlier, later, hs⟩ := List.append_of_mem hx
  obtain ⟨before, after, -, -, hb⟩ := eq_of_turns_eq hs
  rw [hb, atlas_run]

/-- A submission is refused without a write, or it is recorded, or it is put back. -/
theorem submit_cases {s : Viewer ε} (h : s.atlas.Exclusive) (i : Submission) :
    (∃ failure, s.judge i = .error failure ∧ s.submit i = (.error failure, s)) ∨
    (∃ layer field after, s.judge i = .ok (layer, field) ∧
      Renderer.writeUntilRefused s.renderer (s.filter layer field i).pushes = (none, after) ∧
      s.submit i = (.ok ⟨s.history.nextNumber⟩,
        ⟨s.atlas, after, s.history.record (s.filter layer field i)⟩)) ∨
    ∃ layer field stop after, s.judge i = .ok (layer, field) ∧
      Renderer.writeUntilRefused s.renderer (s.filter layer field i).pushes = (some stop, after) ∧
      s.submit i = (.error (.renderer stop.target stop.refusal),
        ⟨s.atlas, Renderer.writeEach after ((s.filter layer field i).restores.take stop.accepted),
          s.history⟩) := by
  unfold Viewer.submit
  cases hj : s.judge i with
  | error failure => exact Or.inl ⟨failure, rfl, rfl⟩
  | ok found =>
    obtain ⟨layer, field⟩ := found
    right
    have hl := Atlas.mem_layers_of_layer? (judge_eq_ok_iff.mp hj).1
    have ht : (s.filter layer field i).targets ≠ [] := h.targetIds_ne_nil hl.1
    rcases s.history.apply_cases s.renderer ht (by simp [filter]) with
      ⟨after, hw, ha⟩ | ⟨stop, after, hw, ha⟩
    · exact Or.inl ⟨layer, field, after, rfl, hw, by simp only [ha]⟩
    · exact Or.inr ⟨layer, field, stop, after, rfl, hw, by simp only [ha]⟩

/-- A reversion finds no entry, or it removes one, or it is refused and keeps it. -/
theorem revert_cases (s : Viewer ε) (id : FilterId) :
    (s.revert id = (.error (.entryNotFound id), s) ∧ s.history.entry? id = none) ∨
    (∃ entry after, s.history.entry? id = some entry ∧
      Renderer.writeUntilRefused s.renderer entry.restores = (none, after) ∧
      s.revert id = (.ok entry, ⟨s.atlas, after, s.history.remove id⟩)) ∨
    ∃ entry stop after, s.history.entry? id = some entry ∧
      Renderer.writeUntilRefused s.renderer entry.restores = (some stop, after) ∧
      s.revert id = (.error (.renderer stop.target stop.refusal), ⟨s.atlas, after, s.history⟩) := by
  unfold Viewer.revert
  rcases s.history.revert_cases s.renderer id with
    ⟨hr, he⟩ | ⟨entry, after, he, hw, hr⟩ | ⟨entry, stop, after, he, hw, hr⟩
  · exact Or.inl ⟨by simp only [hr], he⟩
  · exact Or.inr (Or.inl ⟨entry, after, he, hw, by simp only [hr]⟩)
  · exact Or.inr (Or.inr ⟨entry, stop, after, he, hw, by simp only [hr]⟩)

/-- The entries stay, or an accepted submission adds one, or a reversion removes one. -/
theorem entries_after_cases {s : Viewer ε} (h : s.atlas.Exclusive) (q : Request) :
    (s.after q).history.entries = s.history.entries ∨
    (∃ i layer field, q = .submit i ∧ s.judge i = .ok (layer, field) ∧
      (s.submit i).1 = .ok ⟨s.history.nextNumber⟩ ∧
      (s.after q).history.entries =
        s.history.entries ++ [⟨s.filter layer field i, ⟨s.history.nextNumber⟩⟩]) ∨
    ∃ id, q = .revert id ∧
      (s.after q).history.entries = s.history.entries.filter (·.id ≠ id) := by
  cases q with
  | submit i =>
    rcases submit_cases h i with ⟨failure, -, hs⟩ | ⟨layer, field, after, hj, -, hs⟩ |
      ⟨layer, field, stop, after, -, -, hs⟩
    · exact Or.inl (by simp [Viewer.after, hs])
    · right
      left
      exact ⟨i, layer, field, rfl, hj, by rw [hs], by simp [Viewer.after, hs, History.record]⟩
    · exact Or.inl (by simp [Viewer.after, hs])
  | check i => exact Or.inl rfl
  | revert id =>
    rcases s.revert_cases id with ⟨hr, -⟩ | ⟨entry, after, -, -, hr⟩ |
      ⟨entry, stop, after, -, -, hr⟩
    · exact Or.inl (by simp [Viewer.after, hr])
    · exact Or.inr (Or.inr ⟨id, rfl, by simp [Viewer.after, hr, History.remove]⟩)
    · exact Or.inl (by simp [Viewer.after, hr])

theorem nextNumber_le_after {s : Viewer ε} (h : s.atlas.Exclusive) (q : Request) :
    s.history.nextNumber ≤ (s.after q).history.nextNumber := by
  cases q with
  | submit i =>
    rcases submit_cases h i with ⟨failure, -, hs⟩ | ⟨layer, field, after, -, -, hs⟩ |
      ⟨layer, field, stop, after, -, -, hs⟩
    · simp [Viewer.after, hs]
    · simp [Viewer.after, hs, History.record]
    · simp [Viewer.after, hs]
  | check i => exact Nat.le_refl _
  | revert id =>
    rcases s.revert_cases id with ⟨hr, -⟩ | ⟨e, after, -, -, hr⟩ | ⟨e, stop, after, -, -, hr⟩
    · simp [Viewer.after, hr]
    · simp [Viewer.after, hr, History.remove]
    · simp [Viewer.after, hr]

/-- An entry is active already, or the request records it. -/
theorem mem_entries_or_records {s : Viewer ε} (h : s.atlas.Exclusive) {q : Request} {e : Entry}
    (he : e ∈ (s.after q).history.entries) : e ∈ s.history.entries ∨ (Turn.mk s q).Records e := by
  rcases entries_after_cases h q with hs | ⟨i, layer, field, rfl, hj, hok, hs⟩ | ⟨id, -, hs⟩
  · exact Or.inl (hs ▸ he)
  · rw [hs] at he
    rcases List.mem_append.mp he with hm | hm
    · exact Or.inl hm
    · obtain rfl := List.mem_singleton.mp hm
      exact Or.inr ⟨i, layer, field, rfl, hj, hok, rfl⟩
  · rw [hs] at he
    exact Or.inl (List.mem_filter.mp he).1

/-- Every active entry was recorded in some turn of the run. -/
theorem exists_turn_records {atlas : Atlas} (h : atlas.Exclusive) (renderer : ε) (n : Nat)
    (qs : List Request) : ∀ e ∈ ((start atlas renderer n).run qs).history.entries,
      ∃ x ∈ (start atlas renderer n).turns qs, x.Records e := by
  induction qs using List.reverseRecOn with
  | nil => simp [run, start, History.empty]
  | append_singleton qs q ih =>
    rw [run_concat, turns_concat]
    intro e he
    have hat : ((start atlas renderer n).run qs).atlas.Exclusive := by rwa [atlas_run]
    rcases mem_entries_or_records hat he with hm | hr
    · obtain ⟨x, hx, hr⟩ := ih e hm
      exact ⟨x, List.mem_append_left _ hx, hr⟩
    · exact ⟨_, List.mem_append_right _ (List.mem_singleton.mpr rfl), hr⟩

end Viewer

end FeatureSieve
