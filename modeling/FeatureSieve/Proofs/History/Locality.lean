import FeatureSieve.Proofs.History.Outcomes
import FeatureSieve.Proofs.Renderer.Slots

/-! # Slots and the targets of a write

A write to slots reads and changes the slot of its own target only. So what comes of applying
or reverting a filter depends on the slots of the filter's targets alone, and the other slots
stay as they are.
-/

namespace FeatureSieve

open Renderer

namespace Slots

/-- The slots of the targets are the same, known or not. -/
def AgreeOn (targets : List String) (a b : Slots) : Prop :=
  ∀ target ∈ targets, a.table.get? target = b.table.get? target

variable {targets : List String} {a b c : Slots}

theorem AgreeOn.trans (h : AgreeOn targets a b) (h' : AgreeOn targets b c) : AgreeOn targets a c :=
  fun target ht => (h target ht).trans (h' target ht)

theorem AgreeOn.held_eq (h : AgreeOn targets a b) {target : String} (ht : target ∈ targets) :
    held a target = held b target := congrArg Option.join (h target ht)

theorem get?_write (slots : Slots) (w : Write) (target : String) :
    (Renderer.write slots w).2.table.get? target =
      if w.target = target ∧ slots.knows w.target = true then some w.value
      else slots.table.get? target := by
  change (Slots.write slots w).2.table.get? target = _
  unfold Slots.write
  by_cases hk : slots.knows w.target = true
  · rw [if_pos hk]
    simp only [hk, and_true]
    exact Keyed.get?_put _ _ _ _
  · rw [if_neg hk, if_neg fun h => hk h.2]

theorem AgreeOn.write (h : AgreeOn targets a b) {w : Write} (hw : w.target ∈ targets) :
    (Renderer.write a w).1 = (Renderer.write b w).1 ∧
      AgreeOn targets (Renderer.write a w).2 (Renderer.write b w).2 := by
  have hk : a.knows w.target = b.knows w.target := congrArg Option.isSome (h w.target hw)
  constructor
  · change (Slots.write a w).1 = (Slots.write b w).1
    unfold Slots.write
    rw [hk]
    split <;> rfl
  · intro target ht
    rw [get?_write, get?_write, hk, h target ht]

/-- The same writes are accepted, as far as a target outside does not count. -/
theorem AgreeOn.writeUntilRefused (h : AgreeOn targets a b) {ws : List Write}
    (hws : ∀ w ∈ ws, w.target ∈ targets) {stop : Option Interruption} {a' : Slots}
    (ha : writeUntilRefused a ws = (stop, a')) :
    ∃ b', writeUntilRefused b ws = (stop, b') ∧ AgreeOn targets a' b' := by
  induction ws generalizing a b stop with
  | nil =>
    cases ha
    exact ⟨b, rfl, h⟩
  | cons w rest ih =>
    obtain ⟨hresult, hnext⟩ := h.write (hws w List.mem_cons_self)
    have hrest : ∀ v ∈ rest, v.target ∈ targets := fun v hv => hws v (List.mem_cons_of_mem _ hv)
    cases stop with
    | none =>
      obtain ⟨hw, hgo⟩ := writeUntilRefused_cons_eq_none_iff.mp ha
      obtain ⟨b', hb, hab⟩ := ih hnext hrest hgo
      exact ⟨b', writeUntilRefused_cons_eq_none_iff.mpr ⟨hresult.symm.trans hw, hb⟩, hab⟩
    | some stop =>
      rcases writeUntilRefused_cons_eq_some_iff.mp ha with
        ⟨refusal, hw, rfl⟩ | ⟨earlier, hw, rfl, hgo⟩
      · rw [hw] at hresult hnext
        have hb : Renderer.write b w = (.error refusal, (Renderer.write b w).2) :=
          Prod.ext hresult.symm rfl
        exact ⟨_, writeUntilRefused_cons_eq_some_iff.mpr (Or.inl ⟨refusal, hb, rfl⟩), hnext⟩
      · obtain ⟨b', hb, hab⟩ := ih hnext hrest hgo
        refine ⟨b', writeUntilRefused_cons_eq_some_iff.mpr (Or.inr ?_), hab⟩
        exact ⟨earlier, hresult.symm.trans hw, rfl, hb⟩

theorem AgreeOn.writeEach (h : AgreeOn targets a b) {ws : List Write}
    (hws : ∀ w ∈ ws, w.target ∈ targets) :
    AgreeOn targets (writeEach a ws) (writeEach b ws) := by
  induction ws generalizing a b with
  | nil => exact h
  | cons w rest ih =>
    have hnext := (h.write (hws w List.mem_cons_self)).2
    exact ih hnext fun v hv => hws v (List.mem_cons_of_mem _ hv)

variable (slots : Slots) {target : String}

theorem get?_write_of_ne {w : Write} (h : w.target ≠ target) :
    (Renderer.write slots w).2.table.get? target = slots.table.get? target := by
  rw [get?_write]
  exact if_neg fun hw => h hw.1

theorem get?_writeUntilRefused_of_ne {ws : List Write} (h : ∀ w ∈ ws, w.target ≠ target)
    {stop : Option Interruption} {after : Slots} (hw : writeUntilRefused slots ws = (stop, after)) :
    after.table.get? target = slots.table.get? target := by
  refine writeUntilRefused_preserves
    (P := fun s : Slots => s.table.get? target = slots.table.get? target) ?_ hw rfl
  exact fun w hm s hs => (get?_write_of_ne s (h w hm)).trans hs

theorem get?_writeEach_of_ne {ws : List Write} (h : ∀ w ∈ ws, w.target ≠ target) :
    (writeEach slots ws).table.get? target = slots.table.get? target := by
  refine writeEach_preserves
    (P := fun s : Slots => s.table.get? target = slots.table.get? target) ?_ rfl
  exact fun w hm s hs => (get?_write_of_ne s (h w hm)).trans hs

end Slots

namespace History

variable {a b : Slots}

/-- Two histories that apply the same filter fare alike, if the filter's targets do. -/
theorem apply_agreeOn (history other : History) {f : Filter} (h : Slots.AgreeOn f.targets a b) :
    ∃ a' b', Slots.AgreeOn f.targets a' b' ∧
      ((history.apply a f = (.ok ⟨history.nextNumber⟩, history.record f, a') ∧
          other.apply b f = (.ok ⟨other.nextNumber⟩, other.record f, b')) ∨
        ∃ failure, (∀ id, failure ≠ .entryNotFound id) ∧
          history.apply a f = (.error failure, history, a') ∧
          other.apply b f = (.error failure, other, b')) := by
  by_cases ht : f.targets = []
  · refine ⟨a, b, h, Or.inr ⟨.noTargets, by simp, ?_⟩⟩
    exact ⟨apply_of_no_targets ht history a, apply_of_no_targets ht other b⟩
  · by_cases hp : f.targets.length = f.priors.length
    · have hpush : ∀ w ∈ f.pushes, w.target ∈ f.targets := fun w => Filter.target_mem_of_pushes
      rcases history.apply_cases a ht hp with ⟨a', hwa, hra⟩ | ⟨stop, a', hwa, hra⟩
      · obtain ⟨b', hwb, hab⟩ := h.writeUntilRefused hpush hwa
        exact ⟨a', b', hab, Or.inl ⟨hra, apply_of_not_interrupted ht hp hwb⟩⟩
      · obtain ⟨b', hwb, hab⟩ := h.writeUntilRefused hpush hwa
        have hundo : ∀ w ∈ f.restores.take stop.accepted, w.target ∈ f.targets :=
          fun w hw => Filter.target_mem_of_restores (List.mem_of_mem_take hw)
        refine ⟨_, _, hab.writeEach hundo, Or.inr ⟨.renderer stop.target stop.refusal, by simp, ?_⟩⟩
        exact ⟨hra, apply_of_interrupted ht hp hwb⟩
    · refine ⟨a, b, h, Or.inr ⟨.mismatchedPriors f.targets.length f.priors.length, by simp, ?_⟩⟩
      exact ⟨apply_of_mismatch ht hp history a, apply_of_mismatch ht hp other b⟩

/-- Two entries of the same filter fare alike when they are reverted, if its targets do. -/
theorem revert_agreeOn {history other : History} {id otherId : FilterId} {e e' : Entry}
    (he : history.entry? id = some e) (he' : other.entry? otherId = some e')
    (hf : e'.toFilter = e.toFilter) (h : Slots.AgreeOn e.targets a b) :
    ∃ a' b', Slots.AgreeOn e.targets a' b' ∧
      ((history.revert a id = (.ok e, history.remove id, a') ∧
          other.revert b otherId = (.ok e', other.remove otherId, b')) ∨
        ∃ failure, (∀ id, failure ≠ .entryNotFound id) ∧
          history.revert a id = (.error failure, history, a') ∧
          other.revert b otherId = (.error failure, other, b')) := by
  have hundo : ∀ w ∈ e.restores, w.target ∈ e.targets := fun w => Filter.target_mem_of_restores
  cases hwa : writeUntilRefused a e.restores with
  | mk interruption a' =>
    obtain ⟨b', hwb, hab⟩ := h.writeUntilRefused hundo hwa
    rw [← hf] at hwb
    refine ⟨a', b', hab, ?_⟩
    cases interruption with
    | none =>
      left
      exact ⟨revert_of_not_interrupted he hwa, revert_of_not_interrupted he' hwb⟩
    | some stop =>
      right
      refine ⟨.renderer stop.target stop.refusal, by simp, ?_⟩
      exact ⟨revert_of_interrupted he hwa, revert_of_interrupted he' hwb⟩

variable {slots : Slots} {target : String}

theorem get?_apply_of_not_mem (history : History) {f : Filter} (h : target ∉ f.targets) :
    (history.apply slots f).2.2.table.get? target = slots.table.get? target := by
  have hpush : ∀ w ∈ f.pushes, w.target ≠ target := fun w hw he =>
    h (he ▸ Filter.target_mem_of_pushes hw)
  unfold History.apply
  split
  · rfl
  · split
    · rfl
    · split
      · next hw => exact Slots.get?_writeUntilRefused_of_ne slots hpush hw
      · next stop after hw =>
        have hundo : ∀ w ∈ f.restores.take stop.accepted, w.target ≠ target := fun w hm he =>
          h (he ▸ Filter.target_mem_of_restores (List.mem_of_mem_take hm))
        have hpushed := Slots.get?_writeUntilRefused_of_ne slots hpush hw
        exact (Slots.get?_writeEach_of_ne _ hundo).trans hpushed

theorem get?_revert_of_not_mem {history : History} {id : FilterId}
    (h : ∀ e, history.entry? id = some e → target ∉ e.targets) :
    (history.revert slots id).2.2.table.get? target = slots.table.get? target := by
  have hundo : ∀ e, history.entry? id = some e → ∀ w ∈ e.restores, w.target ≠ target :=
    fun e he w hw ht => h e he (ht ▸ Filter.target_mem_of_restores hw)
  rcases history.revert_cases slots id with ⟨hr, -⟩ | ⟨e, after, he, hw, hr⟩ |
    ⟨e, stop, after, he, hw, hr⟩
  · rw [hr]
  · rw [hr]
    exact Slots.get?_writeUntilRefused_of_ne slots (hundo e he) hw
  · rw [hr]
    exact Slots.get?_writeUntilRefused_of_ne slots (hundo e he) hw

end History

end FeatureSieve
