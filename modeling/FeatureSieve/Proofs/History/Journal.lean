import FeatureSieve.Proofs.History.Outcomes
import FeatureSieve.Proofs.Renderer.Journal

/-! # Histories and journals

Whether a renderer is watched through a journal makes no difference to what is applied to it
and reverted.
-/

namespace FeatureSieve.History

variable {ε : Type} [Renderer ε]

theorem apply_renderer (history : History) (journal : Journal ε) (f : Filter) :
    history.apply journal.renderer f = ((history.apply journal f).1, (history.apply journal f).2.1,
      (history.apply journal f).2.2.renderer) := by
  unfold History.apply
  rw [Renderer.writeUntilRefused_renderer]
  by_cases ht : f.targets = []
  · simp only [if_pos ht]
  · by_cases hp : f.targets.length ≠ f.priors.length
    · simp only [if_neg ht, if_pos hp]
    · simp only [if_neg ht, if_neg hp]
      cases Renderer.writeUntilRefused journal f.pushes with
      | mk stop after =>
        cases stop with
        | none => rfl
        | some stop => simp only [Renderer.writeEach_renderer]

theorem revert_renderer (history : History) (journal : Journal ε) (id : FilterId) :
    history.revert journal.renderer id = ((history.revert journal id).1,
      (history.revert journal id).2.1, (history.revert journal id).2.2.renderer) := by
  unfold History.revert
  cases history.entry? id with
  | none => rfl
  | some e =>
    simp only [Renderer.writeUntilRefused_renderer]
    cases Renderer.writeUntilRefused journal e.restores with
    | mk stop after => cases stop <;> rfl

end FeatureSieve.History
