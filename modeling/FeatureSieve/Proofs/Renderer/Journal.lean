import FeatureSieve.Proofs.Renderer.Sequence
import FeatureSieve.Renderer.Journal
import Mathlib.Data.List.Basic

/-! # What a journal shows of sequences of writes

Writing up to the first refusal tries the accepted writes and the refused one, and
nothing after it; writing each tries all. The renderer below a journal never notices it.
-/

namespace FeatureSieve

variable {ε : Type} [Renderer ε]

namespace Journal

theorem attempts_write (journal : Journal ε) (w : Write) :
    (Renderer.write journal w).2.attempts =
      journal.attempts ++ [⟨w, (Renderer.write journal w).1.isOk⟩] := rfl

end Journal

namespace Renderer

/-- A sequence that is not interrupted is accepted as a whole. -/
theorem attempts_of_not_interrupted {journal after : Journal ε} {ws : List Write}
    (h : writeUntilRefused journal ws = (none, after)) :
    after.attempts = journal.attempts ++ ws.map (⟨·, true⟩) := by
  induction ws generalizing journal with
  | nil =>
    cases h
    simp
  | cons w rest ih =>
    obtain ⟨hw, hrest⟩ := writeUntilRefused_cons_eq_none_iff.mp h
    rw [ih hrest, journal.attempts_write w, hw]
    simp [Except.isOk, Except.toBool]

/-- An interrupted sequence ends with the refused write. -/
theorem attempts_of_interrupted {journal after : Journal ε} {ws : List Write} {stop : Interruption}
    (h : writeUntilRefused journal ws = (some stop, after)) :
    ∃ w, ws[stop.accepted]? = some w ∧ stop.target = w.target ∧
      after.attempts =
        journal.attempts ++ (ws.take stop.accepted).map (⟨·, true⟩) ++ [⟨w, false⟩] := by
  induction ws generalizing journal stop with
  | nil => cases h
  | cons w rest ih =>
    have ha := journal.attempts_write w
    rcases writeUntilRefused_cons_eq_some_iff.mp h with ⟨refusal, hw, rfl⟩ | ⟨earlier, hw, rfl, hrest⟩
    · rw [hw] at ha
      exact ⟨w, rfl, rfl, by simpa [Except.isOk, Except.toBool] using ha⟩
    · obtain ⟨v, hv, ht, hat⟩ := ih hrest
      refine ⟨v, by simpa [Interruption.later] using hv, ht, ?_⟩
      rw [hat, ha, hw]
      simp [Interruption.later, Except.isOk, Except.toBool]

/-- Writing each tries all, and nothing else. -/
theorem attempts_writeEach (journal : Journal ε) (ws : List Write) :
    ∃ new : List Attempt, new.map Attempt.write = ws ∧
      (writeEach journal ws).attempts = journal.attempts ++ new := by
  induction ws generalizing journal with
  | nil => exact ⟨[], rfl, by simp [writeEach]⟩
  | cons w rest ih =>
    obtain ⟨new, hn, ha⟩ := ih (write journal w).2
    refine ⟨⟨w, (write journal w).1.isOk⟩ :: new, by simp [hn], ?_⟩
    rw [show writeEach journal (w :: rest) = writeEach (write journal w).2 rest from rfl, ha,
      journal.attempts_write w]
    simp

/-- What is below a journal takes the writes as it would without one. -/
theorem writeUntilRefused_renderer (journal : Journal ε) (ws : List Write) :
    writeUntilRefused journal.renderer ws =
      ((writeUntilRefused journal ws).1, (writeUntilRefused journal ws).2.renderer) := by
  induction ws generalizing journal with
  | nil => rfl
  | cons w rest ih =>
    have hw : write journal w = ((write journal.renderer w).1,
      ⟨(write journal.renderer w).2, (write journal w).2.attempts⟩) := rfl
    simp only [writeUntilRefused]
    rw [hw]
    cases hr : write journal.renderer w with
    | mk result next =>
      cases result with
      | error refusal => rfl
      | ok => simp only [ih ⟨next, (write journal w).2.attempts⟩]

theorem writeUntilRefused_of_journal {journal after : Journal ε} {ws : List Write}
    {stop : Option Interruption} (h : writeUntilRefused journal ws = (stop, after)) :
    writeUntilRefused journal.renderer ws = (stop, after.renderer) := by
  rw [writeUntilRefused_renderer, h]

theorem writeEach_renderer (journal : Journal ε) (ws : List Write) :
    (writeEach journal ws).renderer = writeEach journal.renderer ws := by
  induction ws generalizing journal with
  | nil => rfl
  | cons w rest ih => exact ih (write journal w).2

end Renderer

end FeatureSieve
