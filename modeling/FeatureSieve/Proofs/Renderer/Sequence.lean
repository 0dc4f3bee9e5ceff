import FeatureSieve.Renderer.Basic

/-! # Sequences of writes, one by one

A sequence that is written up to the first refusal either goes on after an accepted write
or stops at a refused one.
-/

namespace FeatureSieve.Renderer

variable {ε : Type} [Renderer ε] {renderer after : ε} {w : Write} {rest : List Write}

theorem writeUntilRefused_cons_eq_none_iff :
    writeUntilRefused renderer (w :: rest) = (none, after) ↔
      (write renderer w).1 = .ok () ∧
        writeUntilRefused (write renderer w).2 rest = (none, after) := by
  simp only [writeUntilRefused]
  cases write renderer w with
  | mk result next =>
    cases result with
    | error refusal => simp
    | ok => simp [Prod.ext_iff]

theorem writeUntilRefused_cons_eq_some_iff {stop : Interruption} :
    writeUntilRefused renderer (w :: rest) = (some stop, after) ↔
      (∃ refusal, write renderer w = (.error refusal, after) ∧ stop = ⟨0, w.target, refusal⟩) ∨
      ∃ earlier, (write renderer w).1 = .ok () ∧ stop = earlier.later ∧
        writeUntilRefused (write renderer w).2 rest = (some earlier, after) := by
  simp only [writeUntilRefused]
  cases write renderer w with
  | mk result next =>
    cases result with
    | error refusal =>
      simp only [Prod.mk.injEq, Option.some.injEq, Except.error.injEq, reduceCtorEq, false_and,
        exists_false, or_false]
      constructor
      · rintro ⟨rfl, rfl⟩
        exact ⟨refusal, ⟨rfl, rfl⟩, rfl⟩
      · rintro ⟨_, ⟨rfl, rfl⟩, rfl⟩
        exact ⟨rfl, rfl⟩
    | ok =>
      simp only [Prod.ext_iff, Option.map_eq_some_iff, reduceCtorEq, false_and, exists_false,
        false_or, true_and]
      constructor
      · rintro ⟨⟨earlier, he, hs⟩, ha⟩
        exact ⟨earlier, hs.symm, he, ha⟩
      · rintro ⟨earlier, hs, he, ha⟩
        exact ⟨⟨earlier, he, hs.symm⟩, ha⟩

/-- A sequence stops at the write that is refused after all before it were accepted. -/
theorem write_of_interrupted {ws : List Write} {stop : Interruption}
    (h : writeUntilRefused renderer ws = (some stop, after)) (hw : ws[stop.accepted]? = some w) :
    write (writeEach renderer (ws.take stop.accepted)) w = (.error stop.refusal, after) := by
  induction ws generalizing renderer stop with
  | nil => cases h
  | cons v rest ih =>
    rcases writeUntilRefused_cons_eq_some_iff.mp h with
      ⟨refusal, hv, rfl⟩ | ⟨earlier, -, rfl, hrest⟩
    · obtain rfl : v = w := by simpa using hw
      exact hv
    · exact ih hrest (by simpa [Interruption.later] using hw)

/-- What each write preserves is preserved up to the first refusal. -/
theorem writeUntilRefused_preserves {P : ε → Prop} {ws : List Write}
    (hstep : ∀ w ∈ ws, ∀ r, P r → P (write r w).2) {stop : Option Interruption}
    (h : writeUntilRefused renderer ws = (stop, after)) (hp : P renderer) : P after := by
  induction ws generalizing renderer stop with
  | nil =>
    cases h
    exact hp
  | cons w rest ih =>
    have hfirst := hstep w List.mem_cons_self renderer hp
    have hrest : ∀ v ∈ rest, ∀ r, P r → P (write r v).2 :=
      fun v hv => hstep v (List.mem_cons_of_mem _ hv)
    cases stop with
    | none => exact ih hrest (writeUntilRefused_cons_eq_none_iff.mp h).2 hfirst
    | some stop =>
      rcases writeUntilRefused_cons_eq_some_iff.mp h with ⟨refusal, hw, -⟩ | ⟨earlier, -, -, hgo⟩
      · rwa [hw] at hfirst
      · exact ih hrest hgo hfirst

theorem writeEach_preserves {P : ε → Prop} {ws : List Write}
    (hstep : ∀ w ∈ ws, ∀ r, P r → P (write r w).2) (hp : P renderer) :
    P (writeEach renderer ws) := by
  induction ws generalizing renderer with
  | nil => exact hp
  | cons w rest ih =>
    have hfirst := hstep w List.mem_cons_self renderer hp
    exact ih (fun v hv => hstep v (List.mem_cons_of_mem _ hv)) hfirst

end FeatureSieve.Renderer
