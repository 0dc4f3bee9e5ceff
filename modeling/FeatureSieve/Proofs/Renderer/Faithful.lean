import FeatureSieve.Proofs.Except
import FeatureSieve.Proofs.Renderer.Journal
import FeatureSieve.Proofs.Renderer.Slots
import Mathlib.Data.List.Nodup
import Mathlib.Logic.Function.Basic

/-! # Faithful renderers

A faithful renderer does what it is told or refuses. It may refuse any write, but a refused
one changes nothing, and an accepted one is kept for its target, which is a known one, and
for no other. So what is kept after a sequence of writes follows from the accepted ones: a
target has what was written to it last.
-/

namespace FeatureSieve

/-- What is kept for each target: nothing for one that is not known, and else its predicate,
if it has one. -/
abbrev Kept := String → Option (Option Predicate)

namespace Kept

variable {kept other : Kept} {target : String}

def settle (kept : Kept) (ws : List Write) : Kept :=
  ws.foldl (fun kept w => Function.update kept w.target (some w.value)) kept

@[simp] theorem settle_nil (kept : Kept) : kept.settle [] = kept := rfl

@[simp] theorem settle_cons (kept : Kept) (w : Write) (ws : List Write) :
    kept.settle (w :: ws) = settle (Function.update kept w.target (some w.value)) ws := rfl

theorem settle_of_forall_ne {ws : List Write} (h : ∀ w ∈ ws, w.target ≠ target) :
    kept.settle ws target = kept target := by
  induction ws generalizing kept with
  | nil => rfl
  | cons w rest ih =>
    rw [settle_cons, ih fun v hv => h v (List.mem_cons_of_mem _ hv)]
    exact Function.update_of_ne (h w List.mem_cons_self).symm _ _

/-- What a target had before it is written does not count. -/
theorem settle_congr {ws : List Write}
    (h : ∀ target, (∀ w ∈ ws, w.target ≠ target) → kept target = other target) :
    kept.settle ws = other.settle ws := by
  induction ws generalizing kept other with
  | nil => exact funext fun target => h target (by simp)
  | cons w rest ih =>
    rw [settle_cons, settle_cons]
    refine ih fun target hrest => ?_
    by_cases ht : target = w.target
    · rw [ht, Function.update_self, Function.update_self]
    · rw [Function.update_of_ne ht, Function.update_of_ne ht]
      exact h target (by simpa [Ne.symm ht] using hrest)

/-- The first writes of a sequence do not count when it is written anew. -/
theorem settle_settle_take (kept : Kept) (ws : List Write) (k : Nat) :
    (kept.settle (ws.take k)).settle ws = kept.settle ws :=
  settle_congr fun _ h => settle_of_forall_ne fun w hw => h w (List.mem_of_mem_take hw)

theorem settle_map (kept : Kept) (targets : List String) (value : String → Option Predicate)
    (target : String) :
    kept.settle (targets.map fun t => ⟨t, value t⟩) target =
      if target ∈ targets then some (value target) else kept target := by
  induction targets generalizing kept with
  | nil => rfl
  | cons t rest ih =>
    rw [List.map_cons, settle_cons, ih]
    by_cases hm : target ∈ rest
    · simp [hm]
    · by_cases ht : target = t
      · simp [ht]
      · simp [hm, ht]

end Kept

open Renderer

/-- A journal that shows no refusal is one of a renderer that accepts each write. -/
theorem Renderer.acceptsEach_of_attempts {ε : Type} [Renderer ε] {journal : Journal ε}
    {ws : List Write} {new : List Attempt}
    (hn : (writeEach journal ws).attempts = journal.attempts ++ new)
    (ha : ∀ a ∈ new, a.accepted = true) : acceptsEach journal.renderer ws = true := by
  induction ws generalizing journal new with
  | nil => rfl
  | cons w rest ih =>
    obtain ⟨later, -, hlater⟩ := attempts_writeEach (write journal w).2 rest
    have hsplit : journal.attempts ++ new =
        journal.attempts ++ ⟨w, (write journal w).1.isOk⟩ :: later := by
      rw [← hn, List.append_cons, ← journal.attempts_write w]
      exact hlater
    obtain rfl := List.append_cancel_left hsplit
    simp only [acceptsEach, Bool.and_eq_true]
    exact ⟨ha _ List.mem_cons_self, ih hlater fun a hm => ha a (List.mem_cons_of_mem _ hm)⟩

/-- One that takes any target is faithful too: it keeps something for each. -/
class FaithfulRenderer (ε : Type) [Renderer ε] where
  kept : ε → Kept
  held_eq : ∀ renderer target, held renderer target = (kept renderer target).join
  kept_of_refused : ∀ renderer w refusal, (write renderer w).1 = .error refusal →
    kept (write renderer w).2 = kept renderer
  kept_of_accepted : ∀ renderer w, (write renderer w).1 = .ok () →
    kept renderer w.target ≠ none ∧
      kept (write renderer w).2 = Function.update (kept renderer) w.target (some w.value)

namespace FaithfulRenderer

instance {ε : Type} [SlotRenderer ε] : FaithfulRenderer ε where
  kept renderer := (SlotRenderer.slots renderer).table.get?
  held_eq := SlotRenderer.held_eq
  kept_of_refused renderer w refusal h := by
    rw [SlotRenderer.slots_of_refused renderer w refusal h]
  kept_of_accepted renderer w h := by
    obtain ⟨hk, hs⟩ := SlotRenderer.add_of_accepted h
    refine ⟨Option.isSome_iff_ne_none.mp hk, funext fun target => ?_⟩
    rw [hs, Slots.add, Keyed.get?_put, Function.update_apply]
    simp only [eq_comm]

theorem knows_eq_of_kept {ε : Type} [SlotRenderer ε] {renderer after : ε} {target : String}
    (h : kept after target = none ↔ kept renderer target = none) :
    (SlotRenderer.slots after).knows target = (SlotRenderer.slots renderer).knows target :=
  Option.isSome_eq_isSome.mpr h

variable {ε : Type} [Renderer ε] [FaithfulRenderer ε] {renderer after : ε} {ws : List Write}
  {stop : Interruption}

theorem kept_of_not_interrupted (h : writeUntilRefused renderer ws = (none, after)) :
    kept after = (kept renderer).settle ws := by
  induction ws generalizing renderer with
  | nil =>
    cases h
    rfl
  | cons w rest ih =>
    obtain ⟨hw, hrest⟩ := writeUntilRefused_cons_eq_none_iff.mp h
    rw [ih hrest, (kept_of_accepted _ _ hw).2, Kept.settle_cons]

theorem kept_of_interrupted (h : writeUntilRefused renderer ws = (some stop, after)) :
    kept after = (kept renderer).settle (ws.take stop.accepted) := by
  induction ws generalizing renderer stop with
  | nil => cases h
  | cons w rest ih =>
    rcases writeUntilRefused_cons_eq_some_iff.mp h with
      ⟨refusal, hw, rfl⟩ | ⟨earlier, hw, rfl, hrest⟩
    · have hk := kept_of_refused renderer w refusal (congrArg Prod.fst hw)
      rwa [hw] at hk
    · rw [ih hrest, (kept_of_accepted _ _ hw).2]
      rfl

/-- No write makes a target known or unknown. -/
theorem kept_write_eq_none_iff (renderer : ε) (w : Write) (target : String) :
    kept (write renderer w).2 target = none ↔ kept renderer target = none := by
  cases hr : (write renderer w).1 with
  | error refusal => rw [kept_of_refused _ _ _ hr]
  | ok =>
    obtain ⟨hk, hs⟩ := kept_of_accepted _ _ hr
    rw [hs, Function.update_apply]
    split
    · next ht => simpa [ht] using hk
    · rfl

theorem kept_writeUntilRefused_eq_none_iff {stop : Option Interruption}
    (h : writeUntilRefused renderer ws = (stop, after)) (target : String) :
    kept after target = none ↔ kept renderer target = none := by
  refine writeUntilRefused_preserves (P := fun r => kept r target = none ↔ _) ?_ h Iff.rfl
  exact fun w _ r hr => (kept_write_eq_none_iff r w target).trans hr

theorem kept_writeEach_eq_none_iff (renderer : ε) (ws : List Write) (target : String) :
    kept (writeEach renderer ws) target = none ↔ kept renderer target = none := by
  refine writeEach_preserves (P := fun r => kept r target = none ↔ _) ?_ Iff.rfl
  exact fun w _ r hr => (kept_write_eq_none_iff r w target).trans hr

/-- What was written before a refusal went to known targets. -/
theorem known_of_interrupted (h : writeUntilRefused renderer ws = (some stop, after)) :
    ∀ w ∈ ws.take stop.accepted, kept renderer w.target ≠ none := by
  induction ws generalizing renderer stop with
  | nil => cases h
  | cons w rest ih =>
    rcases writeUntilRefused_cons_eq_some_iff.mp h with
      ⟨refusal, -, rfl⟩ | ⟨earlier, hw, rfl, hrest⟩
    · simp
    · intro v hv
      rcases List.mem_cons.mp hv with rfl | hv
      · exact (kept_of_accepted _ _ hw).1
      · exact fun hnone => ih hrest v hv ((kept_write_eq_none_iff _ _ _).mpr hnone)

/-- Putting back what known targets held undoes all that was written to them. -/
theorem settle_held {targets : List String} {value : String → Option Predicate}
    (h : ∀ t ∈ targets, kept renderer t ≠ none) :
    ((kept renderer).settle (targets.map fun t => ⟨t, value t⟩)).settle
      (targets.map fun t => ⟨t, held renderer t⟩) = kept renderer := by
  funext t
  rw [Kept.settle_map, Kept.settle_map]
  by_cases ht : t ∈ targets
  · obtain ⟨p, hp⟩ := Option.ne_none_iff_exists'.mp (h t ht)
    rw [if_pos ht, held_eq, hp]
    rfl
  · rw [if_neg ht, if_neg ht]

theorem kept_write_of_ne {w : Write} {target : String} (h : w.target ≠ target) :
    kept (write renderer w).2 target = kept renderer target := by
  cases hr : (write renderer w).1 with
  | error refusal => rw [kept_of_refused _ _ _ hr]
  | ok =>
    rw [(kept_of_accepted _ _ hr).2]
    exact Function.update_of_ne h.symm _ _

theorem kept_writeEach_of_forall_ne {target : String} (h : ∀ w ∈ ws, w.target ≠ target) :
    kept (writeEach renderer ws) target = kept renderer target := by
  refine writeEach_preserves (P := fun r => kept r target = _) ?_ rfl
  exact fun w hw r hr => (kept_write_of_ne (h w hw)).trans hr

theorem kept_writeEach (h : acceptsEach renderer ws = true) :
    kept (writeEach renderer ws) = (kept renderer).settle ws := by
  induction ws generalizing renderer with
  | nil => rfl
  | cons w rest ih =>
    simp only [acceptsEach, Bool.and_eq_true] at h
    refine (ih h.2).trans ?_
    rw [(kept_of_accepted _ _ (eq_ok_of_isOk h.1)).2, Kept.settle_cons]

/-- If a journal shows that each write of a sequence was accepted, all of them settle. -/
theorem kept_writeEach_of_accepted {journal : Journal ε} {new : List Attempt}
    (hn : (writeEach journal ws).attempts = journal.attempts ++ new)
    (ha : ∀ a ∈ new, a.accepted = true) :
    kept (writeEach journal ws).renderer = (kept journal.renderer).settle ws := by
  rw [writeEach_renderer]
  exact kept_writeEach (acceptsEach_of_attempts hn ha)

section Values

variable {targets : List String} {value : String → Option Predicate}

theorem held_of_settle (h : kept after = (kept renderer).settle (targets.map fun t => ⟨t, value t⟩))
    (target : String) :
    held after target = if target ∈ targets then value target else held renderer target := by
  rw [held_eq, held_eq, h, Kept.settle_map]
  split <;> rfl

theorem held_of_not_interrupted
    (h : writeUntilRefused renderer (targets.map fun t => ⟨t, value t⟩) = (none, after))
    (target : String) :
    held after target = if target ∈ targets then value target else held renderer target :=
  held_of_settle (kept_of_not_interrupted h) target

theorem held_of_interrupted
    (h : writeUntilRefused renderer (targets.map fun t => ⟨t, value t⟩) = (some stop, after))
    (target : String) :
    held after target =
      if target ∈ targets.take stop.accepted then value target else held renderer target := by
  have hkept := kept_of_interrupted h
  rw [← List.map_take] at hkept
  exact held_of_settle hkept target

theorem held_writeEach (h : acceptsEach renderer (targets.map fun t => ⟨t, value t⟩) = true)
    (target : String) :
    held (writeEach renderer (targets.map fun t => ⟨t, value t⟩)) target =
      if target ∈ targets then value target else held renderer target :=
  held_of_settle (kept_writeEach h) target

end Values

end FaithfulRenderer

end FeatureSieve
