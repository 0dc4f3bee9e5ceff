import FeatureSieve.Proofs.Renderer.Sequence
import FeatureSieve.Renderer.Slots
import Mathlib.Data.List.Basic

/-! # Renderers that keep slots

Whatever such a renderer refuses, its slots change by the accepted writes alone. The slots
themselves refuse nothing but targets that they do not know, and they know those of the atlas
that they were made for.
-/

namespace FeatureSieve

namespace Slots

theorem knows_add (slots : Slots) (target other : String) (value : Option Predicate) :
    (slots.add target value).knows other = (target = other || slots.knows other) := by
  simp only [knows, add, Keyed.get?_put]
  by_cases h : target = other <;> simp [h]

theorem knows_foldl_add (slots : Slots) (targets : List Target) (id : String) :
    (targets.foldl (fun slots target => slots.add target.id target.default) slots).knows id =
      (decide (id ∈ targets.map Target.id) || slots.knows id) := by
  induction targets generalizing slots with
  | nil => simp
  | cons target rest ih =>
    rw [List.foldl_cons, ih, knows_add]
    by_cases hid : target.id = id
    · simp [hid]
    · simp [hid, Ne.symm hid]

theorem knows_ofAtlas {atlas : Atlas} {layer : Layer} (hl : layer ∈ atlas.layers) {target : String}
    (ht : target ∈ layer.targetIds) : (ofAtlas atlas).knows target = true := by
  obtain ⟨t, hm, rfl⟩ := List.mem_map.mp ht
  have hin : t.id ∈ atlas.targets.map Target.id :=
    List.mem_map_of_mem (List.mem_flatMap.mpr ⟨layer, hl, hm⟩)
  rw [ofAtlas, knows_foldl_add]
  simp [hin]

/-- The slots after accepted writes. -/
def writeAll (slots : Slots) (ws : List Write) : Slots :=
  ws.foldl (fun slots w => slots.add w.target w.value) slots

/-- The slots refuse none of the targets they know. -/
theorem writeUntilRefused_of_knows {slots : Slots} {ws : List Write}
    (h : ∀ w ∈ ws, slots.knows w.target = true) :
    Renderer.writeUntilRefused slots ws = (none, slots.writeAll ws) := by
  induction ws generalizing slots with
  | nil => rfl
  | cons w rest ih =>
    have hw : Renderer.write slots w = (.ok (), slots.add w.target w.value) :=
      if_pos (h w List.mem_cons_self)
    have hrest : ∀ v ∈ rest, (slots.add w.target w.value).knows v.target = true := by
      intro v hv
      rw [knows_add, h v (List.mem_cons_of_mem _ hv), Bool.or_true]
    apply Renderer.writeUntilRefused_cons_eq_none_iff.mpr
    rw [hw]
    exact ⟨rfl, ih hrest⟩

end Slots

/-- A renderer over slots that may refuse any write: a refused one leaves the slots as they
are, an accepted one is the write to the slots. -/
class SlotRenderer (ε : Type) extends Renderer ε where
  slots : ε → Slots
  held_eq : ∀ renderer target, held renderer target = (slots renderer).held target
  slots_of_refused : ∀ renderer w refusal, (write renderer w).1 = .error refusal →
    slots (write renderer w).2 = slots renderer
  slots_of_accepted : ∀ renderer w, (write renderer w).1 = .ok () →
    Slots.write (slots renderer) w = (.ok (), slots (write renderer w).2)

namespace Renderer

/-- Whether all writes of a sequence are accepted, each after the ones before it. -/
def acceptsEach {ε : Type} [Renderer ε] (renderer : ε) : List Write → Bool
  | [] => true
  | w :: rest => (write renderer w).1.isOk && acceptsEach (write renderer w).2 rest

end Renderer

/-- A renderer whose writes are refused at will: the next one for the reason that the mood
gives first, if it gives one. -/
structure Fickle (ε : Type) where
  renderer : ε
  mood : Nat → Option Refusal

namespace Fickle

variable {ε : Type} [Renderer ε]

def write (f : Fickle ε) (w : Write) : Except Refusal Unit × Fickle ε :=
  let later := fun n => f.mood (n + 1)
  match f.mood 0 with
  | some refusal => (.error refusal, ⟨f.renderer, later⟩)
  | none =>
    let (result, renderer) := Renderer.write f.renderer w
    (result, ⟨renderer, later⟩)

end Fickle

namespace SlotRenderer

open Renderer

instance : SlotRenderer Slots where
  slots := id
  held_eq _ _ := rfl
  slots_of_refused slots w refusal h := by
    simp only [Renderer.write, Slots.write] at h ⊢
    split at h <;> simp_all
  slots_of_accepted slots w h := by
    simp only [Renderer.write, Slots.write] at h ⊢
    split at h <;> simp_all

variable {ε : Type} [SlotRenderer ε]

instance : SlotRenderer (Fickle ε) where
  held f := held f.renderer
  write := Fickle.write
  slots f := slots f.renderer
  held_eq f := held_eq f.renderer
  slots_of_refused f w refusal h := by
    simp only [Fickle.write] at h ⊢
    cases hm : f.mood 0 with
    | some reason => rfl
    | none =>
      rw [hm] at h
      exact slots_of_refused f.renderer w refusal h
  slots_of_accepted f w h := by
    simp only [Fickle.write] at h ⊢
    cases hm : f.mood 0 with
    | some reason => simp [hm] at h
    | none =>
      rw [hm] at h
      exact slots_of_accepted f.renderer w h

theorem add_of_accepted {renderer : ε} {w : Write} (h : (write renderer w).1 = .ok ()) :
    (slots renderer).knows w.target = true ∧
      slots (write renderer w).2 = (slots renderer).add w.target w.value := by
  have hw := slots_of_accepted _ _ h
  unfold Slots.write at hw
  split at hw
  · next hk => exact ⟨hk, (congrArg Prod.snd hw).symm⟩
  · simp at hw

end SlotRenderer

end FeatureSieve
