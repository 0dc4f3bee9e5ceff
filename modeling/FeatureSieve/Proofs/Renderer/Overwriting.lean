import FeatureSieve.Proofs.Renderer.Slots

/-! # Writes that are overwritten

Slots that are written again do not show what was written to them before, and they keep
their places. So putting back what known targets held undoes all writes to these targets,
and the slots are the same as before them, in the same order.
-/

namespace FeatureSieve

namespace Keyed

variable {α : Type} {xs : Keyed α} {key other : String}

theorem put_put (xs : Keyed α) (key : String) (v w : α) : put key w (put key v xs) = put key w xs := by
  induction xs with
  | nil => simp [put]
  | cons x rest ih =>
    obtain ⟨k, u⟩ := x
    by_cases hk : k = key <;> simp [put, hk, ih]

/-- Values of different keys may be put in any order, unless both keys are new. -/
theorem put_comm (hne : key ≠ other) (hk : key ∈ keys xs) (v w : α) :
    put key v (put other w xs) = put other w (put key v xs) := by
  induction xs with
  | nil => simp [keys] at hk
  | cons x rest ih =>
    obtain ⟨k, u⟩ := x
    by_cases he : k = key
    · subst he
      simp [put, hne]
    · by_cases ho : k = other
      · subst ho
        simp [put, he]
      · have hr : key ∈ keys rest := (List.mem_cons.mp hk).resolve_left (Ne.symm he)
        simp [put, he, ho, ih hr]

theorem put_of_get?_eq_some {v : α} (h : get? key xs = some v) : put key v xs = xs := by
  induction xs with
  | nil => simp [get?] at h
  | cons x rest ih =>
    obtain ⟨k, u⟩ := x
    by_cases hk : k = key
    · simp only [get?, hk, if_true, Option.some.injEq] at h
      simp [put, hk, h]
    · simp only [get?, hk, if_false] at h
      simp [put, hk, ih h]

end Keyed

open Renderer

/-- The writes that were accepted before the first refusal. -/
def Renderer.acceptedOf (ws : List Write) : Option Interruption → List Write
  | none => ws
  | some stop => ws.take stop.accepted

namespace Slots

variable {slots after : Slots} {ws vs : List Write} {target : String}

@[simp] theorem writeAll_nil (slots : Slots) : slots.writeAll [] = slots := rfl

@[simp] theorem writeAll_cons (slots : Slots) (w : Write) (ws : List Write) :
    slots.writeAll (w :: ws) = (slots.add w.target w.value).writeAll ws := rfl

theorem knows_add_of_knows (h : slots.knows target = true) (other : String)
    (value : Option Predicate) : (slots.add other value).knows target = true := by
  rw [knows_add, h, Bool.or_true]

theorem knows_writeAll_of_knows (h : slots.knows target = true) (ws : List Write) :
    (slots.writeAll ws).knows target = true := by
  induction ws generalizing slots with
  | nil => exact h
  | cons w rest ih => exact ih (knows_add_of_knows h w.target w.value)

theorem mem_keys_of_knows (h : slots.knows target = true) : target ∈ slots.table.keys := by
  by_contra hn
  simp [knows, Keyed.get?_eq_none_iff.mpr hn] at h

theorem writeEach_of_knows (h : ∀ w ∈ ws, slots.knows w.target = true) :
    writeEach slots ws = slots.writeAll ws := by
  induction ws generalizing slots with
  | nil => rfl
  | cons w rest ih =>
    have hw : (Renderer.write slots w).2 = slots.add w.target w.value :=
      congrArg Prod.snd (if_pos (h w List.mem_cons_self))
    have hrest : ∀ v ∈ rest, (slots.add w.target w.value).knows v.target = true :=
      fun v hv => knows_add_of_knows (h v (List.mem_cons_of_mem _ hv)) _ _
    rw [writeAll_cons, ← ih hrest, ← hw]
    rfl

/-- What is known after an accepted write was known before it. -/
theorem writeAll_cons_of_accepted {w : Write} (hw : (Renderer.write slots w).1 = .ok ())
    (hrest : (∀ v ∈ ws, (Renderer.write slots w).2.knows v.target = true) ∧
      after = (Renderer.write slots w).2.writeAll ws) :
    (∀ v ∈ w :: ws, slots.knows v.target = true) ∧ after = slots.writeAll (w :: ws) := by
  obtain ⟨hk, hs⟩ := SlotRenderer.add_of_accepted hw
  change slots.knows w.target = true at hk
  change (Renderer.write slots w).2 = slots.add w.target w.value at hs
  rw [hs] at hrest
  refine ⟨?_, hrest.2⟩
  intro v hv
  rcases List.mem_cons.mp hv with rfl | hv
  · exact hk
  · have hknown := hrest.1 v hv
    rw [knows_add, Bool.or_eq_true, decide_eq_true_iff] at hknown
    rcases hknown with ht | hknown
    · exact ht ▸ hk
    · exact hknown

/-- The accepted writes went to known targets, and nothing else was written. -/
theorem writeAll_acceptedOf {stop : Option Interruption}
    (h : writeUntilRefused slots ws = (stop, after)) :
    (∀ w ∈ acceptedOf ws stop, slots.knows w.target = true) ∧
      after = slots.writeAll (acceptedOf ws stop) := by
  induction ws generalizing slots stop with
  | nil =>
    cases h
    simp [acceptedOf]
  | cons w rest ih =>
    cases stop with
    | none =>
      obtain ⟨hw, hgo⟩ := writeUntilRefused_cons_eq_none_iff.mp h
      exact writeAll_cons_of_accepted hw (ih hgo)
    | some stop =>
      rcases writeUntilRefused_cons_eq_some_iff.mp h with
        ⟨refusal, hw, rfl⟩ | ⟨earlier, hw, rfl, hgo⟩
      · have hsame := SlotRenderer.slots_of_refused slots w refusal (congrArg Prod.fst hw)
        rw [hw] at hsame
        exact ⟨by simp [acceptedOf], hsame⟩
      · exact writeAll_cons_of_accepted hw (ih hgo)

/-- A target that is written later may as well not have been written before. -/
theorem writeAll_add_of_mem (ht : ∃ w ∈ ws, w.target = target)
    (hk : ∀ w ∈ ws, slots.knows w.target = true) (value : Option Predicate) :
    (slots.add target value).writeAll ws = slots.writeAll ws := by
  induction ws generalizing slots with
  | nil => simp at ht
  | cons w rest ih =>
    by_cases hw : w.target = target
    · subst hw
      simp only [writeAll_cons, add, Keyed.put_put]
    · have hrest : ∃ v ∈ rest, v.target = target := by simpa [hw] using ht
      have hknown : ∀ v ∈ rest, (slots.add w.target w.value).knows v.target = true :=
        fun v hv => knows_add_of_knows (hk v (List.mem_cons_of_mem _ hv)) _ _
      have hswap : (slots.add target value).add w.target w.value =
          (slots.add w.target w.value).add target value :=
        congrArg Slots.mk (Keyed.put_comm hw (mem_keys_of_knows (hk w List.mem_cons_self)) _ _)
      rw [writeAll_cons, hswap, ih hrest hknown, writeAll_cons]

theorem writeAll_writeAll (hws : ∀ w ∈ ws, ∃ v ∈ vs, v.target = w.target)
    (hk : ∀ v ∈ vs, slots.knows v.target = true) :
    (slots.writeAll ws).writeAll vs = slots.writeAll vs := by
  induction ws generalizing slots with
  | nil => rfl
  | cons w rest ih =>
    rw [writeAll_cons, ih (fun v hv => hws v (List.mem_cons_of_mem _ hv))
      fun v hv => knows_add_of_knows (hk v hv) _ _]
    exact writeAll_add_of_mem (hws w List.mem_cons_self) hk w.value

theorem writeAll_held {targets : List String} (hk : ∀ t ∈ targets, slots.knows t = true) :
    slots.writeAll (targets.map fun t => ⟨t, Renderer.held slots t⟩) = slots := by
  induction targets with
  | nil => rfl
  | cons t rest ih =>
    obtain ⟨p, hp⟩ := Option.isSome_iff_exists.mp (hk t List.mem_cons_self)
    have hsame : slots.add t (Renderer.held slots t) = slots := by
      have hheld : Renderer.held slots t = p := congrArg Option.join hp
      rw [hheld]
      exact congrArg Slots.mk (Keyed.put_of_get?_eq_some hp)
    rw [List.map_cons, writeAll_cons, hsame]
    exact ih fun u hu => hk u (List.mem_cons_of_mem _ hu)

/-- Putting back what known targets held leaves no trace of what was written to them. -/
theorem writeAll_undone {targets : List String} (hk : ∀ t ∈ targets, slots.knows t = true)
    (value : String → Option Predicate) :
    (slots.writeAll (targets.map fun t => ⟨t, value t⟩)).writeAll
      (targets.map fun t => ⟨t, Renderer.held slots t⟩) = slots := by
  rw [writeAll_writeAll, writeAll_held hk]
  · simp
  · simpa using hk

end Slots

end FeatureSieve
