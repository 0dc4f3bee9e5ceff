import FeatureSieve.Proofs.History.Chronicle
import FeatureSieve.Proofs.Renderer.Overwriting

/-! # Nested filters

Filters are nested when each of them is given what its targets held at that moment, and the
one that was applied last is reverted first. Their targets may overlap, also with themselves.
On slots a nested run leaves nothing behind: what is on top of a filter was taken off before
the filter is reverted, so its targets hold what it has written to them.
-/

namespace FeatureSieve

open Renderer

namespace History

variable {slots : Slots} {f : Filter}

/-- With the right priors slots are filtered as a whole, or they stay as they are. -/
theorem apply_to_slots (history : History) (hp : f.priors = f.targets.map (held slots)) :
    ((∀ t ∈ f.targets, slots.knows t = true) ∧ history.apply slots f =
      (.ok ⟨history.nextNumber⟩, history.record f, slots.writeAll f.pushes)) ∨
    ∃ failure, history.apply slots f = (.error failure, history, slots) := by
  by_cases ht : f.targets = []
  · exact Or.inr ⟨_, apply_of_no_targets ht history slots⟩
  · have hlength : f.targets.length = f.priors.length := by rw [hp, List.length_map]
    rcases history.apply_cases slots ht hlength with ⟨after, hw, ha⟩ | ⟨stop, after, hw, ha⟩
    · obtain ⟨hk, rfl⟩ := Slots.writeAll_acceptedOf hw
      refine Or.inl ⟨fun t hm => ?_, ha⟩
      exact hk ⟨t, some f.predicate⟩ (List.mem_map_of_mem hm)
    · obtain ⟨hk, rfl⟩ := Slots.writeAll_acceptedOf hw
      simp only [acceptedOf, Filter.pushes, ← List.map_take] at hk ha
      have hknown : ∀ t ∈ f.targets.take stop.accepted, slots.knows t = true :=
        fun t hm => hk ⟨t, some f.predicate⟩ (List.mem_map_of_mem hm)
      rw [Filter.restores_eq_map hp, ← List.map_take, Slots.writeEach_of_knows,
        Slots.writeAll_undone hknown] at ha
      · exact Or.inr ⟨_, ha⟩
      · intro w hw
        obtain ⟨t, hm, rfl⟩ := List.mem_map.mp hw
        exact Slots.knows_writeAll_of_knows (hknown t hm) _

/-- The latest filter is taken off the slots that it was applied to. -/
theorem revert_latest {history : History} {older : List Entry} {id : FilterId}
    (he : history.entries = older ++ [⟨f, id⟩]) (hp : f.priors = f.targets.map (held slots))
    (hk : ∀ t ∈ f.targets, slots.knows t = true) :
    history.revert (slots.writeAll f.pushes) id = (.ok ⟨f, id⟩, history.remove id, slots) ∧
      (history.remove id).entries = older := by
  have hentry : history.entry? id = some ⟨f, id⟩ := entry?_eq_some_iff.mpr ⟨by simp [he], rfl⟩
  have hrestored : writeUntilRefused (slots.writeAll f.pushes) f.restores = (none, slots) := by
    rw [Filter.restores_eq_map hp, Slots.writeUntilRefused_of_knows, Filter.pushes,
      Slots.writeAll_undone hk]
    intro w hw
    obtain ⟨t, hm, rfl⟩ := List.mem_map.mp hw
    exact Slots.knows_writeAll_of_knows (hk t hm) _
  refine ⟨revert_of_not_interrupted hentry hrestored, ?_⟩
  have hids := history.ids_nodup
  rw [he, List.map_append, List.nodup_append] at hids
  have holder : ∀ e ∈ older, e.id ≠ id := fun e hm =>
    hids.2.2 e.id (List.mem_map_of_mem hm) id (by simp)
  simp only [remove, he, List.filter_append]
  simpa using holder

end History

namespace Chronicle

section Nesting

variable {ε : Type} [Renderer ε]

/-- The filters that are still open after applying one more. -/
def opening (opened : List FilterId) : Except Failure FilterId → List FilterId
  | .ok id => id :: opened
  | .error _ => opened

/-- Each filter is given what its targets hold, only the latest of the open ones is ever
reverted, and in the end none is open. -/
def Nested (c : Chronicle ε) (opened : List FilterId) : List Operation → Prop
  | [] => opened = []
  | .apply f :: rest => f.priors = f.targets.map (held c.renderer) ∧
    Nested (c.step (.apply f)) (opening opened (c.history.apply c.renderer f).1) rest
  | .revert id :: rest => opened.head? = some id ∧ Nested (c.step (.revert id)) opened.tail rest

def decideNested (c : Chronicle ε) (opened : List FilterId) :
    (operations : List Operation) → Decidable (c.Nested opened operations)
  | [] => inferInstanceAs (Decidable (opened = []))
  | .apply _ :: rest => @instDecidableAnd _ _ _ (decideNested _ _ rest)
  | .revert _ :: rest => @instDecidableAnd _ _ _ (decideNested _ _ rest)

instance (c : Chronicle ε) (opened : List FilterId) (operations : List Operation) :
    Decidable (c.Nested opened operations) := decideNested c opened operations

end Nesting

/-- The open filters, latest first, lie one upon the other on top of the given entries and slots. -/
def Piled (entries : List Entry) (slots : Slots) : List FilterId → List Entry → Slots → Prop
  | [], now, s => now = entries ∧ s = slots
  | id :: opened, now, s => ∃ f below earlier, now = below ++ [⟨f, id⟩] ∧
    s = Slots.writeAll earlier f.pushes ∧ f.priors = f.targets.map (held earlier) ∧
    (∀ t ∈ f.targets, earlier.knows t = true) ∧ Piled entries slots opened below earlier

variable {entries : List Entry} {slots : Slots} {opened : List FilterId} {c : Chronicle Slots}

/-- A filter comes to lie on top, or nothing happens. -/
theorem Piled.apply (h : Piled entries slots opened c.history.entries c.renderer) {f : Filter}
    (hp : f.priors = f.targets.map (held c.renderer)) :
    Piled entries slots (opening opened (c.history.apply c.renderer f).1)
      (c.step (.apply f)).history.entries (c.step (.apply f)).renderer := by
  rcases c.history.apply_to_slots hp with ⟨hk, ha⟩ | ⟨failure, ha⟩
  · simp only [step, History.perform, ha]
    exact ⟨f, c.history.entries, c.renderer, rfl, rfl, hp, hk, h⟩
  · simp only [step, History.perform, ha]
    exact h

/-- The latest of the open filters is reverted, and those below it are not affected. -/
theorem Piled.revert {id : FilterId}
    (h : Piled entries slots (id :: opened) c.history.entries c.renderer) :
    (∃ f, (c.step (.revert id)).events = c.events ++ [.reverted id (.ok ⟨f, id⟩)]) ∧
    Piled entries slots opened (c.step (.revert id)).history.entries
      (c.step (.revert id)).renderer := by
  obtain ⟨f, below, earlier, he, hs, hp, hk, hbelow⟩ := h
  obtain ⟨hr, hentries⟩ := History.revert_latest he hp hk
  simp only [step, History.perform, hs, hr, hentries]
  exact ⟨⟨f, rfl⟩, hbelow⟩

/-- One step of a nested run leaves a nested run and a pile of what is open then. -/
theorem Nested.step {operation : Operation} {rest : List Operation}
    (hn : c.Nested opened (operation :: rest))
    (h : Piled entries slots opened c.history.entries c.renderer) :
    ∃ x opened', (c.step operation).events = c.events ++ [x] ∧
      (∀ id result, .reverted id result = x → ∃ f, result = .ok ⟨f, id⟩) ∧
      (c.step operation).Nested opened' rest ∧
      Piled entries slots opened' (c.step operation).history.entries
        (c.step operation).renderer := by
  cases operation with
  | apply f =>
    obtain ⟨hp, hrest⟩ := hn
    exact ⟨_, _, rfl, by simp, hrest, h.apply hp⟩
  | revert id =>
    obtain ⟨hid, hrest⟩ := hn
    cases opened with
    | nil => cases hid
    | cons latest opened =>
      obtain rfl := Option.some.inj hid
      obtain ⟨⟨f, hf⟩, hpiled⟩ := h.revert
      refine ⟨_, opened, hf, ?_, hrest, hpiled⟩
      rintro id result ⟨⟩
      exact ⟨f, rfl⟩

/-- A nested run closes what was open before it along with what it opens itself. -/
theorem Nested.run {operations : List Operation} (hn : c.Nested opened operations)
    (h : Piled entries slots opened c.history.entries c.renderer) :
    (∃ new, (c.run operations).events = c.events ++ new ∧
      ∀ id result, .reverted id result ∈ new → ∃ f, result = .ok ⟨f, id⟩) ∧
    (c.run operations).history.entries = entries ∧ (c.run operations).renderer = slots := by
  induction operations generalizing c opened with
  | nil =>
    obtain rfl : opened = [] := hn
    exact ⟨⟨[], (List.append_nil _).symm, by simp⟩, h⟩
  | cons operation rest ih =>
    obtain ⟨x, opened', hx, hok, hrest, hpiled⟩ := hn.step h
    obtain ⟨⟨new, hnew, hall⟩, hend⟩ := ih hrest hpiled
    refine ⟨⟨x :: new, ?_, fun id result hm => ?_⟩, hend⟩
    · rw [List.append_cons, ← hx]
      exact hnew
    · rcases List.mem_cons.mp hm with hm | hm
      · exact hok id result hm
      · exact hall id result hm

/-- A nested run leaves nothing behind, whatever targets its filters share. -/
theorem nested_run_leaves_nothing (history : History) (slots : Slots) {operations : List Operation}
    (h : (Chronicle.mk [] history slots).Nested [] operations) :
    let c := (Chronicle.mk [] history slots).run operations
    (∀ id result, .reverted id result ∈ c.events → ∃ f, result = .ok ⟨f, id⟩) ∧
    c.history.entries = history.entries ∧ c.renderer = slots := by
  intro c
  have hnone : Piled history.entries slots [] history.entries slots := ⟨rfl, rfl⟩
  obtain ⟨⟨new, hnew, hall⟩, hend⟩ := h.run hnone
  obtain rfl : c.events = new := hnew
  exact ⟨hall, hend⟩

/-- A filter that hides all features of the given targets. -/
def hideOn (targets : List String) (priors : List (Option Predicate)) : Filter :=
  ⟨"wells", targets, .nothing, priors, ⟨"Wells Filter:", ""⟩⟩

def pointsHidden : History := (History.empty 0).record (hideOn ["points"] [none])

def pointsAndLabels : Slots := (Slots.empty.add "points" none).add "labels" (some (.any []))

/-- A filter on the points, twice, and the labels; one that fails on shapes, which there are
not; one on the labels alone. -/
def nestedOperations : List Operation :=
  [.apply (hideOn ["points", "points", "labels"] [none, none, some (.any [])]),
    .apply (hideOn ["labels", "shapes"] [some .nothing, none]),
    .apply (hideOn ["labels"] [some .nothing]), .revert ⟨2⟩, .revert ⟨1⟩]

/-- The older filter stays, and the labels have their own predicate again. -/
theorem nested_run_leaves_older_filter :
    let c := (Chronicle.mk [] pointsHidden pointsAndLabels).run nestedOperations
    (Chronicle.mk [] pointsHidden pointsAndLabels).Nested [] nestedOperations ∧
    c.events.map Event.fails = [false, true, false, false, false] ∧
    c.history.entries = [⟨hideOn ["points"] [none], ⟨0⟩⟩] ∧ c.renderer = pointsAndLabels := by
  intro c
  have hn : (Chronicle.mk [] pointsHidden pointsAndLabels).Nested [] nestedOperations := by
    decide +kernel
  obtain ⟨-, hentries, hslots⟩ := nested_run_leaves_nothing pointsHidden pointsAndLabels hn
  have holder : pointsHidden.entries = [⟨hideOn ["points"] [none], ⟨0⟩⟩] := rfl
  exact ⟨hn, by decide +kernel, hentries.trans holder, hslots⟩

end Chronicle

end FeatureSieve
