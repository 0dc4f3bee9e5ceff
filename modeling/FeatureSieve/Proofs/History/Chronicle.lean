import FeatureSieve.Proofs.History.Outcomes
import FeatureSieve.Proofs.Query.Screening
import FeatureSieve.Proofs.Renderer.Slots
import FeatureSieve.Renderer.Journal

/-! # Histories and what happened

A chronicle keeps every event of a history, those that failed included. The entries of the
history are what the events have left active: filters that were applied and whose ids were
not reverted since, in the order in which they were applied. Nothing is assumed of the
renderer, of the targets of a filter or of its priors, so entries may be alike in all but
their ids.
-/

namespace FeatureSieve

inductive Operation where
  | apply (f : Filter)
  | revert (id : FilterId)
deriving DecidableEq

/-- An operation and what came of it. -/
inductive Event where
  | applied (f : Filter) (result : Except Failure FilterId)
  | reverted (id : FilterId) (result : Except Failure Entry)

namespace Event

/-- What a filter became when it was applied. -/
def entered : Event → Option Entry
  | applied f (.ok id) => some ⟨f, id⟩
  | _ => none

def withdraws (id : FilterId) : Event → Bool
  | reverted withdrawn (.ok _) => withdrawn = id
  | _ => false

def fails : Event → Bool
  | applied _ result => !result.isOk
  | reverted _ result => !result.isOk

/-- The entries that no later event withdraws. -/
def active : List Event → List Entry
  | [] => []
  | x :: later =>
    match x.entered with
    | some e => if later.any (withdraws e.id) then active later else e :: active later
    | none => active later

/-- The latest event withdraws some entries or enters one. -/
theorem active_concat (xs : List Event) (x : Event) :
    active (xs ++ [x]) = (active xs).filter (fun e => !x.withdraws e.id) ++ x.entered.toList := by
  induction xs with
  | nil => cases hx : x.entered <;> simp [active, hx]
  | cons y xs ih =>
    cases hy : y.entered with
    | none => simp [active, hy, ih]
    | some e =>
      have hany : (xs ++ [x]).any (withdraws e.id) =
          (xs.any (withdraws e.id) || x.withdraws e.id) := by
        simp
      by_cases hlater : xs.any (withdraws e.id) = true
      · simp [active, hy, hany, hlater, ih]
      · by_cases hx : x.withdraws e.id = true <;> simp [active, hy, hany, hlater, hx, ih]

end Event

namespace History

variable {ε : Type} [Renderer ε]

def perform (history : History) (renderer : ε) : Operation → Event × History × ε
  | .apply f =>
    let (result, history, renderer) := history.apply renderer f
    (.applied f result, history, renderer)
  | .revert id =>
    let (result, history, renderer) := history.revert renderer id
    (.reverted id result, history, renderer)

theorem entries_perform (history : History) (renderer : ε) (operation : Operation) :
    (history.perform renderer operation).2.1.entries =
      history.entries.filter (fun e => !(history.perform renderer operation).1.withdraws e.id) ++
        (history.perform renderer operation).1.entered.toList := by
  cases operation with
  | apply f =>
    rcases history.apply_ok_or_error renderer f with ⟨after, ha⟩ | ⟨failure, after, ha⟩
    · simp [perform, ha, record, Event.withdraws, Event.entered]
    · simp [perform, ha, Event.withdraws, Event.entered]
  | revert id =>
    rcases history.revert_ok_or_error renderer id with ⟨entry, after, hr⟩ | ⟨failure, after, hr⟩
    · simp [perform, hr, remove, Event.withdraws, Event.entered, eq_comm]
    · simp [perform, hr, Event.withdraws, Event.entered]

/-- What fails changes nothing. -/
theorem perform_of_fails {history : History} {renderer : ε} {operation : Operation}
    (h : (history.perform renderer operation).1.fails = true) :
    (history.perform renderer operation).2.1 = history := by
  cases operation with
  | apply f =>
    rcases history.apply_ok_or_error renderer f with ⟨after, ha⟩ | ⟨failure, after, ha⟩
    · simp [perform, ha, Event.fails, Except.isOk, Except.toBool] at h
    · simp only [perform, ha]
  | revert id =>
    rcases history.revert_ok_or_error renderer id with ⟨entry, after, hr⟩ | ⟨failure, after, hr⟩
    · simp [perform, hr, Event.fails, Except.isOk, Except.toBool] at h
    · simp only [perform, hr]

theorem revert_eq_entryNotFound_iff {history : History} {renderer : ε} {id : FilterId} :
    (history.revert renderer id).1 = .error (.entryNotFound id) ↔ history.entry? id = none := by
  constructor
  · intro h
    rcases history.revert_cases renderer id with ⟨-, he⟩ | ⟨entry, after, -, -, hr⟩ |
      ⟨entry, stop, after, -, -, hr⟩
    · exact he
    · simp [hr] at h
    · simp [hr] at h
  · intro h
    rw [revert_of_entry?_eq_none h]

theorem entry?_eq_none_iff {history : History} {id : FilterId} :
    history.entry? id = none ↔ ∀ e ∈ history.entries, e.id ≠ id := by
  unfold entry?
  simp

theorem entryOn?_eq_some_iff {history : History} {name : String} {e : Entry} :
    history.entryOn? name = some e ↔
      (e.layer = name ∨ name ∈ e.targets) ∧ ∃ older newer, history.entries = older ++ e :: newer ∧
        ∀ o ∈ older, ¬ (o.layer = name ∨ name ∈ o.targets) := by
  unfold entryOn?
  simp only [List.find?_eq_some_iff_append, Bool.not_eq_true', Filter.concerns_iff,
    ← Bool.not_eq_true]

theorem exists_entryOn?_iff {history : History} {name : String} :
    (∃ e, history.entryOn? name = some e) ↔ ∃ e ∈ history.entries, e.concerns name = true := by
  rw [← Option.isSome_iff_exists]
  exact List.find?_isSome

end History

/-- A history and its renderer, with all events that led there. -/
structure Chronicle (ε : Type) where
  events : List Event
  history : History
  renderer : ε

namespace Chronicle

variable {ε : Type} [Renderer ε]

def start (renderer : ε) (n : Nat) : Chronicle ε := ⟨[], .empty n, renderer⟩

def step (c : Chronicle ε) (operation : Operation) : Chronicle ε :=
  let (x, history, renderer) := c.history.perform c.renderer operation
  ⟨c.events ++ [x], history, renderer⟩

def run (c : Chronicle ε) (operations : List Operation) : Chronicle ε := operations.foldl step c

theorem entries_step {c : Chronicle ε} (h : c.history.entries = Event.active c.events)
    (operation : Operation) :
    (c.step operation).history.entries = Event.active (c.step operation).events := by
  have hp := c.history.entries_perform c.renderer operation
  rw [h] at hp
  exact hp.trans (Event.active_concat _ _).symm

theorem entries_run {c : Chronicle ε} (h : c.history.entries = Event.active c.events)
    (operations : List Operation) :
    (c.run operations).history.entries = Event.active (c.run operations).events := by
  induction operations generalizing c with
  | nil => exact h
  | cons operation rest ih => exact ih (entries_step h operation)

/-- The entries are what the events left active, and all that is asked of a history is answered
from them. -/
theorem entries_are_what_events_left (renderer : ε) (n : Nat) (operations : List Operation) :
    let c := (start renderer n).run operations
    c.history.entries = Event.active c.events ∧
    (∀ operation, (c.history.perform c.renderer operation).1.fails = true →
      (c.history.perform c.renderer operation).2.1 = c.history) ∧
    (∀ id e, c.history.entry? id = some e ↔ e ∈ Event.active c.events ∧ e.id = id) ∧
    (∀ id, (c.history.revert c.renderer id).1 = .error (.entryNotFound id) ↔
      ∀ e ∈ Event.active c.events, e.id ≠ id) ∧
    (∀ id, (∀ e ∈ Event.active c.events, e.id ≠ id) → ∀ attempts,
      (c.history.revert (Journal.mk c.renderer attempts) id).2.2.attempts = attempts) ∧
    (∀ name e, c.history.entryOn? name = some e ↔
      (e.layer = name ∨ name ∈ e.targets) ∧
      ∃ older newer, Event.active c.events = older ++ e :: newer ∧
        ∀ o ∈ older, ¬ (o.layer = name ∨ name ∈ o.targets)) ∧
    ∀ (operator : Operator) (text name : String),
      operator.screen text (some name) (some c.history.entries) = .error .layerAlreadyFiltered ↔
        text ≠ "" ∧ ∃ e, c.history.entryOn? name = some e := by
  intro c
  have hc : c.history.entries = Event.active c.events := entries_run (c := start renderer n) rfl _
  rw [← hc]
  refine ⟨rfl, fun _ => History.perform_of_fails, fun _ _ => History.entry?_eq_some_iff, ?_, ?_,
    fun _ _ => History.entryOn?_eq_some_iff, ?_⟩
  · intro id
    rw [History.revert_eq_entryNotFound_iff, History.entry?_eq_none_iff]
  · intro id h attempts
    rw [History.revert_of_entry?_eq_none (History.entry?_eq_none_iff.mpr h)]
  · intro operator text name
    rw [Operator.screen_eq_layerAlreadyFiltered_iff, History.exists_entryOn?_iff]

/-- A filter that lists its target twice. -/
def twiceListed : Filter :=
  ⟨"wells", ["wells", "wells"], .nothing, [none, some (.any [])], ⟨"Wells Filter:", ""⟩⟩

/-- The filter is applied twice, and a third time in vain; then the first one is reverted. -/
def appliedThrice : List Operation :=
  [.apply twiceListed, .apply twiceListed, .apply twiceListed, .revert ⟨0⟩]

/-- Only the fifth write is refused. -/
def refusesFifth : Fickle Slots :=
  ⟨Slots.empty.add "wells" none, fun n => if n = 4 then some ⟨["busy"]⟩ else none⟩

/-- Of two entries that are alike but for their ids, the one that was not reverted is active. -/
theorem second_is_what_events_left :
    let c := (start refusesFifth 0).run appliedThrice
    c.history.entries = [⟨twiceListed, ⟨1⟩⟩] ∧ (∀ e ∈ Event.active c.events, e.id ≠ ⟨0⟩) ∧
    (c.history.revert (Journal.mk c.renderer []) ⟨0⟩).2.2.attempts = [] := by
  intro c
  obtain ⟨he, -, -, -, hwrites, -⟩ := entries_are_what_events_left refusesFifth 0 appliedThrice
  have hactive : Event.active c.events = [⟨twiceListed, ⟨1⟩⟩] := by decide +kernel
  have hid : ∀ e ∈ Event.active c.events, e.id ≠ ⟨0⟩ := by
    rw [hactive]
    decide
  exact ⟨he.trans hactive, hid, hwrites ⟨0⟩ hid []⟩

end Chronicle

end FeatureSieve
