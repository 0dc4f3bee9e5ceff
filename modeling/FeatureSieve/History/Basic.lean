import FeatureSieve.Failure

/-! # Histories of filters

The active filters, oldest first, and what each of them replaced. Applying pushes a
predicate to all targets or to none; reverting puts the prior predicates back. The
history does not keep filters from sharing a target: that is for screening to judge.
-/

namespace FeatureSieve

structure History where
  entries : List Entry
  nextNumber : Nat
  numbers_lt : ∀ e ∈ entries, e.id.number < nextNumber
  numbers_increase : entries.Pairwise (·.id.number < ·.id.number)

/-- The predicate for each target. -/
def Filter.pushes (f : Filter) : List Write := f.targets.map (⟨·, some f.predicate⟩)

/-- What each target held before. -/
def Filter.restores (f : Filter) : List Write := f.targets.zipWith Write.mk f.priors

namespace History

/-- A history without entries that goes on counting at `nextNumber`. -/
def empty (nextNumber : Nat) : History := ⟨[], nextNumber, by simp, .nil⟩

def entry? (history : History) (id : FilterId) : Option Entry := history.entries.find? (·.id = id)

/-- The oldest entry that concerns a layer or a target of the given name. -/
def entryOn? (history : History) (name : String) : Option Entry :=
  history.entries.find? (·.concerns name)

/-- Enters a filter as the latest one, under a new id. -/
def record (history : History) (f : Filter) : History where
  entries := history.entries ++ [⟨f, ⟨history.nextNumber⟩⟩]
  nextNumber := history.nextNumber + 1
  numbers_lt := by
    intro e he
    rcases List.mem_append.1 he with h | h
    · exact Nat.lt_succ_of_lt (history.numbers_lt e h)
    · rw [List.mem_singleton.1 h]
      exact Nat.lt_succ_self _
  numbers_increase := by
    rw [List.pairwise_append]
    refine ⟨history.numbers_increase, List.pairwise_singleton _ _, fun a ha b hb => ?_⟩
    rw [List.mem_singleton.1 hb]
    exact history.numbers_lt a ha

def remove (history : History) (id : FilterId) : History where
  entries := history.entries.filter (·.id ≠ id)
  nextNumber := history.nextNumber
  numbers_lt e he := history.numbers_lt e (List.mem_filter.1 he).1
  numbers_increase := history.numbers_increase.filter _

variable {ε : Type} [Renderer ε]

/-- Pushes a filter to its targets in order and enters it. After a refusal, the targets before
the refusing one are put back, and nothing is entered. -/
def apply (history : History) (renderer : ε) (f : Filter) : Except Failure FilterId × History × ε :=
  if f.targets = [] then (.error .noTargets, history, renderer)
  else if f.targets.length ≠ f.priors.length then
    (.error (.mismatchedPriors f.targets.length f.priors.length), history, renderer)
  else
    match Renderer.writeUntilRefused renderer f.pushes with
    | (none, renderer) => (.ok ⟨history.nextNumber⟩, history.record f, renderer)
    | (some stop, renderer) =>
      (.error (.renderer stop.target stop.refusal), history,
        Renderer.writeEach renderer (f.restores.take stop.accepted))

/-- Puts back what an entry replaced and removes it. After a refusal the entry stays, so that
reverting can be tried again. -/
def revert (history : History) (renderer : ε) (id : FilterId) : Except Failure Entry × History × ε :=
  match history.entry? id with
  | none => (.error (.entryNotFound id), history, renderer)
  | some entry =>
    match Renderer.writeUntilRefused renderer entry.restores with
    | (none, renderer) => (.ok entry, history.remove id, renderer)
    | (some stop, renderer) => (.error (.renderer stop.target stop.refusal), history, renderer)

end History

end FeatureSieve
