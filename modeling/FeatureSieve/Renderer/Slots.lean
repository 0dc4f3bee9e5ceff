import FeatureSieve.Atlas.Basic
import FeatureSieve.Renderer.Basic
import FeatureSieve.Predicate.Meaning

/-! # Slots

The renderer that keeps one slot for each target it knows, in the order in which they
were added, and refuses writes to all others.
-/

namespace FeatureSieve

structure Slots where
  table : Keyed (Option Predicate)
deriving DecidableEq

namespace Slots

def empty : Slots := ⟨[]⟩

def add (slots : Slots) (target : String) (value : Option Predicate) : Slots :=
  ⟨slots.table.put target value⟩

def knows (slots : Slots) (target : String) : Bool := (slots.table.get? target).isSome

def held (slots : Slots) (target : String) : Option Predicate := (slots.table.get? target).join

def write (slots : Slots) (w : Write) : Except Refusal Unit × Slots :=
  if slots.knows w.target then (.ok (), slots.add w.target w.value)
  else (.error ⟨[s!"Unknown target: {w.target}"]⟩, slots)

instance : Renderer Slots := ⟨held, write⟩

/-- The targets of an atlas with their default predicates. -/
def ofAtlas (atlas : Atlas) : Slots :=
  atlas.targets.foldl (fun slots target => slots.add target.id target.default) empty

/-- Whether a feature of a target is shown; without a predicate all are. -/
def shows (slots : Slots) (target : String) (feature : Feature) : Bool :=
  match slots.table.get? target with
  | some (some p) => p.selects feature
  | some none => true
  | none => false

/-- The features of a target that its predicate lets through. -/
def shown (slots : Slots) (target : String) (features : List Feature) : List Feature :=
  features.filter (slots.shows target)

end Slots

end FeatureSieve
