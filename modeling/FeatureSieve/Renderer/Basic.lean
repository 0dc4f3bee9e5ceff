import FeatureSieve.Predicate.Basic

/-! # Renderers

A renderer holds a predicate per target and may refuse to have one written. Nothing
else is assumed of it: what it answers and refuses is its own affair.
-/

namespace FeatureSieve

/-- The predicate that a target is to hold; `none` clears it. -/
structure Write where
  target : String
  value : Option Predicate
deriving DecidableEq

/-- The reasons of a refused write, each caused by the next. -/
structure Refusal where
  causes : List String
deriving DecidableEq

def Refusal.text (refusal : Refusal) : String := ": ".intercalate refusal.causes

class Renderer (ε : Type) where
  /-- The predicate of a target; `none` where it has none or is not known. -/
  held : ε → String → Option Predicate
  write : ε → Write → Except Refusal Unit × ε

namespace Renderer

variable {ε : Type} [Renderer ε]

/-- The first refused write of a sequence, after so many accepted ones. -/
structure Interruption where
  accepted : Nat
  target : String
  refusal : Refusal
deriving DecidableEq

def Interruption.later (i : Interruption) : Interruption := { i with accepted := i.accepted + 1 }

/-- Writes in order up to the first refusal. -/
def writeUntilRefused (renderer : ε) : List Write → Option Interruption × ε
  | [] => (none, renderer)
  | w :: rest =>
    match write renderer w with
    | (.error refusal, renderer) => (some ⟨0, w.target, refusal⟩, renderer)
    | (.ok (), renderer) =>
      let (interruption, renderer) := writeUntilRefused renderer rest
      (interruption.map Interruption.later, renderer)

/-- Writes all in order, whether they are refused or not. -/
def writeEach (renderer : ε) (writes : List Write) : ε :=
  writes.foldl (fun renderer w => (write renderer w).2) renderer

end Renderer

end FeatureSieve
