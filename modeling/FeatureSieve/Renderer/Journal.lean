import FeatureSieve.Renderer.Basic

/-! # Journals

A renderer together with all writes that were tried on it, in order.
-/

namespace FeatureSieve

structure Attempt where
  write : Write
  accepted : Bool
deriving DecidableEq

structure Journal (ε : Type) where
  renderer : ε
  attempts : List Attempt

namespace Journal

variable {ε : Type} [Renderer ε]

def ofRenderer (renderer : ε) : Journal ε := ⟨renderer, []⟩

def write (journal : Journal ε) (w : Write) : Except Refusal Unit × Journal ε :=
  let (result, renderer) := Renderer.write journal.renderer w
  (result, ⟨renderer, journal.attempts ++ [⟨w, result.isOk⟩]⟩)

instance : Renderer (Journal ε) := ⟨fun journal => Renderer.held journal.renderer, write⟩

end Journal

end FeatureSieve
