import FeatureSieve.Renderer.Basic
import FeatureSieve.Keyed

/-! # Outages

A renderer whose targets can fail: after so many more writes to a target, it refuses
all others with a given reason until the outage ends.
-/

namespace FeatureSieve

structure Outage where
  remaining : Nat
  refusal : Refusal
deriving DecidableEq

structure Faltering (ε : Type) where
  renderer : ε
  outages : Keyed Outage

namespace Faltering

variable {ε : Type} [Renderer ε]

def ofRenderer (renderer : ε) : Faltering ε := ⟨renderer, []⟩

def fail (f : Faltering ε) (target : String) (outage : Outage) : Faltering ε :=
  { f with outages := f.outages.put target outage }

def heal (f : Faltering ε) (target : String) : Faltering ε :=
  { f with outages := f.outages.filter (·.1 ≠ target) }

def pass (f : Faltering ε) (w : Write) : Except Refusal Unit × Faltering ε :=
  let (result, renderer) := Renderer.write f.renderer w
  (result, { f with renderer })

/-- Each attempt counts against the remaining ones, accepted or not. -/
def write (f : Faltering ε) (w : Write) : Except Refusal Unit × Faltering ε :=
  match f.outages.get? w.target with
  | none => f.pass w
  | some ⟨0, refusal⟩ => (.error refusal, f)
  | some ⟨remaining + 1, refusal⟩ => (f.fail w.target ⟨remaining, refusal⟩).pass w

instance : Renderer (Faltering ε) := ⟨fun f => Renderer.held f.renderer, write⟩

end Faltering

end FeatureSieve
