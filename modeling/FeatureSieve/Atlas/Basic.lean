import FeatureSieve.Predicate.Basic
import FeatureSieve.Query.Basic

/-! # Atlases

The layers that can be filtered, each with its fields and with the renderer targets
that share its filter.
-/

namespace FeatureSieve

/-- A target and the predicate it holds before any filter. -/
structure Target where
  id : String
  default : Option Predicate
deriving DecidableEq

structure Field where
  name : String
  title : String
  kind : ValueKind
  help : String
deriving DecidableEq

structure Layer where
  id : String
  name : String
  description : String
  targets : List Target
  fields : List Field
deriving DecidableEq

def Layer.field? (layer : Layer) (name : String) : Option Field :=
  layer.fields.find? (·.name = name)

def Layer.targetIds (layer : Layer) : List String := layer.targets.map Target.id

structure Atlas where
  layers : List Layer
deriving DecidableEq

namespace Atlas

def layer? (atlas : Atlas) (id : String) : Option Layer := atlas.layers.find? (·.id = id)

def field? (atlas : Atlas) (layer field : String) : Option Field :=
  (atlas.layer? layer).bind (·.field? field)

def targets (atlas : Atlas) : List Target := atlas.layers.flatMap Layer.targets

end Atlas

end FeatureSieve
