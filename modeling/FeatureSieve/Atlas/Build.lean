import FeatureSieve.Atlas.Basic
import FeatureSieve.Atlas.Description
import FeatureSieve.Predicate.Encoding

/-! # Atlases from descriptions

Layers are taken one by one and judged as they come. Only when all stand are their
targets compared: each belongs to one layer, and none is named like another layer.
-/

namespace FeatureSieve

inductive AtlasFault where
  | emptyLayerId
  | tooManyTargets (layer : String) (count : Nat)
  | filter (target : String) (cause : Malformed)
  | duplicateField (field layer : String)
  | duplicateLayer (layer : String)
  | sharedTarget (target owner layer : String)
  | targetIsLayer (target layer : String)

/-- A shape and its labels: the most that one layer has. -/
def maxTargets : Nat := 2

def AtlasFault.message : AtlasFault → String
  | emptyLayerId => "Layer id must not be empty"
  | tooManyTargets layer count =>
    s!"Layer {layer} lists {count} targets, at most {maxTargets} are supported"
  | filter target cause => s!"Invalid default filter for target {target}: {cause.message}"
  | duplicateField field layer => s!"Duplicate field {field} on layer {layer}"
  | duplicateLayer layer => s!"Duplicate layer id: {layer}"
  | sharedTarget target owner layer =>
    s!"Target {target} is listed by both layer {owner} and layer {layer}"
  | targetIsLayer target layer => s!"Target {target} of layer {layer} is also a layer id"

/-- The first name that repeats an earlier one. -/
def firstRepeated? : List String → Option String
  | names => go [] names
where
  go (seen : List String) : List String → Option String
    | [] => none
    | name :: rest => if name ∈ seen then some name else go (name :: seen) rest

def Target.ofDescription (d : TargetDescription) : Except AtlasFault Target :=
  match d.filter with
  | none => .ok ⟨d.id, none⟩
  | some filter =>
    match Predicate.ofJson filter with
    | .ok p => .ok ⟨d.id, some p⟩
    | .error cause => .error (.filter d.id cause)

def Field.ofDescription (d : FieldDescription) : Field := ⟨d.field, d.name, d.kind, d.help⟩

/-- A layer without targets of its own is its own target. -/
def LayerDescription.targetsOrSelf (d : LayerDescription) : List TargetDescription :=
  if d.targets.isEmpty then [⟨d.id, none⟩] else d.targets

def Layer.ofDescription (d : LayerDescription) : Except AtlasFault Layer := do
  if d.id.isEmpty then throw .emptyLayerId
  if maxTargets < d.targets.length then throw (.tooManyTargets d.id d.targets.length)
  let targets ← d.targetsOrSelf.mapM Target.ofDescription
  match firstRepeated? (d.fields.map FieldDescription.field) with
  | some field => throw (.duplicateField field d.id)
  | none => return ⟨d.id, d.name, d.description, targets, d.fields.map Field.ofDescription⟩

namespace Atlas

/-- Adds the described layers after the layers in hand. -/
def extend (layers : List Layer) : List LayerDescription → Except AtlasFault (List Layer)
  | [] => .ok layers
  | d :: rest => do
    let layer ← Layer.ofDescription d
    if layer.id ∈ layers.map Layer.id then throw (.duplicateLayer layer.id)
    extend (layers ++ [layer]) rest

/-- The targets of all layers with the layers that list them. -/
def listings (layers : List Layer) : List (String × String) :=
  layers.flatMap fun layer => layer.targetIds.map (·, layer.id)

/-- The first listing of a target that an earlier listing or the name of a layer contradicts. -/
def contradiction? (layerIds : List String) :
    (earlier : List (String × String)) → List (String × String) → Option AtlasFault
  | _, [] => none
  | earlier, (target, layer) :: rest =>
    match Keyed.get? target earlier with
    | some owner => some (.sharedTarget target owner layer)
    | none =>
      if target ≠ layer ∧ target ∈ layerIds then some (.targetIsLayer target layer)
      else contradiction? layerIds ((target, layer) :: earlier) rest

def build (d : AtlasDescription) : Except AtlasFault Atlas := do
  let layers ← extend [] d.layers
  match contradiction? (layers.map Layer.id) [] (listings layers) with
  | some fault => throw fault
  | none => return ⟨layers⟩

end Atlas

end FeatureSieve
