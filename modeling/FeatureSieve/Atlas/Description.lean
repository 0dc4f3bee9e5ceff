import FeatureSieve.Json.Printer
import FeatureSieve.Query.Basic

/-! # Atlas descriptions

The content of a configuration file. A description keeps what the file says,
target filters included, without judging it; unknown members are dropped and fields
that may be left out get their defaults.
-/

namespace FeatureSieve

open Json (Written)

structure TargetDescription where
  id : String
  filter : Option Json

structure FieldDescription where
  field : String
  name : String
  kind : ValueKind
  help : String
deriving DecidableEq

structure LayerDescription where
  id : String
  name : String
  description : String
  targets : List TargetDescription
  fields : List FieldDescription

structure AtlasDescription where
  layers : List LayerDescription

/-- Reads a field that may be left out. -/
def optionalField? {α : Type} (read? : Written → Option α) (default : α) : Option Written → Option α
  | none => some default
  | some w => read? w

def listOf? {α : Type} (read? : Written → Option α) (w : Written) : Option (List α) := do
  (← w.list?).mapM read?

namespace TargetDescription

/-- A filter stands inside five containers of the file. -/
def filterLimit : Nat := Json.nestingLimit - 5

def filter? [Json.DoubleReader] : Option Written → Option (Option Json)
  | none | some .null => some none
  | some w => (w.valueWithin? filterLimit).map some

def ofWritten? [Json.DoubleReader] (w : Written) : Option TargetDescription := do
  match ← w.fields? ["id", "filter"] with
  | [some id, filter] => return ⟨← id.string?, ← filter? filter⟩
  | _ => none

def toJson (t : TargetDescription) : Json :=
  .object (("id", .string t.id) :: (t.filter.map ("filter", ·)).toList)

end TargetDescription

namespace FieldDescription

def ofWritten? (w : Written) : Option FieldDescription := do
  match ← w.fields? ["field", "name", "type", "help"] with
  | [some field, some name, some kind, help] =>
    return ⟨← field.string?, ← name.string?, ← ValueKind.ofWritten? kind,
      ← optionalField? Written.string? "" help⟩
  | _ => none

def toJson (f : FieldDescription) : Json :=
  .object [("field", .string f.field), ("name", .string f.name), ("type", f.kind.toJson),
    ("help", .string f.help)]

end FieldDescription

namespace LayerDescription

def ofWritten? [Json.DoubleReader] (w : Written) : Option LayerDescription := do
  match ← w.fields? ["id", "name", "description", "targets", "fields"] with
  | [some id, some name, description, targets, fields] =>
    return ⟨← id.string?, ← name.string?, ← optionalField? Written.string? "" description,
      ← optionalField? (listOf? TargetDescription.ofWritten?) [] targets,
      ← optionalField? (listOf? FieldDescription.ofWritten?) [] fields⟩
  | _ => none

def toJson (l : LayerDescription) : Json :=
  .object [("id", .string l.id), ("name", .string l.name), ("description", .string l.description),
    ("targets", .array (l.targets.map TargetDescription.toJson)),
    ("fields", .array (l.fields.map FieldDescription.toJson))]

end LayerDescription

namespace AtlasDescription

def ofWritten? [Json.DoubleReader] (w : Written) : Option AtlasDescription := do
  match ← w.fields? ["layers"] with
  | [layers] => return ⟨← optionalField? (listOf? LayerDescription.ofWritten?) [] layers⟩
  | _ => none

def toJson (d : AtlasDescription) : Json :=
  .object [("layers", .array (d.layers.map LayerDescription.toJson))]

def text (d : AtlasDescription) : String := d.toJson.text

def read? [Json.DoubleReader] (text : String) : Option AtlasDescription :=
  (Written.read? text).bind ofWritten?

end AtlasDescription

end FeatureSieve
