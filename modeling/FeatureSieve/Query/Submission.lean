import FeatureSieve.Json.Printer
import FeatureSieve.Query.Basic

/-! # Submissions

What was picked and typed for one filter: a layer, a field, an operator and a text.
-/

namespace FeatureSieve

structure Submission where
  layer : String
  field : String
  operator : Operator
  text : String
deriving DecidableEq

namespace Submission

def fieldNames : List String := ["layer_id", "field", "operator", "text"]

def toJson (s : Submission) : Json :=
  .object (fieldNames.zip [.string s.layer, .string s.field, s.operator.toJson, .string s.text])

/-- All four fields have to be present. -/
def ofWritten? (w : Json.Written) : Option Submission := do
  match ← w.fields? fieldNames with
  | [some layer, some field, some operator, some text] =>
    return ⟨← layer.string?, ← field.string?, ← Operator.ofWritten? operator, ← text.string?⟩
  | _ => none

def read? (text : String) : Option Submission := (Json.Written.read? text).bind ofWritten?

end Submission

end FeatureSieve
