import FeatureSieve.Atlas.Build

/-! # Atlas files

An atlas is read from the content of a file, which may be missing or no text. The
file is named directly or by an environment variable.
-/

namespace FeatureSieve

inductive LoadFailure where
  | variableUnset
  | unreadable (path : String)
  /-- The content is no description; `path` is known where it came from a file. -/
  | unparsable (path : Option String)
  | fault (cause : AtlasFault)

def configurationVariable : String := "LAYER_FILTER_CONFIG"

def LoadFailure.message : LoadFailure → String
  | variableUnset => s!"{configurationVariable} is not set"
  | unreadable path => s!"Failed to read config file: {path}"
  | unparsable none => "Failed to parse layer filter configuration"
  | unparsable (some path) =>
    s!"Failed to parse config file: {path}: Failed to parse layer filter configuration"
  | fault cause => cause.message

variable [Json.DoubleReader]

namespace AtlasDescription

def ofText (path : Option String) (text : String) : Except LoadFailure AtlasDescription :=
  match read? text with
  | some d => .ok d
  | none => .error (.unparsable path)

/-- The description in a file of the given content; `none` stands for a file that cannot be read. -/
def ofFile (path : String) (content : Option ByteArray) : Except LoadFailure AtlasDescription :=
  match content.bind String.fromUTF8? with
  | some text => ofText (some path) text
  | none => .error (.unreadable path)

end AtlasDescription

namespace Atlas

def ofDescription (d : AtlasDescription) : Except LoadFailure Atlas :=
  (build d).mapError .fault

def ofText (text : String) : Except LoadFailure Atlas := do
  ofDescription (← AtlasDescription.ofText none text)

def ofFile (path : String) (content : Option ByteArray) : Except LoadFailure Atlas := do
  ofDescription (← AtlasDescription.ofFile path content)

/-- The atlas in the file that the environment variable names, if it is set. -/
def ofVariable (setting : Option String) (contentOf : String → Option ByteArray) :
    Except LoadFailure Atlas :=
  match setting with
  | some path => ofFile path (contentOf path)
  | none => .error .variableUnset

end Atlas

end FeatureSieve
