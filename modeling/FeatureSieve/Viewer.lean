import FeatureSieve.Atlas.Basic
import FeatureSieve.History.Basic
import FeatureSieve.Query.Predicate
import FeatureSieve.Query.Submission

/-! # Viewers

The state of one viewing: an atlas, a renderer and the history of active filters. A
submission is judged first and reaches the renderer only if nothing speaks against it.
-/

namespace FeatureSieve

structure Viewer (ε : Type) where
  atlas : Atlas
  renderer : ε
  history : History

namespace Viewer

variable {ε : Type}

/-- A viewer without active filters, whose entries are numbered from `nextNumber`. -/
def start (atlas : Atlas) (renderer : ε) (nextNumber : Nat) : Viewer ε :=
  ⟨atlas, renderer, .empty nextNumber⟩

/-- A new viewer on the renderer as it was left. -/
def restart (s : Viewer ε) : Viewer ε := start s.atlas s.renderer s.history.nextNumber

/-- The operators to offer for a field, once a known layer and field are picked. -/
def operatorsFor (s : Viewer ε) (layer field : String) : Option (List Operator) :=
  (s.atlas.field? layer field).map (·.kind.operators)

/-- What is wrong with the typed text as it stands. -/
def check (s : Viewer ε) (i : Submission) : Except Rejection Unit :=
  i.operator.screen i.text (some i.layer) (some s.history.entries)

/-- The layer and field of a submission against which nothing speaks. -/
def judge (s : Viewer ε) (i : Submission) : Except Failure (Layer × Field) :=
  match s.atlas.layer? i.layer with
  | none => .error (.unknownLayer i.layer)
  | some layer =>
    match layer.field? i.field with
    | none => .error (.unknownField i.layer i.field)
    | some field =>
      if i.operator ∉ field.kind.operators then
        .error (.operatorNotApplicable field.name i.operator)
      else
        match s.check i with
        | .error rejection => .error (.rejected rejection)
        | .ok () => .ok (layer, field)

def caption (layer : Layer) (field : Field) (i : Submission) : Caption where
  title := s!"{layer.name} Filter:"
  body := s!"{field.title} {i.operator.symbol} {i.text}"

variable [Renderer ε]

/-- The filter of a submission, with what the renderer holds for each target of the layer. -/
def filter (s : Viewer ε) (layer : Layer) (field : Field) (i : Submission) : Filter where
  layer := layer.id
  targets := layer.targetIds
  predicate := i.operator.predicate field.name i.text
  priors := layer.targetIds.map (Renderer.held s.renderer)
  caption := caption layer field i

def submit (s : Viewer ε) (i : Submission) : Except Failure FilterId × Viewer ε :=
  match s.judge i with
  | .error failure => (.error failure, s)
  | .ok (layer, field) =>
    let (result, history, renderer) := s.history.apply s.renderer (s.filter layer field i)
    (result, { s with history, renderer })

def revert (s : Viewer ε) (id : FilterId) : Except Failure Entry × Viewer ε :=
  let (result, history, renderer) := s.history.revert s.renderer id
  (result, { s with history, renderer })

end Viewer

end FeatureSieve
