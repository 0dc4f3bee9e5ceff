import FeatureSieve.Atlas.File
import FeatureSieve.Atlas.Prose
import FeatureSieve.Number.Layout
import FeatureSieve.Renderer.Journal
import FeatureSieve.Renderer.Outage
import FeatureSieve.Renderer.Slots
import FeatureSieve.Viewer
import FeatureSieve.Proofs.Atlas.Exclusive
import FeatureSieve.Proofs.Atlas.Acceptance
import FeatureSieve.Proofs.History.Outcomes
import FeatureSieve.Proofs.Renderer.Journal
import FeatureSieve.Proofs.Renderer.Slots
import FeatureSieve.Proofs.Viewer.Run
import FeatureSieve.Proofs.Query.Screening
import FeatureSieve.Proofs.Viewer.OneFilter
import FeatureSieve.Proofs.Viewer.Baseline
import FeatureSieve.Proofs.Predicate.RoundTrip
import FeatureSieve.Proofs.Predicate.Normalization
import FeatureSieve.Proofs.Predicate.Grammar
import FeatureSieve.Proofs.Query.Predicate
import FeatureSieve.Proofs.Viewer.Attempts
import FeatureSieve.Proofs.Number.Value
import FeatureSieve.Proofs.Number.Nearest
import FeatureSieve.Proofs.Query.Meaning
import FeatureSieve.Proofs.Viewer.Shown
import FeatureSieve.Proofs.History.Chronicle
import FeatureSieve.Proofs.History.Locality
import FeatureSieve.Proofs.Viewer.Apart
import FeatureSieve.Proofs.Renderer.Faithful
import FeatureSieve.Proofs.History.Rollback
import FeatureSieve.Proofs.History.Reversion
import FeatureSieve.Proofs.Viewer.Restoration
import FeatureSieve.Proofs.Viewer.Verdict
import FeatureSieve.Proofs.Renderer.Overwriting
import FeatureSieve.Proofs.History.Nesting
import FeatureSieve.Proofs.Number.Overflow
import FeatureSieve.Proofs.Number.Decimal
import FeatureSieve.Proofs.Number.Plain
import FeatureSieve.Proofs.Query.Rules
import FeatureSieve.Proofs.Query.Agreement
import FeatureSieve.Proofs.Query.Trichotomy
import FeatureSieve.Proofs.Predicate.Denotation
import FeatureSieve.Proofs.Keyed
import FeatureSieve.Proofs.Atlas.Contents
import FeatureSieve.Proofs.Number.Layout
import FeatureSieve.Proofs.Number.Scaling
import FeatureSieve.Proofs.Number.Shortest
import FeatureSieve.Proofs.Json.Numeral
import FeatureSieve.Proofs.Json.Quoted
import FeatureSieve.Proofs.Json.Text
import FeatureSieve.Proofs.Predicate.Text
import FeatureSieve.Proofs.Number.Grid
import FeatureSieve.Proofs.Number.Fewest
import FeatureSieve.Proofs.Number.Point
import FeatureSieve.Proofs.Query.Retyping
import FeatureSieve.Proofs.Json.Record
import FeatureSieve.Proofs.Json.Value
import FeatureSieve.Proofs.Atlas.Rewriting
import FeatureSieve.Proofs.Viewer.Dependence
import FeatureSieve.Proofs.Query.Submission
