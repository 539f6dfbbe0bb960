import SampleSchema.Keyed
import SampleSchema.Tag
import SampleSchema.Number.Binary
import SampleSchema.Number.Shortest
import SampleSchema.Json.Printer
import SampleSchema.Json.Parser
import SampleSchema.Sample.Designation
import SampleSchema.Schema.Compare
import SampleSchema.Schema.Infer
import SampleSchema.Schema.Accepts
import SampleSchema.Schema.Relaxed
import SampleSchema.Schema.Wire
import SampleSchema.Reading.FromText
import SampleSchema.Reading.FromYaml
import SampleSchema.Error
import SampleSchema.Input.Decode
import SampleSchema.Settings
import SampleSchema.CommandLine.Program
import SampleSchema.Main
import SampleSchema.Proofs.Reduction
import SampleSchema.Proofs.Everywhere
import SampleSchema.Proofs.Upkeep
import SampleSchema.Proofs.Acceptance
import SampleSchema.Proofs.Instances
import SampleSchema.Proofs.Blocks
import SampleSchema.Proofs.Samples
import SampleSchema.Proofs.Survey
import SampleSchema.Proofs.Inference
import SampleSchema.Proofs.Reachable
import SampleSchema.Proofs.Totality
import SampleSchema.Proofs.Canonical
import SampleSchema.Proofs.Requirements
import SampleSchema.Proofs.Comparison
import SampleSchema.Proofs.Splitting
import SampleSchema.Proofs.Covering
import SampleSchema.Proofs.Paths
import SampleSchema.Proofs.Rejoining
import SampleSchema.Proofs.Exemplars
import SampleSchema.Proofs.Least
import SampleSchema.Proofs.Uniqueness
import SampleSchema.Proofs.Equivalence
import SampleSchema.Proofs.Congruence
import SampleSchema.Proofs.SelfCovering
import SampleSchema.Proofs.Repetition
import SampleSchema.Proofs.Increments
import SampleSchema.Proofs.Readback
import SampleSchema.Proofs.Nesting
import SampleSchema.Proofs.Failures
import SampleSchema.Proofs.Relaxation
import SampleSchema.Proofs.Leniency
import SampleSchema.Proofs.Wrapping
import SampleSchema.Proofs.Lines
import SampleSchema.Proofs.Dotted
import SampleSchema.Proofs.Rooted
import SampleSchema.Proofs.Retagging
