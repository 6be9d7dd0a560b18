import Formula.Session.Step
import Formula.Proofs.Graph.Links
import Formula.Proofs.Graph.Fold
import Formula.Proofs.Graph.Loop
import Formula.Proofs.Graph.Acyclic
import Formula.Proofs.Graph.Nesting
import Formula.Proofs.Graph.Unfolding
import Formula.Proofs.Graph.Unrolling
import Formula.Proofs.Plan
import Formula.Proofs.Plan.Spine
import Formula.Proofs.Plan.Path
import Formula.Proofs.Plan.Growth
import Formula.Proofs.Plan.Item
import Formula.Proofs.Plan.Renaming
import Formula.Proofs.Plan.Reading
import Formula.Proofs.Plan.Violations
import Formula.Proofs.Plan.Release
import Formula.Proofs.Token.Spacing
import Formula.Proofs.Token.Layout
import Formula.Proofs.Decimal.Plain
import Formula.Proofs.Grammar
import Formula.Proofs.Builder.Invariant
import Formula.Proofs.Builder.Run
import Formula.Proofs.Builder.Feed
import Formula.Proofs.Builder.Shape
import Formula.Proofs.Builder.Pending
import Formula.Proofs.Precedence
import Formula.Proofs.Parse
import Formula.Proofs.Builder.Chain
import Formula.Proofs.Builder.Readiness
import Formula.Proofs.Worker.Calls
import Formula.Proofs.Worker.Transcript
import Formula.Proofs.Worker.LeftOperands
import Formula.Proofs.Worker.SourceOrder
import Formula.Proofs.Workshop
import Formula.Proofs.Joining
import Formula.Proofs.Refusal
import Formula.Proofs.Streaming
import Formula.Proofs.Rendering
import Formula.Proofs.Rereading
import Formula.Proofs.AlgebraicForm
import Formula.Proofs.Validity
import Formula.Proofs.Accounting
import Formula.Proofs.RightSpine
import Formula.Proofs.Evaluation
import Formula.Proofs.Traversal
import Formula.Proofs.Lifetime
import Formula.Proofs.Log.Console
import Formula.Proofs.Log.Roster
import Formula.Proofs.Log.Hearing
import Formula.Proofs.Tracing
