import GraphGate.Proofs.Batch
import GraphGate.Proofs.Execution.Isolation
import GraphGate.Proofs.Gateway
import GraphGate.Schema.Build
import GraphGate.Schema.Description
import GraphGate.Verbosity
import GraphGate.Proofs.Plan.Steps
import GraphGate.Proofs.Plan.Height
import GraphGate.Proofs.Plan.Fuel
import GraphGate.Proofs.Plan.Relevance
import GraphGate.Proofs.Failure
import GraphGate.Proofs.Plan.Cycles
import GraphGate.Proofs.Plan.Arguments
import GraphGate.Proofs.Json
import GraphGate.Proofs.Plan.Origin
import GraphGate.Proofs.Execution.Received
import GraphGate.Proofs.Query.Grounding
import GraphGate.Proofs.Plan.Variables
import GraphGate.Proofs.Execution.Winding
import GraphGate.Proofs.Execution.Unrolling
import GraphGate.Proofs.Execution.Attempts
import GraphGate.Proofs.Cancellation
import GraphGate.Proofs.Execution.Abreast
import GraphGate.Proofs.Execution.Parting
import GraphGate.Proofs.Interruption
import GraphGate.Proofs.Execution.Leaves
import GraphGate.Proofs.Request
import GraphGate.Proofs.Rejection
import GraphGate.Proofs.Schema.Closed
import GraphGate.Proofs.Plan.Refusals
import GraphGate.Proofs.Execution.Fallback
import GraphGate.Proofs.Json.Proper
import GraphGate.Proofs.Plan.Overlay
import GraphGate.Proofs.Shape
import GraphGate.Proofs.Encoding
import GraphGate.Proofs.Subscribers
import GraphGate.Proofs.Coercion.Idempotence
import GraphGate.Proofs.Faults
import GraphGate.Proofs.Schema.Acceptance
import GraphGate.Proofs.Plan.Pruning
import GraphGate.Proofs.Plan.Requirements
import GraphGate.Proofs.Policy
import GraphGate.Proofs.Environment
import GraphGate.Proofs.Clock.Alone
import GraphGate.Proofs.Timeout
import GraphGate.Proofs.Plan.Directives
import GraphGate.Proofs.Plan.Naming
import GraphGate.Proofs.Plan.Unset
import GraphGate.Proofs.Layers
import GraphGate.Proofs.TypeRef
