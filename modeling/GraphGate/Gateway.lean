import GraphGate.Execution.Run
import GraphGate.Request.Basic
import GraphGate.Settings

/-! The gateway: every entry of a request is planned and executed, one after the other or side by
side, and the response has the shape of the request. -/
namespace GraphGate

/-- What entries are executed on. -/
structure Executor (ρ σ : Type) where
  schema : Schema ρ
  registry : Registry ρ
  gate : Gate
  sink : Sink σ
  resolvers : ρ → Invocation → Course σ
  options : Options
  /-- The parent of the fields at the top. -/
  root : Json

namespace Executor

variable {ρ σ : Type}

def setting (e : Executor ρ σ) : Execution.Setting ρ :=
  ⟨e.schema, e.registry, e.gate.capabilities⟩

def surroundings (e : Executor ρ σ) : Execution.Surroundings ρ σ :=
  ⟨e.gate.policy, e.sink, e.resolvers, e.options.timeout⟩

/-- The plan of an entry. -/
def plan (e : Executor ρ σ) (entry : Entry) : Except PlanError Plan :=
  Plan.ofQuery e.schema e.options.depthLimit entry.query entry.operationName entry.bindings

/-- The execution of a plan. -/
def executePlan (e : Executor ρ σ) (plan : Plan) : Dialogue ρ Envelope :=
  Execution.execute e.setting e.root plan

/-- The execution of an entry; one without a plan is rejected. -/
def execute (e : Executor ρ σ) (entry : Entry) : Dialogue ρ Envelope :=
  match e.plan entry with
  | .error error => .done (.rejected (.ofPlan error))
  | .ok plan => e.executePlan plan

/-- The task of carrying a dialogue out. -/
def task {α : Type} (e : Executor ρ σ) (d : Dialogue ρ α) : Task σ α :=
  Execution.perform e.surroundings d

end Executor

inductive Response where
  | single (envelope : Envelope)
  | multi (envelopes : List Envelope)

structure Gateway (ρ σ : Type) where
  executor : Executor ρ σ
  /-- The entries of a batch run side by side. -/
  parallel : Bool

namespace Gateway

variable {ρ σ : Type}

/-- The largest number of entries side by side that are all looked at whenever something happens to
one of them. -/
def smallBatch : Nat := 30

/-- Runs entries; from the time `stop` on, everything is to stop. -/
def resolveEntries (g : Gateway ρ σ) (stop : Option Nat) (now : Nat) (world : World σ)
    (entries : List Entry) : Clock.Finish σ Envelope :=
  let tasks := entries.map fun entry => g.executor.task (g.executor.execute entry)
  if g.parallel then
    let attention := if tasks.length ≤ smallBatch then .everyone else .called
    Clock.together attention stop now world tasks
  else Clock.inTurn stop now world tasks

def response (isMulti : Bool) (envelopes : List Envelope) : Response :=
  if isMulti then .multi envelopes
  else .single (envelopes.head?.getD (.rejected (.ofPlan .missingQuery)))

/-- Answers a request, and tells the time and the world afterwards. -/
def resolve (g : Gateway ρ σ) (stop : Option Nat) (now : Nat) (world : World σ)
    (request : Request) : Nat × World σ × Response :=
  let batch := request.batch
  let finish := g.resolveEntries stop now world batch.entries
  (finish.now, finish.world, response batch.isMulti finish.results)

/-- Answers requests one after the other. -/
def resolveAll (g : Gateway ρ σ) (stop : Option Nat) (now : Nat) (world : World σ) :
    List Request → World σ × List Response
  | [] => (world, [])
  | request :: rest =>
    let (now, world, response) := g.resolve stop now world request
    let (world, responses) := g.resolveAll stop now world rest
    (world, response :: responses)

end Gateway

end GraphGate
