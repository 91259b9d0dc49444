import GraphGate.Proofs.Execution.Abreast
import GraphGate.Proofs.Execution.Parting
import GraphGate.Proofs.Execution.Unrolling
import GraphGate.Proofs.Batch

/-! An execution that is cut short, beside the same execution that is not. -/
namespace GraphGate

open Execution

variable {ρ σ : Type} {e : Executor ρ σ} {stop : Option Nat} {now : Nat} {world : World σ}
  {plan : Plan} {deeds deeds₁ deeds₂ : List (Deed ρ)} {envelope envelope₁ envelope₂ : Envelope}

/-- A way for the execution of a plan to go from its start to its end: what it does, and its
envelope. If everything is to stop before it starts, that is known from the first. -/
def Executor.Runs (e : Executor ρ σ) (stop : Option Nat) (now : Nat) (world : World σ) (plan : Plan)
    (deeds : List (Deed ρ)) (envelope : Envelope) : Prop :=
  ∃ notes last, Unrolls e.surroundings stop
      ⟨now, Clock.arrived stop now world, [.speaking (e.executePlan plan)]⟩ notes last ∧
    last.stands = [.speaking (.done envelope)] ∧ deedsOf 0 notes = deeds

theorem Clock.together_arrived {α : Type} {attention : Attention} {tasks : List (Task σ α)} :
    together attention stop now (arrived stop now world) tasks =
      together attention stop now world tasks := by
  have harrived : arrived stop now (arrived stop now world) = arrived stop now world :=
    arrived_of_aware aware_arrived
  unfold together
  rw [harrived]

/-- The run of a plan by itself is one of these ways. -/
theorem exists_runs (e : Executor ρ σ) (stop : Option Nat) (now : Nat) (world : World σ)
    (plan : Plan) : ∃ deeds envelope, e.Runs stop now world plan deeds envelope ∧
      (Clock.together .everyone stop now world [e.task (e.executePlan plan)]).results =
        [envelope] := by
  obtain ⟨notes, hu⟩ : Reaches e.surroundings stop
      ⟨now, Clock.arrived stop now world, [.speaking (e.executePlan plan)]⟩ (.ofFinish
        (Clock.together .everyone stop now (Clock.arrived stop now world)
          [e.task (e.executePlan plan)])) :=
    reaches_side_by_side .everyone [e.executePlan plan]
  rw [Clock.together_arrived] at hu
  generalize Clock.together .everyone stop now world [e.task (e.executePlan plan)] = finish at hu ⊢
  have hlength : finish.results.length = 1 := by
    simpa [Session.ofFinish, ended] using length_of_unrolls hu
  obtain ⟨envelope, hr⟩ := List.length_eq_one_iff.mp hlength
  refine ⟨_, envelope, ⟨notes, _, hu, ?_, rfl⟩, hr⟩
  rw [Session.ofFinish, hr]
  rfl

theorem gives_of_runs (h : e.Runs stop now world plan deeds envelope) :
    (execute e.setting e.root plan).Gives (deeds.filterMap Deed.exchange?) envelope := by
  obtain ⟨notes, last, hu, hl, rfl⟩ := h
  have hdone : (Stand.speaking (.done envelope) : Stand ρ σ Envelope).Gives [] envelope := .done
  have hlast : last.stands[0]? = some (.speaking (.done envelope)) := by rw [hl]; rfl
  have hg := gives_of_unrolls hu rfl hlast hdone
  rwa [List.append_nil] at hg

/-- The call at which a run is cut short: what was done before, and the fields at the top up to the
one for which, or below which, the call is made. -/
structure Cut (ρ : Type) where
  before : List (Deed ρ)
  resolver : ρ
  invocation : Invocation
  front : List FieldNode
  node : FieldNode

/-- The second of two runs of a plan is cut short: it is the first up to a call that is cancelled,
before any other is, and all that was completed until then stays. -/
structure Cut.Parts (cut : Cut ρ) (plan : Plan) (deeds₁ : List (Deed ρ)) (envelope₁ : Envelope)
    (deeds₂ : List (Deed ρ)) (envelope₂ : Envelope) : Prop where
  shared : cut.before <+: deeds₁
  cancelled : cut.before ++ [.heard (.called cut.resolver cut.invocation (.error .cancelled))] <+:
    deeds₂
  first : ∀ deed ∈ cut.before, ¬ deed.Cancels
  fields : cut.front ++ [cut.node] <+: plan.fields
  place : [.field cut.node.outputName] <+: cut.invocation.context.path
  kept : ∀ field ∈ cut.front, Envelope.Agree field.outputName envelope₁ envelope₂

/-- Cancellation keeps what was done. If everything is to stop at some time, a run of a plan is the
one in which nothing stops, or it is the same up to its first call that is cancelled; then the
fields at the top that were completed before have the same errors under them, and the same values
where both runs have data. What resolvers do and what they depend on makes no difference. The plan
by itself comes to its end in one of these runs. -/
theorem cancellation_keeps_completed {limit : Nat} {document : Query.Document}
    {name : Option String} {supplied : Table Json}
    (hp : Plan.ofDocument e.schema limit document name supplied = .ok plan) (now c : Nat)
    (world : World σ) :
    (∀ stop, ∃ deeds envelope, e.Runs stop now world plan deeds envelope ∧
      (Clock.together .everyone stop now world [e.task (e.executePlan plan)]).results =
        [envelope]) ∧
    ∀ deeds₁ envelope₁ deeds₂ envelope₂, e.Runs none now world plan deeds₁ envelope₁ →
      e.Runs (some c) now world plan deeds₂ envelope₂ →
        (deeds₂ = deeds₁ ∧ envelope₂ = envelope₁) ∨
          ∃ cut : Cut ρ, cut.Parts plan deeds₁ envelope₁ deeds₂ envelope₂ := by
  refine ⟨fun stop => exists_runs e stop now world plan, ?_⟩
  intro deeds₁ envelope₁ deeds₂ envelope₂ h₁ h₂
  have hg₁ := gives_of_runs h₁
  have hg₂ := gives_of_runs h₂
  obtain ⟨notes₁, last₁, hu₁, hl₁, rfl⟩ := h₁
  obtain ⟨notes₂, last₂, hu₂, hl₂, rfl⟩ := h₂
  refine (same_or_part_of_start hu₁ hu₂ hl₁ hl₂).imp_right ?_
  rintro ⟨before, after₁, after₂, deed, hd₁, hd₂, ⟨resolver, invocation, rfl⟩, hfirst⟩
  rw [hd₁, List.filterMap_append] at hg₁
  rw [hd₂, List.filterMap_append] at hg₂
  obtain ⟨type, ht, hw⟩ := Plan.exists_wellSelected_of_ofDocument hp
  obtain ⟨front, node, back, hfields, hplace, hkept⟩ := exists_agree_of_gives ht hw hg₁ hg₂
  refine ⟨⟨before, resolver, invocation, front, node⟩, ⟨after₁, hd₁.symm⟩, ⟨after₂, ?_⟩, hfirst,
    ⟨back, ?_⟩, hplace, hkept⟩
  · rw [hd₂, List.append_assoc, List.singleton_append]
  · rw [hfields, List.append_assoc, List.singleton_append]

end GraphGate

namespace GraphGate.Sample

open Execution

/-- The first user was found, and the second is given up. -/
def cutShort : Envelope :=
  ⟨.obj [("a", .obj [("name", .str "Ann")]), ("b", .null)],
    [.ofField (.cancelled "user") secondNode [.field "b"]]⟩

theorem runs_bothFound : ∃ deeds, sleepy.Runs none 0 ⟨false, []⟩ pairPlan deeds bothFound :=
  ⟨_, _, _, unrolls_move .askOperation (unrolls_publish rfl (unrolls_move .askField
    (unrolls_asleep rfl (by rintro _ ⟨⟩; decide) rfl (.wait
    (unrolls_awake rfl rfl (by decide) (unrolls_publish rfl
    (unrolls_publish rfl (unrolls_move .askField (unrolls_publish rfl
    (unrolls_publish rfl (unrolls_move .askField
    (unrolls_asleep rfl (by rintro _ ⟨⟩; decide) rfl (.wait
    (unrolls_awake rfl rfl (by decide) (unrolls_publish rfl
    (unrolls_publish rfl (unrolls_move .askField (unrolls_publish rfl
    .refl)))))))))))))))))), rfl, rfl⟩

theorem runs_cutShort : ∃ deeds, sleepy.Runs (some 30) 0 ⟨false, []⟩ pairPlan deeds cutShort :=
  ⟨_, _, _, unrolls_move .askOperation (unrolls_publish rfl (unrolls_move .askField
    (unrolls_asleep rfl (by rintro _ ⟨⟩; decide) rfl (.wait
    (unrolls_awake rfl rfl (by decide) (unrolls_publish rfl
    (unrolls_publish rfl (unrolls_move .askField (unrolls_publish rfl
    (unrolls_publish rfl (unrolls_move .askField
    (unrolls_asleep rfl (by rintro _ ⟨⟩; decide) rfl (.wait
    (unrolls_move (.dropped rfl) .refl)))))))))))))), rfl, rfl⟩

/-- A second user that takes too long does not make the first one unfound. -/
theorem cancellation_keeps_completed_cutShort : ∃ deeds₁ deeds₂ cut,
    sleepy.Runs none 0 ⟨false, []⟩ pairPlan deeds₁ bothFound ∧
    sleepy.Runs (some 30) 0 ⟨false, []⟩ pairPlan deeds₂ cutShort ∧
    Cut.Parts cut pairPlan deeds₁ bothFound deeds₂ cutShort := by
  obtain ⟨deeds₁, h₁⟩ := runs_bothFound
  obtain ⟨deeds₂, h₂⟩ := runs_cutShort
  rcases (cancellation_keeps_completed ofDocument_pairDocument 0 30 ⟨false, []⟩).2 deeds₁ bothFound
    deeds₂ cutShort h₁ h₂ with ⟨-, he⟩ | ⟨cut, hcut⟩
  · cases congrArg Envelope.errors he
  · exact ⟨deeds₁, deeds₂, cut, h₁, h₂, hcut⟩

end GraphGate.Sample
