import GraphGate.Gateway
import GraphGate.Proofs.Execution.Fallback
import GraphGate.Proofs.Execution.Steadiness
import GraphGate.Proofs.Execution.Unrolling
import GraphGate.Proofs.Plan.WellFormed

/-! Batches: the entries of a batch come to the same side by side as one after the other, and the
same as each of them alone. -/
namespace GraphGate

open Clock (Unfolds opening)

variable {ρ σ : Type}

/-- The tasks of a batch, in the order of its entries. -/
def Executor.tasks (e : Executor ρ σ) (entries : List Entry) : List (Task σ Envelope) :=
  entries.map fun entry => e.task (e.execute entry)

/-- What an entry comes to when it is executed alone from a time on, whatever is in the memory
then. -/
def Executor.Alone (e : Executor ρ σ) (stop : Option Nat) (now : Nat) (entry : Entry)
    (envelope : Envelope) : Prop :=
  ∀ parallel world, world.cancelled = false →
    ((⟨e, parallel⟩ : Gateway ρ σ).resolveEntries stop now world [entry]).results = [envelope]

/-- What entries come to side by side, in whatever order they get their turns. -/
def Executor.Beside (e : Executor ρ σ) (stop : Option Nat) (now : Nat) (entries : List Entry)
    (envelopes : List Envelope) : Prop :=
  ∀ world last, world.cancelled = false →
    Unfolds stop (opening stop now world (e.tasks entries)) last →
    (∀ s ∈ last.strands, s.Ended) → last.strands.filterMap Strand.result? = envelopes

variable {e : Executor ρ σ} {stop : Option Nat}

/-- The tasks of a batch come to envelopes of their own. -/
theorem exists_comes_tasks (hs : e.surroundings.Steady) (entries : List Entry) (stop : Option Nat)
    (now : Nat) : ∃ envelopes, List.Forall₂ (fun entry envelope =>
      (e.task (e.execute entry)).Comes stop now envelope) entries envelopes := by
  induction entries with
  | nil => exact ⟨[], .nil⟩
  | cons entry rest ih =>
    obtain ⟨envelope, he⟩ := Execution.exists_comes hs (e.execute entry) stop now
    obtain ⟨envelopes, hr⟩ := ih
    exact ⟨envelope :: envelopes, .cons he hr⟩

theorem comes_tasks {now : Nat} {entries : List Entry} {envelopes : List Envelope}
    (h : List.Forall₂ (fun entry envelope => (e.task (e.execute entry)).Comes stop now envelope)
      entries envelopes) : List.Forall₂ (Task.Comes stop now) (e.tasks entries) envelopes :=
  List.forall₂_map_left_iff.mpr h

theorem results_parallel {now : Nat} {entries : List Entry} {envelopes : List Envelope}
    {world : World σ} (h : List.Forall₂ (Task.Comes stop now) (e.tasks entries) envelopes)
    (hw : world.cancelled = false) :
    ((⟨e, true⟩ : Gateway ρ σ).resolveEntries stop now world entries).results = envelopes :=
  (Clock.comes_together h hw).1

theorem alone_of_comes {now : Nat} {entry : Entry} {envelope : Envelope}
    (h : (e.task (e.execute entry)).Comes stop now envelope) :
    e.Alone stop now entry envelope := by
  intro parallel world hw
  have hone : List.Forall₂ (Task.Comes stop now) (e.tasks [entry]) [envelope] := .cons h .nil
  cases parallel with
  | true => exact results_parallel hone hw
  | false =>
    have ht : (Clock.together .everyone stop now world (e.tasks [entry])).results = [envelope] :=
      (Clock.comes_together hone hw).1
    have hr : ((⟨e, false⟩ : Gateway ρ σ).resolveEntries stop now world [entry]).results =
        (Clock.together .everyone stop now world (e.tasks [entry])).results ++ [] := rfl
    rw [hr, ht, List.append_nil]

theorem results_one_by_one {now : Nat} {entries : List Entry} {envelopes : List Envelope}
    {world : World σ} (h : List.Forall₂ (Task.Comes none 0) (e.tasks entries) envelopes)
    (hw : world.cancelled = false) :
    ((⟨e, false⟩ : Gateway ρ σ).resolveEntries none now world entries).results = envelopes :=
  Clock.comes_inTurn h hw

/-- Where the answers of subscribers and resolvers are functions of what they are asked, a batch
gets the same envelopes in both modes and in every order of turns, one for each entry: the one that
the entry gets alone. Side by side this is so even if everything is to stop at some time. -/
theorem batch_modes_agree (hs : e.surroundings.Steady) (entries : List Entry) :
    (∃ envelopes, envelopes.length = entries.length ∧
      List.Forall₂ (fun entry envelope => ∀ now, e.Alone none now entry envelope)
        entries envelopes ∧
      ∀ now, e.Beside none now entries envelopes ∧
        ∀ parallel world, world.cancelled = false →
          ((⟨e, parallel⟩ : Gateway ρ σ).resolveEntries none now world entries).results =
            envelopes) ∧
      ∀ c, ∃ envelopes, envelopes.length = entries.length ∧
        List.Forall₂ (e.Alone (some c) 0) entries envelopes ∧
        e.Beside (some c) 0 entries envelopes ∧
        ∀ world, world.cancelled = false →
          ((⟨e, true⟩ : Gateway ρ σ).resolveEntries (some c) 0 world entries).results =
            envelopes := by
  constructor
  · obtain ⟨envelopes, h⟩ := exists_comes_tasks hs entries none 0
    have ht : List.Forall₂ (Task.Comes none 0) (e.tasks entries) envelopes := comes_tasks h
    refine ⟨envelopes, h.length_eq.symm, ?_, ?_⟩
    · exact h.imp fun _ _ h now => alone_of_comes (comes_at_any_time h)
    · intro now
      have hn : List.Forall₂ (Task.Comes none now) (e.tasks entries) envelopes :=
        ht.imp fun _ _ h => comes_at_any_time h
      refine ⟨fun world last => Clock.results_of_unfolds hn, ?_⟩
      intro parallel world hw
      cases parallel with
      | true => exact results_parallel hn hw
      | false => exact results_one_by_one ht hw
  · intro c
    obtain ⟨envelopes, h⟩ := exists_comes_tasks hs entries (some c) 0
    have ht : List.Forall₂ (Task.Comes (some c) 0) (e.tasks entries) envelopes := comes_tasks h
    exact ⟨envelopes, h.length_eq.symm, h.imp fun _ _ => alone_of_comes,
      fun world last => Clock.results_of_unfolds ht, fun world => results_parallel ht⟩

end GraphGate

namespace GraphGate.Sample

/-- Users are found after a while that is longer for longer ids, and not always in time. -/
def sleepy : Executor Unit (List Path) where
  schema := schema
  registry := .empty
  gate := ⟨.allowAll, ⟨true, true⟩⟩
  sink := ⟨fun _ event log => (event.value, event.path :: log)⟩
  resolvers := fun _ invocation =>
    .keep (invocation.context.path :: ·)
      (.sleep (20 * (((invocation.arguments.get? "id").bind Json.string?).getD "").length)
        (.finish (.value (.obj [("name", .str "Ann")]))))
  options := { Options.standard with timeout := some 50 }
  root := .null

theorem steady_sleepy : sleepy.surroundings.Steady where
  publish := fun _ event => ⟨event.value, fun _ => rfl⟩
  takes := fun _ _ => ⟨_, _, .keep (.sleep .finish)⟩

def batch : List Entry :=
  [⟨some "{ user(id: 777) { name } }", none, []⟩, ⟨some "{ user(id: 7) { name } }", none, []⟩]

theorem batch_modes_agree_sleepy : sleepy.surroundings.Steady ∧
    ∃ envelopes : List Envelope, envelopes.length = 2 ∧ ∀ parallel,
      ((⟨sleepy, parallel⟩ : Gateway Unit (List Path)).resolveEntries none 0 ⟨false, []⟩
        batch).results = envelopes := by
  obtain ⟨⟨envelopes, hl, -, h⟩, -⟩ := batch_modes_agree steady_sleepy batch
  exact ⟨steady_sleepy, envelopes, hl, fun parallel => (h 0).2 parallel ⟨false, []⟩ rfl⟩

/-- The entry that asks for the user with the id 7. -/
def asking : Entry := ⟨some "{ user(id: 7) { name } }", none, []⟩

theorem plan_asking : sleepy.plan asking = .ok plan := by
  have hblank : Text.isBlankText "{ user(id: 7) { name } }" = false := by decide +kernel
  have hplan : Plan.ofDocument schema 64 document none [] = .ok plan := by cbv
  rw [Executor.plan, asking, Plan.ofQuery, hblank, if_neg Bool.false_ne_true, parse_document]
  exact hplan

theorem execute_asking : sleepy.execute asking = sleepy.executePlan plan := by
  rw [Executor.execute, plan_asking]

theorem session_asking {now : Nat} {world : World (List Path)} :
    sleepy.session now world [asking] = ⟨now, world, [.speaking (sleepy.executePlan plan)]⟩ := by
  rw [← execute_asking]
  rfl

end GraphGate.Sample
