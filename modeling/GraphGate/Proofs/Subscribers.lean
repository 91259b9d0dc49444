import GraphGate.Proofs.Batch
import GraphGate.Proofs.Execution.Apart

/-! Subscribers influence a response by what they leave of resolved values, and by nothing else. -/
namespace GraphGate

open Execution

variable {ρ σ τ κ : Type}

/-- Somebody who writes a log of events, and may set a value in each of them. -/
structure Listener (κ : Type) where
  log : Event → κ → κ
  sets : Event → Option Json

namespace Listener

/-- What the listener leaves in an event. -/
def leaves (l : Listener κ) (event : Event) : Option Json := (l.sets event).or event.value

/-- A listener as a subscriber. It does not see the memory beside its log. -/
def subscriber (l : Listener κ) : Subscriber (τ × κ) :=
  fun event memory => (l.leaves event, (memory.1, l.log event memory.2))

/-- What becomes of a value in an event. -/
def change (l : Listener κ) (event : Event) (value : Json) : Json :=
  (l.sets { event with value }).getD value

/-- A listener that changes no value. -/
def Idle (l : Listener κ) : Prop := ∀ event value, l.change event value = value

theorem leaves_some (l : Listener κ) (event : Event) (value : Json) :
    l.leaves { event with value } = some (l.change event value) := Option.or_some

end Listener

abbrev Subscription (κ : Type) := Phase × Listener κ

namespace Subscription

/-- The dispatcher after some calls of `subscribe`. -/
def dispatcher (subscriptions : List (Subscription κ)) : Dispatcher (τ × κ) :=
  subscriptions.foldl (fun d (phase, l) => d.subscribe phase l.subscriber) .empty

/-- The listeners to a phase in their order. -/
def listeners (phase : Phase) (subscriptions : List (Subscription κ)) : List (Listener κ) :=
  (subscriptions.filter (·.1 = phase)).map Prod.snd

/-- What listeners leave in an event one after the other. -/
def left (ls : List (Listener κ)) (event : Event) : Option Json :=
  ls.foldl (fun value l => l.leaves { event with value }) event.value

/-- Changes of the value in an event, one after the other. -/
def composed (changes : List (Event → Json → Json)) (event : Event) (value : Json) : Json :=
  changes.foldl (fun value change => change event value) value

/-- What the subscribers to the second phase make of a dispatched value. -/
def change (subscriptions : List (Subscription κ)) (context : Context) (value : Json) : Json :=
  composed ((listeners .postResolve subscriptions).map Listener.change)
    (Context.event context none) value

/-- The changes that some subscriptions make, without those to the first phase and some of those
that change no value. -/
inductive Reduces : List (Subscription κ) → List (Event → Json → Json) → Prop
  | nil : Reduces [] []
  | early {l : Listener κ} {rest : List (Subscription κ)} {changes : List (Event → Json → Json)}
    (h : Reduces rest changes) : Reduces ((.preResolve, l) :: rest) changes
  | idle {l : Listener κ} {rest : List (Subscription κ)} {changes : List (Event → Json → Json)}
    (hl : l.Idle) (h : Reduces rest changes) : Reduces ((.postResolve, l) :: rest) changes
  | late {l : Listener κ} {rest : List (Subscription κ)} {changes : List (Event → Json → Json)}
    (h : Reduces rest changes) : Reduces ((.postResolve, l) :: rest) (l.change :: changes)

variable {subscriptions : List (Subscription κ)}

theorem subscribers_foldl (phase : Phase) (d : Dispatcher (τ × κ)) :
    (subscriptions.foldl (fun d (phase, l) => d.subscribe phase l.subscriber) d).subscribers phase =
      d.subscribers phase ++ (listeners phase subscriptions).map Listener.subscriber := by
  induction subscriptions generalizing d with
  | nil => simp [listeners]
  | cons first rest ih =>
    obtain ⟨phase', l⟩ := first
    rw [List.foldl_cons, ih]
    cases phase <;> cases phase' <;>
      simp [listeners, Dispatcher.subscribe, Dispatcher.subscribers]

/-- Calls for one phase do not come in between those for the other one. -/
theorem subscribers_dispatcher (phase : Phase) :
    (dispatcher subscriptions : Dispatcher (τ × κ)).subscribers phase =
      (listeners phase subscriptions).map Listener.subscriber := by
  rw [dispatcher, subscribers_foldl]
  cases phase <;> rfl

/-- Listeners follow one another, and leave alone what is not theirs. -/
theorem notify_listeners (ls : List (Listener κ)) (event : Event) (memory : τ × κ) :
    (Dispatcher.notify event memory (ls.map Listener.subscriber)).1 = left ls event ∧
      (Dispatcher.notify event memory (ls.map Listener.subscriber)).2.1 = memory.1 := by
  induction ls generalizing event memory with
  | nil => exact ⟨rfl, rfl⟩
  | cons l rest ih => exact ih { event with value := l.leaves event } _

/-- Once there is a value in an event, there always is one. -/
theorem left_some (ls : List (Listener κ)) (event : Event) (value : Json) :
    left ls { event with value } = some (composed (ls.map Listener.change) event value) := by
  induction ls generalizing value with
  | nil => rfl
  | cons l rest ih =>
    change left rest { event with value := l.leaves { event with value } } = _
    rw [l.leaves_some, ih]
    rfl

theorem changeOf_left :
    changeOf (fun phase => left (listeners phase subscriptions)) = change subscriptions := by
  funext context value
  change (left _ { Context.event context none with value }).getD .null = _
  rw [left_some]
  rfl

theorem change_of_reduces {changes : List (Event → Json → Json)}
    (h : Reduces subscriptions changes) :
    change subscriptions = fun context => composed changes (Context.event context none) := by
  suffices hc : ∀ event value,
      composed ((listeners .postResolve subscriptions).map Listener.change) event value =
        composed changes event value from funext fun _ => funext fun _ => hc _ _
  intro event
  induction h with
  | nil => exact fun _ => rfl
  | early _ ih => exact ih
  | @idle l _ _ hl _ ih =>
    intro value
    change composed _ event (l.change event value) = _
    rw [hl event value]
    exact ih value
  | @late l _ _ _ ih => exact fun value => ih (l.change event value)

theorem answers_dispatcher : (dispatcher subscriptions : Dispatcher (τ × κ)).sink.Answers Prod.fst
    fun phase => left (listeners phase subscriptions) where
  value phase event memory := by
    change (Dispatcher.notify event memory (Dispatcher.subscribers _ phase)).1 = _
    rw [subscribers_dispatcher]
    exact (notify_listeners _ event memory).1
  memory phase event memory := by
    change (Dispatcher.notify event memory (Dispatcher.subscribers _ phase)).2.1 = _
    rw [subscribers_dispatcher]
    exact (notify_listeners _ event memory).2

end Subscription

/-- A resolver's course beside a log that it does not see. -/
def Course.beside : Course τ → Course (τ × κ)
  | finish outcome => finish outcome
  | look next => look fun world => (next (world.seen Prod.fst)).beside
  | keep memory next => keep (Prod.map memory id) next.beside
  | cancel next => cancel next.beside
  | sleep ms next => sleep ms next.beside

theorem mirrors_beside (course : Course τ) :
    (course.beside : Course (τ × κ)).Mirrors Prod.fst course := by
  induction course with
  | finish outcome => exact .finish
  | look next ih => exact .look fun world => ih _
  | keep memory next ih => exact .keep (fun _ => rfl) ih
  | cancel next ih => exact .cancel ih
  | sleep ms next ih => exact .sleep ih

theorem mirrors_id (course : Course τ) : course.Mirrors id course := by
  induction course with
  | finish outcome => exact .finish
  | look next ih => exact .look ih
  | keep memory next ih => exact .keep (fun _ => rfl) ih
  | cancel next ih => exact .cancel ih
  | sleep ms next ih => exact .sleep ih

namespace Executor

/-- An executor that publishes its events to subscribers beside the resolvers, who know nothing of
them; whoever took notice of its events before does not any more. -/
def heardBy (e : Executor ρ τ) (subscriptions : List (Subscription κ)) : Executor ρ (τ × κ) where
  schema := e.schema
  registry := e.registry
  gate := e.gate
  sink := (Subscription.dispatcher subscriptions).sink
  resolvers resolver invocation := (e.resolvers resolver invocation).beside
  options := e.options
  root := e.root

/-- The execution of an entry without events, and with changed values. -/
def executeValued (e : Executor ρ τ) (change : Context → Json → Json) (entry : Entry) :
    Dialogue ρ Envelope :=
  match e.plan entry with
  | .error error => .done (.rejected (.ofPlan error))
  | .ok plan => Execution.executeValued change e.setting e.root plan

theorem heard_execute {answer : Phase → Event → Option Json} (e : Executor ρ τ) (entry : Entry) :
    (e.execute entry).heard answer = e.executeValued (changeOf answer) entry := by
  unfold execute executeValued
  cases e.plan entry with
  | error error => rfl
  | ok plan => exact Execution.heard_execute e.root

end Executor

namespace Gateway

/-- Carries out dialogues as a gateway does those of its entries. -/
def run (g : Gateway ρ σ) (stop : Option Nat) (now : Nat) (world : World σ)
    (ds : List (Dialogue ρ Envelope)) : Clock.Finish σ Envelope :=
  let tasks := ds.map g.executor.task
  if g.parallel then
    let attention := if tasks.length ≤ smallBatch then .everyone else .called
    Clock.together attention stop now world tasks
  else Clock.inTurn stop now world tasks

theorem resolveEntries_eq_run (g : Gateway ρ σ) (stop : Option Nat) (now : Nat) (world : World σ)
    (entries : List Entry) :
    g.resolveEntries stop now world entries =
      g.run stop now world (entries.map g.executor.execute) := by
  rw [resolveEntries, run, List.map_map]
  rfl

/-- Among surroundings that mirror each other, dialogues run alike once their events are
answered. -/
theorem run_heard {e : Executor ρ σ} {e' : Executor ρ τ} {view : σ → τ}
    {answer : Phase → Event → Option Json} (h : Mirrors view answer e.surroundings e'.surroundings)
    (parallel : Bool) (stop : Option Nat) (now : Nat) (world : World σ)
    (ds : List (Dialogue ρ Envelope)) :
    (⟨e', parallel⟩ : Gateway ρ τ).run stop now (world.seen view) (ds.map (·.heard answer)) =
      ((⟨e, parallel⟩ : Gateway ρ σ).run stop now world ds).seen view := by
  have htasks : List.Forall₂ (Task.Mirrors view) (ds.map e.task)
      ((ds.map (·.heard answer)).map e'.task) := by
    rw [List.map_map, List.forall₂_map_left_iff, List.forall₂_map_right_iff]
    exact List.forall₂_same.mpr fun d _ => mirrors_perform h d
  have hl : ((ds.map (·.heard answer)).map e'.task).length = (ds.map e.task).length :=
    htasks.length_eq.symm
  cases parallel with
  | true =>
    simp only [run, if_true]
    rw [hl]
    exact Clock.together_eq_of_mirrors _ now world htasks
  | false =>
    simp only [run, Bool.false_eq_true, if_false]
    exact Clock.inTurn_eq_of_mirrors now world htasks

variable {subscriptions : List (Subscription κ)}

theorem mirrors_heardBy (e : Executor ρ τ) : Mirrors Prod.fst
    (fun phase => Subscription.left (Subscription.listeners phase subscriptions))
    (e.heardBy subscriptions).surroundings e.surroundings where
  policy := rfl
  timeout := rfl
  sink := Subscription.answers_dispatcher
  resolvers _ _ := mirrors_beside _

theorem mirrors_silent (e : Executor ρ τ) : Mirrors id (fun _ => Event.value)
    { e with sink := .silent }.surroundings e.surroundings where
  policy := rfl
  timeout := rfl
  sink := ⟨fun _ _ _ => rfl, fun _ _ _ => rfl⟩
  resolvers _ _ := mirrors_id _

theorem map_heard_execute {answer : Phase → Event → Option Json} (e : Executor ρ τ)
    (entries : List Entry) : (entries.map e.execute).map (·.heard answer) =
      entries.map (e.executeValued (changeOf answer)) := by
  rw [List.map_map]
  exact List.map_congr_left fun entry _ => e.heard_execute entry

/-- A run with subscribers is one of executions without events, in which the composition of the
later subscribers has been applied to dispatched values before these are completed. -/
theorem resolveEntries_heardBy (e : Executor ρ τ) (subscriptions : List (Subscription κ))
    (parallel : Bool) (stop : Option Nat) (now : Nat) (world : World (τ × κ))
    (entries : List Entry) :
    ((⟨e.heardBy subscriptions, parallel⟩ : Gateway ρ (τ × κ)).resolveEntries stop now world
        entries).seen Prod.fst =
      (⟨e, parallel⟩ : Gateway ρ τ).run stop now (world.seen Prod.fst)
        (entries.map (e.executeValued (Subscription.change subscriptions))) := by
  rw [resolveEntries_eq_run, ← run_heard (mirrors_heardBy e), ← Subscription.changeOf_left]
  exact congrArg (run _ stop now _) (map_heard_execute e entries)

theorem resolveEntries_silent (e : Executor ρ τ) (parallel : Bool) (stop : Option Nat) (now : Nat)
    (world : World τ) (entries : List Entry) :
    (⟨{ e with sink := .silent }, parallel⟩ : Gateway ρ τ).resolveEntries stop now world entries =
      (⟨e, parallel⟩ : Gateway ρ τ).run stop now world
        (entries.map (e.executeValued fun _ value => value)) := by
  have h := run_heard (mirrors_silent e) parallel stop now world
    (entries.map { e with sink := .silent }.execute)
  rw [resolveEntries_eq_run]
  refine h.symm.trans ?_
  exact congrArg (run _ stop now _) (map_heard_execute e entries)

/-- All that subscribers do to a response they do to values that were dispatched. The run is that of
executions without events, in which the later subscribers, composed in their order, change each
dispatched value before it is completed. So subscriptions that make the same changes, in the same
order, have the same run, whatever was set before a resolution, was only logged, or came in between;
and if they make none, it is as if nobody took notice. -/
theorem subscribers_only_change_values (e : Executor ρ τ) (subscriptions : List (Subscription κ))
    (parallel : Bool) (stop : Option Nat) (now : Nat) (world : World (τ × κ))
    (entries : List Entry) :
    let finish := ((⟨e.heardBy subscriptions, parallel⟩ : Gateway ρ (τ × κ)).resolveEntries stop now
      world entries).seen Prod.fst
    finish = (⟨e, parallel⟩ : Gateway ρ τ).run stop now (world.seen Prod.fst)
        (entries.map (e.executeValued (Subscription.change subscriptions))) ∧
      (∀ (κ' : Type) (subscriptions' : List (Subscription κ')) (world' : World (τ × κ'))
        (changes : List (Event → Json → Json)),
        Subscription.Reduces subscriptions changes →
        Subscription.Reduces subscriptions' changes →
        world'.seen Prod.fst = world.seen Prod.fst →
        ((⟨e.heardBy subscriptions', parallel⟩ : Gateway ρ (τ × κ')).resolveEntries stop now world'
          entries).seen Prod.fst = finish) ∧
      (Subscription.Reduces subscriptions [] →
        finish = (⟨{ e with sink := .silent }, parallel⟩ : Gateway ρ τ).resolveEntries stop now
          (world.seen Prod.fst) entries) := by
  refine ⟨resolveEntries_heardBy e subscriptions parallel stop now world entries, ?_, ?_⟩
  · intro κ' subscriptions' world' changes h h' hw
    rw [resolveEntries_heardBy, resolveEntries_heardBy, hw, Subscription.change_of_reduces h,
      Subscription.change_of_reduces h']
  · intro h
    rw [resolveEntries_heardBy, resolveEntries_silent, Subscription.change_of_reduces h]
    rfl

end Gateway

end GraphGate

namespace GraphGate.Sample

/-- Sets a value before there is one. -/
def early : Listener (List Path) := ⟨fun event log => event.path :: log, fun _ => some (.bool true)⟩

/-- Only logs. -/
def logger : Listener (List Path) := ⟨fun event log => event.path :: log, fun _ => none⟩

/-- Puts values into lists. -/
def wrapper : Listener (List Path) := ⟨fun _ log => log, fun event => event.value.map (.arr [·])⟩

/-- The batch with some subscribers. -/
def heard (subscriptions : List (Subscription (List Path))) : Clock.Finish (List Path) Envelope :=
  ((⟨sleepy.heardBy subscriptions, true⟩ : Gateway Unit (List Path × List Path)).resolveEntries none
    0 ⟨false, [], []⟩ batch).seen Prod.fst

theorem subscribers_only_change_values_wrapper :
    heard [(.postResolve, logger), (.preResolve, early), (.postResolve, wrapper)] =
        heard [(.postResolve, wrapper)] ∧
      heard [(.postResolve, logger), (.preResolve, early)] =
        (⟨{ sleepy with sink := .silent }, true⟩ : Gateway Unit (List Path)).resolveEntries none 0
          ⟨false, []⟩ batch := by
  obtain ⟨-, hsame, -⟩ := Gateway.subscribers_only_change_values sleepy [(.postResolve, wrapper)]
    true none 0 ⟨false, [], []⟩ batch
  obtain ⟨-, -, hsilent⟩ := Gateway.subscribers_only_change_values sleepy
    [(.postResolve, logger), (.preResolve, early)] true none 0 ⟨false, [], []⟩ batch
  have hlogger : logger.Idle := fun _ _ => rfl
  exact ⟨hsame _ _ _ [wrapper.change] (.late .nil) (.idle hlogger (.early (.late .nil))) rfl,
    hsilent (.idle hlogger (.early .nil))⟩

end GraphGate.Sample
