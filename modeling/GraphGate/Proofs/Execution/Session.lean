import GraphGate.Execution.Run
import GraphGate.Proofs.Clock.Timeline
import GraphGate.Proofs.Execution.Transcript

/-! Executions beside each other, move by move: every question with its answer, every start of a
resolver, and every wait with its end, each at its time. -/
namespace GraphGate

namespace Execution

variable {ρ σ α : Type}

/-- A resolver's call on its way. -/
structure Ongoing (ρ σ α : Type) where
  resolver : ρ
  invocation : Invocation
  /-- How the execution goes on with the result. -/
  next : CallResult → Dialogue ρ α
  /-- What is left of the time that the call may take. -/
  left : Option Nat
  course : Course σ

/-- Where an execution stands. A call that waits goes on with its course when the time is due, or is
`late` then. -/
inductive Stand (ρ σ α : Type) where
  | speaking (d : Dialogue ρ α)
  | working (call : Ongoing ρ σ α)
  | waiting (due : Nat) (late : Bool) (call : Ongoing ρ σ α)

/-- What an execution does in one move. -/
inductive Deed (ρ : Type) where
  | heard (x : Exchange ρ)
  | started (resolver : ρ) (invocation : Invocation)
  | worked (resolver : ρ) (invocation : Invocation)
  | slept (resolver : ρ) (invocation : Invocation)
  | woke (resolver : ρ) (invocation : Invocation)

def Deed.exchange? : Deed ρ → Option (Exchange ρ)
  | heard x => some x
  | started .. | worked .. | slept .. | woke .. => none

/-- The moves of an execution, and what becomes of the world. -/
inductive Moves (s : Surroundings ρ σ) (now : Nat) :
    Stand ρ σ α → World σ → Deed ρ → Stand ρ σ α → World σ → Prop
  | publish {phase : Phase} {event : Event} {next : Option Json → Dialogue ρ α} {world : World σ} :
    Moves s now (.speaking (.publish phase event next)) world
      (.heard (.published phase event (s.sink.publish phase event world.memory).1))
      (.speaking (next (s.sink.publish phase event world.memory).1))
      { world with memory := (s.sink.publish phase event world.memory).2 }
  | askOperation {plan : Plan} {next : Decision → Dialogue ρ α} {world : World σ} :
    Moves s now (.speaking (.askOperation plan next)) world
      (.heard (.operation plan (s.policy.checkOperation plan)))
      (.speaking (next (s.policy.checkOperation plan))) world
  | askField {context : Context} {next : Decision → Dialogue ρ α} {world : World σ} :
    Moves s now (.speaking (.askField context next)) world
      (.heard (.field context (s.policy.checkField context)))
      (.speaking (next (s.policy.checkField context))) world
  | refused {resolver : ρ} {invocation : Invocation} {next : CallResult → Dialogue ρ α}
    {world : World σ} (hw : world.cancelled = true) :
    Moves s now (.speaking (.call resolver invocation next)) world
      (.heard (.called resolver invocation (.error .cancelled)))
      (.speaking (next (.error .cancelled))) world
  | started {resolver : ρ} {invocation : Invocation} {next : CallResult → Dialogue ρ α}
    {world : World σ} (hw : world.cancelled = false) :
    Moves s now (.speaking (.call resolver invocation next)) world (.started resolver invocation)
      (.working ⟨resolver, invocation, next, s.timeout, s.resolvers resolver invocation⟩) world
  | look {call : Ongoing ρ σ α} {course : World σ → Course σ} {world : World σ}
    (hc : call.course = .look course) :
    Moves s now (.working call) world (.worked call.resolver call.invocation)
      (.working { call with course := course world }) world
  | keep {call : Ongoing ρ σ α} {memory : σ → σ} {course : Course σ} {world : World σ}
    (hc : call.course = .keep memory course) :
    Moves s now (.working call) world (.worked call.resolver call.invocation)
      (.working { call with course }) { world with memory := memory world.memory }
  | cancel {call : Ongoing ρ σ α} {course : Course σ} {world : World σ}
    (hc : call.course = .cancel course) :
    Moves s now (.working call) world (.worked call.resolver call.invocation)
      (.working { call with course }) { world with cancelled := true }
  | nap {call : Ongoing ρ σ α} {course : Course σ} {world : World σ}
    (hc : call.course = .sleep 0 course) :
    Moves s now (.working call) world (.worked call.resolver call.invocation)
      (.working { call with course }) world
  | finish {call : Ongoing ρ σ α} {outcome : Outcome} {world : World σ}
    (hc : call.course = .finish outcome) :
    Moves s now (.working call) world
      (.heard (.called call.resolver call.invocation outcome.result))
      (.speaking (call.next outcome.result)) world
  | sleep {call : Ongoing ρ σ α} {ms : Nat} {course : Course σ} {world : World σ}
    (hc : call.course = .sleep (ms + 1) course) (hl : ∀ l ∈ call.left, ms + 1 ≤ l) :
    Moves s now (.working call) world (.slept call.resolver call.invocation)
      (.waiting (now + (ms + 1)) false
        { call with left := call.left.map (· - (ms + 1)), course }) world
  | oversleep {call : Ongoing ρ σ α} {ms l : Nat} {course : Course σ} {world : World σ}
    (hc : call.course = .sleep ms course) (hl : call.left = some (l + 1)) (hm : l + 1 < ms) :
    Moves s now (.working call) world (.slept call.resolver call.invocation)
      (.waiting (now + (l + 1)) true call) world
  | overdue {call : Ongoing ρ σ α} {ms : Nat} {course : Course σ} {world : World σ}
    (hc : call.course = .sleep ms course) (hl : call.left = some 0) (hm : 0 < ms) :
    Moves s now (.working call) world
      (.heard (.called call.resolver call.invocation (.error .timedOut)))
      (.speaking (call.next (.error .timedOut))) world
  | wake {call : Ongoing ρ σ α} {due : Nat} {world : World σ} (hw : world.cancelled = false)
    (hd : due ≤ now) :
    Moves s now (.waiting due false call) world (.woke call.resolver call.invocation)
      (.working call) world
  | timeout {call : Ongoing ρ σ α} {due : Nat} {world : World σ} (hw : world.cancelled = false)
    (hd : due ≤ now) :
    Moves s now (.waiting due true call) world
      (.heard (.called call.resolver call.invocation (.error .timedOut)))
      (.speaking (call.next (.error .timedOut))) world
  | dropped {call : Ongoing ρ σ α} {due : Nat} {late : Bool} {world : World σ}
    (hw : world.cancelled = true) :
    Moves s now (.waiting due late call) world
      (.heard (.called call.resolver call.invocation (.error .cancelled)))
      (.speaking (call.next (.error .cancelled))) world

def Stand.due? : Stand ρ σ α → Option Nat
  | speaking _ | working _ => none
  | waiting due _ _ => some due

/-- A move and the entry that made it, the time, and whether everything was to stop then. -/
structure Note (ρ : Type) where
  entry : Nat
  now : Nat
  cancelled : Bool
  deed : Deed ρ

/-- Entries on their way: the time, the world that they share, and where each of them stands. -/
structure Session (ρ σ α : Type) where
  now : Nat
  world : World σ
  stands : List (Stand ρ σ α)

namespace Session

/-- The times for which entries wait. -/
def dues (session : Session ρ σ α) : List Nat := session.stands.filterMap Stand.due?

/-- The session when something happens next. -/
def awaited (stop : Option Nat) (session : Session ρ σ α) : Session ρ σ α :=
  let now := Clock.soonest stop session.world.cancelled session.now session.dues
  { session with now, world := Clock.arrived stop now session.world }

/-- One entry is somewhere else, and so may be the world. -/
def put (session : Session ρ σ α) (i : Nat) (stand : Stand ρ σ α) (world : World σ) :
    Session ρ σ α :=
  { session with world, stands := session.stands.set i stand }

end Session

variable {s : Surroundings ρ σ} {stop : Option Nat}

/-- What may become of a session: entries move in any order, and the clock moves at any time. -/
inductive Unrolls (s : Surroundings ρ σ) (stop : Option Nat) :
    Session ρ σ α → List (Note ρ) → Session ρ σ α → Prop
  | refl {session : Session ρ σ α} : Unrolls s stop session [] session
  | move {session last : Session ρ σ α} {i : Nat} {stand stand' : Stand ρ σ α} {deed : Deed ρ}
    {world : World σ} {notes : List (Note ρ)} (hi : session.stands[i]? = some stand)
    (hm : Moves s session.now stand session.world deed stand' world)
    (h : Unrolls s stop (session.put i stand' world) notes last) :
    Unrolls s stop session (⟨i, session.now, session.world.cancelled, deed⟩ :: notes) last
  | wait {session last : Session ρ σ α} {notes : List (Note ρ)}
    (h : Unrolls s stop (session.awaited stop) notes last) : Unrolls s stop session notes last

/-- What an entry did. -/
def deedsOf (i : Nat) (notes : List (Note ρ)) : List (Deed ρ) :=
  notes.filterMap fun note => if note.entry = i then some note.deed else none

/-- What passed between an entry and its surroundings. -/
def transcriptOf (i : Nat) (notes : List (Note ρ)) : Transcript ρ :=
  (deedsOf i notes).filterMap Deed.exchange?

variable {session middle last : Session ρ σ α} {notes notes' : List (Note ρ)} {i j : Nat}
  {stand stand' : Stand ρ σ α} {world world' : World σ} {now : Nat} {deed : Deed ρ}

theorem deedsOf_cons_of_eq {note : Note ρ} (h : note.entry = i) :
    deedsOf i (note :: notes) = note.deed :: deedsOf i notes := by
  rw [deedsOf, List.filterMap_cons, if_pos h]
  rfl

theorem deedsOf_cons_self {cancelled : Bool} :
    deedsOf i (⟨i, now, cancelled, deed⟩ :: notes) = deed :: deedsOf i notes :=
  deedsOf_cons_of_eq rfl

theorem deedsOf_cons_of_ne {cancelled : Bool} (h : j ≠ i) :
    deedsOf i (⟨j, now, cancelled, deed⟩ :: notes) = deedsOf i notes := by
  rw [deedsOf, List.filterMap_cons, if_neg h]
  rfl

theorem unrolls_trans (h : Unrolls s stop session notes middle)
    (h' : Unrolls s stop middle notes' last) : Unrolls s stop session (notes ++ notes') last := by
  induction h with
  | refl => exact h'
  | move hi hm _ ih => exact .move hi hm (ih h')
  | wait _ ih => exact .wait (ih h')

theorem length_of_unrolls (h : Unrolls s stop session notes last) :
    last.stands.length = session.stands.length := by
  induction h with
  | refl => rfl
  | move _ _ _ ih => exact ih.trans List.length_set
  | wait _ ih => exact ih

theorem getElem?_put_self (hi : session.stands[i]? = some stand) :
    (session.put i stand' world).stands[i]? = some stand' :=
  List.getElem?_set_self (List.getElem?_eq_some_iff.mp hi).1

theorem getElem?_put_of_ne (h : j ≠ i) :
    (session.put j stand' world).stands[i]? = session.stands[i]? :=
  List.getElem?_set_ne h

/-- The only entry moves. -/
theorem unrolls_move (hm : Moves s now stand world deed stand' world')
    (h : Unrolls s stop ⟨now, world', [stand']⟩ notes last) :
    Unrolls s stop ⟨now, world, [stand]⟩ (⟨0, now, world.cancelled, deed⟩ :: notes) last :=
  .move (i := 0) rfl hm h

/-- The only entry publishes an event, and the subscribers leave a value and a memory. -/
theorem unrolls_publish {phase : Phase} {event : Event} {next : Option Json → Dialogue ρ α}
    {value : Option Json} {memory : σ}
    (hp : s.sink.publish phase event world.memory = (value, memory))
    (h : Unrolls s stop ⟨now, { world with memory }, [.speaking (next value)]⟩ notes last) :
    Unrolls s stop ⟨now, world, [.speaking (.publish phase event next)]⟩
      (⟨0, now, world.cancelled, .heard (.published phase event value)⟩ :: notes) last := by
  have hm : Moves s now (.speaking (.publish phase event next)) world
      (.heard (.published phase event (s.sink.publish phase event world.memory).1))
      (.speaking (next (s.sink.publish phase event world.memory).1))
      { world with memory := (s.sink.publish phase event world.memory).2 } := .publish
  rw [hp] at hm
  exact unrolls_move hm h

/-- The only entry calls a resolver, which keeps something and then sleeps. -/
theorem unrolls_asleep {resolver : ρ} {invocation : Invocation} {next : CallResult → Dialogue ρ α}
    {memory : σ → σ} {ms : Nat} {course : Course σ}
    (hc : s.resolvers resolver invocation = .keep memory (.sleep (ms + 1) course))
    (hl : ∀ l ∈ s.timeout, ms + 1 ≤ l) (hw : world.cancelled = false)
    (h : Unrolls s stop ⟨now, { world with memory := memory world.memory },
      [.waiting (now + (ms + 1)) false
        ⟨resolver, invocation, next, s.timeout.map (· - (ms + 1)), course⟩]⟩ notes last) :
    Unrolls s stop ⟨now, world, [.speaking (.call resolver invocation next)]⟩
      (⟨0, now, world.cancelled, .started resolver invocation⟩ ::
        ⟨0, now, world.cancelled, .worked resolver invocation⟩ ::
        ⟨0, now, world.cancelled, .slept resolver invocation⟩ :: notes) last := by
  refine unrolls_move (.started hw) ?_
  rw [hc]
  exact unrolls_move (.keep rfl) (unrolls_move (.sleep rfl hl) h)

/-- The resolver that the only entry waits for wakes up in time, and has an outcome. -/
theorem unrolls_awake {call : Ongoing ρ σ α} {due : Nat} {outcome : Outcome}
    (hc : call.course = .finish outcome) (hw : world.cancelled = false) (hd : due ≤ now)
    (h : Unrolls s stop ⟨now, world, [.speaking (call.next outcome.result)]⟩ notes last) :
    Unrolls s stop ⟨now, world, [.waiting due false call]⟩
      (⟨0, now, world.cancelled, .woke call.resolver call.invocation⟩ ::
        ⟨0, now, world.cancelled, .heard (.called call.resolver call.invocation outcome.result)⟩ ::
        notes) last :=
  unrolls_move (.wake hw hd) (unrolls_move (.finish hc) h)

/-- An entry stays where it is, or makes a first move and goes on from there. -/
theorem stays_or_moves (h : Unrolls s stop session notes last)
    (hs : session.stands[i]? = some stand) :
    (deedsOf i notes = [] ∧ last.stands[i]? = some stand) ∨
      ∃ now world deed stand' world' middle rest,
        Moves s now stand world deed stand' world' ∧
        middle.stands[i]? = some stand' ∧ Unrolls s stop middle rest last ∧
        deedsOf i notes = deed :: deedsOf i rest := by
  induction h with
  | refl => exact .inl ⟨rfl, hs⟩
  | wait _ ih => exact ih hs
  | @move session last j mover moved deed world notes hj hm hrest ih =>
    by_cases he : j = i
    · subst he
      rw [hj] at hs
      cases hs
      exact .inr ⟨_, _, _, _, _, _, _, hm, getElem?_put_self hj, hrest, deedsOf_cons_self⟩
    · rw [deedsOf_cons_of_ne he]
      exact ih ((getElem?_put_of_ne he).trans hs)

/-- What an entry that stands somewhere gives when it is answered as the transcript says. -/
def Stand.Gives : Stand ρ σ α → Transcript ρ → α → Prop
  | speaking d, t, a => d.Gives t a
  | working call, t, a | waiting _ _ call, t, a => ∃ result rest,
    t = .called call.resolver call.invocation result :: rest ∧ (call.next result).Gives rest a

theorem gives_of_moves {t : Transcript ρ} {a : α}
    (hm : Moves s now stand world deed stand' world') (h : stand'.Gives t a) :
    stand.Gives (deed.exchange?.toList ++ t) a := by
  cases hm with
  | publish => exact .publish h
  | askOperation => exact .askOperation h
  | askField => exact .askField h
  | refused hw => exact .call h
  | started hw =>
    obtain ⟨result, rest, rfl, h⟩ := h
    exact .call h
  | look hc => exact h
  | keep hc => exact h
  | cancel hc => exact h
  | nap hc => exact h
  | finish hc => exact ⟨_, _, rfl, h⟩
  | sleep hc hl => exact h
  | oversleep hc hl hlt => exact h
  | overdue hc hl hlt => exact ⟨_, _, rfl, h⟩
  | wake hw hd => exact h
  | timeout hw hd => exact ⟨_, _, rfl, h⟩
  | dropped hw => exact ⟨_, _, rfl, h⟩

/-- What an entry gives in the end, it gives in what passed on the way there. -/
theorem gives_of_unrolls (h : Unrolls s stop session notes last)
    (hs : session.stands[i]? = some stand) (hl : last.stands[i]? = some stand') {t : Transcript ρ}
    {a : α} (hg : stand'.Gives t a) : stand.Gives (transcriptOf i notes ++ t) a := by
  induction h generalizing stand with
  | refl =>
    rw [hs] at hl
    cases hl
    exact hg
  | wait _ ih => exact ih hs hl
  | @move session _ j mover moved deed world notes hj hm _ ih =>
    by_cases he : j = i
    · subst he
      rw [hj] at hs
      cases hs
      have hrest := gives_of_moves hm (ih (getElem?_put_self hj) hl)
      rw [transcriptOf, deedsOf_cons_self, List.filterMap_cons]
      cases hd : deed.exchange? with
      | none =>
        rw [hd] at hrest
        exact hrest
      | some x =>
        rw [hd] at hrest
        exact hrest
    · rw [transcriptOf, deedsOf_cons_of_ne he]
      exact ih ((getElem?_put_of_ne he).trans hs) hl

/-- What an entry gives that has come to its end is what was given in all that passed. -/
theorem gives_of_ended (h : Unrolls s stop session notes last) {d : Dialogue ρ α} {a : α}
    (hs : session.stands[i]? = some (.speaking d))
    (hl : last.stands[i]? = some (.speaking (.done a))) : d.Gives (transcriptOf i notes) a := by
  have hdone : (Stand.speaking (.done a) : Stand ρ σ α).Gives [] a := .done
  have hg := gives_of_unrolls h hs hl hdone
  rwa [List.append_nil] at hg

theorem mem_transcriptOf {x : Exchange ρ} (h : .heard x ∈ deedsOf i notes) :
    x ∈ transcriptOf i notes :=
  List.mem_filterMap.mpr ⟨_, h, rfl⟩

/-- What has come to its end does nothing more. -/
theorem ended_of_done (h : Unrolls s stop session notes last) {a : α}
    (hs : session.stands[i]? = some (.speaking (.done a))) :
    deedsOf i notes = [] ∧ last.stands[i]? = some (.speaking (.done a)) := by
  rcases stays_or_moves h hs with h | ⟨_, _, _, _, _, _, _, hm, -⟩
  · exact h
  · cases hm

end Execution

end GraphGate
