import GraphGate.Proofs.Execution.Session

/-! Once everything is to stop, entries only wind down: the clock stands still, no resolver is
started, those that wait are given up, and every further call is refused. -/
namespace GraphGate.Execution

variable {ρ σ α : Type} {s : Surroundings ρ σ} {stop : Option Nat} {session last : Session ρ σ α}
  {notes : List (Note ρ)} {i : Nat} {stand stand' : Stand ρ σ α} {world world' : World σ}
  {now : Nat} {deed : Deed ρ}

/-- Whether an execution speaks, or in which call it is. -/
inductive Stage (ρ : Type) where
  | speaking
  | working (resolver : ρ) (invocation : Invocation)
  | waiting (resolver : ρ) (invocation : Invocation)

def Stand.stage : Stand ρ σ α → Stage ρ
  | speaking _ => .speaking
  | working call => .working call.resolver call.invocation
  | waiting _ _ call => .waiting call.resolver call.invocation

/-- What is left to do for an entry when everything is to stop. A resolver that was at work may come
to its end; if it sleeps, or slept before, its call is cancelled, and so is each call after it. -/
inductive WindsDown : Stage ρ → List (Deed ρ) → Prop
  | nil {stage : Stage ρ} : WindsDown stage []
  | heard {x : Exchange ρ} {rest : List (Deed ρ)}
    (hx : ∀ resolver invocation result, x = .called resolver invocation result →
      result = .error .cancelled)
    (h : WindsDown .speaking rest) : WindsDown .speaking (.heard x :: rest)
  | worked {resolver : ρ} {invocation : Invocation} {rest : List (Deed ρ)}
    (h : WindsDown (.working resolver invocation) rest) :
    WindsDown (.working resolver invocation) (.worked resolver invocation :: rest)
  | ended {resolver : ρ} {invocation : Invocation} {result : CallResult} {rest : List (Deed ρ)}
    (h : WindsDown .speaking rest) :
    WindsDown (.working resolver invocation)
      (.heard (.called resolver invocation result) :: rest)
  | slept {resolver : ρ} {invocation : Invocation} {rest : List (Deed ρ)}
    (h : WindsDown (.waiting resolver invocation) rest) :
    WindsDown (.working resolver invocation) (.slept resolver invocation :: rest)
  | dropped {resolver : ρ} {invocation : Invocation} {rest : List (Deed ρ)}
    (h : WindsDown .speaking rest) :
    WindsDown (.waiting resolver invocation)
      (.heard (.called resolver invocation (.error .cancelled)) :: rest)

theorem not_started_of_windsDown {stage : Stage ρ} {deeds : List (Deed ρ)}
    (h : WindsDown stage deeds) (resolver : ρ) (invocation : Invocation) :
    .started resolver invocation ∉ deeds := by
  induction h with
  | nil => exact List.not_mem_nil
  | heard _ _ ih | worked _ ih | ended _ ih | slept _ ih | dropped _ ih => simpa using ih

/-- What is to stop is not taken up again. -/
theorem cancelled_of_moves (hm : Moves s now stand world deed stand' world')
    (hw : world.cancelled = true) : world'.cancelled = true := by
  cases hm with
  | cancel hc => rfl
  | _ => exact hw

theorem cancelled_awaited (hw : session.world.cancelled = true) :
    (session.awaited stop).world.cancelled = true := by
  have ha : ∀ now, (Clock.arrived stop now session.world).cancelled = true := by
    intro now
    unfold Clock.arrived
    split
    · rfl
    · exact hw
  exact ha _

theorem now_awaited (hw : session.world.cancelled = true) :
    (session.awaited stop).now = session.now := by
  unfold Session.awaited
  rw [hw]
  exact Clock.soonest_of_cancelled

/-- One move of winding down. -/
theorem windsDown_of_moves (hm : Moves s now stand world deed stand' world')
    (hw : world.cancelled = true) {deeds : List (Deed ρ)} (h : WindsDown stand'.stage deeds) :
    WindsDown stand.stage (deed :: deeds) := by
  have hnot : world.cancelled ≠ false := by
    rw [hw]
    exact Bool.noConfusion
  cases hm with
  | publish | askOperation | askField => exact .heard nofun h
  | refused _ =>
    refine .heard ?_ h
    rintro _ _ _ ⟨⟩
    rfl
  | look hc | keep hc | cancel hc | nap hc => exact .worked h
  | finish hc | overdue hc hl hlt => exact .ended h
  | sleep hc hl | oversleep hc hl hlt => exact .slept h
  | dropped _ => exact .dropped h
  | started hw' | wake hw' hd | timeout hw' hd => exact absurd hw' hnot

/-- What becomes of a session from then on. -/
structure Halts (session : Session ρ σ α) (notes : List (Note ρ)) (last : Session ρ σ α) :
    Prop where
  now : last.now = session.now
  cancelled : last.world.cancelled = true
  unstarted : ∀ note ∈ notes, note.now = session.now ∧ note.cancelled = true ∧
    ∀ resolver invocation, note.deed ≠ .started resolver invocation
  windsDown : ∀ i stand, session.stands[i]? = some stand → WindsDown stand.stage (deedsOf i notes)

theorem halts_of_unrolls (h : Unrolls s stop session notes last)
    (hw : session.world.cancelled = true) : Halts session notes last := by
  induction h with
  | refl => exact ⟨rfl, hw, List.forall_mem_nil _, fun _ _ _ => .nil⟩
  | @wait session last notes _ ih =>
    obtain ⟨hn, hl, hnotes, hwind⟩ := ih (cancelled_awaited hw)
    rw [now_awaited hw] at hn hnotes
    exact ⟨hn, hl, hnotes, hwind⟩
  | @move session last j stand stand' deed world notes hj hm _ ih =>
    obtain ⟨hn, hl, hnotes, hwind⟩ := ih (cancelled_of_moves hm hw)
    have hself : WindsDown stand.stage (deed :: deedsOf j notes) :=
      windsDown_of_moves hm hw (hwind j stand' (getElem?_put_self hj))
    refine ⟨hn, hl, List.forall_mem_cons.mpr ⟨⟨rfl, hw, ?_⟩, hnotes⟩, ?_⟩
    · rintro resolver invocation rfl
      exact not_started_of_windsDown hself resolver invocation List.mem_cons_self
    · intro i stand₀ hi
      by_cases he : j = i
      · subst he
        rw [hj] at hi
        cases hi
        rw [deedsOf_cons_self]
        exact hself
      · rw [deedsOf_cons_of_ne he]
        exact hwind i stand₀ ((getElem?_put_of_ne he).trans hi)

/-- An entry that waited then, and came to its end, heard that its call was cancelled. -/
theorem cancelled_of_waiting (h : Unrolls s stop session notes last)
    (hw : session.world.cancelled = true) {due : Nat} {late : Bool} {call : Ongoing ρ σ α} {a : α}
    (hs : session.stands[i]? = some (.waiting due late call))
    (hl : last.stands[i]? = some (.speaking (.done a))) :
    .called call.resolver call.invocation (.error .cancelled) ∈ transcriptOf i notes := by
  have hdone : (Stand.speaking (.done a) : Stand ρ σ α).Gives [] a := .done
  obtain ⟨result, rest, ht, -⟩ := gives_of_unrolls h hs hl hdone
  rw [List.append_nil, transcriptOf] at ht
  have hwind := (halts_of_unrolls h hw).windsDown i _ hs
  rw [Stand.stage] at hwind
  rw [transcriptOf]
  generalize deedsOf i notes = deeds at ht hwind ⊢
  cases hwind with
  | nil => cases ht
  | dropped _ => exact List.mem_cons_self

end GraphGate.Execution
