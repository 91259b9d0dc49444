import GraphGate.Proofs.Execution.Winding

/-! One entry in two runs that differ only in when everything is to stop. It does the same in both,
until a call is cancelled in one of them. -/
namespace GraphGate.Execution

open Clock (stopped arrived soonest)

variable {ρ σ α : Type} {s : Surroundings ρ σ} {stop : Option Nat} {session last : Session ρ σ α}
  {stand stand' : Stand ρ σ α} {world world' : World σ} {now : Nat} {deed : Deed ρ}
  {notes : List (Note ρ)} {a : α}

/-- If the time has come at which everything is to stop, that is known. -/
def Aware (stop : Option Nat) (now : Nat) (world : World σ) : Prop :=
  stopped stop now = true → world.cancelled = true

theorem aware_none : Aware none now world := nofun

theorem aware_of_cancelled (hw : world.cancelled = true) : Aware stop now world := fun _ => hw

theorem aware_of_moves (ha : Aware stop now world)
    (hm : Moves s now stand world deed stand' world') : Aware stop now world' :=
  fun hs => cancelled_of_moves hm (ha hs)

/-- The time at which an entry goes on, unless everything is to stop before. -/
def Stand.ready (stand : Stand ρ σ α) (now : Nat) (world : World σ) : Nat :=
  match stand.due? with
  | none => now
  | some due => if world.cancelled then now else max now due

theorem ready_of_cancelled (hw : world.cancelled = true) : stand.ready now world = now := by
  unfold Stand.ready
  split
  · rfl
  · exact if_pos hw

theorem ready_of_due {due : Nat} (hd : stand.due? = some due) (hw : world.cancelled = false) :
    stand.ready now world = max now due := by
  simp only [Stand.ready, hd, hw, Bool.false_eq_true, if_false]

/-- Nothing moves before its time. -/
theorem ready_of_moves (h : Moves s now stand world deed stand' world') :
    stand.ready now world = now := by
  cases h with
  | wake hw hd | timeout hw hd => exact (ready_of_due rfl hw).trans (Nat.max_eq_left hd)
  | dropped hw => exact ready_of_cancelled hw
  | _ => rfl

/-- There is one move at a time. -/
theorem moves_unique {deed₁ deed₂ : Deed ρ} {stand₁ stand₂ : Stand ρ σ α} {world₁ world₂ : World σ}
    (h₁ : Moves s now stand world deed₁ stand₁ world₁)
    (h₂ : Moves s now stand world deed₂ stand₂ world₂) :
    deed₂ = deed₁ ∧ stand₂ = stand₁ ∧ world₂ = world₁ := by
  -- The stand decides, and the course where a resolver is at work; how long a sleep is tells
  -- whether it fits.
  cases h₁ <;> cases h₂ <;> simp_all <;> omega

theorem arrived_of_aware (h : Aware stop now world) : arrived stop now world = world := by
  unfold arrived
  split
  · next hs => rw [← h hs]
  · rfl

theorem aware_arrived : Aware stop now (arrived stop now world) :=
  fun hs => congrArg World.cancelled (if_pos hs)

/-- Waiting changes nothing but the time, up to that at which the entry goes on; or everything is to
stop while the entry waits. -/
theorem cases_awaited (hi : session.stands = [stand]) (ha : Aware stop session.now session.world) :
    ((session.awaited stop).world = session.world ∧
        stand.ready (session.awaited stop).now session.world =
          stand.ready session.now session.world) ∨
      (session.world.cancelled = false ∧ (session.awaited stop).world.cancelled = true ∧
        stop ≠ none ∧ ∃ due late call, stand = .waiting due late call) := by
  obtain ⟨now, world, stands⟩ := session
  subst hi
  cases stand with
  | speaking d | working call =>
    have hn : soonest stop world.cancelled now [] = now := Clock.soonest_nil
    exact .inl ⟨(congrArg (arrived stop · world) hn).trans (arrived_of_aware ha), hn⟩
  | waiting due late call =>
    have hwait : Session.awaited stop ⟨now, world, [.waiting due late call]⟩ =
        ⟨soonest stop world.cancelled now [due],
          arrived stop (soonest stop world.cancelled now [due]) world,
          [.waiting due late call]⟩ := rfl
    rw [hwait]
    cases hw : world.cancelled with
    | true =>
      rw [Clock.soonest_of_cancelled]
      exact .inl ⟨arrived_of_aware ha, rfl⟩
    | false =>
      cases hs : stopped stop (soonest stop false now [due]) with
      | true =>
        refine .inr ⟨rfl, congrArg World.cancelled (if_pos hs), ?_, due, late, call, rfl⟩
        rintro rfl
        cases hs
      | false =>
        refine .inl ⟨if_neg (Bool.eq_false_iff.mp hs), ?_⟩
        rw [Clock.soonest_of_not_stopped hs, ready_of_due rfl hw, ready_of_due rfl hw,
          Nat.max_assoc, Nat.max_self]

/-- How the run of one entry may begin: it is at its end, it moves when it is ready, or its call is
given up while it waits. -/
inductive Begins (s : Surroundings ρ σ) (stop : Option Nat) (now : Nat) (world : World σ) :
    Stand ρ σ α → List (Note ρ) → Session ρ σ α → Prop
  | ended {stand : Stand ρ σ α} {last : Session ρ σ α} (hl : last.stands = [stand]) :
    Begins s stop now world stand [] last
  | moved {stand stand' : Stand ρ σ α} {world' : World σ} {note : Note ρ} {rest : List (Note ρ)}
    {last : Session ρ σ α} (he : note.entry = 0)
    (hm : Moves s (stand.ready now world) stand world note.deed stand' world')
    (ha : Aware stop (stand.ready now world) world')
    (h : Unrolls s stop ⟨stand.ready now world, world', [stand']⟩ rest last) :
    Begins s stop now world stand (note :: rest) last
  | dropped {due : Nat} {late : Bool} {call : Ongoing ρ σ α} {note : Note ρ}
    {rest : List (Note ρ)} {last : Session ρ σ α} (he : note.entry = 0)
    (hw : world.cancelled = false) (hs : stop ≠ none)
    (hd : note.deed = .heard (.called call.resolver call.invocation (.error .cancelled))) :
    Begins s stop now world (.waiting due late call) (note :: rest) last

variable {later : Nat}

theorem begins_of_ready (h : Begins s stop later world stand notes last)
    (hr : stand.ready later world = stand.ready now world) :
    Begins s stop now world stand notes last := by
  cases h with
  | ended hl => exact .ended hl
  | moved he hm ha h =>
    rw [hr] at hm ha h
    exact .moved he hm ha h
  | dropped he hw hs hd => exact .dropped he hw hs hd

/-- If everything is to stop while an entry waits, its call is given up next. -/
theorem begins_of_waiting {due : Nat} {late : Bool} {call : Ongoing ρ σ α}
    (h : Begins s stop later world' (.waiting due late call) notes last)
    (hw' : world'.cancelled = true) (hw : world.cancelled = false) (hs : stop ≠ none) :
    Begins s stop now world (.waiting due late call) notes last := by
  have hnot : ¬ world'.cancelled = false := ne_false_of_eq_true hw'
  cases h with
  | ended hl => exact .ended hl
  | @moved _ _ _ note rest last he hm ha h =>
    refine .dropped he hw hs ?_
    generalize note.deed = deed at hm
    cases hm with
    | wake hw hd | timeout hw hd => exact absurd hw hnot
    | dropped hw => rfl
  | dropped he hw hs hd => exact absurd hw hnot

/-- Where an entry stands by itself, its run begins with what it can do there. -/
theorem begins_of_unrolls (h : Unrolls s stop session notes last) (hi : session.stands = [stand])
    (ha : Aware stop session.now session.world) :
    Begins s stop session.now session.world stand notes last := by
  induction h with
  | refl => exact .ended hi
  | @move session last i mover moved deed world notes hj hm h _ =>
    obtain ⟨hlt, rfl⟩ := List.getElem?_eq_some_iff.mp hj
    obtain rfl : i = 0 := by
      rw [hi, List.length_singleton] at hlt
      omega
    have hmover : session.stands[0] = stand := by simp only [hi, List.getElem_cons_zero]
    rw [Session.put, hi] at h
    rw [hmover] at hm
    have hready := ready_of_moves hm
    have haware : Aware stop session.now world := aware_of_moves ha hm
    rw [← hready] at hm h haware
    exact .moved rfl hm haware h
  | wait _ ih =>
    have hbegins := ih hi aware_arrived
    rcases cases_awaited hi ha with ⟨hw, hready⟩ | ⟨hw, hw', hs, due, late, call, rfl⟩
    · rw [hw] at hbegins
      exact begins_of_ready hbegins hready
    · exact begins_of_waiting hbegins hw' hw hs

/-- The end of a call by everything being to stop. -/
def Deed.Cancels (deed : Deed ρ) : Prop :=
  ∃ resolver invocation, deed = .heard (.called resolver invocation (.error .cancelled))

/-- Two runs do the same up to a call that is cancelled in the second, before any other is. -/
def Part (deeds₁ deeds₂ : List (Deed ρ)) : Prop :=
  ∃ before after₁ after₂ deed, deeds₁ = before ++ after₁ ∧ deeds₂ = before ++ deed :: after₂ ∧
    deed.Cancels ∧ ∀ deed ∈ before, ¬ deed.Cancels

variable {deeds₁ deeds₂ : List (Deed ρ)}

theorem part_of_cancels (h : deed.Cancels) : Part deeds₁ (deed :: deeds₂) :=
  ⟨[], deeds₁, deeds₂, deed, rfl, rfl, h, List.forall_mem_nil _⟩

theorem part_cons (hd : ¬ deed.Cancels) (h : Part deeds₁ deeds₂) :
    Part (deed :: deeds₁) (deed :: deeds₂) := by
  obtain ⟨before, after₁, after₂, deed', rfl, rfl, hc, hb⟩ := h
  exact ⟨deed :: before, after₁, after₂, deed', rfl, rfl, hc, List.forall_mem_cons.mpr ⟨hd, hb⟩⟩

theorem same_or_part_cons {a₁ a₂ : α} (hd : ¬ deed.Cancels)
    (h : (deeds₂ = deeds₁ ∧ a₂ = a₁) ∨ Part deeds₁ deeds₂) :
    (deed :: deeds₂ = deed :: deeds₁ ∧ a₂ = a₁) ∨ Part (deed :: deeds₁) (deed :: deeds₂) :=
  h.imp (And.imp_left (congrArg _)) (part_cons hd)

/-- As long as nothing is to stop, no call is cancelled. -/
theorem not_cancels_of_moves (hm : Moves s now stand world deed stand' world')
    (hw : world.cancelled = false) : ¬ deed.Cancels := by
  have hnot : ¬ world.cancelled = true := by simp [hw]
  rintro ⟨resolver, invocation, rfl⟩
  generalize hx : Deed.heard (.called resolver invocation (.error .cancelled)) = deed at hm
  cases hm with
  | refused hw | dropped hw => exact hnot hw
  | @finish call outcome _ hc => cases outcome <;> cases hx
  | _ => cases hx

theorem not_moves_done {note : Note ρ} {time : Nat} :
    ¬ Moves s time (.speaking (.done a)) world note.deed stand' world' := by
  generalize note.deed = deed
  rintro ⟨⟩

variable {last₁ last₂ : Session ρ σ α} {notes₁ notes₂ : List (Note ρ)} {a₁ a₂ : α}

/-- An entry that stands at the same place in two runs does the same in both and comes to the same,
or its call is given up in the second. -/
theorem same_or_part (h₁ : Unrolls s none ⟨now, world, [stand]⟩ notes₁ last₁)
    (h₂ : Unrolls s stop ⟨now, world, [stand]⟩ notes₂ last₂)
    (ha : Aware stop now world)
    (hl₁ : last₁.stands = [.speaking (.done a₁)]) (hl₂ : last₂.stands = [.speaking (.done a₂)]) :
    (deedsOf 0 notes₂ = deedsOf 0 notes₁ ∧ a₂ = a₁) ∨
      world.cancelled = false ∧ Part (deedsOf 0 notes₁) (deedsOf 0 notes₂) := by
  -- Both runs are taken on by one move at a time: the stand, the world and the time when the entry
  -- is ready stay the same.
  induction notes₁ generalizing now world stand notes₂ with
  | nil =>
    have hb₁ : Begins s none now world stand [] last₁ := begins_of_unrolls h₁ rfl aware_none
    have hb₂ : Begins s stop now world stand notes₂ last₂ := begins_of_unrolls h₂ rfl ha
    cases hb₁ with
    | ended hl =>
      obtain rfl : stand = .speaking (.done a₁) := by simpa [hl₁] using hl.symm
      cases hb₂ with
      | ended hl =>
        rw [hl₂] at hl
        cases hl
        exact .inl ⟨rfl, rfl⟩
      | moved _ hm _ _ => exact absurd hm not_moves_done
  | cons note rest ih =>
    have hb₁ : Begins s none now world stand (note :: rest) last₁ :=
      begins_of_unrolls h₁ rfl aware_none
    have hb₂ : Begins s stop now world stand notes₂ last₂ := begins_of_unrolls h₂ rfl ha
    cases hb₁ with
    | dropped _ _ hs _ => exact absurd rfl hs
    | moved he hm _ hrest =>
      rw [deedsOf_cons_of_eq he]
      cases hb₂ with
      | ended hl =>
        rw [hl₂] at hl
        cases hl
        exact absurd hm not_moves_done
      | dropped he₂ hw _ hd =>
        rw [deedsOf_cons_of_eq he₂]
        exact .inr ⟨hw, part_of_cancels ⟨_, _, hd⟩⟩
      | moved he₂ hm₂ ha₂ hrest₂ =>
        rw [deedsOf_cons_of_eq he₂]
        obtain ⟨hd, rfl, rfl⟩ := moves_unique hm hm₂
        rw [hd]
        rcases ih hrest hrest₂ ha₂ with ⟨hdeeds, rfl⟩ | ⟨hw', hpart⟩
        · exact .inl ⟨congrArg _ hdeeds, rfl⟩
        · have hw : world.cancelled = false := by
            by_contra hw
            rw [cancelled_of_moves hm (by simpa using hw)] at hw'
            cases hw'
          exact .inr ⟨hw, part_cons (not_cancels_of_moves hm hw) hpart⟩

/-- An execution that speaks moves at once, unless it is at its end. -/
theorem exists_of_speaking {d : Dialogue ρ α}
    (h : Unrolls s stop ⟨now, world, [.speaking d]⟩ notes last) (ha : Aware stop now world)
    (hl : last.stands = [.speaking (.done a)]) :
    (d = .done a ∧ notes = []) ∨ ∃ deed rest stand' world',
      deedsOf 0 notes = deed :: deedsOf 0 rest ∧
        Moves s now (.speaking d) world deed stand' world' ∧
        Unrolls s stop ⟨now, world', [stand']⟩ rest last := by
  have hbegins : Begins s stop now world (.speaking d) notes last := begins_of_unrolls h rfl ha
  cases hbegins with
  | ended he =>
    rw [hl] at he
    cases he
    exact .inl ⟨rfl, rfl⟩
  | moved he hm _ h => exact .inr ⟨_, _, _, _, deedsOf_cons_of_eq he, hm, h⟩

/-- If everything is to stop in the second run only, an execution that speaks does the same in both
up to its next call. -/
theorem same_or_part_of_cancelled {d : Dialogue ρ α}
    (h₁ : Unrolls s none ⟨now, world, [.speaking d]⟩ notes₁ last₁)
    (h₂ : Unrolls s stop ⟨now, { world with cancelled := true }, [.speaking d]⟩ notes₂ last₂)
    (hl₁ : last₁.stands = [.speaking (.done a₁)]) (hl₂ : last₂.stands = [.speaking (.done a₂)]) :
    (deedsOf 0 notes₂ = deedsOf 0 notes₁ ∧ a₂ = a₁) ∨
      Part (deedsOf 0 notes₁) (deedsOf 0 notes₂) := by
  induction d generalizing world notes₁ notes₂ with
  | done a =>
    rcases exists_of_speaking h₁ aware_none hl₁ with ⟨hd₁, rfl⟩ | ⟨_, _, _, _, -, ⟨⟩, -⟩
    rcases exists_of_speaking h₂ (aware_of_cancelled rfl) hl₂ with
      ⟨hd₂, rfl⟩ | ⟨_, _, _, _, -, ⟨⟩, -⟩
    cases hd₁
    cases hd₂
    exact .inl ⟨rfl, rfl⟩
  | publish phase event next ih =>
    rcases exists_of_speaking h₁ aware_none hl₁ with ⟨⟨⟩, -⟩ | ⟨_, _, _, _, hdeeds₁, ⟨⟩, hrest₁⟩
    rcases exists_of_speaking h₂ (aware_of_cancelled rfl) hl₂ with
      ⟨⟨⟩, -⟩ | ⟨_, _, _, _, hdeeds₂, ⟨⟩, hrest₂⟩
    rw [hdeeds₁, hdeeds₂]
    exact same_or_part_cons (by rintro ⟨_, _, ⟨⟩⟩) (ih _ hrest₁ hrest₂)
  | askOperation plan next ih =>
    rcases exists_of_speaking h₁ aware_none hl₁ with ⟨⟨⟩, -⟩ | ⟨_, _, _, _, hdeeds₁, ⟨⟩, hrest₁⟩
    rcases exists_of_speaking h₂ (aware_of_cancelled rfl) hl₂ with
      ⟨⟨⟩, -⟩ | ⟨_, _, _, _, hdeeds₂, ⟨⟩, hrest₂⟩
    rw [hdeeds₁, hdeeds₂]
    exact same_or_part_cons (by rintro ⟨_, _, ⟨⟩⟩) (ih _ hrest₁ hrest₂)
  | askField context next ih =>
    rcases exists_of_speaking h₁ aware_none hl₁ with ⟨⟨⟩, -⟩ | ⟨_, _, _, _, hdeeds₁, ⟨⟩, hrest₁⟩
    rcases exists_of_speaking h₂ (aware_of_cancelled rfl) hl₂ with
      ⟨⟨⟩, -⟩ | ⟨_, _, _, _, hdeeds₂, ⟨⟩, hrest₂⟩
    rw [hdeeds₁, hdeeds₂]
    exact same_or_part_cons (by rintro ⟨_, _, ⟨⟩⟩) (ih _ hrest₁ hrest₂)
  | call resolver invocation next ih =>
    rcases exists_of_speaking h₂ (aware_of_cancelled rfl) hl₂ with
      ⟨⟨⟩, -⟩ | ⟨_, _, _, _, hdeeds₂, hm, -⟩
    rw [hdeeds₂]
    cases hm with
    | refused _ => exact .inr (part_of_cancels ⟨_, _, rfl⟩)
    | started hw => cases hw

/-- What an execution does from its start on, whether or not everything is to stop at some time. -/
theorem same_or_part_of_start {d : Dialogue ρ α}
    (h₁ : Unrolls s none ⟨now, world, [.speaking d]⟩ notes₁ last₁)
    (h₂ : Unrolls s stop ⟨now, arrived stop now world, [.speaking d]⟩ notes₂ last₂)
    (hl₁ : last₁.stands = [.speaking (.done a₁)]) (hl₂ : last₂.stands = [.speaking (.done a₂)]) :
    (deedsOf 0 notes₂ = deedsOf 0 notes₁ ∧ a₂ = a₁) ∨
      Part (deedsOf 0 notes₁) (deedsOf 0 notes₂) := by
  by_cases ha : Aware stop now world
  · rw [arrived_of_aware ha] at h₂
    exact (same_or_part h₁ h₂ ha hl₁ hl₂).imp_right And.right
  · obtain ⟨hs, -⟩ := Classical.not_imp.mp ha
    have harrived : arrived stop now world = { world with cancelled := true } := if_pos hs
    rw [harrived] at h₂
    exact same_or_part_of_cancelled h₁ h₂ hl₁ hl₂

end GraphGate.Execution
