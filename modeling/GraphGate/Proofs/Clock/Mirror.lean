import GraphGate.Proofs.Clock.Timeline

/-! Tasks that do the same for whoever sees but a part of the memory. They run alike: at the same
times, to the same results, and to worlds that look the same. -/
namespace GraphGate

variable {σ τ α : Type} {view : σ → τ} {stop : Option Nat}

/-- What is seen of a world. -/
def World.seen (view : σ → τ) (world : World σ) : World τ := ⟨world.cancelled, view world.memory⟩

/-- A task does what another one does, as far as it is seen, and in between what is not. -/
inductive Task.Mirrors (view : σ → τ) : Task σ α → Task τ α → Prop
  | done {a : α} : Mirrors view (.done a) (.done a)
  | look {next : World σ → Task σ α} {next' : World τ → Task τ α}
    (h : ∀ world : World σ, Mirrors view (next world) (next' (world.seen view))) :
    Mirrors view (.look next) (.look next')
  | put {world : World σ} {world' : World τ} {next : Task σ α} {next' : Task τ α}
    (hw : world.seen view = world') (h : Mirrors view next next') :
    Mirrors view (.put world next) (.put world' next')
  | pause {wait : Wait} {onTime onCancel : Task σ α} {onTime' onCancel' : Task τ α}
    (ht : Mirrors view onTime onTime') (hc : Mirrors view onCancel onCancel') :
    Mirrors view (.pause wait onTime onCancel) (.pause wait onTime' onCancel')
  | unseen {left : World σ → World σ} {next : World σ → Task σ α} {task : Task τ α}
    (hw : ∀ world, (left world).seen view = world.seen view)
    (h : ∀ world, Mirrors view (next world) task) :
    Mirrors view (.look fun world => .put (left world) (next world)) task

inductive Strand.Mirrors (view : σ → τ) : Strand σ α → Strand τ α → Prop
  | ended {a : α} : Mirrors view (.ended a) (.ended a)
  | waiting {alarm : Alarm} {onTime onCancel : Task σ α} {onTime' onCancel' : Task τ α}
    (ht : onTime.Mirrors view onTime') (hc : onCancel.Mirrors view onCancel') :
    Mirrors view (.waiting alarm onTime onCancel) (.waiting alarm onTime' onCancel')

/-- A strand beside a world mirrors another one beside what is seen of the world. -/
def Turned (view : σ → τ) (turned : Strand σ α × World σ)
    (turned' : Strand τ α × World τ) : Prop :=
  turned.1.Mirrors view turned'.1 ∧ turned.2.seen view = turned'.2

theorem mirrors_advance (now turn call : Nat) {t : Task σ α} {t' : Task τ α}
    (h : t.Mirrors view t') (world : World σ) :
    Turned view (t.advance now turn call world) (t'.advance now turn call (world.seen view)) := by
  induction h generalizing world with
  | done => exact ⟨.ended, rfl⟩
  | look _ ih => exact ih world world
  | @put left _ _ _ hw _ ih =>
    subst hw
    exact ih left
  | @pause wait _ _ _ _ ht hc iht _ =>
    rw [Task.advance, Task.advance]
    split
    · exact iht world
    · exact ⟨.waiting ht hc, rfl⟩
  | @unseen left _ _ hw _ ih =>
    rw [← hw world]
    exact ih world (left world)

theorem mirrors_poll (now turn : Nat) {s : Strand σ α} {s' : Strand τ α} (h : s.Mirrors view s')
    (world : World σ) :
    (s.poll now turn world).1 = (s'.poll now turn (world.seen view)).1 ∧
      Turned view (s.poll now turn world).2 (s'.poll now turn (world.seen view)).2 := by
  cases h with
  | ended => exact ⟨rfl, .ended, rfl⟩
  | waiting ht hc =>
    have hcancelled : (world.seen view).cancelled = world.cancelled := rfl
    rw [Strand.poll, Strand.poll, hcancelled]
    split
    · exact ⟨rfl, mirrors_advance _ _ _ hc world⟩
    · split
      · exact ⟨rfl, mirrors_advance _ _ _ ht world⟩
      · exact ⟨rfl, .waiting ht hc, rfl⟩

namespace Clock

/-- A scene mirrors another one strand by strand, at the same time and turn. -/
structure Mirrors (view : σ → τ) (scene : Scene σ α) (scene' : Scene τ α) : Prop where
  now : scene'.now = scene.now
  turns : scene'.turns = scene.turns
  world : scene'.world = scene.world.seen view
  strands : List.Forall₂ (Strand.Mirrors view) scene.strands scene'.strands

variable {scene : Scene σ α} {scene' : Scene τ α}

theorem cases_of_getElem? {β γ : Type} {R : β → γ → Prop} {bs : List β} {cs : List γ}
    (h : List.Forall₂ R bs cs) (i : Nat) : (bs[i]? = none ∧ cs[i]? = none) ∨
      ∃ b c, bs[i]? = some b ∧ cs[i]? = some c ∧ R b c := by
  induction h generalizing i with
  | nil => exact .inl ⟨rfl, rfl⟩
  | cons hr _ ih =>
    cases i with
    | zero => exact .inr ⟨_, _, rfl, rfl, hr⟩
    | succ i => exact ih i

theorem mirrors_visit (h : Mirrors view scene scene') (i : Nat) :
    (scene.visit i).1 = (scene'.visit i).1 ∧
      Mirrors view (scene.visit i).2 (scene'.visit i).2 := by
  unfold Scene.visit
  rcases cases_of_getElem? h.strands i with ⟨hs, hs'⟩ | ⟨s, s', hs, hs', hm⟩
  · rw [hs, hs']
    exact ⟨rfl, h⟩
  · obtain ⟨hwent, hstrand, hworld⟩ :=
      mirrors_poll scene.now scene.turns hm scene.world
    simp only [hs, hs', h.now, h.turns, h.world]
    generalize s.poll scene.now scene.turns scene.world = polled at *
    generalize s'.poll scene.now scene.turns (scene.world.seen view) = polled' at *
    obtain ⟨went, strand, world⟩ := polled
    obtain ⟨went', strand', world'⟩ := polled'
    cases hwent
    cases went with
    | false => exact ⟨rfl, h⟩
    | true => exact ⟨rfl, rfl, rfl, hworld.symm, forall₂_set_set h.strands hstrand⟩

theorem mirrors_round (h : Mirrors view scene scene') (order : List Nat) :
    (scene.round order).1 = (scene'.round order).1 ∧
      Mirrors view (scene.round order).2 (scene'.round order).2 := by
  induction order generalizing scene scene' with
  | nil => exact ⟨rfl, h⟩
  | cons i rest ih =>
    obtain ⟨hv, hvisit⟩ := mirrors_visit h i
    obtain ⟨hr, hround⟩ := ih hvisit
    simp only [Scene.round]
    exact ⟨by rw [hv, hr], hround⟩

/-- Strands that mirror each other wait for the same. -/
theorem alarms_eq_of_mirrors {strands : List (Strand σ α)} {strands' : List (Strand τ α)}
    (h : List.Forall₂ (Strand.Mirrors view) strands strands') :
    strands'.map Strand.alarm? = strands.map Strand.alarm? := by
  induction h with
  | nil => rfl
  | cons hs _ ih =>
    rw [List.map_cons, List.map_cons, ih]
    cases hs <;> rfl

theorem filterMap_alarm? (strands : List (Strand σ α)) :
    strands.filterMap Strand.alarm? = (strands.map Strand.alarm?).filterMap id := by
  rw [List.filterMap_map]
  rfl

theorem dues_eq_of_mirrors (h : Mirrors view scene scene') : dues scene' = dues scene := by
  rw [dues, dues, filterMap_alarm?, filterMap_alarm?, alarms_eq_of_mirrors h.strands]

/-- Ranks are ranks of alarms. -/
theorem ranked_eq {rank : Alarm → Option Nat} (strands : List (Strand σ α)) :
    ranked rank strands = ((((strands.map Strand.alarm?).zipIdx.filterMap fun (alarm, i) =>
      (alarm.bind rank).map fun n => (n, i)).mergeSort fun a b => a.1 ≤ b.1).map Prod.snd) := by
  rw [ranked, List.zipIdx_map, List.filterMap_map]
  rfl

theorem order_eq_of_mirrors (h : Mirrors view scene scene') (attention : Attention) :
    attention.order scene' = attention.order scene := by
  have halarms := alarms_eq_of_mirrors h.strands
  have hcancelled : scene'.world.cancelled = scene.world.cancelled :=
    congrArg World.cancelled h.world
  cases attention with
  | everyone => rw [Attention.order, Attention.order, h.strands.length_eq]
  | called => simp only [Attention.order, ranked_eq, halarms, hcancelled, h.now]

theorem arrived_seen (now : Nat) (world : World σ) :
    arrived stop now (world.seen view) = (arrived stop now world).seen view := by
  unfold arrived
  split <;> rfl

theorem mirrors_awaited (h : Mirrors view scene scene') :
    Mirrors view (awaited stop scene) (awaited stop scene') := by
  have hn : nextTime stop scene' = nextTime stop scene := by
    rw [nextTime_eq_soonest, nextTime_eq_soonest, dues_eq_of_mirrors h, h.now, h.world]
    rfl
  refine ⟨hn, h.turns, ?_, h.strands⟩
  rw [awaited, awaited, hn, h.world]
  exact arrived_seen _ _

theorem results_eq_of_mirrors {strands : List (Strand σ α)} {strands' : List (Strand τ α)}
    (h : List.Forall₂ (Strand.Mirrors view) strands strands') :
    strands'.filterMap Strand.result? = strands.filterMap Strand.result? := by
  induction h with
  | nil => rfl
  | cons hs _ ih =>
    rw [List.filterMap_cons, List.filterMap_cons, ih]
    cases hs <;> rfl

/-- What is seen of a finish. -/
def Finish.seen (view : σ → τ) (finish : Finish σ α) : Finish τ α :=
  ⟨finish.now, finish.world.seen view, finish.results⟩

theorem finish_of_round {attention : Attention} {turned : Bool × Scene σ α}
    (h : (awaited stop scene).round (attention.order (awaited stop scene)) = turned) :
    finish attention stop scene = if turned.1 then finish attention stop turned.2
      else ⟨turned.2.now, turned.2.world, turned.2.strands.filterMap Strand.result?⟩ := by
  subst h
  rw [finish]
  split <;> next hr => rw [hr]; rfl

/-- Scenes that mirror each other have the same ends, as far as is seen. -/
theorem finish_eq_of_mirrors (attention : Attention) (h : Mirrors view scene scene') :
    finish attention stop scene' = (finish attention stop scene).seen view := by
  -- Both wait until the same time and wake the same strands, so one round goes as the other does.
  induction scene using finish.induct attention stop generalizing scene' with
  | case1 scene next hr ih =>
    obtain ⟨hwent, hround⟩ :=
      mirrors_round (mirrors_awaited h) (attention.order (awaited stop scene))
    rw [hr] at hwent hround
    rw [finish_of_round hr, finish_of_round rfl, order_eq_of_mirrors (mirrors_awaited h), ← hwent]
    exact ih hround
  | case2 scene next hr =>
    obtain ⟨hwent, hround⟩ :=
      mirrors_round (mirrors_awaited h) (attention.order (awaited stop scene))
    rw [hr] at hwent hround
    rw [finish_of_round hr, finish_of_round rfl, order_eq_of_mirrors (mirrors_awaited h), ← hwent,
      hround.now, hround.world, results_eq_of_mirrors hround.strands]
    rfl

theorem mirrors_start (now turn : Nat) {tasks : List (Task σ α)} {tasks' : List (Task τ α)}
    (h : List.Forall₂ (Task.Mirrors view) tasks tasks') (world : World σ) :
    List.Forall₂ (Strand.Mirrors view) (start now turn tasks world).1
        (start now turn tasks' (world.seen view)).1 ∧
      (start now turn tasks' (world.seen view)).2 = (start now turn tasks world).2.seen view := by
  induction h generalizing turn world with
  | nil => exact ⟨.nil, rfl⟩
  | @cons task task' _ _ hm _ ih =>
    obtain ⟨hs, hw⟩ := mirrors_advance now turn turn hm world
    simp only [start]
    rw [← hw]
    obtain ⟨hrest, hw'⟩ := ih (turn + 1) (task.advance now turn turn world).2
    exact ⟨.cons hs hrest, hw'⟩

variable {tasks : List (Task σ α)} {tasks' : List (Task τ α)}

theorem together_eq_of_mirrors (attention : Attention) (now : Nat) (world : World σ)
    (h : List.Forall₂ (Task.Mirrors view) tasks tasks') :
    together attention stop now (world.seen view) tasks' =
      (together attention stop now world tasks).seen view := by
  obtain ⟨hs, hw⟩ := mirrors_start now 0 h (arrived stop now world)
  rw [together, together, arrived_seen]
  exact finish_eq_of_mirrors attention ⟨rfl, h.length_eq.symm, hw, hs⟩

theorem inTurn_eq_of_mirrors (now : Nat) (world : World σ)
    (h : List.Forall₂ (Task.Mirrors view) tasks tasks') :
    inTurn stop now (world.seen view) tasks' = (inTurn stop now world tasks).seen view := by
  induction h generalizing now world with
  | nil => rfl
  | cons hm _ ih =>
    simp only [inTurn]
    rw [together_eq_of_mirrors .everyone now world (.cons hm .nil)]
    simp only [Finish.seen]
    rw [ih]
    rfl

end Clock

end GraphGate
