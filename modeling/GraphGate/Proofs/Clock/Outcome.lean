import GraphGate.Clock.Schedule

/-! Whatever the clock does, a task ends as one of the ends that it has. -/
namespace GraphGate

variable {σ α : Type}

theorem within_trans {a b c : Task σ α} (h : Task.Within a b) (h' : Task.Within b c) :
    Task.Within a c := by
  induction h' with
  | refl => exact h
  | look _ ih => exact .look ih
  | put _ ih => exact .put ih
  | onTime _ ih => exact .onTime ih
  | onCancel _ ih => exact .onCancel ih

/-- A strand is a task on its way. -/
inductive Strand.Follows (task : Task σ α) : Strand σ α → Prop
  | ended {a : α} (h : Task.Within (.done a) task) : Follows task (.ended a)
  | waiting {alarm : Alarm} {onTime onCancel : Task σ α} (ht : Task.Within onTime task)
    (hc : Task.Within onCancel task) : Follows task (.waiting alarm onTime onCancel)

theorem follows_advance {now turn call : Nat} {t task : Task σ α} {w : World σ}
    (h : Task.Within t task) : (t.advance now turn call w).1.Follows task := by
  induction t generalizing w with
  | done a => exact .ended h
  | look next ih => exact ih w (within_trans (.look (.refl _)) h)
  | put world next ih => exact ih (within_trans (.put (.refl _)) h)
  | pause wait onTime onCancel ih =>
    rw [Task.advance]
    split
    · exact ih (within_trans (.onTime (.refl _)) h)
    · exact .waiting (within_trans (.onTime (.refl _)) h) (within_trans (.onCancel (.refl _)) h)

theorem follows_poll {now turn : Nat} {s : Strand σ α} {task : Task σ α} {w : World σ}
    (h : s.Follows task) : (s.poll now turn w).2.1.Follows task := by
  cases h with
  | ended h => exact .ended h
  | waiting ht hc =>
    rw [Strand.poll]
    split
    · exact follows_advance hc
    · split
      · exact follows_advance ht
      · exact .waiting ht hc

namespace Clock

variable {tasks : List (Task σ α)} {scene : Scene σ α}

/-- Every strand of a scene is one of the tasks on its way. -/
def Scene.Follows (tasks : List (Task σ α)) (scene : Scene σ α) : Prop :=
  ∀ s ∈ scene.strands, ∃ task ∈ tasks, s.Follows task

theorem follows_visit (h : scene.Follows tasks) (i : Nat) : (scene.visit i).2.Follows tasks := by
  unfold Scene.visit
  split
  · exact h
  · next strand hi =>
    obtain ⟨task, ht, hs⟩ := h strand (List.mem_of_getElem? hi)
    have hp : (strand.poll scene.now scene.turns scene.world).2.1.Follows task := follows_poll hs
    split
    · exact h
    · next strand' world he =>
      rw [he] at hp
      intro s hm
      rcases List.mem_or_eq_of_mem_set hm with hm | rfl
      · exact h s hm
      · exact ⟨task, ht, hp⟩

theorem follows_awaited (h : scene.Follows tasks) (stop : Option Nat) :
    (awaited stop scene).Follows tasks := h

theorem follows_round (h : scene.Follows tasks) (order : List Nat) :
    (scene.round order).2.Follows tasks := by
  induction order generalizing scene with
  | nil => exact h
  | cons i rest ih => exact ih (follows_visit h i)

theorem follows_start {now turn : Nat} {ts : List (Task σ α)} {w : World σ} (h : ts ⊆ tasks) :
    ∀ s ∈ (start now turn ts w).1, ∃ task ∈ tasks, s.Follows task := by
  induction ts generalizing turn w with
  | nil =>
    intro s hs
    cases hs
  | cons t rest ih =>
    obtain ⟨ht, hr⟩ := List.cons_subset.mp h
    intro s hs
    rcases List.mem_cons.mp hs with rfl | hs
    · exact ⟨t, ht, follows_advance (.refl t)⟩
    · exact ih hr s hs

theorem exists_of_mem_filterMap (h : scene.Follows tasks) {a : α}
    (ha : a ∈ scene.strands.filterMap Strand.result?) :
    ∃ task ∈ tasks, Task.Within (.done a) task := by
  obtain ⟨s, hs, hr⟩ := List.mem_filterMap.mp ha
  obtain ⟨task, ht, hf⟩ := h s hs
  cases hf with
  | ended hw =>
    cases hr
    exact ⟨task, ht, hw⟩
  | waiting _ _ => cases hr

theorem exists_of_mem_finish {attention : Attention} {stop : Option Nat}
    (h : scene.Follows tasks) {a : α} (ha : a ∈ (finish attention stop scene).results) :
    ∃ task ∈ tasks, Task.Within (.done a) task := by
  induction scene using finish.induct attention stop with
  | case1 scene scene' hr ih =>
    have hround := follows_round (follows_awaited h stop) (attention.order (awaited stop scene))
    rw [hr] at hround
    rw [finish] at ha
    split at ha
    · next next hr' =>
      rw [hr] at hr'
      cases hr'
      exact ih hround ha
    · next next hr' =>
      rw [hr] at hr'
      cases hr'
  | case2 scene scene' hr =>
    have hround := follows_round (follows_awaited h stop) (attention.order (awaited stop scene))
    rw [finish] at ha
    split at ha
    · next next hr' =>
      rw [hr] at hr'
      cases hr'
    · next next hr' =>
      rw [hr'] at hround
      exact exists_of_mem_filterMap hround ha

theorem exists_of_mem_together {attention : Attention} {stop : Option Nat} {now : Nat}
    {w : World σ} {a : α} (ha : a ∈ (together attention stop now w tasks).results) :
    ∃ task ∈ tasks, Task.Within (.done a) task := by
  have hs : ∀ s ∈ (start now 0 tasks (arrived stop now w)).1, ∃ task ∈ tasks, s.Follows task :=
    follows_start (List.Subset.refl tasks)
  rw [together] at ha
  generalize start now 0 tasks (arrived stop now w) = started at hs ha
  obtain ⟨strands, world⟩ := started
  have hf : Scene.Follows tasks ⟨now, tasks.length, world, strands⟩ := hs
  exact exists_of_mem_finish hf ha

theorem exists_of_mem_inTurn {stop : Option Nat} {now : Nat} {w : World σ} {a : α}
    (ha : a ∈ (inTurn stop now w tasks).results) : ∃ task ∈ tasks, Task.Within (.done a) task := by
  induction tasks generalizing now w with
  | nil => cases ha
  | cons task rest ih =>
    rcases List.mem_append.mp ha with ha | ha
    · obtain ⟨t, ht, hw⟩ := exists_of_mem_together ha
      exact ⟨t, by simp [List.mem_singleton.mp ht], hw⟩
    · obtain ⟨t, ht, hw⟩ := ih ha
      exact ⟨t, by simp [ht], hw⟩

end Clock

end GraphGate
