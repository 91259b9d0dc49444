import GraphGate.Clock.Task

/-! Running tasks beside each other on a clock that moves only while all of them wait. -/
namespace GraphGate.Clock

open Strand (Later)
open Relation (TransGen)

variable {σ α : Type}

/-- Strands of which one went on. -/
inductive Moved : List (Strand σ α) → List (Strand σ α) → Prop where
  | head {s s' : Strand σ α} {rest : List (Strand σ α)} :
    Later s' s → Moved (s' :: rest) (s :: rest)
  | tail {s : Strand σ α} {rest rest' : List (Strand σ α)} :
    Moved rest' rest → Moved (s :: rest') (s :: rest)

theorem acc_cons {s : Strand σ α} (hs : Acc Later s) :
    ∀ {rest : List (Strand σ α)}, Acc Moved rest → Acc Moved (s :: rest) := by
  induction hs with
  | intro s hs ihs =>
    intro rest hr
    induction hr with
    | intro rest hr ihr =>
      refine .intro _ fun strands h => ?_
      cases h with
      | head h => exact ihs _ h (.intro _ hr)
      | tail h => exact ihr _ h

theorem acc_moved (strands : List (Strand σ α)) : Acc Moved strands := by
  induction strands with
  | nil => exact .intro _ fun _ h => nomatch h
  | cons s rest ih => exact acc_cons s.acc ih

instance : WellFoundedRelation (List (Strand σ α)) :=
  ⟨TransGen Moved, (WellFounded.intro acc_moved).transGen⟩

theorem moved_set {s s' : Strand σ α} (h : Later s' s) :
    ∀ {strands : List (Strand σ α)} {i : Nat}, strands[i]? = some s →
      Moved (strands.set i s') strands
  | [], _, hi => nomatch hi
  | _ :: _, 0, hi => by
    simp only [List.getElem?_cons_zero, Option.some.injEq] at hi
    subst hi
    exact .head h
  | _ :: _, i + 1, hi => .tail (moved_set h hi)

/-- Tasks in the middle of their course: the time, how many turns there were, the world that they
share, and where each of them stands. -/
structure Scene (σ α : Type) where
  now : Nat
  turns : Nat
  world : World σ
  strands : List (Strand σ α)

namespace Scene

/-- Gives a strand a turn, and tells whether it went on. -/
def visit (scene : Scene σ α) (i : Nat) : Bool × Scene σ α :=
  match scene.strands[i]? with
  | none => (false, scene)
  | some strand =>
    match strand.poll scene.now scene.turns scene.world with
    | (false, _) => (false, scene)
    | (true, strand, world) =>
      (true, { scene with
        turns := scene.turns + 1, world, strands := scene.strands.set i strand })

/-- Gives strands their turns one after the other, and tells whether any went on. -/
def round (scene : Scene σ α) : List Nat → Bool × Scene σ α
  | [] => (false, scene)
  | i :: rest =>
    let (went, scene) := scene.visit i
    let (more, scene) := scene.round rest
    (went || more, scene)

theorem later_poll {now turn : Nat} {s : Strand σ α} {w : World σ}
    (h : (s.poll now turn w).1 = true) : Later (s.poll now turn w).2.1 s := by
  cases s with
  | ended a => simp [Strand.poll] at h
  | waiting alarm t c =>
    simp only [Strand.poll] at h ⊢
    split
    · exact Strand.later_advance (.inr rfl)
    · split
      · exact Strand.later_advance (.inl rfl)
      · simp_all

theorem moved_visit (scene : Scene σ α) (i : Nat) :
    ((scene.visit i).1 = true ∧ Moved (scene.visit i).2.strands scene.strands) ∨
      ((scene.visit i).1 = false ∧ (scene.visit i).2 = scene) := by
  unfold visit
  split
  · exact .inr ⟨rfl, rfl⟩
  · next strand hi =>
    split
    · exact .inr ⟨rfl, rfl⟩
    · next strand' world hp =>
      have h : (strand.poll scene.now scene.turns scene.world).1 = true := by rw [hp]
      have hl := later_poll h
      rw [hp] at hl
      exact .inl ⟨rfl, moved_set hl hi⟩

theorem moved_round (scene : Scene σ α) (order : List Nat) :
    ((scene.round order).1 = true ∧ TransGen Moved (scene.round order).2.strands scene.strands) ∨
      ((scene.round order).1 = false ∧ (scene.round order).2 = scene) := by
  induction order generalizing scene with
  | nil => exact .inr ⟨rfl, rfl⟩
  | cons i rest ih =>
    simp only [round]
    rcases moved_visit scene i with ⟨hv, hm⟩ | ⟨hv, hs⟩ <;>
      rcases ih (scene.visit i).2 with ⟨hr, hm'⟩ | ⟨hr, hs'⟩
    · exact .inl ⟨by simp [hv], hm'.tail hm⟩
    · exact .inl ⟨by simp [hv], by rw [hs']; exact .single hm⟩
    · rw [hs] at hm' hr
      exact .inl ⟨by simp [hs, hr], by rw [hs]; exact hm'⟩
    · exact .inr ⟨by simp [hv, hr], by rw [hs', hs]⟩

end Scene

/-- Which strands get a turn when something happened. -/
inductive Attention where
  /-- All of them, in their order. -/
  | everyone
  /-- Those to which it happened: those whose time is due in the order in which their times were
  set, or all that wait in the order of their calls, once everything is to stop. -/
  | called

/-- The strands to which a function gives a number, by that number. -/
def ranked (rank : Alarm → Option Nat) (strands : List (Strand σ α)) : List Nat :=
  let numbered := strands.zipIdx.filterMap fun (strand, i) =>
    (strand.alarm?.bind rank).map fun n => (n, i)
  (numbered.mergeSort fun a b => a.1 ≤ b.1).map Prod.snd

def Attention.order (attention : Attention) (scene : Scene σ α) : List Nat :=
  match attention with
  | .everyone => List.range scene.strands.length
  | .called =>
    if scene.world.cancelled then ranked (fun alarm => some alarm.call) scene.strands
    else ranked (fun alarm => if alarm.due ≤ scene.now then some alarm.set else none) scene.strands

/-- The next time at which something happens: a strand is due, or everything is to stop. -/
def nextTime (stop : Option Nat) (scene : Scene σ α) : Nat :=
  let due := (scene.strands.filterMap Strand.alarm?).map Alarm.due
  if scene.world.cancelled && !due.isEmpty then scene.now
  else match (due ++ (if due.isEmpty then [] else stop.toList)).min? with
    | some time => max scene.now time
    | none => scene.now

/-- What is known when all tasks have ended: the time, the world, and what they gave. -/
structure Finish (σ α : Type) where
  now : Nat
  world : World σ
  results : List α

/-- From the time `stop` on, everything is to stop. -/
def arrived (stop : Option Nat) (now : Nat) (world : World σ) : World σ :=
  if stop.any (· ≤ now) then { world with cancelled := true } else world

/-- The scene when something happens next. -/
def awaited (stop : Option Nat) (scene : Scene σ α) : Scene σ α :=
  let now := nextTime stop scene
  { scene with now, world := arrived stop now scene.world }

/-- Runs strands to their ends. -/
def finish (attention : Attention) (stop : Option Nat) (scene : Scene σ α) : Finish σ α :=
  match _h : (awaited stop scene).round (attention.order (awaited stop scene)) with
  | (true, scene') => finish attention stop scene'
  | (false, scene') => ⟨scene'.now, scene'.world, scene'.strands.filterMap Strand.result?⟩
termination_by scene.strands
decreasing_by
  rcases (awaited stop scene).moved_round (attention.order (awaited stop scene)) with
    ⟨_, hm⟩ | ⟨hf, _⟩
  · rw [_h] at hm
    exact hm
  · rw [_h] at hf
    exact absurd hf (by simp)

/-- Starts tasks in their order, each running until it waits. -/
def start (now turn : Nat) : List (Task σ α) → World σ → List (Strand σ α) × World σ
  | [], world => ([], world)
  | task :: rest, world =>
    let (strand, world) := task.advance now turn turn world
    let (strands, world) := start now (turn + 1) rest world
    (strand :: strands, world)

/-- Runs tasks side by side. -/
def together (attention : Attention) (stop : Option Nat) (now : Nat) (world : World σ)
    (tasks : List (Task σ α)) : Finish σ α :=
  let (strands, world) := start now 0 tasks (arrived stop now world)
  finish attention stop ⟨now, tasks.length, world, strands⟩

/-- Runs tasks one after the other. -/
def inTurn (stop : Option Nat) (now : Nat) (world : World σ) : List (Task σ α) → Finish σ α
  | [] => ⟨now, world, []⟩
  | task :: rest =>
    let first := together .everyone stop now world [task]
    let more := inTurn stop first.now first.world rest
    { more with results := first.results ++ more.results }

end GraphGate.Clock
