/-! Tasks: programs that share a world and wait on its clock. -/
namespace GraphGate

/-- What tasks share: whether they are to stop, and a memory. -/
structure World (σ : Type) where
  cancelled : Bool
  memory : σ

/-- A wait within a call. -/
structure Wait where
  ms : Nat
  /-- The call did not wait before. -/
  first : Bool
  /-- The wait ends with the time that the call may take, which runs since it first waited. -/
  limit : Bool

inductive Task (σ α : Type) where
  | done (a : α)
  | look (next : World σ → Task σ α)
  | put (world : World σ) (next : Task σ α)
  /-- Waits, and goes on as `onTime`; or as `onCancel`, once everything is to stop. -/
  | pause (wait : Wait) (onTime onCancel : Task σ α)

/-- When the end of a wait is due, and since which turns it is waited for. -/
structure Alarm where
  due : Nat
  /-- The turn in which the time was set. -/
  set : Nat
  /-- The turn in which the call first waited. -/
  call : Nat

/-- The alarm of a wait that begins in a turn. -/
def Wait.alarm (wait : Wait) (now turn call : Nat) : Alarm :=
  let call := if wait.first then turn else call
  ⟨now + wait.ms, if wait.limit then call else turn, call⟩

/-- A task that ended, or waits until a time is due. -/
inductive Strand (σ α : Type) where
  | ended (a : α)
  | waiting (alarm : Alarm) (onTime onCancel : Task σ α)

namespace Task

variable {σ α : Type}

/-- Runs a task in a turn until it has to wait; `call` is the turn in which the call that it is in
first waited. A pause of no length is none. -/
def advance (now turn call : Nat) : Task σ α → World σ → Strand σ α × World σ
  | done a, world => (.ended a, world)
  | look next, world => advance now turn call (next world) world
  | put world next, _ => advance now turn call next world
  | pause wait onTime onCancel, world =>
    if wait.ms = 0 then advance now turn call onTime world
    else (.waiting (wait.alarm now turn call) onTime onCancel, world)

/-- What a task may become. -/
inductive Within : Task σ α → Task σ α → Prop where
  | refl (t : Task σ α) : Within t t
  | look {t : Task σ α} {next : World σ → Task σ α} {w : World σ} :
    Within t (next w) → Within t (look next)
  | put {t next : Task σ α} {w : World σ} : Within t next → Within t (put w next)
  | onTime {t onTime onCancel : Task σ α} {wait : Wait} :
    Within t onTime → Within t (pause wait onTime onCancel)
  | onCancel {t onTime onCancel : Task σ α} {wait : Wait} :
    Within t onCancel → Within t (pause wait onTime onCancel)

theorem within_advance {now turn call : Nat} {alarm : Alarm} {t onTime onCancel : Task σ α}
    {w : World σ} (h : (t.advance now turn call w).1 = .waiting alarm onTime onCancel) :
    ∃ wait, Within (pause wait onTime onCancel) t := by
  induction t generalizing w with
  | done a => simp [advance] at h
  | look next ih =>
    obtain ⟨wait, hm⟩ := ih w h
    exact ⟨wait, .look hm⟩
  | put world next ih =>
    obtain ⟨wait, hm⟩ := ih h
    exact ⟨wait, .put hm⟩
  | pause wait onTime' onCancel' ih =>
    simp only [advance] at h
    split at h
    · obtain ⟨wait', hm⟩ := ih h
      exact ⟨wait', .onTime hm⟩
    · simp only [Strand.waiting.injEq] at h
      obtain ⟨_, rfl, rfl⟩ := h
      exact ⟨wait, .refl _⟩

end Task

namespace Strand

variable {σ α : Type}

def result? : Strand σ α → Option α
  | ended a => some a
  | waiting .. => none

def alarm? : Strand σ α → Option Alarm
  | ended _ => none
  | waiting alarm .. => some alarm

/-- Lets a strand go on if it can, and tells whether it did. -/
def poll (now turn : Nat) (strand : Strand σ α) (world : World σ) :
    Bool × Strand σ α × World σ :=
  match strand with
  | ended a => (false, .ended a, world)
  | waiting alarm onTime onCancel =>
    if world.cancelled then (true, onCancel.advance now turn alarm.call world)
    else if alarm.due ≤ now then (true, onTime.advance now turn alarm.call world)
    else (false, .waiting alarm onTime onCancel, world)

/-- What a strand may have become when it went on. -/
inductive Later : Strand σ α → Strand σ α → Prop where
  | ended {a : α} {alarm : Alarm} {t c : Task σ α} : Later (ended a) (waiting alarm t c)
  | waiting {alarm alarm' : Alarm} {wait : Wait} {t t' c c' : Task σ α}
    (h : Task.Within (.pause wait t' c') t ∨ Task.Within (.pause wait t' c') c) :
    Later (waiting alarm' t' c') (waiting alarm t c)

theorem later_advance {now turn call : Nat} {alarm : Alarm} {t c s : Task σ α} {w : World σ}
    (hs : s = t ∨ s = c) : Later (s.advance now turn call w).1 (waiting alarm t c) := by
  cases h : (s.advance now turn call w).1 with
  | ended a => exact .ended
  | waiting alarm' t' c' =>
    obtain ⟨wait, hm⟩ := Task.within_advance h
    rcases hs with rfl | rfl
    · exact .waiting (.inl hm)
    · exact .waiting (.inr hm)

theorem acc_ended (a : α) : Acc Later (ended a : Strand σ α) :=
  .intro _ fun _ h => nomatch h

theorem acc_within (t : Task σ α) : ∀ {wait : Wait} {alarm : Alarm} {t' c' : Task σ α},
    Task.Within (.pause wait t' c') t → Acc Later (waiting alarm t' c') := by
  induction t with
  | done a => intro _ _ _ _ h; cases h
  | look next ih => intro _ _ _ _ h; cases h with | look h => exact ih _ h
  | put w next ih => intro _ _ _ _ h; cases h with | put h => exact ih h
  | pause wait t c iht ihc =>
    intro _ _ _ _ h
    cases h with
    | refl =>
      refine .intro _ fun s hs => ?_
      cases hs with
      | ended => exact acc_ended _
      | waiting h => exact h.elim iht ihc
    | onTime h => exact iht h
    | onCancel h => exact ihc h

theorem acc (s : Strand σ α) : Acc Later s := by
  cases s with
  | ended a => exact acc_ended a
  | waiting alarm t c => exact acc_within (.pause ⟨0, false, false⟩ t c) (.refl _)

end Strand

end GraphGate
