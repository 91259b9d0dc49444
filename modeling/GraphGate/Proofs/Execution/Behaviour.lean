import GraphGate.Gateway
import GraphGate.Proofs.Clock.Outcome
import GraphGate.Proofs.Execution.Transcript

/-! Whatever surroundings do, and whenever: what a dialogue ends with among them, it gives in a
transcript in which the policy has its word. -/
namespace GraphGate

namespace Execution

variable {ρ σ α β : Type} {s : Surroundings ρ σ}

/-- A sleep goes on with the course behind it, or ends the call. -/
theorem exists_of_supervise_sleep {next : CallResult → Task σ α} {first : Bool}
    {left : Option Nat} {ms : Nat} {course : Course σ} {a : α}
    (h : Task.Within (.done a) (supervise next first left (.sleep ms course))) :
    (∃ first' left', Task.Within (.done a) (supervise next first' left' course)) ∨
      ∃ result, Task.Within (.done a) (next result) := by
  cases ms with
  | zero =>
    rw [supervise] at h
    exact .inl ⟨_, _, h⟩
  | succ ms =>
    cases left with
    | none =>
      simp only [supervise] at h
      cases h with
      | onTime h => exact .inl ⟨_, _, h⟩
      | onCancel h => exact .inr ⟨_, h⟩
    | some left =>
      simp only [supervise] at h
      split at h
      · cases h with
        | onTime h => exact .inl ⟨_, _, h⟩
        | onCancel h => exact .inr ⟨_, h⟩
      · cases h with
        | onTime h => exact .inr ⟨_, h⟩
        | onCancel h => exact .inr ⟨_, h⟩

/-- A call ends in some way, in time or not. -/
theorem exists_of_within_supervise {next : CallResult → Task σ α} {first : Bool}
    {left : Option Nat} {course : Course σ} {a : α}
    (h : Task.Within (.done a) (supervise next first left course)) :
    ∃ result, Task.Within (.done a) (next result) := by
  induction course generalizing first left with
  | finish outcome => exact ⟨_, h⟩
  | look course ih =>
    cases h with
    | look h => exact ih _ h
  | keep memory course ih =>
    cases h with
    | look h =>
      cases h with
      | put h => exact ih h
  | cancel course ih =>
    cases h with
    | look h =>
      cases h with
      | put h => exact ih h
  | sleep ms course ih =>
    rcases exists_of_supervise_sleep h with ⟨first', left', h⟩ | h
    · exact ih h
    · exact h

/-- What a dialogue comes to in its surroundings, it gives when it is answered as they do. -/
theorem exists_gives_of_within {d : Dialogue ρ α} {a : α}
    (h : Task.Within (.done a) (perform s d)) : ∃ t, d.Gives t a ∧ t.Obeys s.policy := by
  induction d with
  | done b =>
    cases h with
    | refl => exact ⟨[], .done, nofun⟩
  | publish phase event next ih =>
    cases h with
    | look h =>
      cases h with
      | put h =>
        obtain ⟨t, hg, ho⟩ := ih _ h
        exact ⟨_, .publish hg, obeys_cons trivial ho⟩
  | askOperation plan next ih =>
    obtain ⟨t, hg, ho⟩ := ih _ h
    exact ⟨_, .askOperation hg, obeys_cons rfl ho⟩
  | askField context next ih =>
    obtain ⟨t, hg, ho⟩ := ih _ h
    exact ⟨_, .askField hg, obeys_cons rfl ho⟩
  | call resolver invocation next ih =>
    cases h with
    | look h =>
      simp only at h
      have hr : ∃ result, Task.Within (.done a) (perform s (next result)) := by
        split at h
        · exact ⟨_, h⟩
        · exact exists_of_within_supervise h
      obtain ⟨result, h⟩ := hr
      obtain ⟨t, hg, ho⟩ := ih _ h
      exact ⟨_, .call hg, obeys_cons trivial ho⟩

end Execution

namespace Gateway

variable {ρ σ : Type} {g : Gateway ρ σ}

/-- Every envelope is what the execution of an entry gives in some transcript. -/
theorem exists_gives_of_mem_results {stop : Option Nat} {now : Nat} {world : World σ}
    {entries : List Entry} {envelope : Envelope}
    (h : envelope ∈ (g.resolveEntries stop now world entries).results) :
    ∃ entry ∈ entries, ∃ t, (g.executor.execute entry).Gives t envelope ∧
      t.Obeys g.executor.gate.policy := by
  have hw : ∃ task ∈ entries.map fun entry => g.executor.task (g.executor.execute entry),
      Task.Within (.done envelope) task := by
    unfold resolveEntries at h
    simp only at h
    split at h
    · exact Clock.exists_of_mem_together h
    · exact Clock.exists_of_mem_inTurn h
  obtain ⟨task, ht, hw⟩ := hw
  obtain ⟨entry, he, rfl⟩ := List.mem_map.mp ht
  obtain ⟨t, hg, ho⟩ := Execution.exists_gives_of_within hw
  exact ⟨entry, he, t, hg, ho⟩

end Gateway

end GraphGate
