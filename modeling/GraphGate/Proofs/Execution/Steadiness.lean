import GraphGate.Execution.Run
import GraphGate.Proofs.Clock.Timeline

/-! Surroundings whose answers depend on nothing but the question. What a dialogue comes to among
them, and when, does not depend on what else goes on. -/
namespace GraphGate

variable {ρ σ α : Type}

/-- A resolver's course ends in some way after sleeping for some time in all, whatever it finds on
its way, and does not stop anything. -/
inductive Course.Takes : Course σ → Nat → Outcome → Prop
  | finish {outcome : Outcome} : Takes (.finish outcome) 0 outcome
  | look {next : World σ → Course σ} {ms : Nat} {outcome : Outcome}
    (h : ∀ world, Takes (next world) ms outcome) : Takes (.look next) ms outcome
  | keep {memory : σ → σ} {next : Course σ} {ms : Nat} {outcome : Outcome}
    (h : Takes next ms outcome) : Takes (.keep memory next) ms outcome
  | sleep {ms rest : Nat} {next : Course σ} {outcome : Outcome} (h : Takes next rest outcome) :
    Takes (.sleep ms next) (ms + rest) outcome

namespace Execution

open Clock (stopped)

variable {s : Surroundings ρ σ} {stop : Option Nat}

/-- The answers of subscribers and resolvers are functions of what they are asked. -/
structure Surroundings.Steady (s : Surroundings ρ σ) : Prop where
  publish : ∀ phase event, ∃ value, ∀ memory, (s.sink.publish phase event memory).1 = value
  takes : ∀ resolver invocation, ∃ ms outcome, (s.resolvers resolver invocation).Takes ms outcome

/-- How long a call goes on that may take some time only. -/
def span : Option Nat → Nat → Nat
  | none, ms => ms
  | some left, ms => min left ms

/-- The result of a call that may take some time only. -/
def limited : Option Nat → Nat → Outcome → CallResult
  | none, _, outcome => outcome.result
  | some left, ms, outcome => if ms ≤ left then outcome.result else .error .timedOut

theorem span_zero (left : Option Nat) : span left 0 = 0 := by
  cases left with
  | none => rfl
  | some left => exact Nat.min_zero left

theorem limited_zero (left : Option Nat) (outcome : Outcome) :
    limited left 0 outcome = outcome.result := by
  cases left <;> rfl

theorem supervise_finish {next : CallResult → Task σ α} {first : Bool} {left : Option Nat}
    {outcome : Outcome} :
    supervise next first left (.finish outcome) = next outcome.result := by
  cases left <;> rfl

theorem supervise_nap {next : CallResult → Task σ α} {first : Bool} {left : Option Nat}
    {course : Course σ} :
    supervise next first left (.sleep 0 course) = supervise next first left course := by
  cases left <;> rfl

/-- A sleep that fits into the time that is left. -/
theorem supervise_within {next : CallResult → Task σ α} {first : Bool} {left : Option Nat}
    {ms : Nat} {course : Course σ} (hl : ∀ l ∈ left, ms + 1 ≤ l) :
    supervise next first left (.sleep (ms + 1) course) =
      .pause ⟨ms + 1, first, false⟩ (supervise next false (left.map (· - (ms + 1))) course)
        (next (.error .cancelled)) := by
  cases left with
  | none => rfl
  | some l => exact if_pos (hl l rfl)

/-- A sleep during which the time runs out. -/
theorem supervise_beyond {next : CallResult → Task σ α} {first : Bool} {l ms : Nat}
    {course : Course σ} (hl : l < ms + 1) :
    supervise next first (some l) (.sleep (ms + 1) course) =
      .pause ⟨l, first, true⟩ (next (.error .timedOut)) (next (.error .cancelled)) :=
  if_neg (Nat.not_le_of_lt hl)

theorem span_within {left : Option Nat} {ms rest : Nat} (hl : ∀ l ∈ left, ms ≤ l) :
    span left (ms + rest) = ms + span (left.map (· - ms)) rest := by
  cases left with
  | none => rfl
  | some l =>
    have h := hl l rfl
    simp only [span, Option.map_some]
    omega

theorem limited_within {left : Option Nat} {ms rest : Nat} {outcome : Outcome}
    (hl : ∀ l ∈ left, ms ≤ l) :
    limited left (ms + rest) outcome = limited (left.map (· - ms)) rest outcome := by
  cases left with
  | none => rfl
  | some l =>
    have h := hl l rfl
    have he : ms + rest ≤ l ↔ rest ≤ l - ms := by omega
    simp only [limited, Option.map_some, he]

theorem span_beyond {l ms rest : Nat} (hl : l < ms) : span (some l) (ms + rest) = l :=
  Nat.min_eq_left (by omega)

theorem limited_beyond {l ms rest : Nat} {outcome : Outcome} (hl : l < ms) :
    limited (some l) (ms + rest) outcome = .error .timedOut :=
  if_neg (by omega)

/-- A pause ends when its time is due, or when everything is to stop before. -/
theorem comes_pause {now : Nat} {wait : Wait} {onTime onCancel : Task σ α} {a : α}
    (hn : stopped stop now = false)
    (ht : stopped stop (now + wait.ms) = false → onTime.Comes stop (now + wait.ms) a)
    (hc : ∀ c, stop = some c → c ≤ now + wait.ms → onCancel.Comes stop c a) :
    (Task.pause wait onTime onCancel).Comes stop now a := by
  by_cases hm : wait.ms = 0
  · have h := ht (by rw [hm]; exact hn)
    rw [hm] at h
    exact .atOnce hm h
  · cases hs : stopped stop (now + wait.ms) with
    | false => exact .onTime hm hs (ht hs)
    | true =>
      cases hstop : stop with
      | none =>
        rw [hstop] at hs
        cases hs
      | some c =>
        have hle : c ≤ now + wait.ms := by simpa [stopped, hstop] using hs
        have hlt : now < c := Clock.lt_of_not_stopped hn hstop
        rw [hstop] at hc
        exact .onCancel rfl hlt hle (hc c rfl hle)

/-- A call comes to its result in its time, unless everything is to stop before. -/
theorem comes_supervise {next : CallResult → Task σ α} {course : Course σ} {ms : Nat}
    {outcome : Outcome} {a : α} (h : course.Takes ms outcome) {left : Option Nat} {first : Bool}
    {now : Nat} (hn : stopped stop now = false)
    (ht : stopped stop (now + span left ms) = false →
      (next (limited left ms outcome)).Comes stop (now + span left ms) a)
    (hc : ∀ c, stop = some c → c ≤ now + span left ms → (next (.error .cancelled)).Comes stop c a) :
    (supervise next first left course).Comes stop now a := by
  induction h generalizing left first now with
  | finish =>
    rw [span_zero, limited_zero] at ht
    rw [supervise_finish]
    exact ht hn
  | look _ ih =>
    rw [supervise]
    exact .look fun world _ => ih world hn ht hc
  | keep _ ih =>
    rw [supervise]
    exact .look fun world hw => .put hw (ih hn ht hc)
  | @sleep ms rest course outcome _ ih =>
    cases ms with
    | zero =>
      rw [supervise_nap]
      rw [Nat.zero_add] at ht hc
      exact ih hn ht hc
    | succ ms =>
      by_cases hl : ∀ l ∈ left, ms + 1 ≤ l
      · rw [supervise_within hl]
        rw [span_within hl, ← Nat.add_assoc] at ht hc
        rw [limited_within hl] at ht
        refine comes_pause hn (fun hs => ih hs ht hc) ?_
        intro c hstop hle
        exact hc c hstop (Nat.le_trans hle (Nat.le_add_right _ _))
      · obtain ⟨l, rfl, hlt⟩ : ∃ l, left = some l ∧ l < ms + 1 := by simpa using hl
        rw [span_beyond hlt] at ht hc
        rw [limited_beyond hlt] at ht
        rw [supervise_beyond hlt]
        exact comes_pause hn ht hc

theorem exists_comes_supervise {next : CallResult → Task σ α} {course : Course σ} {ms : Nat}
    {outcome : Outcome} (hnext : ∀ result now, ∃ a, (next result).Comes stop now a)
    (h : course.Takes ms outcome) (left : Option Nat) (first : Bool) {now : Nat}
    (hn : stopped stop now = false) : ∃ a, (supervise next first left course).Comes stop now a := by
  cases hs : stopped stop (now + span left ms) with
  | false =>
    obtain ⟨a, ha⟩ := hnext (limited left ms outcome) (now + span left ms)
    refine ⟨a, comes_supervise h hn (fun _ => ha) ?_⟩
    intro c hstop hle
    have hlt := Clock.lt_of_not_stopped hs hstop
    omega
  | true =>
    cases stop with
    | none => cases hs
    | some c =>
      obtain ⟨a, ha⟩ := hnext (.error .cancelled) c
      refine ⟨a, comes_supervise h hn ?_ ?_⟩
      · rw [hs]
        nofun
      · intro c' hstop _
        rw [← Option.some.inj hstop]
        exact ha

/-- Whatever a dialogue asks, it comes to its end. -/
theorem exists_comes (hs : s.Steady) (d : Dialogue ρ α) (stop : Option Nat) (now : Nat) :
    ∃ a, (perform s d).Comes stop now a := by
  induction d generalizing now with
  | done a => exact ⟨a, .done⟩
  | publish phase event next ih =>
    obtain ⟨value, hv⟩ := hs.publish phase event
    obtain ⟨a, ha⟩ := ih value now
    refine ⟨a, .look fun world hw => ?_⟩
    have hp : (s.sink.publish phase event world.memory).1 = value := hv world.memory
    simp only [hp]
    exact .put hw ha
  | askOperation plan next ih => exact ih _ now
  | askField context next ih => exact ih _ now
  | call resolver invocation next ih =>
    cases hstopped : stopped stop now with
    | true =>
      obtain ⟨a, ha⟩ := ih (.error .cancelled) now
      refine ⟨a, .look fun world hw => ?_⟩
      rw [hw, hstopped, if_pos rfl]
      exact ha
    | false =>
      obtain ⟨ms, outcome, ht⟩ := hs.takes resolver invocation
      obtain ⟨a, ha⟩ := exists_comes_supervise ih ht s.timeout true hstopped
      refine ⟨a, .look fun world hw => ?_⟩
      rw [hw, hstopped, if_neg Bool.false_ne_true]
      exact ha

end Execution

end GraphGate
