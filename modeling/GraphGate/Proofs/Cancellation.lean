import GraphGate.Proofs.Batch
import GraphGate.Proofs.Execution.Attempts
import GraphGate.Proofs.Execution.Unrolling
import GraphGate.Proofs.Execution.Winding
import GraphGate.Proofs.Gateway

/-! What becomes of requests once everything is to stop: no resolver is started any more, whoever
waits is given up at once, and what needs no resolver is still done. -/
namespace GraphGate

open Execution

variable {ρ σ : Type}

/-- The envelope of an entry tells what passed: every call that was cancelled is reported at its
field, and every selected field is attempted; one that is read from its parent is resolved to what
the subscribers leave of its value there, if it is let through. -/
structure Executor.Told (e : Executor ρ σ) (entry : Entry) (t : Transcript ρ)
    (envelope : Envelope) : Prop where
  gives : (e.execute entry).Gives t envelope
  cancelled : ∀ resolver invocation, .called resolver invocation (.error .cancelled) ∈ t →
    .ofField (.cancelled invocation.context.field.name) invocation.context.node
      invocation.context.path ∈ envelope.errors
  attempted : ∀ plan, e.plan entry = .ok plan → ∃ attempts : List (Attempt ρ),
    (∀ attempt ∈ attempts, attempt.exchanges ⊆ t ∧
      attempt.Reported e.setting plan envelope.errors ∧
      ∀ key, readKey? e.setting attempt.site.definition = some key →
        (∃ denial, .field (attempt.site.context plan) (.deny denial) ∈ attempt.exchanges) ∨
          ∃ left, .published .postResolve (Context.event (attempt.site.context plan)
            (some (property attempt.site.parent key))) left ∈ attempt.exchanges ∧
            attempt.result = .ok (left.getD .null)) ∧
    ((∀ denial, .operation plan (.deny denial) ∉ t) → ∀ container parent node path,
      Selected e.schema e.root plan t container parent node path →
        ∃ attempt ∈ attempts, attempt.site.path = path)

variable {e : Executor ρ σ} {entry : Entry} {t : Transcript ρ} {envelope : Envelope}

theorem exists_plan_of_gives (h : (e.execute entry).Gives t envelope) {resolver : ρ}
    {invocation : Invocation} {result : CallResult} (hm : .called resolver invocation result ∈ t) :
    ∃ plan, e.plan entry = .ok plan ∧ (execute e.setting e.root plan).Gives t envelope := by
  unfold Executor.execute at h
  split at h
  · obtain ⟨rfl, -⟩ := Dialogue.gives_done h
    cases hm
  · next plan hp => exact ⟨plan, hp, h⟩

theorem gives_of_plan (h : (e.execute entry).Gives t envelope) {plan : Plan}
    (hp : e.plan entry = .ok plan) : (execute e.setting e.root plan).Gives t envelope := by
  unfold Executor.execute at h
  rw [hp] at h
  exact h

/-- Where the operation is not denied, every selected field is attempted. -/
theorem attempted_of_selected {plan : Plan} (hp : e.plan entry = .ok plan)
    (h : (execute e.setting e.root plan).Gives t envelope)
    (ha : ∀ denial, .operation plan (.deny denial) ∉ t) {container : ObjectType ρ} {parent : Json}
    {node : FieldNode} {path : Path}
    (hs : Selected e.schema e.root plan t container parent node path) : path ∈ t.visits := by
  obtain ⟨type, ht, hw⟩ := exists_wellSelected_of_ofQuery hp
  rcases cases_of_gives ht h with ⟨denial, rfl, -⟩ | ⟨opening, rest, c, rfl, hopen, hc, -⟩
  · exact absurd (by simp) (ha denial)
  · exact visited_of_selected hopen hc hw hs

theorem told_of_gives (h : (e.execute entry).Gives t envelope) : e.Told entry t envelope where
  gives := h
  cancelled := by
    intro resolver invocation hm
    obtain ⟨plan, -, hg⟩ := exists_plan_of_gives h hm
    obtain ⟨opening, rest, rfl, hopen, attempts, rfl, hattempts⟩ := exists_attempted_of_gives hg
    rcases List.mem_append.mp hm with hm | hm
    · obtain ⟨decision, hx⟩ := hopen _ hm
      cases hx
    · obtain ⟨attempt, ha, hm⟩ := List.mem_flatMap.mp hm
      exact cancelled_of_reported (hattempts attempt ha) hm
  attempted := by
    intro plan hp
    have hg := gives_of_plan h hp
    obtain ⟨opening, rest, ht, hopen, attempts, hrest, hattempts⟩ := exists_attempted_of_gives hg
    refine ⟨attempts, ?_, ?_⟩
    · intro attempt ha
      have hsub : attempt.exchanges ⊆ t := by
        intro x hx
        rw [ht, hrest]
        exact List.mem_append_right _ (List.mem_flatMap.mpr ⟨attempt, ha, hx⟩)
      exact ⟨hsub, hattempts attempt ha, fun key => read_of_reported (hattempts attempt ha)⟩
    · intro hdenied container parent node path hs
      have hv : path ∈ t.visits := attempted_of_selected hp hg hdenied hs
      have hnone : opening.visits = [] := by
        apply List.filterMap_eq_nil_iff.mpr
        intro x hx
        obtain ⟨decision, rfl⟩ := hopen x hx
        rfl
      rw [ht, visits_append, hnone, List.nil_append, hrest] at hv
      exact exists_attempt_of_visited hattempts hv

/-- However the entries of a request get their turns, side by side or one after the other: once
everything is to stop, by what a resolver did or because its time has come, the clock stands still.
From then on no resolver is started; one that waits is given up with its next move, and one that is
called is refused; each of these calls fails its field at the field's path. Fields that are read
from their parents are resolved as before. The run of the gateway is one of these ways, to the end
of all entries. -/
theorem cancellation_stops_work (g : Gateway ρ σ) (stop : Option Nat) (now : Nat) (world : World σ)
    (entries : List Entry) :
    (∃ notes, Unrolls g.executor.surroundings stop (g.executor.session now world entries) notes
      (.ofFinish (g.resolveEntries stop now world entries))) ∧
    ∀ before session after last,
      Unrolls g.executor.surroundings stop (g.executor.session now world entries) before session →
      session.world.cancelled = true →
      Unrolls g.executor.surroundings stop session after last →
        Halts session after last ∧
        ∀ i entry envelope, entries[i]? = some entry →
          last.stands[i]? = some (.speaking (.done envelope)) →
            g.executor.Told entry (transcriptOf i (before ++ after)) envelope ∧
            ∀ due late call, session.stands[i]? = some (.waiting due late call) →
              .called call.resolver call.invocation (.error .cancelled) ∈ transcriptOf i after := by
  refine ⟨g.reaches_resolveEntries stop now world entries, ?_⟩
  intro before session after last hbefore hw hafter
  refine ⟨halts_of_unrolls hafter hw, ?_⟩
  intro i entry envelope hi hl
  have hfirst : (g.executor.session now world entries).stands[i]? =
      some (.speaking (g.executor.execute entry)) := by
    rw [Executor.session, unbegun, List.map_map, List.getElem?_map, hi]
    rfl
  have hdone : (Stand.speaking (.done envelope) : Stand ρ σ Envelope).Gives [] envelope := .done
  have hg := gives_of_unrolls (unrolls_trans hbefore hafter) hfirst hl hdone
  rw [List.append_nil] at hg
  exact ⟨told_of_gives hg, fun due late call hs => cancelled_of_waiting hafter hw hs hl⟩

end GraphGate

namespace GraphGate.Sample

open Execution

/-- The user is given up. -/
def givenUp : Envelope :=
  ⟨.obj [("user", .null)], [.ofField (.cancelled "user") userNode [.field "user"]]⟩

/-- The user would be found after 20 ms, and after 10 ms everything is to stop. -/
theorem unrolls_givenUp : ∃ before session late call after last,
    Unrolls sleepy.surroundings (some 10) (sleepy.session 0 ⟨false, []⟩ [asking]) before session ∧
    session.world.cancelled = true ∧ session.stands[0]? = some (.waiting 20 late call) ∧
    Unrolls sleepy.surroundings (some 10) session after last ∧
    last.stands[0]? = some (.speaking (.done givenUp)) := by
  rw [session_asking]
  exact ⟨_, _, _, _, _, _, unrolls_move .askOperation (unrolls_publish rfl (unrolls_move .askField
    (unrolls_asleep rfl (by rintro _ ⟨⟩; decide) rfl (.wait .refl)))), rfl, rfl,
    unrolls_move (.dropped rfl) .refl, rfl⟩

/-- The resolver that looks for the user waits when everything is to stop. -/
theorem cancellation_stops_work_sleepy : ∃ before session late call after last,
    Unrolls sleepy.surroundings (some 10) (sleepy.session 0 ⟨false, []⟩ [asking]) before session ∧
    session.world.cancelled = true ∧ session.stands[0]? = some (.waiting 20 late call) ∧
    Unrolls sleepy.surroundings (some 10) session after last ∧
    Halts session after last ∧
    sleepy.Told asking (transcriptOf 0 (before ++ after)) givenUp ∧
    .called call.resolver call.invocation (.error .cancelled) ∈ transcriptOf 0 after := by
  obtain ⟨before, session, late, call, after, last, hbefore, hw, hwait, hafter, hl⟩ :=
    unrolls_givenUp
  obtain ⟨-, h⟩ := cancellation_stops_work ⟨sleepy, true⟩ (some 10) 0 ⟨false, []⟩ [asking]
  obtain ⟨hhalts, htold⟩ := h before session after last hbefore hw hafter
  obtain ⟨ht, hcalled⟩ := htold 0 asking givenUp rfl hl
  exact ⟨before, session, late, call, after, last, hbefore, hw, hwait, hafter, hhalts, ht,
    hcalled 20 late call hwait⟩

end GraphGate.Sample
