import GraphGate.Gateway
import GraphGate.Proofs.Execution.Session
import GraphGate.Proofs.Execution.Steadiness

/-! What a gateway does is one way for a session to unroll, side by side and one after the other. -/
namespace GraphGate

namespace Execution

open Clock (Scene Unfolds)

variable {ρ σ α : Type} {s : Surroundings ρ σ} {stop : Option Nat}
  {session middle last : Session ρ σ α} {i turn turn' : Nat} {stand stand' : Stand ρ σ α}
  {world : World σ} {deed : Deed ρ}

/-- The session may come there. -/
def Reaches (s : Surroundings ρ σ) (stop : Option Nat) (session last : Session ρ σ α) : Prop :=
  ∃ notes, Unrolls s stop session notes last

theorem reaches_refl : Reaches s stop session session := ⟨[], .refl⟩

theorem reaches_trans (h : Reaches s stop session middle) (h' : Reaches s stop middle last) :
    Reaches s stop session last := by
  obtain ⟨notes, h⟩ := h
  obtain ⟨notes', h'⟩ := h'
  exact ⟨notes ++ notes', unrolls_trans h h'⟩

/-- How a call goes on when the time for which it waited is due. -/
def resumed (s : Surroundings ρ σ) (late : Bool) (call : Ongoing ρ σ α) : Task σ α :=
  if late then perform s (call.next (.error .timedOut))
  else supervise (fun result => perform s (call.next result)) false call.left call.course

/-- An execution that ended or waits, as it is on the clock. -/
inductive Stand.Is (s : Surroundings ρ σ) : Stand ρ σ α → Strand σ α → Prop
  | ended {a : α} : Is s (.speaking (.done a)) (.ended a)
  | waiting {due : Nat} {late : Bool} {call : Ongoing ρ σ α} {alarm : Alarm}
    {onTime onCancel : Task σ α} (hd : alarm.due = due) (ht : onTime = resumed s late call)
    (hc : onCancel = perform s (call.next (.error .cancelled))) :
    Is s (.waiting due late call) (.waiting alarm onTime onCancel)

/-- An entry may move on until it is where it is on the clock after a turn. -/
def Lands (s : Surroundings ρ σ) (stop : Option Nat) (session : Session ρ σ α) (i : Nat)
    (turned : Strand σ α × World σ) : Prop :=
  ∃ stand : Stand ρ σ α, stand.Is s turned.1 ∧
    Reaches s stop session (session.put i stand turned.2)

theorem put_self (hi : session.stands[i]? = some stand) :
    session.put i stand session.world = session := by
  obtain ⟨hlt, rfl⟩ := List.getElem?_eq_some_iff.mp hi
  rw [Session.put, List.set_getElem_self]

theorem put_put {world' : World σ} :
    (session.put i stand world).put i stand' world' = session.put i stand' world' := by
  rw [Session.put, Session.put, List.set_set]
  rfl

theorem lands_of_is {strand : Strand σ α} (hi : session.stands[i]? = some stand)
    (hs : stand.Is s strand) : Lands s stop session i (strand, session.world) := by
  refine ⟨stand, hs, ?_⟩
  rw [put_self hi]
  exact reaches_refl

theorem lands_of_moves {turned : Strand σ α × World σ} (hi : session.stands[i]? = some stand)
    (hm : Moves s session.now stand session.world deed stand' world)
    (h : Lands s stop (session.put i stand' world) i turned) : Lands s stop session i turned := by
  obtain ⟨final, hs, notes, hu⟩ := h
  rw [put_put] at hu
  exact ⟨final, hs, _, .move hi hm hu⟩

/-- A resolver's course within a turn. -/
theorem lands_supervise {next : CallResult → Dialogue ρ α}
    (hnext : ∀ result (session : Session ρ σ α),
      session.stands[i]? = some (.speaking (next result)) →
      Lands s stop session i
        ((perform s (next result)).advance session.now turn turn' session.world))
    {resolver : ρ} {invocation : Invocation} {left : Option Nat} {first : Bool}
    {course : Course σ} {session : Session ρ σ α}
    (hi : session.stands[i]? = some (.working ⟨resolver, invocation, next, left, course⟩)) :
    Lands s stop session i ((supervise (fun result => perform s (next result)) first left
      course).advance session.now turn turn' session.world) := by
  induction course generalizing session left first with
  | finish outcome =>
    rw [supervise_finish]
    exact lands_of_moves hi (.finish rfl) (hnext _ _ (getElem?_put_self hi))
  | look course ih =>
    rw [supervise]
    exact lands_of_moves hi (.look rfl) (ih session.world (getElem?_put_self hi))
  | keep memory course ih =>
    rw [supervise]
    exact lands_of_moves hi (.keep rfl) (ih (getElem?_put_self hi))
  | cancel course ih =>
    rw [supervise]
    exact lands_of_moves hi (.cancel rfl) (ih (getElem?_put_self hi))
  | sleep ms course ih =>
    cases ms with
    | zero =>
      rw [supervise_nap]
      exact lands_of_moves hi (.nap rfl) (ih (getElem?_put_self hi))
    | succ ms =>
      by_cases hl : ∀ l ∈ left, ms + 1 ≤ l
      · rw [supervise_within hl]
        exact lands_of_moves hi (.sleep rfl hl)
          (lands_of_is (getElem?_put_self hi) (.waiting rfl rfl rfl))
      · obtain ⟨l, rfl, hlt⟩ : ∃ l, left = some l ∧ l < ms + 1 := by simpa using hl
        rw [supervise_beyond hlt]
        cases l with
        | zero => exact lands_of_moves hi (.overdue rfl rfl hlt) (hnext _ _ (getElem?_put_self hi))
        | succ l =>
          exact lands_of_moves hi (.oversleep rfl rfl hlt)
            (lands_of_is (getElem?_put_self hi) (.waiting rfl rfl rfl))

/-- A dialogue within a turn. -/
theorem lands_perform {d : Dialogue ρ α} {session : Session ρ σ α}
    (hi : session.stands[i]? = some (.speaking d)) :
    Lands s stop session i ((perform s d).advance session.now turn turn' session.world) := by
  induction d generalizing session with
  | done a => exact lands_of_is hi .ended
  | publish phase event next ih =>
    exact lands_of_moves hi .publish (ih _ (getElem?_put_self hi))
  | askOperation plan next ih =>
    exact lands_of_moves hi .askOperation (ih _ (getElem?_put_self hi))
  | askField context next ih =>
    exact lands_of_moves hi .askField (ih _ (getElem?_put_self hi))
  | call resolver invocation next ih =>
    rw [perform, Task.advance]
    cases hw : session.world.cancelled with
    | true =>
      rw [if_pos rfl]
      exact lands_of_moves hi (.refused hw) (ih _ (getElem?_put_self hi))
    | false =>
      rw [if_neg Bool.false_ne_true]
      exact lands_of_moves hi (.started hw)
        (lands_supervise (fun result session hs => ih result hs) (getElem?_put_self hi))

/-- A strand that gets a turn and goes on. -/
theorem lands_poll {strand : Strand σ α} (hi : session.stands[i]? = some stand)
    (hs : stand.Is s strand) (hp : (strand.poll session.now turn session.world).1 = true) :
    Lands s stop session i (strand.poll session.now turn session.world).2 := by
  cases hs with
  | ended => cases hp
  | @waiting due late call alarm onTime onCancel hdue ht hc =>
    subst hdue ht hc
    simp only [Strand.poll] at hp ⊢
    by_cases hw : session.world.cancelled = true
    · rw [if_pos hw]
      exact lands_of_moves hi (.dropped hw) (lands_perform (getElem?_put_self hi))
    · have hw' : session.world.cancelled = false := eq_false_of_ne_true hw
      rw [if_neg hw] at hp ⊢
      by_cases hd : alarm.due ≤ session.now
      · rw [if_pos hd]
        cases late with
        | true => exact lands_of_moves hi (.timeout hw' hd) (lands_perform (getElem?_put_self hi))
        | false =>
          exact lands_of_moves hi (.wake hw' hd)
            (lands_supervise (fun result session hs => lands_perform hs) (getElem?_put_self hi))
      · rw [if_neg hd] at hp
        cases hp

section Frame

variable {before after stands : List (Stand ρ σ α)} {now : Nat}

/-- A session in which some entries are on the clock, and those before and after are not. -/
def Session.framed (before after : List (Stand ρ σ α)) (now : Nat) (world : World σ)
    (stands : List (Stand ρ σ α)) : Session ρ σ α :=
  ⟨now, world, before ++ (stands ++ after)⟩

theorem framed_append_left {more : List (Stand ρ σ α)} :
    Session.framed (before ++ more) after now world stands =
      .framed before after now world (more ++ stands) := by
  rw [Session.framed, Session.framed, List.append_assoc, List.append_assoc]

theorem framed_append_right {more : List (Stand ρ σ α)} :
    Session.framed before (more ++ after) now world stands =
      .framed before after now world (stands ++ more) := by
  rw [Session.framed, Session.framed, List.append_assoc]

theorem getElem?_framed (hi : stands[i]? = some stand) :
    (Session.framed before after now world stands).stands[before.length + i]? = some stand := by
  rw [Session.framed, List.getElem?_append_right (Nat.le_add_right _ _), Nat.add_sub_cancel_left,
    List.getElem?_append_left (List.getElem?_eq_some_iff.mp hi).1, hi]

theorem put_framed {world' : World σ} (hi : stands[i]? = some stand) :
    (Session.framed before after now world stands).put (before.length + i) stand' world' =
      .framed before after now world' (stands.set i stand') := by
  rw [Session.framed, Session.put, List.set_append_right _ _ (Nat.le_add_right _ _),
    Nat.add_sub_cancel_left, List.set_append_left _ _ (List.getElem?_eq_some_iff.mp hi).1]
  rfl

theorem exists_of_lands_framed {turned : Strand σ α × World σ} (hi : stands[i]? = some stand)
    (h : Lands s stop (.framed before after now world stands) (before.length + i) turned) :
    ∃ stand' : Stand ρ σ α, stand'.Is s turned.1 ∧
      Reaches s stop (.framed before after now world stands)
        (.framed before after now turned.2 (stands.set i stand')) := by
  obtain ⟨stand', hs, hr⟩ := h
  rw [put_framed hi] at hr
  exact ⟨stand', hs, hr⟩

theorem exists_of_visit {scene : Scene σ α} (h : List.Forall₂ (Stand.Is s) stands scene.strands)
    (i : Nat) : ∃ stands', List.Forall₂ (Stand.Is s) stands' (scene.visit i).2.strands ∧
      Reaches s stop (.framed before after scene.now scene.world stands)
        (.framed before after (scene.visit i).2.now (scene.visit i).2.world stands') := by
  unfold Scene.visit
  split
  · exact ⟨stands, h, reaches_refl⟩
  · next strand hi =>
    split
    · exact ⟨stands, h, reaches_refl⟩
    · next strand' world' hp =>
      obtain ⟨stand, hj, hs⟩ : ∃ stand, stands[i]? = some stand ∧ stand.Is s strand := by
        obtain ⟨hlt, rfl⟩ := List.getElem?_eq_some_iff.mp hi
        have hlt' : i < stands.length := h.length_eq ▸ hlt
        exact ⟨stands[i], List.getElem?_eq_getElem hlt', h.get hlt' hlt⟩
      have hl : Lands s stop (.framed before after scene.now scene.world stands) (before.length + i)
          (strand.poll scene.now scene.turns scene.world).2 :=
        lands_poll (getElem?_framed hj) hs (congrArg Prod.fst hp)
      rw [hp] at hl
      obtain ⟨stand', hs', hr⟩ := exists_of_lands_framed hj hl
      exact ⟨stands.set i stand', Clock.forall₂_set_set h hs', hr⟩

/-- Entries that are not on the clock are not waited for. -/
theorem dues_framed (hb : before.filterMap Stand.due? = []) (ha : after.filterMap Stand.due? = [])
    {scene : Scene σ α} (h : List.Forall₂ (Stand.Is s) stands scene.strands) :
    (Session.framed before after now world stands).dues = Clock.dues scene := by
  have hstands : ∀ {stands : List (Stand ρ σ α)} {strands : List (Strand σ α)},
      List.Forall₂ (Stand.Is s) stands strands → stands.filterMap Stand.due? =
        (strands.filterMap Strand.alarm?).map Alarm.due := by
    intro stands strands h
    induction h with
    | nil => rfl
    | cons hs _ ih =>
      cases hs with
      | ended => exact ih
      | waiting hd _ _ =>
        rw [List.filterMap_cons, List.filterMap_cons]
        simp [Stand.due?, Strand.alarm?, hd, ih]
  rw [Session.dues, Session.framed, List.filterMap_append, List.filterMap_append, hb, ha,
    List.append_nil, List.nil_append, hstands h, Clock.dues]

/-- What a scene on the clock may become, the session may come to. -/
theorem exists_of_unfolds (hb : before.filterMap Stand.due? = [])
    (ha : after.filterMap Stand.due? = []) {scene final : Scene σ α}
    (hu : Unfolds stop scene final) (h : List.Forall₂ (Stand.Is s) stands scene.strands) :
    ∃ stands', List.Forall₂ (Stand.Is s) stands' final.strands ∧
      Reaches s stop (.framed before after scene.now scene.world stands)
        (.framed before after final.now final.world stands') := by
  induction hu generalizing stands with
  | refl => exact ⟨stands, h, reaches_refl⟩
  | visit i _ ih =>
    obtain ⟨stands₁, h₁, hr₁⟩ := exists_of_visit h i
    obtain ⟨stands₂, h₂, hr₂⟩ := ih h₁
    exact ⟨stands₂, h₂, reaches_trans hr₁ hr₂⟩
  | @wait scene final _ ih =>
    obtain ⟨stands', h', notes, hr⟩ := ih h
    have hn : Clock.soonest stop scene.world.cancelled scene.now
        (Session.framed before after scene.now scene.world stands).dues =
          Clock.nextTime stop scene := by
      rw [dues_framed hb ha h, Clock.nextTime_eq_soonest]
    have hw : (Session.framed before after scene.now scene.world stands).awaited stop =
        .framed before after (Clock.awaited stop scene).now (Clock.awaited stop scene).world
          stands := by
      simp only [Session.awaited, Clock.awaited, Session.framed] at hn ⊢
      rw [hn]
    rw [← hw] at hr
    exact ⟨stands', h', notes, .wait hr⟩

/-- Entries that have not begun. -/
def unbegun (ds : List (Dialogue ρ α)) : List (Stand ρ σ α) := ds.map .speaking

/-- Entries that have come to their results. -/
def ended (results : List α) : List (Stand ρ σ α) := results.map fun a => .speaking (.done a)

theorem dues_unbegun (ds : List (Dialogue ρ α)) :
    (unbegun ds : List (Stand ρ σ α)).filterMap Stand.due? = [] := by
  rw [unbegun, List.filterMap_map]
  exact List.filterMap_eq_nil_iff.mpr fun _ _ => rfl

theorem dues_ended (results : List α) :
    (ended results : List (Stand ρ σ α)).filterMap Stand.due? = [] := by
  rw [ended, List.filterMap_map]
  exact List.filterMap_eq_nil_iff.mpr fun _ _ => rfl

theorem ended_of_strands {strands : List (Strand σ α)}
    (h : List.Forall₂ (Stand.Is s) stands strands) (he : ∀ strand ∈ strands, strand.Ended) :
    stands = ended (strands.filterMap Strand.result?) := by
  induction h with
  | nil => rfl
  | cons hs _ ih =>
    obtain ⟨⟨a, rfl⟩, hrest⟩ := List.forall_mem_cons.mp he
    cases hs
    exact congrArg (_ :: ·) (ih hrest)

theorem exists_of_start (ds : List (Dialogue ρ α)) (before after : List (Stand ρ σ α))
    (now turn : Nat) (world : World σ) :
    ∃ stands', List.Forall₂ (Stand.Is s) stands'
        (Clock.start now turn (ds.map (perform s)) world).1 ∧
      Reaches s stop (.framed before after now world (unbegun ds))
        (.framed before after now (Clock.start now turn (ds.map (perform s)) world).2 stands') := by
  induction ds generalizing before turn world with
  | nil => exact ⟨[], .nil, reaches_refl⟩
  | cons d rest ih =>
    have hd : (unbegun (d :: rest) : List (Stand ρ σ α))[0]? = some (.speaking d) := rfl
    have hl : Lands s stop (.framed before after now world (unbegun (d :: rest)))
        (before.length + 0) ((perform s d).advance now turn turn world) :=
      lands_perform (getElem?_framed hd)
    obtain ⟨stand, hs, hr⟩ := exists_of_lands_framed hd hl
    obtain ⟨stands, hrest, hr'⟩ := ih (before ++ [stand]) (turn + 1)
      ((perform s d).advance now turn turn world).2
    refine ⟨stand :: stands, .cons hs hrest, reaches_trans hr ?_⟩
    rw [framed_append_left, framed_append_left] at hr'
    exact hr'

/-- Tasks that run side by side are entries that come to their results. -/
theorem reaches_together (attention : Clock.Attention) (hb : before.filterMap Stand.due? = [])
    (ha : after.filterMap Stand.due? = []) (ds : List (Dialogue ρ α)) :
    let finish := Clock.together attention stop now world (ds.map (perform s))
    Reaches s stop (.framed before after now world (unbegun ds))
      (.framed before after finish.now finish.world (ended finish.results)) := by
  obtain ⟨stands, hs, hr⟩ := exists_of_start ds before after now 0 (Clock.arrived stop now world)
  obtain ⟨final, hu, he, hf⟩ := Clock.exists_unfolds_finish attention stop
    (Clock.opening stop now world (ds.map (perform s)))
  obtain ⟨stands', hs', hr'⟩ := exists_of_unfolds hb ha hu hs
  have ht : Clock.together attention stop now world (ds.map (perform s)) =
      ⟨final.now, final.world, final.strands.filterMap Strand.result?⟩ := hf
  rw [ended_of_strands hs' he] at hr'
  have hw : (Session.framed before after now world (unbegun ds)).awaited stop =
      .framed before after now (Clock.arrived stop now world) (unbegun ds) := by
    have hdues : (Session.framed before after now world (unbegun ds)).dues = [] := by
      rw [Session.dues, Session.framed, List.filterMap_append, List.filterMap_append, hb, ha,
        dues_unbegun]
      rfl
    rw [Session.awaited, hdues, Clock.soonest_nil]
    rfl
  obtain ⟨notes, hr⟩ := reaches_trans hr hr'
  rw [ht]
  rw [← hw] at hr
  exact ⟨notes, .wait hr⟩

/-- And so are tasks that run one after the other. -/
theorem reaches_inTurn (ha : after.filterMap Stand.due? = []) (ds : List (Dialogue ρ α))
    (before : List (Stand ρ σ α)) (now : Nat) (world : World σ)
    (hb : before.filterMap Stand.due? = []) :
    let finish := Clock.inTurn stop now world (ds.map (perform s))
    Reaches s stop (.framed before after now world (unbegun ds))
      (.framed before after finish.now finish.world (ended finish.results)) := by
  induction ds generalizing before now world with
  | nil => exact reaches_refl
  | cons d rest ih =>
    have hrest : (unbegun rest ++ after).filterMap Stand.due? = [] := by
      rw [List.filterMap_append, dues_unbegun, ha]
      rfl
    generalize hf : Clock.together .everyone stop now world [perform s d] = first
    have hfirst : Reaches s stop (.framed before (unbegun rest ++ after) now world (unbegun [d]))
        (.framed before (unbegun rest ++ after) first.now first.world (ended first.results)) := by
      rw [← hf]
      exact reaches_together .everyone hb hrest [d]
    have hbefore : (before ++ ended first.results).filterMap Stand.due? = [] := by
      rw [List.filterMap_append, hb, dues_ended]
      rfl
    have hmore := ih (before ++ ended first.results) first.now first.world hbefore
    simp only [framed_append_left] at hmore
    simp only [framed_append_right] at hfirst
    simp only [List.map_cons, Clock.inTurn, hf, ended, List.map_append]
    exact reaches_trans hfirst hmore

theorem framed_nil : Session.framed [] [] now world stands = ⟨now, world, stands⟩ := by
  rw [Session.framed, List.append_nil, List.nil_append]

/-- All entries have come to their results. -/
def Session.ofFinish (finish : Clock.Finish σ α) : Session ρ σ α :=
  ⟨finish.now, finish.world, ended finish.results⟩

theorem reaches_side_by_side (attention : Clock.Attention) (ds : List (Dialogue ρ α)) :
    Reaches s stop ⟨now, world, unbegun ds⟩
      (.ofFinish (Clock.together attention stop now world (ds.map (perform s)))) := by
  have h : Reaches s stop (.framed [] [] now world (unbegun ds)) _ :=
    reaches_together attention rfl rfl ds
  rwa [framed_nil, framed_nil] at h

theorem reaches_one_by_one (ds : List (Dialogue ρ α)) :
    Reaches s stop ⟨now, world, unbegun ds⟩
      (.ofFinish (Clock.inTurn stop now world (ds.map (perform s)))) := by
  have h : Reaches s stop (.framed [] [] now world (unbegun ds)) _ :=
    reaches_inTurn rfl ds [] now world rfl
  rwa [framed_nil, framed_nil] at h

end Frame

end Execution

/-- The entries of a request before any of them has begun. -/
def Executor.session {ρ σ : Type} (e : Executor ρ σ) (now : Nat) (world : World σ)
    (entries : List Entry) : Execution.Session ρ σ Envelope :=
  ⟨now, world, Execution.unbegun (entries.map e.execute)⟩

theorem getElem?_session {ρ σ : Type} {e : Executor ρ σ} {now : Nat} {world : World σ}
    {entries : List Entry} {i : Nat} {entry : Entry} (hi : entries[i]? = some entry) :
    (e.session now world entries).stands[i]? = some (.speaking (e.execute entry)) := by
  rw [Executor.session, Execution.unbegun, List.map_map, List.getElem?_map, hi]
  rfl

/-- The run of a gateway is one way for the session of its entries to unroll to the end. -/
theorem Gateway.reaches_resolveEntries {ρ σ : Type} (g : Gateway ρ σ) (stop : Option Nat)
    (now : Nat) (world : World σ) (entries : List Entry) :
    Execution.Reaches g.executor.surroundings stop (g.executor.session now world entries)
      (.ofFinish (g.resolveEntries stop now world entries)) := by
  have htasks : entries.map (fun entry => g.executor.task (g.executor.execute entry)) =
      (entries.map g.executor.execute).map (Execution.perform g.executor.surroundings) :=
    List.map_map.symm
  unfold resolveEntries Executor.session
  rw [htasks]
  cases g.parallel with
  | true => exact Execution.reaches_side_by_side _ (entries.map g.executor.execute)
  | false => exact Execution.reaches_one_by_one (entries.map g.executor.execute)

end GraphGate
