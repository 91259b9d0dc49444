import GraphGate.Clock.Schedule
import Mathlib.Data.List.Forall2

/-! Tasks that find nothing of note in the world that they share. Each comes to its end at its own
times, and the same whether it runs alone or beside others, in whatever order they get their
turns. -/
namespace GraphGate

variable {σ α : Type} {stop : Option Nat}

/-- Everything is to stop by now. -/
def Clock.stopped (stop : Option Nat) (now : Nat) : Bool := stop.any (· ≤ now)

open Clock (stopped)

/-- What a task comes to from a time on, whatever is in the memory that it finds. -/
inductive Task.Comes (stop : Option Nat) : Nat → Task σ α → α → Prop
  | done {now : Nat} {a : α} : Comes stop now (.done a) a
  | look {now : Nat} {next : World σ → Task σ α} {a : α}
    (h : ∀ world : World σ, world.cancelled = stopped stop now → Comes stop now (next world) a) :
    Comes stop now (.look next) a
  | put {now : Nat} {world : World σ} {next : Task σ α} {a : α}
    (hw : world.cancelled = stopped stop now) (h : Comes stop now next a) :
    Comes stop now (.put world next) a
  | atOnce {now : Nat} {wait : Wait} {onTime onCancel : Task σ α} {a : α} (hw : wait.ms = 0)
    (h : Comes stop now onTime a) : Comes stop now (.pause wait onTime onCancel) a
  | onTime {now : Nat} {wait : Wait} {onTime onCancel : Task σ α} {a : α} (hw : wait.ms ≠ 0)
    (hs : stopped stop (now + wait.ms) = false) (h : Comes stop (now + wait.ms) onTime a) :
    Comes stop now (.pause wait onTime onCancel) a
  | onCancel {now c : Nat} {wait : Wait} {onTime onCancel : Task σ α} {a : α} (hc : stop = some c)
    (hn : now < c) (hw : c ≤ now + wait.ms) (h : Comes stop c onCancel a) :
    Comes stop now (.pause wait onTime onCancel) a

/-- What a strand comes to. One that waits goes on when its time is due, or when everything is to
stop, whichever is first. -/
inductive Strand.Comes (stop : Option Nat) (now : Nat) : Strand σ α → α → Prop
  | ended {a : α} : Comes stop now (.ended a) a
  | onTime {alarm : Alarm} {onTime onCancel : Task σ α} {a : α} (hd : now ≤ alarm.due)
    (hs : stopped stop alarm.due = false) (h : Task.Comes stop alarm.due onTime a) :
    Comes stop now (.waiting alarm onTime onCancel) a
  | onCancel {c : Nat} {alarm : Alarm} {onTime onCancel : Task σ α} {a : α} (hc : stop = some c)
    (hn : now ≤ c) (hd : c ≤ alarm.due) (h : Task.Comes stop c onCancel a) :
    Comes stop now (.waiting alarm onTime onCancel) a

/-- A strand that ended. -/
def Strand.Ended (s : Strand σ α) : Prop := ∃ a, s = .ended a

theorem stopped_mono {now later : Nat} (hl : now ≤ later) (hs : stopped stop later = false) :
    stopped stop now = false := by
  cases stop with
  | none => rfl
  | some c =>
    simp only [stopped, Option.any_some, decide_eq_false_iff_not] at hs ⊢
    omega

theorem stopped_at {c : Nat} (hc : stop = some c) : stopped stop c = true := by
  simp [stopped, hc]

theorem stopped_before {now c : Nat} (hc : stop = some c) (hn : now < c) :
    stopped stop now = false := by
  simp only [stopped, hc, Option.any_some, decide_eq_false_iff_not]
  omega

/-- Where nothing stops, the time of the start makes no difference. -/
theorem comes_at_any_time {now now' : Nat} {t : Task σ α} {a : α} (h : t.Comes none now a) :
    t.Comes none now' a := by
  induction h generalizing now' with
  | done => exact .done
  | look _ ih => exact .look fun world hw => ih world hw
  | put hw _ ih => exact .put hw ih
  | atOnce hw _ ih => exact .atOnce hw ih
  | onTime hw _ _ ih => exact .onTime hw rfl ih
  | onCancel hc => cases hc

/-- A task keeps its course in its turn, and lets the others go on. -/
theorem comes_advance {now turn call : Nat} {t : Task σ α} {a : α} {world : World σ}
    (h : t.Comes stop now a) (hw : world.cancelled = stopped stop now) :
    (t.advance now turn call world).1.Comes stop now a ∧
      (t.advance now turn call world).2.cancelled = stopped stop now := by
  induction h generalizing world with
  | done => exact ⟨.ended, hw⟩
  | look _ ih => exact ih world hw hw
  | put hw' _ ih => exact ih hw'
  | atOnce hm _ ih =>
    rw [Task.advance, if_pos hm]
    exact ih hw
  | onTime hm hs h =>
    rw [Task.advance, if_neg hm]
    exact ⟨.onTime (Nat.le_add_right _ _) hs h, hw⟩
  | @onCancel now c wait _ _ _ hc hn hd h =>
    have hm : wait.ms ≠ 0 := by omega
    rw [Task.advance, if_neg hm]
    exact ⟨.onCancel hc (Nat.le_of_lt hn) hd h, hw⟩

/-- A strand keeps its course when it gets a turn. -/
theorem comes_poll {now turn : Nat} {s : Strand σ α} {a : α} {world : World σ}
    (h : s.Comes stop now a) (hw : world.cancelled = stopped stop now) :
    (s.poll now turn world).2.1.Comes stop now a ∧
      (s.poll now turn world).2.2.cancelled = stopped stop now := by
  cases h with
  | ended => exact ⟨.ended, hw⟩
  | onTime hd hs h =>
    have hn : world.cancelled = false := hw.trans (stopped_mono hd hs)
    simp only [Strand.poll, hn, Bool.false_eq_true, if_false]
    split
    · next hdue =>
      have he : now = _ := Nat.le_antisymm hd hdue
      subst he
      exact comes_advance h hw
    · exact ⟨.onTime hd hs h, hw⟩
  | @onCancel c alarm onTime onCancel _ hc hn hd h =>
    rcases Nat.eq_or_lt_of_le hn with rfl | hlt
    · have hcancelled : world.cancelled = true := hw.trans (stopped_at hc)
      simp only [Strand.poll, hcancelled, if_true]
      exact comes_advance h hw
    · have hcancelled : world.cancelled = false := hw.trans (stopped_before hc hlt)
      have hdue : ¬ alarm.due ≤ now := by omega
      rw [Strand.poll, hcancelled, if_neg Bool.false_ne_true, if_neg hdue]
      exact ⟨.onCancel hc hn hd h, hw⟩

namespace Clock

variable {scene scene' : Scene σ α} {results : List α}

/-- All strands of a scene keep their courses to their results. -/
structure Scene.Comes (stop : Option Nat) (results : List α) (scene : Scene σ α) : Prop where
  strands : List.Forall₂ (Strand.Comes stop scene.now) scene.strands results
  cancelled : scene.world.cancelled = stopped stop scene.now

/-- What may become of a scene: strands get turns in any order, and the clock moves at any time. -/
inductive Unfolds (stop : Option Nat) : Scene σ α → Scene σ α → Prop
  | refl {scene : Scene σ α} : Unfolds stop scene scene
  | visit {scene last : Scene σ α} (i : Nat) (h : Unfolds stop (scene.visit i).2 last) :
    Unfolds stop scene last
  | wait {scene last : Scene σ α} (h : Unfolds stop (awaited stop scene) last) :
    Unfolds stop scene last

theorem forall₂_set {β γ : Type} {R : β → γ → Prop} {bs : List β} {cs : List γ} {i : Nat} {b' : β}
    (h : List.Forall₂ R bs cs) (hb : ∀ c, cs[i]? = some c → R b' c) :
    List.Forall₂ R (bs.set i b') cs := by
  induction h generalizing i with
  | nil => exact .nil
  | cons hr hrest ih =>
    cases i with
    | zero => exact .cons (hb _ rfl) hrest
    | succ i => exact .cons hr (ih hb)

theorem forall₂_set_set {β γ : Type} {R : β → γ → Prop} {bs : List β} {cs : List γ} {i : Nat}
    {b : β} {c : γ} (h : List.Forall₂ R bs cs) (hr : R b c) :
    List.Forall₂ R (bs.set i b) (cs.set i c) := by
  induction h generalizing i with
  | nil => exact .nil
  | cons hfirst hrest ih =>
    cases i with
    | zero => exact .cons hr hrest
    | succ i => exact .cons hfirst ih

theorem comes_of_getElem? {now i : Nat} {strands : List (Strand σ α)} {s : Strand σ α} {a : α}
    (h : List.Forall₂ (Strand.Comes stop now) strands results) (hs : strands[i]? = some s)
    (ha : results[i]? = some a) : s.Comes stop now a := by
  obtain ⟨hi, rfl⟩ := List.getElem?_eq_some_iff.mp hs
  obtain ⟨hj, rfl⟩ := List.getElem?_eq_some_iff.mp ha
  exact List.Forall₂.get h hi hj

theorem comes_visit (h : scene.Comes stop results) (i : Nat) :
    (scene.visit i).2.Comes stop results := by
  unfold Scene.visit
  split
  · exact h
  · next strand hi =>
    split
    · exact h
    · next strand' world hp =>
      have hpoll : ∀ a, results[i]? = some a → strand'.Comes stop scene.now a ∧
          world.cancelled = stopped stop scene.now := by
        intro a ha
        have hs : (strand.poll scene.now scene.turns scene.world).2.1.Comes stop scene.now a ∧ _ :=
          comes_poll (comes_of_getElem? h.strands hi ha) h.cancelled
        rwa [hp] at hs
      refine ⟨forall₂_set h.strands fun a ha => (hpoll a ha).1, ?_⟩
      have hlt : i < results.length := by
        rw [← h.strands.length_eq]
        exact (List.getElem?_eq_some_iff.mp hi).1
      exact (hpoll _ (List.getElem?_eq_getElem hlt)).2

/-- The times at which the waits of a scene are due. -/
def dues (scene : Scene σ α) : List Nat := (scene.strands.filterMap Strand.alarm?).map Alarm.due

theorem due_mem {s : Strand σ α} {alarm : Alarm} (hs : s ∈ scene.strands)
    (ha : s.alarm? = some alarm) : alarm.due ∈ dues scene :=
  List.mem_map_of_mem (List.mem_filterMap.mpr ⟨s, hs, ha⟩)

theorem nextTime_eq : nextTime stop scene =
    if scene.world.cancelled && !(dues scene).isEmpty then scene.now
    else (dues scene ++ if (dues scene).isEmpty then [] else stop.toList).min?.elim scene.now
      (max scene.now) := by
  unfold nextTime dues
  simp only
  congr 1
  split <;> next hm => rw [hm, Option.elim]

/-- The first of some times that is not over, or that at which everything is to stop. Nothing is
waited for once that has come. -/
def soonest (stop : Option Nat) (cancelled : Bool) (now : Nat) (dues : List Nat) : Nat :=
  if cancelled && !dues.isEmpty then now
  else (dues ++ if dues.isEmpty then [] else stop.toList).min?.elim now (max now)

theorem soonest_of_cancelled {stop : Option Nat} {now : Nat} {dues : List Nat} :
    soonest stop true now dues = now := by
  unfold soonest
  cases dues <;> rfl

theorem soonest_nil {stop : Option Nat} {cancelled : Bool} {now : Nat} :
    soonest stop cancelled now [] = now := by
  cases cancelled <;> rfl

theorem soonest_singleton {stop : Option Nat} {now due : Nat} :
    soonest stop false now [due] = max now (stop.elim due (min due)) := by
  cases stop <;> simp [soonest, List.min?]

theorem nextTime_eq_soonest :
    nextTime stop scene = soonest stop scene.world.cancelled scene.now (dues scene) := nextTime_eq

theorem nextTime_of_dues_nil (h : dues scene = []) : nextTime stop scene = scene.now := by
  rw [nextTime_eq, h]
  simp

theorem nextTime_of_cancelled (h : scene.world.cancelled = true) :
    nextTime stop scene = scene.now := by
  by_cases hd : dues scene = []
  · exact nextTime_of_dues_nil hd
  · rw [nextTime_eq, h, List.isEmpty_eq_false_iff.mpr hd]
    rfl

/-- The next time is that of the first thing to happen. -/
theorem exists_nextTime (hw : scene.world.cancelled = false) (hd : dues scene ≠ []) :
    ∃ time ∈ dues scene ++ stop.toList, nextTime stop scene = max scene.now time ∧
      ∀ time' ∈ dues scene ++ stop.toList, time ≤ time' := by
  have hn : nextTime stop scene =
      (dues scene ++ stop.toList).min?.elim scene.now (max scene.now) := by
    rw [nextTime_eq, hw, List.isEmpty_eq_false_iff.mpr hd]
    rfl
  cases hm : (dues scene ++ stop.toList).min? with
  | none =>
    rw [List.min?_eq_none_iff, List.append_eq_nil_iff] at hm
    exact absurd hm.1 hd
  | some time =>
    obtain ⟨hmem, hle⟩ := List.min?_eq_some_iff.mp hm
    rw [hm] at hn
    exact ⟨time, hmem, hn, hle⟩

theorem le_nextTime : scene.now ≤ nextTime stop scene := by
  cases hw : scene.world.cancelled with
  | true => exact Nat.le_of_eq (nextTime_of_cancelled hw).symm
  | false =>
    by_cases hd : dues scene = []
    · exact Nat.le_of_eq (nextTime_of_dues_nil hd).symm
    · obtain ⟨time, -, hn, -⟩ : ∃ time ∈ dues scene ++ stop.toList, _ ∧ _ := exists_nextTime hw hd
      omega

theorem cancelled_arrived {now : Nat} {world : World σ}
    (h : world.cancelled = true → stopped stop now = true) :
    (arrived stop now world).cancelled = stopped stop now := by
  unfold arrived
  by_cases hs : stopped stop now = true
  · rw [hs]
    exact congrArg World.cancelled (if_pos hs)
  · have hw : world.cancelled = false := by simpa using fun hw => hs (h hw)
    rw [eq_false_of_ne_true hs]
    exact (congrArg World.cancelled (if_neg hs)).trans hw

/-- A strand that waits until some time may wait until then. -/
theorem comes_later {now later : Nat} {s : Strand σ α} {a : α} (h : s.Comes stop now a)
    (hl : ∀ alarm, s.alarm? = some alarm → later ≤ alarm.due ∧ ∀ c, stop = some c → later ≤ c) :
    s.Comes stop later a := by
  cases h with
  | ended => exact .ended
  | onTime _ hs h => exact .onTime (hl _ rfl).1 hs h
  | onCancel hc _ hd h => exact .onCancel hc ((hl _ rfl).2 _ hc) hd h

theorem le_due_of_comes {now : Nat} {s : Strand σ α} {a : α} {alarm : Alarm}
    (h : s.Comes stop now a) (ha : s.alarm? = some alarm) : now ≤ alarm.due := by
  cases h with
  | ended => cases ha
  | onTime hd _ _ =>
    cases ha
    exact hd
  | onCancel _ hn hd _ =>
    cases ha
    exact Nat.le_trans hn hd

theorem forall₂_mem {β γ : Type} {R S : β → γ → Prop} {bs : List β} {cs : List γ}
    (h : List.Forall₂ R bs cs) (hi : ∀ b ∈ bs, ∀ c, R b c → S b c) : List.Forall₂ S bs cs := by
  induction h with
  | nil => exact .nil
  | cons hr _ ih => exact .cons (hi _ (by simp) _ hr) (ih fun b hb => hi b (by simp [hb]))

theorem lt_of_not_stopped {now c : Nat} (hs : stopped stop now = false) (hc : stop = some c) :
    now < c := by
  simpa [stopped, hc] using hs

/-- What is due is not put off, unless everything is to stop. -/
theorem soonest_of_not_stopped {now due : Nat}
    (hs : stopped stop (soonest stop false now [due]) = false) :
    soonest stop false now [due] = max now due := by
  rw [soonest_singleton] at hs ⊢
  cases stop with
  | none => rfl
  | some c =>
    have hlt : max now (min due c) < c := lt_of_not_stopped hs rfl
    rw [Option.elim, Nat.min_eq_left (by omega)]

/-- The clock does not move past anything. -/
theorem comes_nextTime {s : Strand σ α} {a : α} (hs : s ∈ scene.strands)
    (hw : scene.world.cancelled = stopped stop scene.now) (h : s.Comes stop scene.now a) :
    s.Comes stop (nextTime stop scene) a := by
  cases hc : scene.world.cancelled with
  | true =>
    rw [nextTime_of_cancelled hc]
    exact h
  | false =>
    by_cases hd : dues scene = []
    · rw [nextTime_of_dues_nil hd]
      exact h
    · obtain ⟨time, -, hn, hle⟩ := exists_nextTime hc hd
      rw [hn]
      apply comes_later h
      intro alarm ha
      have hdue := hle _ (List.mem_append_left _ (due_mem hs ha))
      refine ⟨Nat.max_le.mpr ⟨le_due_of_comes h ha, hdue⟩, ?_⟩
      intro c hstop
      have hlt : scene.now < c := lt_of_not_stopped (hw.symm.trans hc) hstop
      have hc : time ≤ c := hle _ (by simp [hstop])
      exact Nat.max_le.mpr ⟨Nat.le_of_lt hlt, hc⟩

theorem comes_awaited (h : scene.Comes stop results) :
    (awaited stop scene).Comes stop results where
  strands := forall₂_mem h.strands fun _ hs _ => comes_nextTime hs h.cancelled
  cancelled := by
    apply cancelled_arrived
    intro hc
    by_contra hs
    have hn := stopped_mono le_nextTime (eq_false_of_ne_true hs)
    rw [← h.cancelled, hc] at hn
    cases hn

/-- However a scene unfolds, its strands keep their courses. -/
theorem comes_unfolds {last : Scene σ α} (hu : Unfolds stop scene last)
    (h : scene.Comes stop results) : last.Comes stop results := by
  induction hu with
  | refl => exact h
  | visit i _ ih => exact ih (comes_visit h i)
  | wait _ ih => exact ih (comes_awaited h)

theorem results_of_ended {now : Nat} {strands : List (Strand σ α)}
    (h : List.Forall₂ (Strand.Comes stop now) strands results) (he : ∀ s ∈ strands, s.Ended) :
    strands.filterMap Strand.result? = results := by
  induction h with
  | nil => rfl
  | cons hs _ ih =>
    obtain ⟨⟨a, rfl⟩, hrest⟩ := List.forall_mem_cons.mp he
    cases hs
    exact congrArg (_ :: ·) (ih hrest)

/-- A round in which nobody went on visited strands that all had to wait. -/
theorem visit_of_round {order : List Nat} (h : (scene.round order).1 = false) :
    ∀ i ∈ order, (scene.visit i).1 = false := by
  induction order generalizing scene with
  | nil =>
    intro i hi
    cases hi
  | cons i rest ih =>
    simp only [Scene.round, Bool.or_eq_false_iff] at h
    rcases scene.moved_visit i with ⟨hv, -⟩ | ⟨-, hs⟩
    · rw [h.1] at hv
      cases hv
    · rw [hs] at h
      exact List.forall_mem_cons.mpr ⟨h.1, ih h.2⟩

theorem mem_ranked {rank : Alarm → Option Nat} {strands : List (Strand σ α)} {i n : Nat}
    {s : Strand σ α} {alarm : Alarm} (hs : strands[i]? = some s) (ha : s.alarm? = some alarm)
    (hr : rank alarm = some n) : i ∈ ranked rank strands := by
  refine List.mem_map.mpr ⟨(n, i), List.mem_mergeSort.mpr ?_, rfl⟩
  refine List.mem_filterMap.mpr ⟨(s, i), List.mk_mem_zipIdx_iff_getElem?.mpr hs, ?_⟩
  simp [ha, hr]

/-- Whoever can go on gets a turn. -/
theorem mem_order (attention : Attention) {i : Nat} {s : Strand σ α} {alarm : Alarm}
    (hs : scene.strands[i]? = some s) (ha : s.alarm? = some alarm)
    (hd : scene.world.cancelled = true ∨ alarm.due ≤ scene.now) : i ∈ attention.order scene := by
  cases attention with
  | everyone => exact List.mem_range.mpr (List.getElem?_eq_some_iff.mp hs).1
  | called =>
    unfold Attention.order
    by_cases hc : scene.world.cancelled = true
    · simp only [hc, if_true]
      exact mem_ranked hs ha rfl
    · simp only [hc]
      exact mem_ranked hs ha (if_pos (hd.resolve_left hc))

/-- A strand that is due goes on when it gets a turn. -/
theorem visit_of_due {i : Nat} {s : Strand σ α} {alarm : Alarm}
    (hs : scene.strands[i]? = some s) (ha : s.alarm? = some alarm)
    (hd : scene.world.cancelled = true ∨ alarm.due ≤ scene.now) : (scene.visit i).1 = true := by
  cases s with
  | ended a => cases ha
  | waiting alarm' onTime onCancel =>
    cases ha
    unfold Scene.visit
    simp only [hs, Strand.poll]
    by_cases hc : scene.world.cancelled = true
    · simp [hc]
    · simp [hc, hd.resolve_left hc]

theorem cancelled_of_cancelled (h : scene.world.cancelled = true) :
    (awaited stop scene).world.cancelled = true := by
  unfold awaited arrived
  simp only
  split
  · rfl
  · exact h

/-- While someone waits, someone is due when the clock has moved. -/
theorem exists_due {s : Strand σ α} {alarm : Alarm} (hs : s ∈ scene.strands)
    (ha : s.alarm? = some alarm) :
    ∃ (i : Nat) (s' : Strand σ α) (alarm' : Alarm), (awaited stop scene).strands[i]? = some s' ∧
      s'.alarm? = some alarm' ∧ ((awaited stop scene).world.cancelled = true ∨
        alarm'.due ≤ (awaited stop scene).now) := by
  obtain ⟨i, hi⟩ := List.getElem?_of_mem hs
  cases hc : scene.world.cancelled with
  | true => exact ⟨i, s, alarm, hi, ha, .inl (cancelled_of_cancelled hc)⟩
  | false =>
    have hd : dues scene ≠ [] := List.ne_nil_of_mem (due_mem hs ha)
    obtain ⟨time, ht, hn, -⟩ : ∃ time ∈ dues scene ++ stop.toList, _ ∧ _ := exists_nextTime hc hd
    have hle : time ≤ (awaited stop scene).now := by
      rw [awaited, hn]
      exact Nat.le_max_right _ _
    rcases List.mem_append.mp ht with ht | ht
    · obtain ⟨alarm', ham, rfl⟩ := List.mem_map.mp ht
      obtain ⟨s', hs', ha'⟩ := List.mem_filterMap.mp ham
      obtain ⟨j, hj⟩ := List.getElem?_of_mem hs'
      exact ⟨j, s', alarm', hj, ha', .inr hle⟩
    · have hstop : stopped stop (awaited stop scene).now = true := by
        rw [Option.mem_toList] at ht
        simpa [stopped, ht] using hle
      exact ⟨i, s, alarm, hi, ha, .inl (congrArg World.cancelled (if_pos hstop))⟩

/-- When nobody goes on any more, all have ended. -/
theorem ended_of_round {attention : Attention}
    (h : ((awaited stop scene).round (attention.order (awaited stop scene))).1 = false) :
    ∀ s ∈ scene.strands, s.Ended := by
  intro s hs
  cases s with
  | ended a => exact ⟨a, rfl⟩
  | waiting alarm onTime onCancel =>
    obtain ⟨i, s', alarm', hi, ha', hd⟩ := exists_due hs rfl
    have hv : ((awaited stop scene).visit i).1 = false :=
      visit_of_round h i (mem_order attention hi ha' hd)
    have hv' : ((awaited stop scene).visit i).1 = true := visit_of_due hi ha' hd
    rw [hv] at hv'
    cases hv'

theorem unfolds_round {order : List Nat} {last : Scene σ α}
    (h : Unfolds stop (scene.round order).2 last) : Unfolds stop scene last := by
  induction order generalizing scene with
  | nil => exact h
  | cons i rest ih => exact .visit i (ih h)

/-- The run of a scene is one way in which it unfolds, to the end of all strands. -/
theorem exists_unfolds_finish (attention : Attention) (stop : Option Nat) (scene : Scene σ α) :
    ∃ last, Unfolds stop scene last ∧ (∀ s ∈ last.strands, s.Ended) ∧
      finish attention stop scene =
        ⟨last.now, last.world, last.strands.filterMap Strand.result?⟩ := by
  induction scene using finish.induct attention stop with
  | case1 scene scene' hr ih =>
    obtain ⟨last, hu, he, hf⟩ := ih
    have hu : Unfolds stop
        ((awaited stop scene).round (attention.order (awaited stop scene))).2 last := by
      rw [hr]
      exact hu
    refine ⟨last, .wait (unfolds_round hu), he, ?_⟩
    · rw [← hf, finish]
      split
      · next hr' =>
        rw [hr] at hr'
        cases hr'
        rfl
      · next hr' =>
        rw [hr] at hr'
        cases hr'
  | case2 scene scene' hr =>
    have hf : ((awaited stop scene).round (attention.order (awaited stop scene))).1 = false := by
      rw [hr]
    have hs : scene' = awaited stop scene := by
      rcases (awaited stop scene).moved_round (attention.order (awaited stop scene)) with
        ⟨ht, -⟩ | ⟨-, hs⟩
      · rw [hf] at ht
        cases ht
      · rw [hr] at hs
        exact hs
    have he : ∀ s ∈ (awaited stop scene).strands, s.Ended := fun s hs => ended_of_round hf s hs
    refine ⟨awaited stop scene, .wait .refl, he, ?_⟩
    rw [finish]
    split
    · next hr' =>
      rw [hr] at hr'
      cases hr'
    · next hr' =>
      rw [hr] at hr'
      cases hr'
      rw [hs]

/-- The scene when tasks have just been started. -/
def opening (stop : Option Nat) (now : Nat) (world : World σ) (tasks : List (Task σ α)) :
    Scene σ α :=
  let (strands, world) := start now 0 tasks (arrived stop now world)
  ⟨now, tasks.length, world, strands⟩

theorem comes_start {now turn : Nat} {tasks : List (Task σ α)} {world : World σ}
    (h : List.Forall₂ (Task.Comes stop now) tasks results)
    (hw : world.cancelled = stopped stop now) :
    List.Forall₂ (Strand.Comes stop now) (start now turn tasks world).1 results ∧
      (start now turn tasks world).2.cancelled = stopped stop now := by
  induction h generalizing turn world with
  | nil => exact ⟨.nil, hw⟩
  | cons ht _ ih =>
    obtain ⟨hs, hw⟩ := comes_advance ht hw
    obtain ⟨hrest, hw⟩ := ih hw
    exact ⟨.cons hs hrest, hw⟩

theorem comes_opening {now : Nat} {tasks : List (Task σ α)} {world : World σ}
    (h : List.Forall₂ (Task.Comes stop now) tasks results) (hw : world.cancelled = false) :
    (opening stop now world tasks).Comes stop results := by
  have ha : (arrived stop now world).cancelled = stopped stop now := by
    apply cancelled_arrived
    rw [hw]
    nofun
  exact ⟨(comes_start h ha).1, (comes_start h ha).2⟩

/-- Tasks come to their results in whatever order they get their turns. -/
theorem results_of_unfolds {now : Nat} {tasks : List (Task σ α)} {world : World σ}
    {last : Scene σ α} (h : List.Forall₂ (Task.Comes stop now) tasks results)
    (hw : world.cancelled = false) (hu : Unfolds stop (opening stop now world tasks) last)
    (he : ∀ s ∈ last.strands, s.Ended) : last.strands.filterMap Strand.result? = results :=
  results_of_ended (comes_unfolds hu (comes_opening h hw)).strands he

/-- What tasks come to side by side. -/
theorem comes_together {attention : Attention} {now : Nat} {tasks : List (Task σ α)}
    {world : World σ} (h : List.Forall₂ (Task.Comes stop now) tasks results)
    (hw : world.cancelled = false) :
    (together attention stop now world tasks).results = results ∧
      ∃ later, (together attention stop now world tasks).world.cancelled = stopped stop later := by
  obtain ⟨last, hu, he, hf⟩ := exists_unfolds_finish attention stop (opening stop now world tasks)
  have ht : together attention stop now world tasks =
      ⟨last.now, last.world, last.strands.filterMap Strand.result?⟩ := hf
  rw [ht]
  exact ⟨results_of_unfolds h hw hu he, last.now, (comes_unfolds hu (comes_opening h hw)).cancelled⟩

/-- What tasks come to one after the other, where nothing stops. -/
theorem comes_inTurn {now : Nat} {tasks : List (Task σ α)} {world : World σ}
    (h : List.Forall₂ (Task.Comes none 0) tasks results) (hw : world.cancelled = false) :
    (inTurn none now world tasks).results = results := by
  induction h generalizing now world with
  | nil => rfl
  | @cons t a rest as ht _ ih =>
    have hone : List.Forall₂ (Task.Comes none now) [t] [a] :=
      .cons (comes_at_any_time ht) .nil
    obtain ⟨hr, later, hc⟩ : (together .everyone none now world [t]).results = [a] ∧ _ :=
      comes_together hone hw
    rw [inTurn]
    simp only [hr]
    exact congrArg (a :: ·) (ih hc)

end Clock

end GraphGate
