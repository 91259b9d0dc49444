import GraphGate.Proofs.Plan.Arguments

/-! What several directives come to. They are looked at in the order in which they are written, up
to the first that does not let the selection in. If that one keeps it out, then whatever is wrong
with the directives behind it is not told. -/
namespace GraphGate.Plan

open Query

/-- The condition of a directive: the Boolean value of its argument `if`. -/
def HasCondition (bindings : Bindings) (d : Directive) (condition : Bool) : Prop :=
  ∃ argument, d.arguments.find? (·.name = "if") = some argument ∧
    given? bindings argument.value = some (.bool condition)

/-- A skip or an include that has a condition. -/
def Conditional (bindings : Bindings) (d : Directive) : Prop :=
  (d.name = "skip" ∨ d.name = "include") ∧ ∃ condition, HasCondition bindings d condition

/-- What a conditional directive wants for its selection: that it is let in, or that it is not. -/
inductive Votes (bindings : Bindings) (d : Directive) : Bool → Prop
  | ofSkip {condition : Bool} (hn : d.name = "skip")
    (hc : HasCondition bindings d condition) : Votes bindings d (!condition)
  | ofInclude {condition : Bool} (hn : d.name = "include")
    (hc : HasCondition bindings d condition) : Votes bindings d condition

/-- Directives as one whole: one that is not conditional has the selection rejected, and otherwise
they let it in exactly if every skip has a false condition and every include has a true one. -/
structure JudgedAsWhole (bindings : Bindings) (directives : List Directive) : Prop where
  unconditional : ∀ d ∈ directives, ¬ Conditional bindings d →
    ∃ e, included bindings directives = .error e
  conditional : (∀ d ∈ directives, Conditional bindings d) →
    ∃ wanted, included bindings directives = .ok wanted ∧
      (wanted = true ↔ ∀ d ∈ directives, (d.name = "skip" → HasCondition bindings d false) ∧
        (d.name = "include" → HasCondition bindings d true))

/-- The first directive that does not let the selection in, and those behind it. -/
structure Stops (bindings : Bindings) (directives : List Directive) (d : Directive)
    (after : List Directive) : Prop where
  place : ∃ before, directives = before ++ d :: after ∧ ∀ b ∈ before, Votes bindings b true
  stops : ¬ Votes bindings d true

/-- A directive that is not conditional stands behind the one that keeps the selection out. -/
def HidesFault (bindings : Bindings) (directives : List Directive) : Prop :=
  ∃ d after, Stops bindings directives d after ∧ Votes bindings d false ∧
    ∃ hidden ∈ after, ¬ Conditional bindings hidden

variable {bindings : Bindings} {d : Directive} {directives rest : List Directive}
  {condition condition' wanted wanted' : Bool}

theorem hasCondition_unique (h : HasCondition bindings d condition)
    (h' : HasCondition bindings d condition') : condition = condition' := by
  obtain ⟨argument, ha, hc⟩ := h
  obtain ⟨argument', ha', hc'⟩ := h'
  cases ha.symm.trans ha'
  cases hc.symm.trans hc'
  rfl

theorem votes_unique (h : Votes bindings d wanted) (h' : Votes bindings d wanted') :
    wanted = wanted' := by
  have hne : "skip" ≠ "include" := by decide
  cases h with
  | ofSkip hn hc =>
    cases h' with
    | ofSkip _ hc' => rw [hasCondition_unique hc hc']
    | ofInclude hn' _ => exact absurd (hn.symm.trans hn') hne
  | ofInclude hn hc =>
    cases h' with
    | ofSkip hn' _ => exact absurd (hn'.symm.trans hn) hne
    | ofInclude _ hc' => exact hasCondition_unique hc hc'

theorem conditional_iff : Conditional bindings d ↔ ∃ wanted, Votes bindings d wanted := by
  constructor
  · rintro ⟨hn | hn, condition, hc⟩
    · exact ⟨!condition, .ofSkip hn hc⟩
    · exact ⟨condition, .ofInclude hn hc⟩
  · rintro ⟨wanted, ⟨hn, hc⟩ | ⟨hn, hc⟩⟩
    · exact ⟨.inl hn, _, hc⟩
    · exact ⟨.inr hn, _, hc⟩

/-- A directive lets its selection in, keeps it out, or is not conditional. -/
theorem votes_cases (bindings : Bindings) (d : Directive) :
    Votes bindings d true ∨ Votes bindings d false ∨ ¬ Conditional bindings d := by
  by_cases hs : Conditional bindings d
  · obtain ⟨wanted, h⟩ := conditional_iff.mp hs
    cases wanted with
    | true => exact .inl h
    | false => exact .inr (.inl h)
  · exact .inr (.inr hs)

theorem votes_true_iff (hs : Conditional bindings d) : Votes bindings d true ↔
    (d.name = "skip" → HasCondition bindings d false) ∧
      (d.name = "include" → HasCondition bindings d true) := by
  constructor
  · intro h
    refine ⟨fun hn => ?_, fun hn => ?_⟩
    · obtain ⟨-, condition, hc⟩ := hs
      have hfalse : (!condition) = true := votes_unique (.ofSkip hn hc) h
      rw [Bool.not_eq_true'] at hfalse
      rwa [hfalse] at hc
    · obtain ⟨-, condition, hc⟩ := hs
      have htrue : condition = true := votes_unique (.ofInclude hn hc) h
      rwa [htrue] at hc
  · rintro ⟨hskip, hinclude⟩
    rcases hs.1 with hn | hn
    · exact .ofSkip hn (hskip hn)
    · exact .ofInclude hn (hinclude hn)

/-- The argument of a directive has a Boolean value exactly if it is found to be one. -/
theorem resolveArgument_bool_iff {position : Position} {v : Literal} :
    resolveArgument bindings position v = .ok (some (.bool condition)) ↔
      given? bindings v = some (.bool condition) := by
  refine ⟨fun h => (given?_of_resolveArgument h).symm, fun h => ?_⟩
  cases v with
  | var name =>
    rw [given?] at h
    rw [resolveArgument]
    cases hb : bindings.get? name with
    | none =>
      rw [hb] at h
      cases h
    | some value =>
      rw [hb] at h
      exact congrArg Except.ok h
  | bool b =>
    cases h
    rfl
  | _ => cases h

/-- A conditional directive leaves it to those behind it, or ends the matter. -/
theorem included_of_votes (h : Votes bindings d wanted) :
    included bindings (d :: rest) = if wanted then included bindings rest else .ok false := by
  rw [included]
  cases h with
  | @ofSkip condition hn hc =>
    obtain ⟨argument, ha, hv⟩ := hc
    have hr : resolveArgument bindings argument.position argument.value =
        .ok (some (.bool condition)) := resolveArgument_bool_iff.mpr hv
    simp only [hn, admits?, ha, hr]
    cases condition <;> rfl
  | ofInclude hn hc =>
    obtain ⟨argument, ha, hv⟩ := hc
    have hr : resolveArgument bindings argument.position argument.value =
        .ok (some (.bool wanted)) := resolveArgument_bool_iff.mpr hv
    simp only [hn, admits?, ha, hr]

/-- Any other directive has the selection rejected, whatever stands behind it. -/
theorem exists_error_of_not_conditional (h : ¬ Conditional bindings d) :
    ∃ e, ∀ rest, included bindings (d :: rest) = .error e := by
  simp only [included]
  cases hw : admits? d.name with
  | none => exact ⟨_, fun _ => rfl⟩
  | some wanted =>
    have hn : d.name = "skip" ∨ d.name = "include" := by
      unfold admits? at hw
      split at hw
      · next hn => exact .inl hn
      · next hn => exact .inr hn
      · cases hw
    cases ha : d.arguments.find? (·.name = "if") with
    | none => exact ⟨_, fun _ => rfl⟩
    | some argument =>
      cases hr : resolveArgument bindings argument.position argument.value with
      | error e => exact ⟨e, fun _ => by simp only [hr]⟩
      | ok value =>
        refine ⟨.directiveCondition d.name d.position, fun rest => ?_⟩
        simp only [hr]
        split
        · next hv => cases hv
        · next condition hv =>
          cases hv
          exact absurd ⟨hn, condition, argument, ha, resolveArgument_bool_iff.mp hr⟩ h
        · rfl

/-- The selection is let in if every directive lets it in. -/
theorem included_eq_true_iff :
    included bindings directives = .ok true ↔ ∀ d ∈ directives, Votes bindings d true := by
  induction directives with
  | nil => exact iff_of_true rfl (List.forall_mem_nil _)
  | cons d rest ih =>
    rw [List.forall_mem_cons]
    rcases votes_cases bindings d with h | h | h
    · rw [included_of_votes h, if_pos rfl, ih, and_iff_right h]
    · have hnot : ¬ Votes bindings d true := fun h' => Bool.false_ne_true (votes_unique h h')
      rw [included_of_votes h, if_neg Bool.false_ne_true]
      exact iff_of_false nofun fun hall => hnot hall.1
    · have hnot : ¬ Votes bindings d true := fun h' => h (conditional_iff.mpr ⟨true, h'⟩)
      obtain ⟨e, he⟩ := exists_error_of_not_conditional h
      rw [he rest]
      exact iff_of_false nofun fun hall => hnot hall.1

/-- Where one does not, the first such directive decides alone. -/
theorem included_of_stops {after : List Directive} (h : Stops bindings directives d after) :
    included bindings directives = included bindings [d] := by
  obtain ⟨⟨before, rfl, hb⟩, hd⟩ := h
  induction before with
  | nil =>
    rcases votes_cases bindings d with h | h | h
    · exact absurd h hd
    · rw [List.nil_append, included_of_votes h, included_of_votes h]
      rfl
    · obtain ⟨e, he⟩ := exists_error_of_not_conditional h
      rw [List.nil_append, he after, he []]
  | cons b before ih =>
    obtain ⟨hfirst, hb⟩ := List.forall_mem_cons.mp hb
    rw [List.cons_append, included_of_votes hfirst, if_pos rfl]
    exact ih hb

theorem stops_or_all (bindings : Bindings) (directives : List Directive) :
    (∃ d after, Stops bindings directives d after) ∨ ∀ d ∈ directives, Votes bindings d true := by
  induction directives with
  | nil => exact .inr (List.forall_mem_nil _)
  | cons d rest ih =>
    by_cases h : Votes bindings d true
    · rcases ih with ⟨first, after, ⟨before, rfl, hb⟩, hf⟩ | hall
      · exact .inl ⟨first, after, ⟨d :: before, rfl, List.forall_mem_cons.mpr ⟨h, hb⟩⟩, hf⟩
      · exact .inr (List.forall_mem_cons.mpr ⟨h, hall⟩)
    · exact .inl ⟨d, rest, ⟨[], rfl, List.forall_mem_nil _⟩, h⟩

theorem mem_of_stops {after : List Directive} (h : Stops bindings directives d after) :
    d ∈ directives ∧ after ⊆ directives ∧
      ∀ other ∈ directives, other = d ∨ other ∈ after ∨ Votes bindings other true := by
  obtain ⟨before, rfl, hb⟩ := h.place
  refine ⟨by simp, fun other hm => by simp [hm], fun other hm => ?_⟩
  rcases List.mem_append.mp hm with hm | hm
  · exact .inr (.inr (hb other hm))
  · rcases List.mem_cons.mp hm with rfl | hm
    · exact .inl rfl
    · exact .inr (.inl hm)

/-- Where all are conditional, the selection is let in if all let it in, and else it is kept out. -/
theorem exists_included_of_conditional (hall : ∀ d ∈ directives, Conditional bindings d) :
    ∃ wanted, included bindings directives = .ok wanted ∧
      (wanted = true ↔ ∀ d ∈ directives, Votes bindings d true) := by
  rcases stops_or_all bindings directives with ⟨d, after, hs⟩ | h
  · obtain ⟨hm, -⟩ := mem_of_stops hs
    have hout : Votes bindings d false :=
      ((votes_cases bindings d).resolve_left hs.stops).resolve_right fun h => h (hall d hm)
    refine ⟨false, ?_, iff_of_false Bool.false_ne_true fun h => hs.stops (h d hm)⟩
    rw [included_of_stops hs, included_of_votes hout]
    rfl
  · exact ⟨true, included_eq_true_iff.mpr h, iff_of_true rfl h⟩

/-- One that is not conditional is met, unless one before it keeps the selection out. -/
theorem exists_error_of_not_hidesFault (hnone : ¬ HidesFault bindings directives)
    (hm : d ∈ directives) (hd : ¬ Conditional bindings d) :
    ∃ e, included bindings directives = .error e := by
  have hvotes : ∀ wanted, ¬ Votes bindings d wanted := fun wanted h =>
    hd (conditional_iff.mpr ⟨wanted, h⟩)
  rcases stops_or_all bindings directives with ⟨first, after, hs⟩ | hall
  · obtain ⟨-, -, hcases⟩ := mem_of_stops hs
    -- The one that stops is not conditional itself: otherwise it would hide `d`.
    have hfirst : ¬ Conditional bindings first := by
      rcases hcases d hm with rfl | hafter | h
      · exact hd
      · intro hc
        obtain ⟨wanted, hw⟩ := conditional_iff.mp hc
        cases wanted with
        | true => exact hs.stops hw
        | false => exact hnone ⟨first, after, hs, hw, d, hafter, hd⟩
      · exact absurd h (hvotes true)
    obtain ⟨e, he⟩ := exists_error_of_not_conditional hfirst
    exact ⟨e, (included_of_stops hs).trans (he [])⟩
  · exact absurd (hall d hm) (hvotes true)

theorem judgedAsWhole_iff :
    JudgedAsWhole bindings directives ↔ ¬ HidesFault bindings directives := by
  constructor
  · rintro hj ⟨d, after, hs, hd, hidden, hm, hf⟩
    obtain ⟨-, hsub, -⟩ := mem_of_stops hs
    obtain ⟨e, he⟩ := hj.unconditional hidden (hsub hm) hf
    rw [included_of_stops hs, included_of_votes hd] at he
    cases he
  · intro hnone
    refine ⟨fun d hm hd => exists_error_of_not_hidesFault hnone hm hd, fun hall => ?_⟩
    obtain ⟨wanted, hi, hw⟩ := exists_included_of_conditional hall
    exact ⟨wanted, hi, hw.trans (forall₂_congr fun d hm => votes_true_iff (hall d hm))⟩

/-- Directives are judged as a whole unless one that is not conditional stands behind one that keeps
the selection out. Whether they let it in never depends on their order; nor does anything else, as
long as all of them are conditional. -/
theorem directives_judged_in_order (bindings : Bindings) (directives : List Directive) :
    (JudgedAsWhole bindings directives ↔ ¬ HidesFault bindings directives) ∧
    ∀ directives', directives.Perm directives' →
      (included bindings directives' = .ok true ↔ included bindings directives = .ok true) ∧
      ((∀ d ∈ directives, Conditional bindings d) →
        included bindings directives' = included bindings directives) := by
  refine ⟨judgedAsWhole_iff, fun directives' hp => ?_⟩
  have hvotes : (∀ d ∈ directives', Votes bindings d true) ↔
      ∀ d ∈ directives, Votes bindings d true :=
    forall_congr' fun d => imp_congr_left hp.mem_iff.symm
  constructor
  · rw [included_eq_true_iff, included_eq_true_iff]
    exact hvotes
  · intro hall
    have hall' : ∀ d ∈ directives', Conditional bindings d := fun d hm => hall d (hp.mem_iff.mpr hm)
    obtain ⟨wanted, hi, hw⟩ := exists_included_of_conditional hall
    obtain ⟨wanted', hi', hw'⟩ := exists_included_of_conditional hall'
    have he : wanted' = wanted := Bool.eq_iff_iff.mpr (hw'.trans (hvotes.trans hw.symm))
    rw [hi, hi', he]

end GraphGate.Plan

namespace GraphGate.Sample

open Query Plan

/-- The directives of `@skip(if: true) @cached`. -/
def skippedAndCached : List Directive :=
  [⟨⟨1, 7⟩, "skip", [⟨"if", ⟨1, 17⟩, .bool true⟩]⟩, ⟨⟨1, 23⟩, "cached", []⟩]

/-- There the unknown directive is not told, as it is in the other order. -/
theorem not_judgedAsWhole_cached : ¬ JudgedAsWhole [] skippedAndCached ∧
    included [] skippedAndCached = .ok false ∧
    included [] skippedAndCached.reverse = .error (.directiveUnknown "cached" ⟨1, 23⟩) := by
  have hfalse : included [] skippedAndCached = .ok false := rfl
  refine ⟨fun h => ?_, hfalse, rfl⟩
  have hcached : ¬ Conditional [] ⟨⟨1, 23⟩, "cached", []⟩ := fun hc => absurd hc.1 (by decide)
  obtain ⟨e, he⟩ := h.unconditional _ (by simp [skippedAndCached]) hcached
  cases hfalse.symm.trans he

end GraphGate.Sample
