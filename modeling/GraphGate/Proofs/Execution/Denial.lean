import GraphGate.Proofs.Execution.Completion
import GraphGate.Proofs.Execution.Derivation
import GraphGate.Proofs.Execution.Scope
import GraphGate.Proofs.Plan.WellFormed
import GraphGate.Proofs.Schema

/-! A denied field leaves one error at its path, and nothing else happens there. -/
namespace GraphGate

variable {ρ : Type}

namespace Exchange

/-- The path of the field that an exchange is about. -/
def path? : Exchange ρ → Option Path
  | .published _ event _ => some event.path
  | .operation .. => none
  | .field context _ => some context.path
  | .called _ invocation _ => some invocation.context.path

/-- The path of the field for which a resolver is called or a resolved value is published. -/
def resolved? : Exchange ρ → Option Path
  | .published .postResolve event _ => some event.path
  | .called _ invocation _ => some invocation.context.path
  | _ => none

theorem path?_of_resolved? {x : Exchange ρ} {p : Path} (h : x.resolved? = some p) :
    x.path? = some p := by
  cases x with
  | published phase event value =>
    cases phase with
    | preResolve => cases h
    | postResolve => exact h
  | called resolver invocation result => exact h
  | _ => cases h

end Exchange

namespace Execution

/-- There is exactly one error at the path of a field, the denial, and nothing is resolved there. -/
structure Inert (t : Transcript ρ) (errors : List ResponseError) (context : Context)
    (denial : Denial) : Prop where
  error : errors.filter (·.path = some context.path) =
    [.ofField (.denied denial) context.node context.path]
  unresolved : ∀ x ∈ t, x.resolved? ≠ some context.path

/-- Every field that is reached is asked about. -/
def AllAsked (t : Transcript ρ) : Prop :=
  ∀ event value, .published .preResolve event value ∈ t →
    ∃ context decision, .field context decision ∈ t ∧ event = Context.event context none

/-- Fields are asked about when they are reached, and denied ones leave one error and no more. -/
structure Fenced (t : Transcript ρ) (errors : List ResponseError) : Prop where
  asked : AllAsked t
  inert : ∀ context denial, .field context (.deny denial) ∈ t → Inert t errors context denial

/-- All that happens, happens within a scope of paths. -/
structure Tidy (scope : Path → Prop) (t : Transcript ρ) (errors : List ResponseError) : Prop
    extends Fenced t errors where
  within : ∀ x ∈ t, ∀ p, x.path? = some p → scope p
  located : ∀ e ∈ errors, ∃ p, e.path = some p ∧ scope p

variable {scope scope' : Path → Prop} {t t' : Transcript ρ} {errors errors' : List ResponseError}

theorem allAsked_append (h : AllAsked t) (h' : AllAsked t') : AllAsked (t ++ t') := by
  intro event value he
  rcases List.mem_append.mp he with he | he
  · obtain ⟨context, decision, hc, hevent⟩ := h event value he
    exact ⟨context, decision, List.mem_append_left _ hc, hevent⟩
  · obtain ⟨context, decision, hc, hevent⟩ := h' event value he
    exact ⟨context, decision, List.mem_append_right _ hc, hevent⟩

theorem inert_append_left {context : Context} {denial : Denial} (h : Inert t errors context denial)
    (he : errors'.filter (·.path = some context.path) = [])
    (hn : ∀ x ∈ t', x.resolved? ≠ some context.path) :
    Inert (t ++ t') (errors ++ errors') context denial where
  error := by rw [List.filter_append, h.error, he, List.append_nil]
  unresolved := List.forall_mem_append.mpr ⟨h.unresolved, hn⟩

theorem inert_append_right {context : Context} {denial : Denial}
    (h : Inert t' errors' context denial) (he : errors.filter (·.path = some context.path) = [])
    (hn : ∀ x ∈ t, x.resolved? ≠ some context.path) :
    Inert (t ++ t') (errors ++ errors') context denial where
  error := by rw [List.filter_append, h.error, he, List.nil_append]
  unresolved := List.forall_mem_append.mpr ⟨hn, h.unresolved⟩

theorem tidy_nil (he : ∀ e ∈ errors, ∃ p, e.path = some p ∧ scope p) :
    Tidy scope ([] : Transcript ρ) errors :=
  ⟨⟨nofun, nofun⟩, nofun, he⟩

theorem tidy_ok {α : Type} {a : α} : Tidy scope ([] : Transcript ρ) (Completion.ok a).errors :=
  tidy_nil (List.forall_mem_nil _)

theorem tidy_mono (h : Tidy scope t errors) (hs : ∀ p, scope p → scope' p) :
    Tidy scope' t errors where
  toFenced := h.toFenced
  within := fun x hx p hp => hs p (h.within x hx p hp)
  located := by
    intro e he
    obtain ⟨p, hp, hs'⟩ := h.located e he
    exact ⟨p, hp, hs p hs'⟩

theorem filter_eq_nil_of_apart {p : Path} (h : ∀ e ∈ errors, ∃ p, e.path = some p ∧ scope p)
    (hp : ¬ scope p) : errors.filter (·.path = some p) = [] := by
  rw [List.filter_eq_nil_iff]
  intro e he hpath
  obtain ⟨p', hp', hs⟩ := h e he
  rw [hp', decide_eq_true_eq, Option.some.injEq] at hpath
  exact hp (hpath ▸ hs)

theorem unresolved_of_apart {p : Path} (h : Tidy scope t errors) (hp : ¬ scope p) :
    ∀ x ∈ t, x.resolved? ≠ some p := by
  intro x hx hr
  exact hp (h.within x hx p (Exchange.path?_of_resolved? hr))

/-- Parts whose scopes have nothing in common leave each other tidy. -/
theorem tidy_append (h : Tidy scope t errors) (h' : Tidy scope' t' errors')
    (hd : ∀ p, scope p → ¬ scope' p) :
    Tidy (fun p => scope p ∨ scope' p) (t ++ t') (errors ++ errors') where
  asked := allAsked_append h.asked h'.asked
  inert := by
    intro context denial hm
    rcases List.mem_append.mp hm with hm | hm
    · have hs' := hd _ (h.within _ hm _ rfl)
      exact inert_append_left (h.inert context denial hm) (filter_eq_nil_of_apart h'.located hs')
        (unresolved_of_apart h' hs')
    · have hs : ¬ scope context.path := fun hs => hd _ hs (h'.within _ hm _ rfl)
      exact inert_append_right (h'.inert context denial hm) (filter_eq_nil_of_apart h.located hs)
        (unresolved_of_apart h hs)
  within := by
    intro x hx p hp
    rcases List.mem_append.mp hx with hx | hx
    · exact .inl (h.within x hx p hp)
    · exact .inr (h'.within x hx p hp)
  located := by
    intro e he
    rcases List.mem_append.mp he with he | he
    · obtain ⟨p, hp, hs⟩ := h.located e he
      exact ⟨p, hp, .inl hs⟩
    · obtain ⟨p, hp, hs⟩ := h'.located e he
      exact ⟨p, hp, .inr hs⟩

/-- What passes about a field that is let through. -/
def Passes (context : Context) : Exchange ρ → Prop
  | .published .preResolve event _ => event = Context.event context none
  | .published .postResolve event _ => event.path = context.path
  | .operation .. => False
  | .field context' decision => context' = context ∧ decision = .allow
  | .called _ invocation _ => invocation.context = context

theorem path?_of_passes {context : Context} {x : Exchange ρ} (h : Passes context x) :
    x.path? = some context.path := by
  cases x with
  | published phase event value =>
    cases phase with
    | preResolve =>
      rw [Passes] at h
      rw [h]
      rfl
    | postResolve => exact congrArg some h
  | operation plan decision => exact h.elim
  | field context' decision => rw [h.1]; rfl
  | called resolver invocation result =>
    rw [Passes] at h
    rw [← h]
    rfl

theorem passes_of_dispatches {context : Context} {parent : Json} {r : Except FieldError Json}
    (h : Dispatches (Context.invocation context parent) t r) : ∀ x ∈ t, Passes context x := by
  intro x hx
  cases h with
  | uncalled => cases hx
  | called =>
    rw [List.mem_singleton.mp hx]
    rfl

variable {setting : Setting ρ} {plan : Plan}

/-- A field is denied, or let through. -/
theorem cases_of_resolves {resolution : Resolution ρ} {context : Context} {parent : Json}
    {r : Except FieldError Json} (hc : setting.capabilities.fieldCheck = true)
    (h : Resolves setting resolution context parent t r) :
    (∃ left denial, r = .error (.denied denial) ∧
        t = [.published .preResolve (Context.event context none) left,
          .field context (.deny denial)]) ∨
      ((∀ x ∈ t, Passes context x) ∧ .field context .allow ∈ t) := by
  have ha : (allowance setting.capabilities context : Transcript ρ) = [.field context .allow] := by
    rw [allowance, if_pos hc]
  cases h with
  | @denied left denial _ => exact .inl ⟨left, denial, rfl, rfl⟩
  | failed hd =>
    have hp := passes_of_dispatches (dispatches_of_gives hd)
    rw [ha]
    refine .inr ⟨?_, by simp⟩
    simpa [Passes] using hp
  | delivered hd =>
    have hp := passes_of_dispatches (dispatches_of_gives hd)
    rw [ha]
    refine .inr ⟨?_, by simp⟩
    simp only [List.singleton_append, List.forall_mem_cons, List.forall_mem_append]
    exact ⟨rfl, ⟨rfl, rfl⟩, hp, rfl, List.forall_mem_nil _⟩

/-- A field that is let through leaves everything below it tidy. -/
theorem tidy_of_passes {context : Context} (hp : ∀ x ∈ t, Passes context x)
    (ha : .field context .allow ∈ t) (h : Tidy (context.path <+: ·) t' errors)
    (hn : ∀ x ∈ t', x.path? ≠ some context.path) :
    Tidy (context.path <+: ·) (t ++ t') errors where
  asked := by
    refine allAsked_append ?_ h.asked
    intro event value hm
    exact ⟨context, .allow, ha, hp _ hm⟩
  inert := by
    intro context' denial hm
    rcases List.mem_append.mp hm with hm | hm
    · obtain ⟨-, hd⟩ := hp _ hm
      cases hd
    · refine inert_append_right (h.inert context' denial hm) List.filter_nil ?_
      intro x hx hr
      have hpath := path?_of_passes (hp x hx)
      rw [Exchange.path?_of_resolved? hr] at hpath
      exact hn _ hm hpath
  within := by
    intro x hx p hpath
    rcases List.mem_append.mp hx with hx | hx
    · rw [path?_of_passes (hp x hx), Option.some.injEq] at hpath
      exact hpath ▸ List.prefix_refl context.path
    · exact h.within x hx p hpath
  located := h.located

theorem tidy_of_denied {context : Context} {left : Option Json} {denial : Denial} :
    Tidy (context.path <+: ·) ([.published .preResolve (Context.event context none) left,
      .field context (.deny denial)] : Transcript ρ)
      [.ofField (.denied denial) context.node context.path] where
  within := by
    intro x hx p hp
    have hpath : x.path? = some context.path := by
      rcases List.mem_cons.mp hx with rfl | hx
      · rfl
      · rw [List.mem_singleton.mp hx]
        rfl
    rw [hpath, Option.some.injEq] at hp
    exact hp ▸ List.prefix_refl context.path
  located := by
    intro e he
    rw [List.mem_singleton.mp he]
    exact ⟨context.path, rfl, List.prefix_refl _⟩
  asked := by
    intro event value hm
    rcases List.mem_cons.mp hm with he | hm
    · cases he
      exact ⟨context, .deny denial, by simp, rfl⟩
    · cases List.mem_singleton.mp hm
  inert := by
    intro context' denial' hm
    rcases List.mem_cons.mp hm with he | hm
    · cases he
    · cases List.mem_singleton.mp hm
      refine ⟨by simp [ResponseError.ofField], ?_⟩
      intro x hx
      rcases List.mem_cons.mp hx with rfl | hx
      · simp [Exchange.resolved?]
      · rw [List.mem_singleton.mp hx]
        simp [Exchange.resolved?]

/-- An error at a place where nothing else is done. -/
theorem tidy_error {e : ResponseError} {path : Path} (he : e.path = some path) :
    Tidy (path <+: ·) ([] : Transcript ρ) [e] := by
  apply tidy_nil
  intro e' he'
  rw [List.mem_singleton.mp he']
  exact ⟨path, he, List.prefix_refl _⟩

theorem tidy_orNull {c : Completion Json} {nullable : Bool} (h : Tidy scope t c.errors) :
    Tidy scope t (c.orNull nullable).errors := by
  rwa [errors_orNull]

theorem tidy_of_failed {resolution : Resolution ρ} {context : Context} {parent : Json}
    {e : FieldError} (hc : setting.capabilities.fieldCheck = true)
    (h : Resolves setting resolution context parent t (.error e)) :
    Tidy (context.path <+: ·) t [.ofField e context.node context.path] := by
  rcases cases_of_resolves hc h with ⟨left, denial, he, rfl⟩ | ⟨hp, ha⟩
  · cases he
    exact tidy_of_denied
  · have he : (ResponseError.ofField e context.node context.path).path = some context.path := rfl
    have ht := tidy_of_passes hp ha (tidy_error he) (List.forall_mem_nil _)
    rwa [List.append_nil] at ht

theorem tidy_of_resolved {resolution : Resolution ρ} {context : Context} {parent value : Json}
    (hc : setting.capabilities.fieldCheck = true)
    (h : Resolves setting resolution context parent t (.ok value))
    (ht : Tidy (context.path <+: ·) t' errors) (hn : ∀ x ∈ t', x.path? ≠ some context.path) :
    Tidy (context.path <+: ·) (t ++ t') errors := by
  rcases cases_of_resolves hc h with ⟨left, denial, he, -⟩ | ⟨hp, ha⟩
  · cases he
  · exact tidy_of_passes hp ha ht hn

/-- What is done strictly below a place. -/
theorem tidy_below {path : Path} (h : Tidy scope t errors)
    (hs : ∀ p, scope p → ∃ s, path ++ [s] <+: p) :
    Tidy (path <+: ·) t errors ∧ ∀ x ∈ t, x.path? ≠ some path := by
  constructor
  · apply tidy_mono h
    intro p hp
    obtain ⟨s, hs'⟩ := hs p hp
    exact (List.prefix_append path [s]).trans hs'
  · intro x hx hp
    obtain ⟨s, hs'⟩ := hs path (h.within x hx path hp)
    exact ne_of_below hs' rfl

mutual

/-- What a field and everything below it do and leave is at the field's path and below. -/
theorem tidy_of_completesField (hc : setting.capabilities.fieldCheck = true) :
    ∀ {node : FieldNode} {container : ObjectType ρ} {parent : Json} {path : Path}
    {t : Transcript ρ} {c : Completion Json},
    CompletesField setting plan node container parent path t c →
      node.WellFormed setting.schema container → Tidy (path <+: ·) t c.errors
  | _, _, _, _, _, _, .typename _, _ => tidy_ok
  | _, _, _, _, _, _, .undefined _ _, _ => tidy_error rfl
  | _, _, _, _, _, _, .failed _ _ hr, _ => tidy_orNull (tidy_of_failed hc hr)
  | _, _, _, _, _, _, .resolved hn hd hr hv, hw =>
    have hv := tidy_of_completesValue hc hv (fits_of_wellFormed hw hn hd)
    tidy_of_resolved hc hr hv.1 hv.2

theorem tidy_of_completesFields (hc : setting.capabilities.fieldCheck = true) :
    ∀ {nodes : List FieldNode} {container : ObjectType ρ} {parent : Json} {path : Path}
    {t : Transcript ρ} {c : Completion (List (String × Json))},
    CompletesFields setting plan nodes container parent path t c →
      WellSelected setting.schema nodes container →
      Tidy (UnderKeys path (outputNames nodes)) t c.errors
  | _, _, _, _, _, _, .nil, _ => tidy_ok
  | _, _, _, path, _, _, .cons hf hs, hw => by
    have hn := List.nodup_cons.mp hw.distinct
    have h₁ := tidy_of_completesField hc hf (hw.wellFormed _ (by simp))
    have h₂ := tidy_of_completesFields hc hs
      ⟨hn.2, fun node hm => hw.wellFormed node (by simp [hm])⟩
    refine tidy_mono (tidy_append h₁ h₂ ?_) ?_
    · rintro p hp ⟨key, hk, hp'⟩
      cases segment_unique hp hp'
      exact hn.1 hk
    · rintro p (hp | ⟨key, hk, hp⟩)
      · exact ⟨_, by simp [outputNames], hp⟩
      · exact ⟨key, List.mem_cons_of_mem _ hk, hp⟩

theorem tidy_of_completesValue (hc : setting.capabilities.fieldCheck = true) :
    ∀ {node : FieldNode} {type : TypeRef} {value : Json} {path : Path} {t : Transcript ρ}
    {c : Completion Json}, CompletesValue setting plan node type value path t c →
      Fits setting.schema node.children type →
      Tidy (path <+: ·) t c.errors ∧ ∀ x ∈ t, x.path? ≠ some path
  | _, _, _, _, _, _, .null, _ => by
    refine ⟨?_, List.forall_mem_nil _⟩
    split
    · exact tidy_ok
    · exact tidy_error rfl
  | _, _, _, _, _, _, .list he, hb => by
    have h := tidy_of_completesElements hc he hb
    rw [errors_orNull]
    refine tidy_below h ?_
    rintro p ⟨n, -, hp⟩
    exact ⟨_, hp⟩
  | _, _, _, _, _, _, .noList _ _, _ => ⟨tidy_orNull (tidy_error rfl), List.forall_mem_nil _⟩
  | _, _, _, _, _, _, .object _ ho hs, hb => by
    have h := tidy_of_completesFields hc hs (hb _ (object?_of_find? ho))
    rw [errors_orNull]
    refine tidy_below h ?_
    rintro p ⟨key, -, hp⟩
    exact ⟨_, hp⟩
  | _, _, _, _, _, _, .leaf _ _ _, _ => ⟨tidy_ok, List.forall_mem_nil _⟩
  | _, _, _, _, _, _, .badLeaf _ _ _ _, _ => ⟨tidy_orNull (tidy_error rfl), List.forall_mem_nil _⟩
  | _, _, _, _, _, _, .noType _ _, _ => ⟨tidy_orNull (tidy_error rfl), List.forall_mem_nil _⟩

theorem tidy_of_completesElements (hc : setting.capabilities.fieldCheck = true) :
    ∀ {node : FieldNode} {type : TypeRef} {index : Nat} {values : List Json} {path : Path}
    {t : Transcript ρ} {c : Completion (List Json)},
    CompletesElements setting plan node type index values path t c →
      Fits setting.schema node.children type → Tidy (UnderIndexes path index) t c.errors
  | _, _, _, _, _, _, _, .nil, _ => tidy_ok
  | _, _, index, _, _, _, _, .cons hv hs, hb => by
    have h₁ := (tidy_of_completesValue hc hv hb).1
    have h₂ := tidy_of_completesElements hc hs hb
    refine tidy_mono (tidy_append h₁ h₂ ?_) ?_
    · rintro p hp ⟨n, hn, hp'⟩
      cases segment_unique hp hp'
      omega
    · rintro p (hp | ⟨n, hn, hp⟩)
      · exact ⟨index, Nat.le_refl _, hp⟩
      · exact ⟨n, by omega, hp⟩

end

end Execution

end GraphGate
