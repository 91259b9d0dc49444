import GraphGate.Proofs.Batch
import GraphGate.Proofs.Execution.Completion
import GraphGate.Proofs.Execution.Derivation
import GraphGate.Proofs.Execution.Unrolling
import GraphGate.Proofs.Gateway
import Mathlib.Logic.Basic

/-! Requests are turned down as a whole, before anything happened, or they are carried out and
report what fails at its place. -/
namespace GraphGate

/-- The kinds of errors that a field may leave. -/
def ErrorKind.ofFields : List ErrorKind :=
  [.fieldAccessDenied, .serviceNotFound, .methodNotFound, .resolutionTimeout, .resolutionRuntime]

theorem FieldError.kind_mem (e : FieldError) : e.kind ∈ ErrorKind.ofFields := by
  cases e <;> simp [kind, ErrorKind.ofFields]

/-- An error at a place of the response, of a kind that fields may leave. -/
structure ResponseError.AtField (error : ResponseError) : Prop where
  placed : ∃ path, error.path = some path
  kind : error.kind ∈ ErrorKind.ofFields

theorem atField_ofField {e : FieldError} {node : FieldNode} {path : Path} :
    ∀ error ∈ [ResponseError.ofField e node path], error.AtField :=
  List.forall_mem_singleton.mpr ⟨⟨path, rfl⟩, e.kind_mem⟩

variable {ρ σ : Type}

/-- What may pass while fields are completed: the policy is asked about fields only, and only if
fields are checked. -/
def Exchange.OfFields (capabilities : Capabilities) : Exchange ρ → Prop
  | .operation .. => False
  | .field .. => capabilities.fieldCheck = true
  | .published .. | .called .. => True

namespace Execution

/-- What passes is about fields, and so are the errors. -/
structure Confined (capabilities : Capabilities) (t : Transcript ρ) (errors : List ResponseError) :
    Prop where
  exchanges : ∀ x ∈ t, x.OfFields capabilities
  errors : ∀ error ∈ errors, error.AtField

variable {setting : Setting ρ} {plan : Plan} {capabilities : Capabilities} {t t' : Transcript ρ}
  {errors errors' : List ResponseError}

theorem confined_nil : Confined capabilities ([] : Transcript ρ) [] :=
  ⟨List.forall_mem_nil _, List.forall_mem_nil _⟩

theorem confined_append (h : Confined capabilities t errors)
    (h' : Confined capabilities t' errors') : Confined capabilities (t ++ t') (errors ++ errors') :=
  ⟨List.forall_mem_append.mpr ⟨h.exchanges, h'.exchanges⟩,
    List.forall_mem_append.mpr ⟨h.errors, h'.errors⟩⟩

theorem confined_error {e : FieldError} {node : FieldNode} {path : Path} :
    Confined capabilities ([] : Transcript ρ) [.ofField e node path] :=
  ⟨List.forall_mem_nil _, atField_ofField⟩

theorem confined_orNull {c : Completion Json} {nullable : Bool}
    (h : Confined capabilities t c.errors) :
    Confined capabilities t (c.orNull nullable).errors := by
  rwa [errors_orNull]

theorem ofFields_of_dispatches {invocation : Invocation} {r : Except FieldError Json}
    (h : Dispatches invocation t r) : ∀ x ∈ t, x.OfFields capabilities := by
  cases h with
  | uncalled => exact List.forall_mem_nil _
  | called => exact List.forall_mem_singleton.mpr trivial

theorem ofFields_allowance {context : Context} :
    ∀ x ∈ (allowance capabilities context : Transcript ρ), x.OfFields capabilities := by
  unfold allowance
  split
  · next hc => exact List.forall_mem_singleton.mpr hc
  · exact List.forall_mem_nil _

/-- The resolution of a field asks about this field, if fields are checked, and calls resolvers. -/
theorem ofFields_of_resolves {resolution : Resolution ρ} {context : Context} {parent : Json}
    {r : Except FieldError Json} (h : Resolves setting resolution context parent t r) :
    ∀ x ∈ t, x.OfFields setting.capabilities := by
  cases h with
  | denied hc => exact List.forall_mem_cons.mpr ⟨trivial, List.forall_mem_singleton.mpr hc⟩
  | failed hd =>
    refine List.forall_mem_cons.mpr ⟨trivial, List.forall_mem_append.mpr ⟨ofFields_allowance, ?_⟩⟩
    exact ofFields_of_dispatches (dispatches_of_gives hd)
  | delivered hd =>
    refine List.forall_mem_cons.mpr ⟨trivial, List.forall_mem_append.mpr ⟨ofFields_allowance, ?_⟩⟩
    have hcall : ∀ x ∈ _, Exchange.OfFields setting.capabilities x :=
      ofFields_of_dispatches (dispatches_of_gives hd)
    exact List.forall_mem_append.mpr ⟨hcall, List.forall_mem_singleton.mpr trivial⟩

mutual

theorem confined_of_completesField : ∀ {node : FieldNode} {container : ObjectType ρ}
    {parent : Json} {path : Path} {t : Transcript ρ} {c : Completion Json},
    CompletesField setting plan node container parent path t c →
      Confined setting.capabilities t c.errors
  | _, _, _, _, _, _, .typename _ => confined_nil
  | _, _, _, _, _, _, .undefined _ _ => confined_error
  | _, _, _, _, _, _, .failed _ _ hr =>
    confined_orNull ⟨ofFields_of_resolves hr, atField_ofField⟩
  | _, _, _, _, _, _, .resolved _ _ hr hv =>
    have hown := ⟨ofFields_of_resolves hr, List.forall_mem_nil _⟩
    confined_append hown (confined_of_completesValue hv)

theorem confined_of_completesFields : ∀ {nodes : List FieldNode} {container : ObjectType ρ}
    {parent : Json} {path : Path} {t : Transcript ρ} {c : Completion (List (String × Json))},
    CompletesFields setting plan nodes container parent path t c →
      Confined setting.capabilities t c.errors
  | _, _, _, _, _, _, .nil => confined_nil
  | _, _, _, _, _, _, .cons hf hs =>
    confined_append (confined_of_completesField hf) (confined_of_completesFields hs)

theorem confined_of_completesValue : ∀ {node : FieldNode} {type : TypeRef} {value : Json}
    {path : Path} {t : Transcript ρ} {c : Completion Json},
    CompletesValue setting plan node type value path t c →
      Confined setting.capabilities t c.errors
  | _, _, _, _, _, _, .null => by
    split
    · exact confined_nil
    · exact confined_error
  | _, _, _, _, _, _, .list he => confined_orNull (confined_of_completesElements he)
  | _, _, _, _, _, _, .noList _ _ => confined_orNull confined_error
  | _, _, _, _, _, _, .object _ _ hs => confined_orNull (confined_of_completesFields hs)
  | _, _, _, _, _, _, .leaf _ _ _ => confined_nil
  | _, _, _, _, _, _, .badLeaf _ _ _ _ => confined_orNull confined_error
  | _, _, _, _, _, _, .noType _ _ => confined_orNull confined_error

theorem confined_of_completesElements : ∀ {node : FieldNode} {type : TypeRef} {index : Nat}
    {values : List Json} {path : Path} {t : Transcript ρ} {c : Completion (List Json)},
    CompletesElements setting plan node type index values path t c →
      Confined setting.capabilities t c.errors
  | _, _, _, _, _, _, _, .nil => confined_nil
  | _, _, _, _, _, _, _, .cons hv hs =>
    confined_append (confined_of_completesValue hv) (confined_of_completesElements hs)

end

/-- The execution of an operation that is let through. -/
def carriedOut (setting : Setting ρ) (root : Json) (plan : Plan) (type : ObjectType ρ) :
    Dialogue ρ Envelope := do
  let completed ← completeFields setting plan plan.fields type root []
  return ⟨(completed.value.map fun pairs => .obj (Table.ofPairs pairs)).getD .null,
    completed.errors⟩

variable {root : Json} {type : ObjectType ρ} {envelope : Envelope}

theorem execute_of_unchecked (hc : setting.capabilities.operationCheck = false)
    (ht : setting.schema.object? plan.root = some type) :
    execute setting root plan = carriedOut setting root plan type := by
  unfold execute Dialogue.operationDecision
  rw [hc, ht]
  rfl

theorem execute_of_checked (hc : setting.capabilities.operationCheck = true)
    (ht : setting.schema.object? plan.root = some type) :
    execute setting root plan = .askOperation plan fun
      | .deny denial => .done (.rejected (.ofOperation denial))
      | .allow => carriedOut setting root plan type := by
  unfold execute Dialogue.operationDecision
  rw [hc, ht]
  apply congrArg (Dialogue.askOperation plan)
  funext decision
  cases decision <;> rfl

theorem confined_of_carriedOut (h : (carriedOut setting root plan type).Gives t envelope) :
    Confined setting.capabilities t envelope.errors := by
  obtain ⟨c, rfl, hc⟩ := Dialogue.gives_bind_done h
  exact confined_of_completesFields (completesFields_of_gives hc)

end Execution

open Execution

/-- The entry is turned down as a whole: it has no plan, and nothing is done; or its operation is
denied, and nothing is done but to ask about it. -/
inductive Executor.TurnsDown (e : Executor ρ σ) (entry : Entry) : List (Deed ρ) → Envelope → Prop
  | invalid {error : PlanError} (hp : e.plan entry = .error error) :
    TurnsDown e entry [] ⟨.null, [⟨error.message, error.positions, none, .parseOrValidation⟩]⟩
  | denied {plan : Plan} {denial : Denial} (hp : e.plan entry = .ok plan)
    (hc : e.gate.capabilities.operationCheck = true)
    (hd : e.gate.policy.checkOperation plan = .deny denial) :
    TurnsDown e entry [.heard (.operation plan (.deny denial))]
      ⟨.null, [⟨denial.message, [], none, .operationAccessDenied⟩]⟩

/-- What is asked about an operation that is let through. -/
def Executor.opening (e : Executor ρ σ) (plan : Plan) : List (Deed ρ) :=
  if e.gate.capabilities.operationCheck then [.heard (.operation plan .allow)] else []

/-- The operation of the entry is carried out: the policy lets it through, if operations are
checked. What is done after that is the execution of its fields, which comes to the envelope with
the answers that it hears; the policy is asked about nothing but fields then, if they are checked.
Every error is at a field. -/
structure Executor.CarriesOut (e : Executor ρ σ) (entry : Entry) (plan : Plan)
    (deeds : List (Deed ρ)) (envelope : Envelope) : Prop where
  planned : e.plan entry = .ok plan
  allowed : e.gate.capabilities.operationCheck = true → e.gate.policy.checkOperation plan = .allow
  carried : ∃ rest type, deeds = e.opening plan ++ rest ∧
    e.schema.object? plan.root = some type ∧
    (carriedOut e.setting e.root plan type).Gives (rest.filterMap Deed.exchange?) envelope ∧
    ∀ x, .heard x ∈ rest → x.OfFields e.gate.capabilities
  errors : ∀ error ∈ envelope.errors, error.AtField

variable {e : Executor ρ σ} {entry : Entry} {deeds : List (Deed ρ)} {envelope : Envelope}
  {stop : Option Nat} {i : Nat} {notes : List (Note ρ)} {session last : Session ρ σ Envelope}

theorem exists_unplaced_of_turnsDown (h : e.TurnsDown entry deeds envelope) :
    ∃ error ∈ envelope.errors, error.path = none := by
  cases h with
  | invalid _ => exact ⟨_, List.mem_singleton_self _, rfl⟩
  | denied _ _ _ => exact ⟨_, List.mem_singleton_self _, rfl⟩

theorem not_carriesOut_of_turnsDown (h : e.TurnsDown entry deeds envelope) {plan : Plan} :
    ¬ e.CarriesOut entry plan deeds envelope := by
  intro hc
  obtain ⟨error, hm, hnone⟩ := exists_unplaced_of_turnsDown h
  obtain ⟨path, hpath⟩ := (hc.errors error hm).placed
  rw [hnone] at hpath
  cases hpath

/-- From where the operation was let through, it is carried out, and everything is about fields. -/
theorem carriesOut_of_ended {plan : Plan} {type : ObjectType ρ} (hp : e.plan entry = .ok plan)
    (ha : e.gate.capabilities.operationCheck = true → e.gate.policy.checkOperation plan = .allow)
    (ht : e.schema.object? plan.root = some type)
    (h : Unrolls e.surroundings stop session notes last)
    (hs : session.stands[i]? = some (.speaking (carriedOut e.setting e.root plan type)))
    (hl : last.stands[i]? = some (.speaking (.done envelope))) :
    e.CarriesOut entry plan (e.opening plan ++ deedsOf i notes) envelope := by
  have hg : (carriedOut e.setting e.root plan type).Gives (transcriptOf i notes) envelope :=
    gives_of_ended h hs hl
  have hconfined := confined_of_carriedOut hg
  exact ⟨hp, ha, ⟨deedsOf i notes, type, rfl, ht, hg,
    fun x hx => hconfined.exchanges x (mem_transcriptOf hx)⟩, hconfined.errors⟩

theorem turnsDown_or_carriesOut (h : Unrolls e.surroundings stop session notes last)
    (hs : session.stands[i]? = some (.speaking (e.execute entry)))
    (hl : last.stands[i]? = some (.speaking (.done envelope))) :
    e.TurnsDown entry (deedsOf i notes) envelope ∨
      ∃ plan, e.CarriesOut entry plan (deedsOf i notes) envelope := by
  unfold Executor.execute at hs
  split at hs
  · next error hp =>
    obtain ⟨hdeeds, hlast⟩ := ended_of_done h hs
    rw [hl] at hlast
    cases hlast
    rw [hdeeds]
    exact .inl (.invalid hp)
  · next plan hp =>
    obtain ⟨type, ht, -⟩ := exists_wellSelected_of_ofQuery hp
    cases hc : e.gate.capabilities.operationCheck with
    | false =>
      rw [Executor.executePlan, execute_of_unchecked hc ht] at hs
      have hopening : e.opening plan = [] := by simp [Executor.opening, hc]
      have hout := carriesOut_of_ended hp (by simp [hc]) ht h hs hl
      rw [hopening, List.nil_append] at hout
      exact .inr ⟨plan, hout⟩
    | true =>
      rw [Executor.executePlan, execute_of_checked hc ht] at hs
      rcases stays_or_moves h hs with ⟨-, hstays⟩ | ⟨_, _, _, _, _, _, rest, hm, hs, h, hdeeds⟩
      · rw [hl] at hstays
        cases hstays
      · cases hm
        rw [hdeeds]
        cases hd : e.surroundings.policy.checkOperation plan with
        | deny denial =>
          rw [hd] at hs
          obtain ⟨hrest, hlast⟩ := ended_of_done h hs
          rw [hl] at hlast
          cases hlast
          rw [hrest]
          exact .inl (.denied hp hc hd)
        | allow =>
          rw [hd] at hs
          have hopening : e.opening plan = [.heard (.operation plan .allow)] := by
            simp [Executor.opening, hc]
          have hout := carriesOut_of_ended hp (fun _ => hd) ht h hs hl
          rw [hopening, List.singleton_append] at hout
          exact .inr ⟨plan, hout⟩

/-- However the entries of a request get their turns, and whenever everything is to stop: each entry
that comes to its end was either turned down as a whole, with one error and no data, before anything
was done for it, or its operation was carried out and each error has its place. The run of the
gateway is one of these ways, to the end of all entries. -/
theorem turned_down_or_carried_out (g : Gateway ρ σ) (stop : Option Nat) (now : Nat)
    (world : World σ) (entries : List Entry) :
    ((∃ notes, Unrolls g.executor.surroundings stop (g.executor.session now world entries) notes
        (.ofFinish (g.resolveEntries stop now world entries))) ∧
      (g.resolveEntries stop now world entries).results.length = entries.length) ∧
    ∀ notes last,
      Unrolls g.executor.surroundings stop (g.executor.session now world entries) notes last →
      ∀ i entry envelope, entries[i]? = some entry →
        last.stands[i]? = some (.speaking (.done envelope)) →
        Xor (g.executor.TurnsDown entry (deedsOf i notes) envelope)
          (∃ plan, g.executor.CarriesOut entry plan (deedsOf i notes) envelope) := by
  constructor
  · obtain ⟨notes, h⟩ := g.reaches_resolveEntries stop now world entries
    refine ⟨⟨notes, h⟩, ?_⟩
    have hlength := length_of_unrolls h
    simpa [Session.ofFinish, ended, Executor.session, unbegun] using hlength
  · intro notes last h i entry envelope hi hl
    rcases turnsDown_or_carriesOut h (getElem?_session hi) hl with hdown | hout
    · refine .inl ⟨hdown, ?_⟩
      rintro ⟨plan, hout⟩
      exact not_carriesOut_of_turnsDown hdown hout
    · refine .inr ⟨hout, ?_⟩
      obtain ⟨plan, hout⟩ := hout
      exact fun hdown => not_carriesOut_of_turnsDown hdown hout

end GraphGate

namespace GraphGate.Sample

open Execution

/-- The user was found. -/
def found : Envelope := ⟨.obj [("user", .obj [("name", .str "Ann")])], []⟩

theorem unrolls_found : ∃ notes last,
    Unrolls sleepy.surroundings none (sleepy.session 0 ⟨false, []⟩ [asking]) notes last ∧
    last.stands[0]? = some (.speaking (.done found)) := by
  rw [session_asking]
  exact ⟨_, _, unrolls_move .askOperation (unrolls_publish rfl (unrolls_move .askField
    (unrolls_asleep rfl (by rintro _ ⟨⟩; decide) rfl (.wait
    (unrolls_awake rfl rfl (by decide) (unrolls_publish rfl
    (unrolls_publish rfl (unrolls_move .askField (unrolls_publish rfl .refl))))))))), rfl⟩

/-- Nothing is done for an entry without a query, and one that asks for a user is carried out. -/
theorem turned_down_or_carried_out_missing :
    sleepy.TurnsDown ⟨none, none, []⟩ [] (.rejected (.ofPlan .missingQuery)) ∧
      ∃ deeds, sleepy.CarriesOut asking plan deeds found := by
  constructor
  · have h := (turned_down_or_carried_out ⟨sleepy, true⟩ none 0 ⟨false, []⟩
      (⟨none, none, []⟩ :: batch)).2 [] _ .refl 0 _ _ rfl rfl
    rcases h with ⟨hdown, -⟩ | ⟨⟨plan, hout⟩, -⟩
    · exact hdown
    · cases hout.planned
  · obtain ⟨notes, last, hu, hl⟩ := unrolls_found
    have h := (turned_down_or_carried_out ⟨sleepy, true⟩ none 0 ⟨false, []⟩ [asking]).2 notes last
      hu 0 asking found rfl hl
    rcases h with ⟨hdown, -⟩ | ⟨⟨plan', hout⟩, -⟩
    · obtain ⟨error, hm, -⟩ := exists_unplaced_of_turnsDown hdown
      cases hm
    · have hplan : plan' = plan := Except.ok.inj (hout.planned.symm.trans plan_asking)
      rw [hplan] at hout
      exact ⟨deedsOf 0 notes, hout⟩

end GraphGate.Sample
