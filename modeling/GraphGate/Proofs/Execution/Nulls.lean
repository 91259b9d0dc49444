import GraphGate.Proofs.Execution.Accounts

/-! Where null stands in a response: above every error at the nearest place that may be null, and
nowhere else but where it was delivered. -/
namespace GraphGate.Execution

variable {ρ : Type} {setting : Setting ρ} {plan : Plan}

/-- Subscribers left null at a path: as the value of a field, or as an element of a list there. -/
def Delivered (t : Transcript ρ) (q : Path) : Prop :=
  ∃ (event : Event) (value : Option Json) (indexes : List Nat),
    .published .postResolve event value ∈ t ∧ q = event.path ++ indexes.map .index ∧
      (value.getD .null).at? (indexes.map .index) = some .null

/-- Null inside of a list of lists is delivered with the list. -/
def DeliversNulls (given : Path → Prop) (value : Json) (path : Path) : Prop :=
  ∀ indexes : List Nat, value.at? (indexes.map .index) = some .null →
    given (path ++ indexes.map .index)

theorem deliversNulls_of_resolves {resolution : Resolution ρ} {context : Context} {parent : Json}
    {t all : Transcript ρ} {value : Json} (hs : t ⊆ all)
    (h : Resolves setting resolution context parent t (.ok value)) :
    DeliversNulls (Delivered all) value context.path := by
  intro indexes hnull
  cases h with
  | @delivered _ value' _ value hd =>
    exact ⟨Context.event context (some value), value', indexes, hs (by simp), rfl, hnull⟩

theorem at?_named_cons {schema : Schema ρ} {name : String} {nullable : Bool}
    {nodes : List FieldNode} (h : ∀ container, schema.object? name = some container → nodes = [])
    {s : Segment} {p : Path} :
    Slot.at? schema ⟨.named name nullable, nodes⟩ (s :: p) = none := by
  cases s with
  | index n => rfl
  | field key =>
    rw [Slot.at?, Slot.step]
    cases ho : schema.object? name with
    | none => rfl
    | some container =>
      rw [h container ho]
      rfl

theorem accounted_of_leaf {schema : Schema ρ} {given : Path → Prop} {path : Path} {name : String}
    {nullable : Bool} {nodes : List FieldNode} {v : Json}
    (h : ∀ container, schema.object? name = some container → nodes = []) (hv : v ≠ .null) :
    Accounted schema given path ⟨.named name nullable, nodes⟩ (.ok v) := by
  have ha : Accounts given path (fun _ => none) (fun _ : Unit => v.at?) (.ok ()) :=
    accounts_ok fun _ hs => nomatch hs
  exact accounted_of_parts ha rfl (fun _ _ => at?_named_cons h) hv fun _ _ => rfl

theorem ne_null_of_leaf? {definition : TypeDefinition ρ} {value v : Json} (hv : value ≠ .null)
    (h : leaf? definition value = some v) : v ≠ .null := by
  unfold leaf? at h
  repeat' split at h
  all_goals cases h <;> first
    | exact hv
    | simp

theorem deliversNulls_of_mem {given : Path → Prop} {values : List Json} {path : Path}
    (h : DeliversNulls given (.arr values) path) (n : Nat) (v : Json) (hn : values[n]? = some v) :
    DeliversNulls given v (path ++ [.index (0 + n)]) := by
  intro indexes hnull
  have := h (n :: indexes) (by simpa [Json.at?, Json.child?, hn] using hnull)
  simpa using this

/-- Null is completed where it may stand, and otherwise fails. -/
theorem accounted_null {schema : Schema ρ} {given : Path → Prop} {node : FieldNode}
    {type : TypeRef} {path : Path} (hg : given path) :
    Accounted schema given path ⟨type, node.children⟩
      (if type.nullable then .ok .null else .failed (.ofField (.nullValue path) node path)) := by
  cases hn : type.nullable with
  | true =>
    refine ⟨⟨by simp [Completion.ok], by simp [Completion.ok], ?_⟩, by simp [Completion.ok]⟩
    intro v hv q _ hnull
    cases hv
    cases q with
    | nil => exact .inl (by simpa using hg)
    | cons s q => cases hnull
  | false =>
    have h : Accounted schema given path ⟨type, node.children⟩
        ((Completion.failed (.ofField (.nullValue path) node path)).orNull type.nullable) :=
      accounted_failed rfl
    rwa [hn] at h

theorem at?_object_cons {schema : Schema ρ} {name : String} {nullable : Bool}
    {nodes : List FieldNode} {container : ObjectType ρ}
    (ho : schema.object? name = some container) {s : Segment} {p : Path} :
    Slot.at? schema ⟨.named name nullable, nodes⟩ (s :: p) =
      fieldShape schema container nodes (s :: p) := by
  cases s with
  | index n => rfl
  | field key =>
    rw [Slot.at?, Slot.step, ho]
    rfl

/-- An object has its fields where they are looked for. -/
theorem accounted_object {schema : Schema ρ} {given : Path → Prop} {path : Path} {name : String}
    {nullable : Bool} {nodes : List FieldNode} {container : ObjectType ρ}
    {c : Completion (List (String × Json))} (ho : schema.object? name = some container)
    (h : Accounts given path (fieldShape schema container nodes) fieldLook c)
    (hp : ∀ pairs, c.value = some pairs → Table.ofPairs pairs = pairs) :
    Accounted schema given path ⟨.named name nullable, nodes⟩
      ((c.map fun pairs => .obj (Table.ofPairs pairs)).orNull nullable) := by
  refine accounted_orNull h rfl (fun _ _ => at?_object_cons ho) ?_
  intro pairs hpairs
  refine ⟨by simp, ?_⟩
  intro s p
  rw [hp pairs hpairs]
  cases s with
  | index n => rfl
  | field key => rfl

variable {all : Transcript ρ}

mutual

/-- Errors and nulls of a field answer for each other. -/
theorem accounted_of_completesField : ∀ {node : FieldNode} {container : ObjectType ρ}
    {parent : Json} {path : Path} {t : Transcript ρ} {c : Completion Json},
    CompletesField setting plan node container parent path t c →
      node.WellFormed setting.schema container → t ⊆ all →
      ∃ slot, Slot.ofNode? container node = some slot ∧
        Accounted setting.schema (Delivered all) path slot c
  | _, _, _, _, _, _, .typename hn, _, _ =>
    ⟨⟨.named "String" false, []⟩, by rw [Slot.ofNode?, if_pos hn],
      accounted_of_leaf (fun _ _ => rfl) (by simp)⟩
  | _, _, _, _, _, _, .undefined hn hd, hw, _ => (not_undefined hw hn hd).elim
  | node, _, _, _, _, _, .failed hn hd _, _, _ =>
    ⟨⟨_, node.children⟩, by rw [Slot.ofNode?, if_neg hn, hd]; rfl, accounted_failed rfl⟩
  | node, _, _, _, _, _, .resolved hn hd hr hv, hw, ht =>
    ⟨⟨_, node.children⟩, by rw [Slot.ofNode?, if_neg hn, hd]; rfl,
      accounted_of_completesValue hv (fits_of_wellFormed hw hn hd)
        (List.append_subset.mp ht).2 (deliversNulls_of_resolves (List.append_subset.mp ht).1 hr)⟩

theorem accounts_of_completesFields : ∀ {nodes : List FieldNode} {container : ObjectType ρ}
    {parent : Json} {path : Path} {t : Transcript ρ} {c : Completion (List (String × Json))},
    CompletesFields setting plan nodes container parent path t c →
      WellSelected setting.schema nodes container → t ⊆ all →
      Accounts (Delivered all) path (fieldShape setting.schema container nodes) fieldLook c
  | _, _, _, _, _, _, .nil, _, _ => accounts_ok fun p _ => by simp [fieldLook_nil]
  | _, _, _, _, _, _, .cons hf hs, hw, ht => by
    have hn := List.nodup_cons.mp hw.distinct
    obtain ⟨slot, hslot, ha⟩ := accounted_of_completesField hf (hw.wellFormed _ (by simp))
      (List.append_subset.mp ht).1
    have hs := accounts_of_completesFields hs
      ⟨hn.2, fun node hm => hw.wellFormed node (by simp [hm])⟩ (List.append_subset.mp ht).2
    rw [fieldShape_cons hslot]
    exact accounts_both ha hs (apart_fieldShape hn.1) fun _ _ _ => fieldLook_cons

theorem accounted_of_completesValue : ∀ {node : FieldNode} {type : TypeRef} {value : Json}
    {path : Path} {t : Transcript ρ} {c : Completion Json},
    CompletesValue setting plan node type value path t c →
      Fits setting.schema node.children type → t ⊆ all →
      DeliversNulls (Delivered all) value path →
      Accounted setting.schema (Delivered all) path ⟨type, node.children⟩ c
  | _, _, _, _, _, _, .null, _, _, hg => accounted_null (by simpa using hg [] rfl)
  | _, _, _, _, _, _, .list he, hb, ht, hg => by
    have ha := accounts_of_completesElements he hb ht (deliversNulls_of_mem hg)
    refine accounted_orNull ha rfl ?_ ?_
    · intro s p
      cases s with
      | field key => rfl
      | index n => simp [Slot.at?, Slot.step, elementShape]
    · intro vs _
      refine ⟨by simp, ?_⟩
      intro s p
      cases s with
      | field key => rfl
      | index n => simp [Json.at?, Json.child?, elementLook]
  | _, _, _, _, _, _, .noList _ _, _, _, _ => accounted_failed rfl
  | _, _, _, _, _, _, .object _ ho hs, hb, ht, _ => by
    have hw := hb _ (object?_of_find? ho)
    have ha := accounts_of_completesFields hs hw ht
    exact accounted_object (object?_of_find? ho) ha fun pairs hp =>
      ofPairs_of_fieldsConform hw (fieldsConform_of_completes hs hw.wellFormed hp)
  | _, _, _, _, _, _, .leaf hv ht hl, _, _, _ => by
    refine accounted_of_leaf ?_ (ne_null_of_leaf? hv hl)
    intro container ho
    rw [Schema.object?, ht] at ho
    split at ho
    · next he =>
      cases he
      cases hl
    · cases ho
  | _, _, _, _, _, _, .badLeaf _ _ _ _, _, _, _ => accounted_failed rfl
  | _, _, _, _, _, _, .noType _ _, _, _, _ => accounted_failed rfl

theorem accounts_of_completesElements : ∀ {node : FieldNode} {type : TypeRef} {index : Nat}
    {values : List Json} {path : Path} {t : Transcript ρ} {c : Completion (List Json)},
    CompletesElements setting plan node type index values path t c →
      Fits setting.schema node.children type → t ⊆ all →
      (∀ n v, values[n]? = some v →
        DeliversNulls (Delivered all) v (path ++ [.index (index + n)])) →
      Accounts (Delivered all) path (elementShape setting.schema ⟨type, node.children⟩ index)
        (elementLook index) c
  | _, _, _, _, _, _, _, .nil, _, _, _ => accounts_ok fun p _ => by simp [elementLook_nil]
  | _, _, index, _, _, _, _, .cons hv hs, hb, ht, hg => by
    have ha := accounted_of_completesValue hv hb (List.append_subset.mp ht).1 (hg 0 _ rfl)
    have hs := accounts_of_completesElements hs hb (List.append_subset.mp ht).2 (by
      intro n v hn
      have := hg (n + 1) v hn
      rwa [show index + (n + 1) = index + 1 + n by omega] at this)
    rw [elementShape_eq]
    exact accounts_both ha hs apart_elementShape fun _ _ _ => elementLook_cons

end

/-- Above every error, null stands at the nearest place that may be null, or higher. -/
def ErrorsNulled (schema : Schema ρ) (plan : Plan) (envelope : Envelope) : Prop :=
  ∀ e ∈ envelope.errors, ∃ p q r, e.path = some p ∧
    ((Slot.ofPlan plan).at? schema p).isSome ∧ (Slot.ofPlan plan).Nearest schema p q ∧
    r <+: q ∧ envelope.data.at? r = some .null

/-- At every declared place that holds null, null was delivered, or it stands for an error there or
below, with no place on the way down that may be null. -/
def NullsExplained (schema : Schema ρ) (plan : Plan) (t : Transcript ρ) (envelope : Envelope) :
    Prop :=
  ∀ q, ((Slot.ofPlan plan).at? schema q).isSome → envelope.data.at? q = some .null →
    (q ≠ [] ∧ Delivered t q) ∨ ∃ e ∈ envelope.errors, ∃ p, e.path = some (q ++ p) ∧
      Firm ((Slot.ofPlan plan).at? schema) q p

theorem errorsNulled_of_accounted {schema : Schema ρ} {given : Path → Prop} {c : Completion Json}
    (h : Accounted schema given [] (Slot.ofPlan plan) (c.orNull true)) :
    ErrorsNulled schema plan ⟨c.value.getD .null, c.errors⟩ := by
  intro e he
  obtain ⟨p, hp, hd, hv⟩ := h.located e (by rwa [errors_orNull])
  obtain ⟨r, slot, hr, hslot, hnull, hlook⟩ := hv _ value_orNull_true
  have hroot : (Slot.ofPlan plan).type.nullable = true := rfl
  obtain ⟨q, hq⟩ := Slot.exists_nearest hroot p
  exact ⟨p, q, r, hp, hd, hq, hq.longest r slot hr hslot hnull, hlook⟩

/-- The errors that leave a whole response without data. -/
theorem exists_of_accounts_null {given : Path → Prop} {path : Path}
    {shape : Path → Option Slot} {c : Completion (List (String × Json))}
    (h : Accounts given path shape fieldLook c)
    (hn : (c.value.map fun pairs => Json.obj (Table.ofPairs pairs)).getD .null = .null) :
    ∃ e ∈ c.errors, ∃ p, e.path = some (path ++ p) ∧ Firm shape [] p := by
  apply h.missing
  cases hc : c.value with
  | none => rfl
  | some pairs =>
    rw [hc] at hn
    cases hn

theorem nullsExplained_of_accounted {schema : Schema ρ} {t : Transcript ρ} {type : ObjectType ρ}
    {c : Completion (List (String × Json))}
    (hc : Accounts (Delivered t) [] (fieldShape schema type plan.fields) fieldLook c)
    (ht : schema.object? plan.root = some type)
    (h : Accounted schema (Delivered t) [] (Slot.ofPlan plan)
      ((c.map fun pairs => .obj (Table.ofPairs pairs)).orNull true)) :
    NullsExplained schema plan t
      ⟨(c.value.map fun pairs => .obj (Table.ofPairs pairs)).getD .null, c.errors⟩ := by
  intro q hq hnull
  cases q with
  | nil =>
    obtain ⟨e, he, p, hp, hf⟩ := exists_of_accounts_null hc (Option.some.inj hnull)
    refine .inr ⟨e, he, p, hp, ?_⟩
    intro r hr hne
    obtain ⟨slot, hslot, hn⟩ := hf r hr hne
    obtain ⟨s, r, rfl⟩ := List.exists_cons_of_ne_nil hne
    exact ⟨slot, by rw [List.nil_append, Slot.ofPlan, at?_object_cons ht]; exact hslot, hn⟩
  | cons s q =>
    rcases h.explained _ value_orNull_true _ hq hnull with hd | ⟨e, he, p, hp, hf⟩
    · exact .inl ⟨by simp, hd⟩
    · exact .inr ⟨e, by rwa [errors_orNull] at he, p, hp, hf⟩

/-- Errors and nulls answer for each other, whatever subscribers, the policy and resolvers answer,
in time or not, as long as the operation as a whole is not denied. -/
theorem nulls_accounted {limit : Nat} {document : Query.Document} {name : Option String}
    {supplied : Table Json} {root : Json} {t : Transcript ρ} {envelope : Envelope}
    (hp : Plan.ofDocument setting.schema limit document name supplied = .ok plan)
    (hg : (execute setting root plan).Gives t envelope)
    (ha : ∀ denial, .operation plan (.deny denial) ∉ t) :
    ErrorsNulled setting.schema plan envelope ∧
      NullsExplained setting.schema plan t envelope ∧
      (envelope.data = .null → envelope.errors ≠ []) ∧
      (envelope.errors = [] → ∀ q, ((Slot.ofPlan plan).at? setting.schema q).isSome →
        envelope.data.at? q = some .null → Delivered t q) := by
  obtain ⟨type, ht, hw⟩ := Plan.exists_wellSelected_of_ofDocument hp
  rcases cases_of_gives ht hg with ⟨denial, rfl, -⟩ | ⟨t₁, t₂, c, rfl, -, hs, rfl⟩
  · exact absurd (by simp) (ha denial)
  · have hc := accounts_of_completesFields hs hw (List.subset_append_right t₁ t₂)
    have hr : Accounted setting.schema (Delivered (t₁ ++ t₂)) [] (Slot.ofPlan plan) _ :=
      accounted_object ht hc fun pairs hpairs =>
        ofPairs_of_fieldsConform hw (fieldsConform_of_completes hs hw.wellFormed hpairs)
    have hn : NullsExplained setting.schema plan (t₁ ++ t₂) _ :=
      nullsExplained_of_accounted hc ht hr
    refine ⟨errorsNulled_of_accounted hr, hn, ?_, ?_⟩
    · intro hnull he
      obtain ⟨e, he', -⟩ := exists_of_accounts_null hc hnull
      simp only at he
      rw [he] at he'
      cases he'
    · intro he q hq hnull
      rcases hn q hq hnull with ⟨-, hd⟩ | ⟨e, he', -⟩
      · exact hd
      · simp only at he
        rw [he] at he'
        cases he'

end GraphGate.Execution

namespace GraphGate.Sample

open Execution

/-- The user's name must not be null, so there is no user. -/
theorem gives_transcript_null : (execute setting .null plan).Gives (transcript .null)
    ⟨.obj [("user", .null)], [.ofField (.nullValue nameContext.path) nameNode nameContext.path]⟩ :=
  .publish (.call (.publish (.publish (.publish .done))))

theorem nulls_accounted_transcript :
    (execute setting .null plan).Gives (transcript .null)
        ⟨.obj [("user", .null)],
          [.ofField (.nullValue nameContext.path) nameNode nameContext.path]⟩ ∧
      (∀ denial, .operation plan (.deny denial) ∉ transcript .null) ∧
      ErrorsNulled setting.schema plan ⟨.obj [("user", .null)],
        [.ofField (.nullValue nameContext.path) nameNode nameContext.path]⟩ :=
  have ha : ∀ denial, .operation plan (.deny denial) ∉ transcript .null := by simp [transcript]
  ⟨gives_transcript_null, ha, (nulls_accounted ofDocument_document gives_transcript_null ha).1⟩

end GraphGate.Sample
