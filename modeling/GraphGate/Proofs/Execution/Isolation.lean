import GraphGate.Proofs.Execution.Blank
import GraphGate.Proofs.Execution.Denial
import GraphGate.Proofs.Execution.Nulls
import GraphGate.Proofs.Execution.Turns

/-! What happens at a place that may be null changes nothing elsewhere: two executions that agree
on everything else give the same data and errors there. -/
namespace GraphGate

variable {ρ : Type}

/-- Whoever answers, as functions of what they are asked. -/
structure Answers (ρ : Type) where
  publish : Phase → Event → Option Json
  operation : Plan → Decision
  field : Context → Decision
  call : ρ → Invocation → CallResult

/-- The answer of an exchange is the one that the functions give. -/
def Exchange.Follows (answers : Answers ρ) : Exchange ρ → Prop
  | .published phase event value => value = answers.publish phase event
  | .operation plan decision => decision = answers.operation plan
  | .field context decision => decision = answers.field context
  | .called resolver invocation result => result = answers.call resolver invocation

/-- Everything is answered as the functions say, but for what is asked at a path and below. -/
def Transcript.FollowsBut (p : Path) (answers : Answers ρ) (t : Transcript ρ) : Prop :=
  ∀ x ∈ t, (∀ q, x.path? = some q → ¬ p <+: q) → x.Follows answers

/-- The error is at a path or below. -/
def ResponseError.under (p : Path) (e : ResponseError) : Bool := e.path.any fun q => p <+: q

namespace Execution

section Agreement

variable {α β γ : Type} {p : Path} {f : α → α} {g : β → β} {k : γ → γ}

/-- Completions with the same errors but for those at `p` and below, and with values that are the
same once `f` has hidden a part of them. -/
structure Agree (p : Path) (f : α → α) (c c' : Completion α) : Prop where
  value : c.value.map f = c'.value.map f
  errors : c.errors.filter (!·.under p) = c'.errors.filter (!·.under p)

theorem agree_refl {c : Completion α} : Agree p f c c := ⟨rfl, rfl⟩

theorem agree_map {c c' : Completion α} {h : α → β} (ha : Agree p f c c')
    (hf : ∀ a, g (h a) = h (f a)) : Agree p g (c.map h) (c'.map h) where
  value := by
    have hmap : ∀ v : Option α, (v.map h).map g = (v.map f).map h := by
      intro v
      cases v with
      | none => rfl
      | some a => exact congrArg some (hf a)
    rw [Completion.map, Completion.map, hmap, hmap, ha.value]
  errors := ha.errors

theorem agree_both {a a' : Completion α} {b b' : Completion β} {h : α → β → γ}
    (ha : Agree p f a a') (hb : Agree p g b b') (hk : ∀ x y, k (h x y) = h (f x) (g y)) :
    Agree p k (.both h a b) (.both h a' b') where
  value := by
    have hboth : ∀ (v : Option α) (w : Option β), (v.bind fun x => w.map (h x)).map k =
        (v.map f).bind fun x => (w.map g).map (h x) := by
      intro v w
      cases v with
      | none => rfl
      | some x =>
        cases w with
        | none => rfl
        | some y => exact congrArg some (hk x y)
    rw [Completion.both, Completion.both, hboth, hboth, ha.value, hb.value]
  errors := by
    rw [Completion.both, Completion.both, List.filter_append, List.filter_append, ha.errors,
      hb.errors]

theorem agree_orNull {c c' : Completion Json} {f : Json → Json} {nullable : Bool}
    (ha : Agree p f c c') : Agree p f (c.orNull nullable) (c'.orNull nullable) where
  value := by
    obtain ⟨v, errors⟩ := c
    obtain ⟨v', errors'⟩ := c'
    have hv := ha.value
    cases v with
    | none =>
      cases v' with
      | none => cases nullable <;> rfl
      | some _ => cases hv
    | some _ =>
      cases v' with
      | none => cases hv
      | some _ => exact hv
  errors := by rw [errors_orNull, errors_orNull, ha.errors]

/-- The object of fields that agree. -/
theorem agree_object {place : Path} {c c' : Completion (List (String × Json))}
    (ho : ¬ p <+: place)
    (ha : Agree p (Table.mapValues fun key => Json.hide p (place ++ [.field key])) c c') :
    Agree p (Json.hide p place) (c.map fun pairs => .obj (Table.ofPairs pairs))
      (c'.map fun pairs => .obj (Table.ofPairs pairs)) := by
  refine agree_map ha ?_
  intro pairs
  rw [Json.hide_obj ho, Table.ofPairs_mapValues]

end Agreement

section Concurrence

variable {α α' β β' : Type} {all₁ all₂ : Transcript ρ}

/-- Whatever two dialogues exchange as parts of these transcripts, their results are related. -/
def Concurs (all₁ all₂ : Transcript ρ) (related : α → β → Prop) (d₁ : Dialogue ρ α)
    (d₂ : Dialogue ρ β) : Prop :=
  ∀ t₁ t₂ a b, t₁ ⊆ all₁ → t₂ ⊆ all₂ → d₁.Gives t₁ a → d₂.Gives t₂ b → related a b

theorem concurs_done {related : α → β → Prop} {a : α} {b : β} (h : related a b) :
    Concurs all₁ all₂ related (.done a) (.done b) := by
  intro t₁ t₂ a' b' _ _ h₁ h₂
  obtain ⟨-, rfl⟩ := Dialogue.gives_done h₁
  obtain ⟨-, rfl⟩ := Dialogue.gives_done h₂
  exact h

theorem concurs_bind {related : α → β → Prop} {related' : α' → β' → Prop} {d₁ : Dialogue ρ α}
    {d₂ : Dialogue ρ β} {f₁ : α → Dialogue ρ α'} {f₂ : β → Dialogue ρ β'}
    (hd : Concurs all₁ all₂ related d₁ d₂)
    (hf : ∀ a b, related a b → Concurs all₁ all₂ related' (f₁ a) (f₂ b)) :
    Concurs all₁ all₂ related' (d₁.bind f₁) (d₂.bind f₂) := by
  intro t₁ t₂ a b hs₁ hs₂ h₁ h₂
  obtain ⟨u₁, w₁, x, rfl, hx, ha⟩ := Dialogue.gives_bind h₁
  obtain ⟨u₂, w₂, y, rfl, hy, hb⟩ := Dialogue.gives_bind h₂
  obtain ⟨hu₁, hw₁⟩ := List.append_subset.mp hs₁
  obtain ⟨hu₂, hw₂⟩ := List.append_subset.mp hs₂
  exact hf x y (hd u₁ u₂ x y hu₁ hu₂ hx hy) w₁ w₂ a b hw₁ hw₂ ha hb

/-- The same dialogue twice, to be carried on after both. -/
theorem concurs_bind_eq {related : α' → β' → Prop} {d₁ d₂ : Dialogue ρ α}
    {f₁ : α → Dialogue ρ α'} {f₂ : α → Dialogue ρ β'} (hd : Concurs all₁ all₂ Eq d₁ d₂)
    (hf : ∀ a, Concurs all₁ all₂ related (f₁ a) (f₂ a)) :
    Concurs all₁ all₂ related (d₁.bind f₁) (d₂.bind f₂) := by
  refine concurs_bind hd ?_
  rintro a _ rfl
  exact hf a

variable {p : Path} {answers : Answers ρ}

/-- One question, asked in both executions, gets one answer. -/
theorem concurs_ask (h₁ : all₁.FollowsBut p answers) (h₂ : all₂.FollowsBut p answers)
    {d : Dialogue ρ α} (exchange : α → Exchange ρ) {answer : α}
    (hd : ∀ t a, d.Gives t a → t = [exchange a])
    (ho : ∀ a q, (exchange a).path? = some q → ¬ p <+: q)
    (hf : ∀ a, (exchange a).Follows answers → a = answer) : Concurs all₁ all₂ Eq d d := by
  intro t₁ t₂ a b hs₁ hs₂ ha hb
  rw [hd t₁ a ha] at hs₁
  rw [hd t₂ b hb] at hs₂
  have hx : exchange a ∈ all₁ := hs₁ List.mem_cons_self
  have hy : exchange b ∈ all₂ := hs₂ List.mem_cons_self
  exact (hf a (h₁ _ hx (ho a))).trans (hf b (h₂ _ hy (ho b))).symm

theorem concurs_published (h₁ : all₁.FollowsBut p answers) (h₂ : all₂.FollowsBut p answers)
    {phase : Phase} {event : Event} (ho : ¬ p <+: event.path) :
    Concurs all₁ all₂ Eq (Dialogue.published phase event) (Dialogue.published phase event) := by
  refine concurs_ask h₁ h₂ (.published phase event) (fun _ _ => Dialogue.gives_published) ?_
    fun _ => id
  rintro _ q ⟨⟩
  exact ho

theorem concurs_called (h₁ : all₁.FollowsBut p answers) (h₂ : all₂.FollowsBut p answers)
    {resolver : ρ} {invocation : Invocation} (ho : ¬ p <+: invocation.context.path) :
    Concurs all₁ all₂ Eq (Dialogue.called resolver invocation)
      (Dialogue.called resolver invocation) := by
  refine concurs_ask h₁ h₂ (.called resolver invocation) (fun _ _ => Dialogue.gives_called) ?_
    fun _ => id
  rintro _ q ⟨⟩
  exact ho

theorem concurs_fieldDecision (h₁ : all₁.FollowsBut p answers) (h₂ : all₂.FollowsBut p answers)
    {capabilities : Capabilities} {context : Context} (ho : ¬ p <+: context.path) :
    Concurs all₁ all₂ Eq (Dialogue.fieldDecision capabilities context)
      (Dialogue.fieldDecision capabilities context) := by
  cases hc : capabilities.fieldCheck with
  | true =>
    refine concurs_ask h₁ h₂ (.field context) ?_ ?_ fun _ => id
    · intro t decision hg
      rcases Dialogue.gives_fieldDecision hg with ⟨-, ht⟩ | ⟨hc', -⟩
      · exact ht
      · rw [hc] at hc'
        cases hc'
    · rintro _ q ⟨⟩
      exact ho
  | false =>
    rw [Dialogue.fieldDecision, hc]
    exact concurs_done rfl

theorem concurs_operationDecision (h₁ : all₁.FollowsBut p answers)
    (h₂ : all₂.FollowsBut p answers) {capabilities : Capabilities} {plan : Plan} :
    Concurs all₁ all₂ Eq (Dialogue.operationDecision capabilities plan)
      (Dialogue.operationDecision capabilities plan) := by
  cases hc : capabilities.operationCheck with
  | true =>
    refine concurs_ask h₁ h₂ (.operation plan) ?_ ?_ fun _ => id
    · intro t decision hg
      rcases Dialogue.gives_operationDecision hg with ⟨-, ht⟩ | ⟨hc', -⟩
      · exact ht
      · rw [hc] at hc'
        cases hc'
    · rintro _ q ⟨⟩
  | false =>
    rw [Dialogue.operationDecision, hc]
    exact concurs_done rfl

theorem concurs_invoke (h₁ : all₁.FollowsBut p answers) (h₂ : all₂.FollowsBut p answers)
    {resolver : ρ} {invocation : Invocation} (ho : ¬ p <+: invocation.context.path) :
    Concurs all₁ all₂ Eq (invoke resolver invocation) (invoke resolver invocation) :=
  concurs_bind_eq (concurs_called h₁ h₂ ho) fun _ => concurs_done rfl

variable {setting : Setting ρ} {registry : Registry ρ}

/-- A field's service has the same method in both registries, or none in both. -/
def SameMethod (registry registry' : Registry ρ) (definition : FieldDefinition ρ) : Prop :=
  ∀ service name, definition.resolution = .method service name →
    method registry service name definition.name = method registry' service name definition.name

theorem concurs_dispatch (h₁ : all₁.FollowsBut p answers) (h₂ : all₂.FollowsBut p answers)
    {definition : FieldDefinition ρ} {invocation : Invocation}
    (hm : SameMethod setting.registry registry definition)
    (hf : invocation.context.field = definition.toFieldSignature)
    (ho : ¬ p <+: invocation.context.path) :
    Concurs all₁ all₂ Eq (dispatch setting definition.resolution invocation)
      (dispatch { setting with registry } definition.resolution invocation) := by
  cases hr : definition.resolution with
  | callable resolver => exact concurs_invoke h₁ h₂ ho
  | method service name =>
    simp only [dispatch, hf, ← hm service name hr]
    split
    · exact concurs_done rfl
    · exact concurs_invoke h₁ h₂ ho
  | property key => exact concurs_done rfl
  | default =>
    simp only [dispatch]
    split
    · exact concurs_invoke h₁ h₂ ho
    · exact concurs_done rfl

/-- A field that is not at `p` is resolved to the same. -/
theorem concurs_resolve (h₁ : all₁.FollowsBut p answers) (h₂ : all₂.FollowsBut p answers)
    {definition : FieldDefinition ρ} {node : FieldNode} {parentType : String} {parent : Json}
    {path : Path} {plan : Plan} (hm : SameMethod setting.registry registry definition)
    (ho : ¬ p <+: path) :
    Concurs all₁ all₂ Eq (resolve setting definition node parentType parent path plan)
      (resolve { setting with registry } definition node parentType parent path plan) := by
  refine concurs_bind_eq ?_ ?_
  · exact concurs_bind_eq (concurs_published h₁ h₂ ho) fun _ => concurs_done rfl
  · intro _
    refine concurs_bind_eq (concurs_fieldDecision h₁ h₂ ho) ?_
    intro decision
    cases decision with
    | deny denial => exact concurs_done rfl
    | allow =>
      refine concurs_bind_eq (concurs_dispatch h₁ h₂ hm rfl ho) ?_
      intro r
      cases r with
      | error e => exact concurs_done rfl
      | ok value =>
        exact concurs_bind_eq (concurs_published h₁ h₂ ho) fun _ => concurs_done rfl

theorem concurs_completeElements {element₁ element₂ : Json → Path → Dialogue ρ (Completion Json)}
    {place : Path} {index : Nat} {values : List Json}
    (h : ∀ n v, values[n]? = some v → Concurs all₁ all₂
      (Agree p (Json.hide p (place ++ [.index (index + n)])))
      (element₁ v (place ++ [.index (index + n)])) (element₂ v (place ++ [.index (index + n)]))) :
    Concurs all₁ all₂
      (Agree p (List.mapIdx fun n v => Json.hide p (place ++ [.index (index + n)]) v))
      (completeElements element₁ place index values)
      (completeElements element₂ place index values) := by
  induction values generalizing index with
  | nil => exact concurs_done agree_refl
  | cons value values ih =>
    refine concurs_bind (h 0 value rfl) ?_
    intro first first' hfirst
    have hvalues : ∀ n v, values[n]? = some v → Concurs all₁ all₂
        (Agree p (Json.hide p (place ++ [.index (index + 1 + n)])))
        (element₁ v (place ++ [.index (index + 1 + n)]))
        (element₂ v (place ++ [.index (index + 1 + n)])) := by
      intro n v hn
      have hv := h (n + 1) v hn
      rwa [show index + (n + 1) = index + 1 + n by omega] at hv
    refine concurs_bind (ih hvalues) ?_
    intro more more' hmore
    refine concurs_done (agree_both hfirst hmore ?_)
    intro v vs
    have he : (fun n v => Json.hide p (place ++ [.index (index + (n + 1))]) v) =
        fun n v => Json.hide p (place ++ [.index (index + 1 + n)]) v := by
      funext n v
      rw [show index + (n + 1) = index + 1 + n by omega]
    rw [List.mapIdx_cons, he]

variable {schema : Schema ρ} {root : Json} {plan : Plan}

/-- A value of a declared type at its place, which is not at `p` or below. -/
structure ValueAt (p : Path) (schema : Schema ρ) (root : Json) (plan : Plan) (all : Transcript ρ)
    (nodes : List FieldNode) (type : TypeRef) (value : Json) (place : Path) : Prop where
  outside : ¬ p <+: place
  slot : (Slot.ofPlan plan).at? schema place = some ⟨type, nodes⟩
  opens : Opens schema root plan all nodes type value place
  fits : Fits schema nodes type

/-- An object at its place, which is not at `p` or below. -/
structure ObjectAt (p : Path) (schema : Schema ρ) (root : Json) (plan : Plan) (all : Transcript ρ)
    (nodes : List FieldNode) (container : ObjectType ρ) (parent : Json) (place : Path) :
    Prop where
  outside : ¬ p <+: place
  slot : ∃ name nullable, (Slot.ofPlan plan).at? schema place = some ⟨.named name nullable, nodes⟩ ∧
    schema.object? name = some container
  reached : Reached schema root plan all place container parent nodes
  selected : WellSelected schema nodes container

/-- The path of a field, and not that of an element of a list. -/
def EndsInField (p : Path) : Prop := ∃ q key, p = q ++ [.field key]

theorem valueAt_element {nodes : List FieldNode} {element : TypeRef} {nullable : Bool}
    {values : List Json} {place : Path} (hk : EndsInField p)
    (h : ValueAt p schema root plan all₁ nodes (.list element nullable) (.arr values) place)
    (n : Nat) (v : Json) (hn : values[n]? = some v) :
    ValueAt p schema root plan all₁ nodes element v (place ++ [.index (0 + n)]) where
  outside := by
    intro hp
    rcases List.prefix_concat_iff.mp hp with rfl | hp
    · obtain ⟨q, key, he⟩ := hk
      cases (List.append_inj' he rfl).2
    · exact h.outside hp
  slot := by
    rw [Slot.at?_concat, h.slot]
    rfl
  opens := opens_of_mem h.opens n v hn
  fits := h.fits

theorem objectAt_of_valueAt {nodes : List FieldNode} {name : String} {nullable : Bool}
    {container : ObjectType ρ} {value : Json} {place : Path}
    (h : ValueAt p schema root plan all₁ nodes (.named name nullable) value place)
    (hv : value ≠ .null) (ho : schema.object? name = some container) :
    ObjectAt p schema root plan all₁ nodes container value place where
  outside := h.outside
  slot := ⟨name, nullable, h.slot, ho⟩
  reached := by
    have hr := h.opens [] container value (.object hv ho)
    rwa [List.map_nil, List.append_nil] at hr
  selected := h.fits container ho

/-- Objects are completed in agreement at every place that is not at `p` or below. -/
def ObjectsConcur (all₁ all₂ : Transcript ρ) (p : Path) (schema : Schema ρ) (root : Json)
    (plan : Plan) (nodes : List FieldNode)
    (object₁ object₂ : ObjectType ρ → Json → Path → Dialogue ρ (Completion Json)) : Prop :=
  ∀ container value place, ObjectAt p schema root plan all₁ nodes container value place →
    Concurs all₁ all₂ (Agree p (Json.hide p place)) (object₁ container value place)
      (object₂ container value place)

theorem concurs_complete_named {node : FieldNode}
    {object₁ object₂ : ObjectType ρ → Json → Path → Dialogue ρ (Completion Json)}
    (h : ObjectsConcur all₁ all₂ p schema root plan node.children object₁ object₂) {name : String}
    {nullable : Bool} {value : Json} {place : Path}
    (hv : ValueAt p schema root plan all₁ node.children (.named name nullable) value place)
    (hn : value ≠ .null) :
    Concurs all₁ all₂ (Agree p (Json.hide p place))
      (complete schema node object₁ (.named name nullable) value place)
      (complete schema node object₂ (.named name nullable) value place) := by
  rw [complete, complete]
  · split
    · next container ho =>
      refine concurs_bind (h container value place
        (objectAt_of_valueAt hv hn (object?_of_find? ho))) ?_
      intro c c' hc
      exact concurs_done (agree_orNull hc)
    · split <;> exact concurs_done agree_refl
    · exact concurs_done agree_refl
  all_goals exact hn

/-- A value is completed in agreement if the objects in it are. -/
theorem concurs_complete (hk : EndsInField p) {node : FieldNode}
    {object₁ object₂ : ObjectType ρ → Json → Path → Dialogue ρ (Completion Json)}
    (h : ObjectsConcur all₁ all₂ p schema root plan node.children object₁ object₂)
    {type : TypeRef} {value : Json} {place : Path}
    (hv : ValueAt p schema root plan all₁ node.children type value place) :
    Concurs all₁ all₂ (Agree p (Json.hide p place)) (complete schema node object₁ type value place)
      (complete schema node object₂ type value place) := by
  induction type generalizing value place with
  | named name nullable =>
    by_cases hn : value = .null
    · subst hn
      exact concurs_done agree_refl
    · exact concurs_complete_named h hv hn
  | list element nullable ih =>
    by_cases hn : value = .null
    · subst hn
      exact concurs_done agree_refl
    · by_cases hl : ∃ elements, value = .arr elements
      · obtain ⟨elements, rfl⟩ := hl
        have he : ∀ n v, elements[n]? = some v → Concurs all₁ all₂
            (Agree p (Json.hide p (place ++ [.index (0 + n)])))
            (complete schema node object₁ element v (place ++ [.index (0 + n)]))
            (complete schema node object₂ element v (place ++ [.index (0 + n)])) :=
          fun n v hn => ih (valueAt_element hk hv n v hn)
        refine concurs_bind (concurs_completeElements he) ?_
        intro c c' hc
        refine concurs_done (agree_orNull (agree_map hc ?_))
        intro vs
        simp only [Json.hide_arr hv.outside, Nat.zero_add]
      · have hl : ∀ elements, value ≠ .arr elements := fun elements he => hl ⟨elements, he⟩
        rw [complete, complete]
        · exact concurs_done agree_refl
        all_goals first
          | exact hn
          | exact hl

/-- A place that may be null has a value. -/
theorem hidden_of_accounted {given : Path → Prop} {slot : Slot} {c : Completion Json}
    (hn : slot.type.nullable = true) (h : Accounted schema given p slot c) :
    c.value.map (Json.hide p p) = some .null := by
  cases hc : c.value with
  | none =>
    rw [h.propagates hc] at hn
    cases hn
  | some v => rw [Option.map_some, Json.hide_self]

/-- All errors found at a place are there or below. -/
theorem filter_of_accounted {given : Path → Prop} {slot : Slot} {c : Completion Json}
    (h : Accounted schema given p slot c) : c.errors.filter (!·.under p) = [] := by
  rw [List.filter_eq_nil_iff]
  intro e he
  obtain ⟨q, hq, -⟩ := h.located e he
  simp [ResponseError.under, hq]

theorem agree_of_accounted {given given' : Path → Prop} {slot : Slot} {c c' : Completion Json}
    (hn : slot.type.nullable = true) (h : Accounted schema given p slot c)
    (h' : Accounted schema given' p slot c') : Agree p (Json.hide p p) c c' where
  value := (hidden_of_accounted hn h).trans (hidden_of_accounted hn h').symm
  errors := (filter_of_accounted h).trans (filter_of_accounted h').symm

theorem ofKey?_eq {container : ObjectType ρ} {key : String} {nodes : List FieldNode} :
    Slot.ofKey? container key nodes =
      (FieldNode.pick? key nodes).bind (Slot.ofNode? container) := by
  induction nodes with
  | nil => rfl
  | cons node rest ih =>
    by_cases hk : node.outputName = key
    · simp [Slot.ofKey?, FieldNode.pick?, hk]
    · rw [Slot.ofKey?, if_neg hk, ih]
      simp [FieldNode.pick?, hk]

theorem slot_of_objectAt {nodes : List FieldNode} {container : ObjectType ρ} {parent : Json}
    {place : Path} {node : FieldNode}
    (h : ObjectAt p schema root plan all₁ nodes container parent place) (hm : node ∈ nodes) :
    (Slot.ofPlan plan).at? schema (place ++ [.field node.outputName]) =
      Slot.ofNode? container node := by
  obtain ⟨name, nullable, hslot, ho⟩ := h.slot
  rw [Slot.at?_concat, hslot, Option.bind_some, Slot.step, ho, Option.bind_some,
    ofKey?_eq, FieldNode.pick?_of_mem h.selected.distinct hm, Option.bind_some]

/-- The field at `p` is completed in agreement, whatever happens there, if it may be null. -/
theorem concurs_at {nodes : List FieldNode} {container : ObjectType ρ} {parent : Json}
    {place : Path} {node : FieldNode} {slot : Slot}
    (h : ObjectAt p setting.schema root plan all₁ nodes container parent place) (hm : node ∈ nodes)
    (hp : p = place ++ [.field node.outputName])
    (hs : (Slot.ofPlan plan).at? setting.schema p = some slot) (hn : slot.type.nullable = true) :
    Concurs all₁ all₂ (Agree p (Json.hide p p)) (completeField setting plan node container parent p)
      (completeField { setting with registry } plan node container parent p) := by
  have hw := h.selected.wellFormed node hm
  have hslot := slot_of_objectAt h hm
  rw [← hp, hs] at hslot
  intro t₁ t₂ c c' hs₁ hs₂ hc hc'
  obtain ⟨slot₁, hslot₁, ha₁⟩ := accounted_of_completesField (completesField_of_gives hc) hw hs₁
  obtain ⟨slot₂, hslot₂, ha₂⟩ := accounted_of_completesField (completesField_of_gives hc') hw hs₂
  rw [← hslot] at hslot₁ hslot₂
  cases hslot₁
  cases hslot₂
  exact agree_of_accounted hn ha₁ ha₂

/-- Services have the same methods for all fields that are resolved elsewhere than at `p` and
below. -/
def SameMethods (setting : Setting ρ) (registry : Registry ρ) (root : Json) (plan : Plan)
    (p : Path) (t : Transcript ρ) : Prop :=
  ∀ container parent node path definition,
    Selected setting.schema root plan t container parent node path → ¬ p <+: path →
      container.field? node.name = some definition →
      SameMethod setting.registry registry definition

/-- What two executions have in common that agree on everything but what happens at `p`. -/
structure AgreeBut (p : Path) (answers : Answers ρ) (setting : Setting ρ) (registry : Registry ρ)
    (root : Json) (plan : Plan) (t₁ t₂ : Transcript ρ) : Prop where
  first : t₁.FollowsBut p answers
  second : t₂.FollowsBut p answers
  methods : SameMethods setting registry root plan p t₁

/-- A field elsewhere is resolved to one value, the objects in which are reached. -/
theorem concurs_resolve_opens (ha : AgreeBut p answers setting registry root plan all₁ all₂)
    {definition : FieldDefinition ρ} {node : FieldNode} {parentType : String} {parent : Json}
    {path : Path} (hm : SameMethod setting.registry registry definition) (ho : ¬ p <+: path) :
    Concurs all₁ all₂
      (fun r₁ r₂ => r₁ = r₂ ∧ ∀ value, r₁ = .ok value →
        Opens setting.schema root plan all₁ node.children definition.type value path)
      (resolve setting definition node parentType parent path plan)
      (resolve { setting with registry } definition node parentType parent path plan) := by
  intro t₁ t₂ r₁ r₂ hs₁ hs₂ hg₁ hg₂
  refine ⟨concurs_resolve ha.first ha.second hm ho t₁ t₂ r₁ r₂ hs₁ hs₂ hg₁ hg₂, ?_⟩
  rintro value rfl
  exact opens_of_resolves hs₁ (resolves_of_gives hg₁)

theorem valueAt_of_objectAt {nodes : List FieldNode} {container : ObjectType ρ} {parent : Json}
    {place : Path} {node : FieldNode} {definition : FieldDefinition ρ} {value : Json}
    (h : ObjectAt p schema root plan all₁ nodes container parent place) (hm : node ∈ nodes)
    (hn : node.name ≠ Plan.typename) (hd : container.field? node.name = some definition)
    (ho : ¬ p <+: place ++ [.field node.outputName])
    (hv : Opens schema root plan all₁ node.children definition.type value
      (place ++ [.field node.outputName])) :
    ValueAt p schema root plan all₁ node.children definition.type value
      (place ++ [.field node.outputName]) where
  outside := ho
  slot := by rw [slot_of_objectAt h hm, Slot.ofNode?, if_neg hn, hd, Option.map_some]
  opens := hv
  fits := fits_of_wellFormed (h.selected.wellFormed node hm) hn hd

/-- A field elsewhere is completed in agreement if the objects below it are. -/
theorem concurs_elsewhere (ha : AgreeBut p answers setting registry root plan all₁ all₂)
    (hk : EndsInField p) {nodes : List FieldNode} {container : ObjectType ρ} {parent : Json}
    {place : Path} {node : FieldNode}
    (h : ObjectAt p setting.schema root plan all₁ nodes container parent place) (hm : node ∈ nodes)
    (ho : ¬ p <+: place ++ [.field node.outputName])
    (hb : ObjectsConcur all₁ all₂ p setting.schema root plan node.children
      (below setting plan node) (below { setting with registry } plan node)) :
    Concurs all₁ all₂ (Agree p (Json.hide p (place ++ [.field node.outputName])))
      (completeField setting plan node container parent (place ++ [.field node.outputName]))
      (completeField { setting with registry } plan node container parent
        (place ++ [.field node.outputName])) := by
  obtain ⟨aliasName, name, arguments, children, position⟩ := node
  rw [completeField, completeField]
  by_cases hn : name = Plan.typename
  · rw [if_pos hn, if_pos hn]
    exact concurs_done agree_refl
  · rw [if_neg hn, if_neg hn]
    cases hd : container.field? name with
    | none => exact concurs_done agree_refl
    | some definition =>
      have hsel : Selected setting.schema root plan all₁ container parent
          ⟨aliasName, name, arguments, children, position⟩ _ :=
        ⟨⟨place, nodes, h.reached, hm, rfl⟩, hn⟩
      have hmethod := ha.methods _ _ _ _ _ hsel ho hd
      refine concurs_bind (concurs_resolve_opens ha hmethod ho) ?_
      rintro r _ ⟨rfl, hopens⟩
      cases r with
      | error e => exact concurs_done agree_refl
      | ok value =>
        exact concurs_complete hk hb (valueAt_of_objectAt h hm hn hd ho (hopens value rfl))

mutual

/-- A field of an object that is not at `p` or below is completed in agreement: at `p` because it
may be null, and elsewhere because what is below it is. -/
theorem concurs_completeField (ha : AgreeBut p answers setting registry root plan all₁ all₂)
    {slot : Slot} (hk : EndsInField p)
    (hs : (Slot.ofPlan plan).at? setting.schema p = some slot) (hn : slot.type.nullable = true) :
    ∀ (node : FieldNode) {nodes : List FieldNode} {container : ObjectType ρ} {parent : Json}
    {place : Path}, ObjectAt p setting.schema root plan all₁ nodes container parent place →
    node ∈ nodes →
    Concurs all₁ all₂ (Agree p (Json.hide p (place ++ [.field node.outputName])))
      (completeField setting plan node container parent (place ++ [.field node.outputName]))
      (completeField { setting with registry } plan node container parent
        (place ++ [.field node.outputName]))
  | ⟨aliasName, name, arguments, children, position⟩, nodes, container, parent, place, h, hm => by
    by_cases hp : p = place ++
      [.field (FieldNode.outputName ⟨aliasName, name, arguments, children, position⟩)]
    · rw [← hp]
      exact concurs_at h hm hp hs hn
    · have ho : ¬ p <+: place ++
          [.field (FieldNode.outputName ⟨aliasName, name, arguments, children, position⟩)] := by
        intro hpre
        rcases List.prefix_concat_iff.mp hpre with he | hpre
        · exact hp he
        · exact h.outside hpre
      refine concurs_elsewhere ha hk h hm ho ?_
      intro container' value place' h'
      refine concurs_bind (concurs_completeFields ha hk hs hn children h' (List.Subset.refl _)) ?_
      intro c c' hc
      exact concurs_done (agree_object h'.outside hc)

/-- The fields of an object that is not at `p` or below are completed in agreement. -/
theorem concurs_completeFields (ha : AgreeBut p answers setting registry root plan all₁ all₂)
    {slot : Slot} (hk : EndsInField p)
    (hs : (Slot.ofPlan plan).at? setting.schema p = some slot) (hn : slot.type.nullable = true) :
    ∀ (rest : List FieldNode) {nodes : List FieldNode} {container : ObjectType ρ} {parent : Json}
    {place : Path}, ObjectAt p setting.schema root plan all₁ nodes container parent place →
    rest ⊆ nodes →
    Concurs all₁ all₂ (Agree p (Table.mapValues fun key => Json.hide p (place ++ [.field key])))
      (completeFields setting plan rest container parent place)
      (completeFields { setting with registry } plan rest container parent place)
  | [], nodes, container, parent, place, h, hm => by
    rw [completeFields, completeFields]
    exact concurs_done agree_refl
  | node :: rest, nodes, container, parent, place, h, hm => by
    rw [completeFields, completeFields]
    obtain ⟨hnode, hrest⟩ := List.cons_subset.mp hm
    refine concurs_bind (concurs_completeField ha hk hs hn node h hnode) ?_
    intro first first' hfirst
    refine concurs_bind (concurs_completeFields ha hk hs hn rest h hrest) ?_
    intro more more' hmore
    exact concurs_done (agree_both hfirst hmore fun _ _ => rfl)

end

theorem objectAt_root {container : ObjectType ρ} (hk : EndsInField p)
    (ho : schema.object? plan.root = some container)
    (hw : WellSelected schema plan.fields container) :
    ObjectAt p schema root plan all₁ plan.fields container root [] where
  outside := by
    obtain ⟨q, key, rfl⟩ := hk
    simp
  slot := ⟨plan.root, true, rfl, ho⟩
  reached := .root ho
  selected := hw

/-- The data of two envelopes is the same once it is blank at `p`. -/
theorem data_of_agree {c c' : Completion Json} (h : Agree p (Json.hide p []) c c') :
    (c.value.getD .null).blank p = (c'.value.getD .null).blank p := by
  have hblank : ∀ v : Option Json,
      (v.getD .null).blank p = (v.map (Json.hide p [])).getD .null := by
    intro v
    cases v with
    | none => exact Json.blank_null
    | some v => rw [Option.map_some, Option.getD_some, Option.getD_some, Json.hide_nil]
  rw [hblank, hblank, h.value]

end Concurrence

variable {setting : Setting ρ} {registry : Registry ρ} {root : Json} {plan : Plan}

/-- If two executions agree on everything but what happens at a field that may be null, and below
it, their data is the same everywhere else, and so are their errors. -/
theorem failure_isolated {limit : Nat} {document : Query.Document} {name : Option String}
    {supplied : Table Json} {p : Path} {slot : Slot} {answers : Answers ρ} {t₁ t₂ : Transcript ρ}
    {envelope₁ envelope₂ : Envelope}
    (hp : Plan.ofDocument setting.schema limit document name supplied = .ok plan)
    (hk : EndsInField p) (hs : (Slot.ofPlan plan).at? setting.schema p = some slot)
    (hn : slot.type.nullable = true) (h₁ : (execute setting root plan).Gives t₁ envelope₁)
    (h₂ : (execute { setting with registry } root plan).Gives t₂ envelope₂)
    (ha : AgreeBut p answers setting registry root plan t₁ t₂) :
    envelope₁.data.blank p = envelope₂.data.blank p ∧
      (∀ q, ¬ p <+: q → ¬ q <+: p → envelope₁.data.at? q = envelope₂.data.at? q) ∧
      envelope₁.errors.filter (!·.under p) = envelope₂.errors.filter (!·.under p) := by
  obtain ⟨type, ht, hw⟩ := Plan.exists_wellSelected_of_ofDocument hp
  have hconcurs : Concurs t₁ t₂ (fun e₁ e₂ => e₁.data.blank p = e₂.data.blank p ∧
      e₁.errors.filter (!·.under p) = e₂.errors.filter (!·.under p))
      (execute setting root plan) (execute { setting with registry } root plan) := by
    refine concurs_bind_eq (concurs_operationDecision ha.first ha.second) ?_
    intro decision
    cases decision with
    | deny denial => exact concurs_done ⟨rfl, rfl⟩
    | allow =>
      simp only [ht]
      have hroot : ObjectAt p setting.schema root plan t₁ plan.fields type root [] :=
        objectAt_root hk ht hw
      refine concurs_bind
        (concurs_completeFields ha hk hs hn plan.fields hroot (List.Subset.refl _)) ?_
      intro c c' hc
      exact concurs_done ⟨data_of_agree (agree_object hroot.outside hc), hc.errors⟩
  obtain ⟨hdata, herrors⟩ := hconcurs t₁ t₂ _ _ (List.Subset.refl _) (List.Subset.refl _) h₁ h₂
  refine ⟨hdata, ?_, herrors⟩
  intro q hpq hqp
  rw [← Json.at?_blank hpq hqp, hdata, Json.at?_blank hpq hqp]

end Execution

end GraphGate

namespace GraphGate.Sample

open Plan Execution

/-- Everything is let through and left as it is, and every user is called Ann. -/
def kind : Answers Unit where
  publish := fun _ event => event.value
  operation := fun _ => .allow
  field := fun _ => .allow
  call := fun _ _ => .ok (.obj [("name", .str "Ann")])

def oneFound : Envelope :=
  ⟨.obj [("a", .null), ("b", .obj [("name", .str "Ann")])], [panicError firstNode]⟩

def bothFound : Envelope :=
  ⟨.obj [("a", .obj [("name", .str "Ann")]), ("b", .obj [("name", .str "Ann")])], []⟩

theorem gives_finding_finding : (execute guarded .null pairPlan).Gives
    (.operation pairPlan .allow :: (finding firstNode firstName ++ finding secondNode secondName))
    bothFound :=
  .askOperation (.publish (.askField (.call (.publish (.publish (.askField (.publish
    (.publish (.askField (.call (.publish (.publish (.askField (.publish .done))))))))))))))

theorem follows_finding {node child : FieldNode} :
    ∀ x ∈ finding node child, x.Follows kind := by
  simp [finding, Exchange.Follows, Context.event, kind]

theorem agreeBut_first : AgreeBut [.field "a"] kind guarded .empty .null pairPlan
    (.operation pairPlan .allow :: (panicking firstNode ++ finding secondNode secondName))
    (.operation pairPlan .allow ::
      (finding firstNode firstName ++ finding secondNode secondName)) where
  first := by
    refine List.forall_mem_cons.mpr ⟨fun _ => rfl, List.forall_mem_append.mpr ⟨?_, ?_⟩⟩
    · refine List.forall_mem_cons.mpr ⟨fun _ => rfl, List.forall_mem_cons.mpr ⟨fun _ => rfl, ?_⟩⟩
      intro x hx ho
      rw [List.mem_singleton.mp hx] at ho
      exact absurd (List.prefix_refl _) (ho _ rfl)
    · exact fun x hx _ => follows_finding x hx
  second := List.forall_mem_cons.mpr ⟨fun _ => rfl, List.forall_mem_append.mpr
    ⟨fun x hx _ => follows_finding x hx, fun x hx _ => follows_finding x hx⟩⟩
  methods := fun _ _ _ _ _ _ _ _ _ _ _ => rfl

theorem failure_isolated_first :
    (execute guarded .null pairPlan).Gives
        (.operation pairPlan .allow :: (panicking firstNode ++ finding secondNode secondName))
        oneFound ∧
      (execute guarded .null pairPlan).Gives
        (.operation pairPlan .allow ::
          (finding firstNode firstName ++ finding secondNode secondName)) bothFound ∧
      oneFound.data.blank [.field "a"] = bothFound.data.blank [.field "a"] ∧
      (∀ q, ¬ [.field "a"] <+: q → ¬ q <+: [.field "a"] →
        oneFound.data.at? q = bothFound.data.at? q) ∧
      oneFound.errors.filter (!·.under [.field "a"]) =
        bothFound.errors.filter (!·.under [.field "a"]) :=
  have hk : EndsInField [.field "a"] := ⟨[], "a", rfl⟩
  have hs : (Slot.ofPlan pairPlan).at? guarded.schema [.field "a"] =
    some ⟨.named "User" true, [firstName]⟩ := rfl
  ⟨gives_panicking_finding, gives_finding_finding,
    failure_isolated ofDocument_pairDocument hk hs rfl gives_panicking_finding
      gives_finding_finding agreeBut_first⟩

end GraphGate.Sample
