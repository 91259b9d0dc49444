import GraphGate.Proofs.Execution.Errors

/-! An execution goes from field to field in the order of the document, and is done with what it
asks about one field before it comes to the next. -/
namespace GraphGate

variable {ρ : Type}

/-- The path of the field that an event announces. -/
def Exchange.visited? : Exchange ρ → Option Path
  | .published .preResolve event _ => some event.path
  | _ => none

/-- The fields that are announced, in the order in which they are. -/
def Transcript.visits (t : Transcript ρ) : List Path := t.filterMap Exchange.visited?

theorem visits_append {t t' : Transcript ρ} :
    Transcript.visits (t ++ t') = t.visits ++ t'.visits :=
  List.filterMap_append

theorem mem_visits {t : Transcript ρ} {event : Event} {left : Option Json}
    (h : .published .preResolve event left ∈ t) : event.path ∈ t.visits :=
  List.mem_filterMap.mpr ⟨_, h, rfl⟩

/-- Nothing is announced before the first turn. -/
theorem visits_of_opening {plan : Plan} {t : Transcript ρ}
    (h : ∀ x ∈ t, x = .operation plan .allow) : t.visits = [] := by
  apply List.filterMap_eq_nil_iff.mpr
  intro x hx
  rw [h x hx]
  rfl

/-- With the same answers a dialogue gives the same result. -/
theorem Dialogue.gives_unique {α : Type} {d : Dialogue ρ α} {t : Transcript ρ} {a b : α}
    (ha : d.Gives t a) (hb : d.Gives t b) : a = b :=
  (gives_prefix_unique ha hb (Eq.refl (t ++ []))).2

namespace Execution

/-- A selected field of an object. -/
structure Site (ρ : Type) where
  container : ObjectType ρ
  definition : FieldDefinition ρ
  node : FieldNode
  path : Path
  /-- The value that the object is made of. -/
  parent : Json

def Site.context (plan : Plan) (site : Site ρ) : Context :=
  ⟨site.definition.toFieldSignature, site.node, site.container.name, site.path, plan⟩

/-- All that passes about one field. -/
structure Turn (ρ : Type) where
  site : Site ρ
  /-- What subscribers leave in the first event. -/
  left : Option Json
  decision : Decision
  calls : Transcript ρ
  /-- The dispatched value, and what subscribers leave of it. -/
  found : Option (Json × Option Json)

namespace Turn

/-- What passes before a call, if fields are checked. -/
def check (capabilities : Capabilities) (plan : Plan) (turn : Turn ρ) : Transcript ρ :=
  if capabilities.fieldCheck then [.field (turn.site.context plan) turn.decision] else []

/-- What passes once there is a value. -/
def report (plan : Plan) (turn : Turn ρ) : Transcript ρ :=
  turn.found.elim [] fun (value, left) =>
    [.published .postResolve (Context.event (turn.site.context plan) (some value)) left]

/-- The field is announced and checked, calls are made, and the value is reported. -/
def exchanges (capabilities : Capabilities) (plan : Plan) (turn : Turn ρ) : Transcript ρ :=
  .published .preResolve (Context.event (turn.site.context plan) none) turn.left ::
    (turn.check capabilities plan ++ (turn.calls ++ turn.report plan))

/-- At most one resolver is called, and only if the field is let through; an event tells the value
exactly if it is let through and the dispatch gives it. -/
structure Proper (setting : Setting ρ) (plan : Plan) (turn : Turn ρ) : Prop where
  defined : turn.site.container.field? turn.site.node.name = some turn.site.definition
  unchecked : setting.capabilities.fieldCheck = false → turn.decision = .allow
  called : turn.calls = [] ∨ turn.decision = .allow ∧ ∃ resolver result, turn.calls =
    [.called resolver (Context.invocation (turn.site.context plan) turn.site.parent) result]
  found_iff : ∀ value, (∃ left, turn.found = some (value, left)) ↔ turn.decision = .allow ∧
    (dispatch setting turn.site.definition.resolution
      (Context.invocation (turn.site.context plan) turn.site.parent)).Gives turn.calls (.ok value)

end Turn

variable {setting : Setting ρ} {plan : Plan}

/-- A dispatch makes at most one call. -/
theorem calls_of_gives {resolution : Resolution ρ} {invocation : Invocation} {t : Transcript ρ}
    {r : Except FieldError Json} (h : (dispatch setting resolution invocation).Gives t r) :
    t = [] ∨ ∃ resolver result, t = [.called resolver invocation result] := by
  cases dispatches_of_gives h with
  | uncalled => exact .inl rfl
  | called => exact .inr ⟨_, _, rfl⟩

/-- A field is resolved in one turn. -/
theorem exists_turn_of_resolves {container : ObjectType ρ} {definition : FieldDefinition ρ}
    {node : FieldNode} {path : Path} {parent : Json} {t : Transcript ρ} {r : Except FieldError Json}
    (hd : container.field? node.name = some definition)
    (h : Resolves setting definition.resolution
      ⟨definition.toFieldSignature, node, container.name, path, plan⟩ parent t r) :
    ∃ turn : Turn ρ, turn.site = ⟨container, definition, node, path, parent⟩ ∧
      turn.Proper setting plan ∧ t = turn.exchanges setting.capabilities plan := by
  cases h with
  | @denied left denial hc =>
    refine ⟨⟨⟨container, definition, node, path, parent⟩, left, .deny denial, [], none⟩, rfl,
      ⟨hd, ?_, .inl rfl, ?_⟩, ?_⟩
    · intro hc'
      rw [hc] at hc'
      cases hc'
    · simp
    · simp [Turn.exchanges, Turn.check, Turn.report, Site.context, hc]
  | @failed left t e hg =>
    refine ⟨⟨⟨container, definition, node, path, parent⟩, left, .allow, t, none⟩, rfl,
      ⟨hd, fun _ => rfl, (calls_of_gives hg).imp_right fun hc => ⟨rfl, hc⟩, ?_⟩, ?_⟩
    · intro value
      constructor
      · rintro ⟨left, hf⟩
        cases hf
      · rintro ⟨-, hg'⟩
        cases Dialogue.gives_unique hg hg'
    · simp [Turn.exchanges, Turn.check, Turn.report, Site.context, allowance]
  | @delivered left value' t value hg =>
    refine ⟨⟨⟨container, definition, node, path, parent⟩, left, .allow, t,
      some (value, value')⟩, rfl,
      ⟨hd, fun _ => rfl, (calls_of_gives hg).imp_right fun hc => ⟨rfl, hc⟩, ?_⟩, ?_⟩
    · intro v
      constructor
      · rintro ⟨left, hf⟩
        cases hf
        exact ⟨rfl, hg⟩
      · rintro ⟨-, hg'⟩
        cases Dialogue.gives_unique hg hg'
        exact ⟨value', rfl⟩
    · simp [Turn.exchanges, Turn.check, Turn.report, Site.context, allowance]

/-- A turn announces its field and no other. -/
theorem visits_exchanges {turn : Turn ρ} (h : turn.Proper setting plan) :
    (turn.exchanges setting.capabilities plan).visits = [turn.site.path] := by
  have hcheck : (turn.check setting.capabilities plan).visits = [] := by
    unfold Turn.check
    split <;> rfl
  have hcalls : turn.calls.visits = [] := by
    rcases h.called with hc | ⟨-, resolver, result, hc⟩ <;> rw [hc] <;> rfl
  have hreport : (turn.report plan).visits = [] := by
    unfold Turn.report
    cases turn.found <;> rfl
  calc (turn.exchanges setting.capabilities plan).visits
      = turn.site.path :: Transcript.visits (turn.check setting.capabilities plan ++
          (turn.calls ++ turn.report plan)) := rfl
    _ = [turn.site.path] := by
      rw [visits_append, visits_append, hcheck, hcalls, hreport]
      rfl

theorem visits_flatMap {turns : List (Turn ρ)} (h : ∀ turn ∈ turns, turn.Proper setting plan) :
    Transcript.visits (turns.flatMap (Turn.exchanges setting.capabilities plan)) =
      turns.map fun turn => turn.site.path := by
  induction turns with
  | nil => rfl
  | cons turn turns ih =>
    obtain ⟨hturn, hturns⟩ := List.forall_mem_cons.mp h
    rw [List.flatMap_cons, visits_append, visits_exchanges hturn, ih hturns]
    rfl

/-- An object in a value at a type, under one index for each list that it is in. -/
inductive Holds (schema : Schema ρ) :
    TypeRef → Json → List Nat → ObjectType ρ → Json → Prop
  | object {name : String} {nullable : Bool} {container : ObjectType ρ} {value : Json}
    (hv : value ≠ .null) (ho : schema.object? name = some container) :
    Holds schema (.named name nullable) value [] container value
  | element {element : TypeRef} {nullable : Bool} {values : List Json} {n : Nat} {value : Json}
    {indexes : List Nat} {container : ObjectType ρ} {object : Json} (hn : values[n]? = some value)
    (h : Holds schema element value indexes container object) :
    Holds schema (.list element nullable) (.arr values) (n :: indexes) container object

/-- The objects of an execution: the one at the root, and those in the values that are left when
fields have been resolved. -/
inductive Reached (schema : Schema ρ) (root : Json) (plan : Plan) (t : Transcript ρ) :
    Path → ObjectType ρ → Json → List FieldNode → Prop
  | root {container : ObjectType ρ} (ho : schema.object? plan.root = some container) :
    Reached schema root plan t [] container root plan.fields
  | inside {event : Event} {left : Option Json} {indexes : List Nat} {container : ObjectType ρ}
    {object : Json} (he : .published .postResolve event left ∈ t)
    (hv : Holds schema event.field.type (left.getD .null) indexes container object) :
    Reached schema root plan t (event.path ++ indexes.map .index) container object event.children

/-- A field other than the name of the type is selected on an object that is reached. -/
structure Selected (schema : Schema ρ) (root : Json) (plan : Plan) (t : Transcript ρ)
    (container : ObjectType ρ) (parent : Json) (node : FieldNode) (path : Path) : Prop where
  reached : ∃ place nodes, Reached schema root plan t place container parent nodes ∧
    node ∈ nodes ∧ path = place ++ [.field node.outputName]
  name : node.name ≠ Plan.typename

/-- An execution in turns: whatever passes belongs to a turn, the turns are in the order of the
document, and they are about all fields that are selected. -/
structure InTurns (setting : Setting ρ) (root : Json) (plan : Plan) (t : Transcript ρ)
    (opening : Transcript ρ) (turns : List (Turn ρ)) : Prop where
  allowed : ∀ x ∈ opening, x = .operation plan .allow
  exchanges : t = opening ++ turns.flatMap (Turn.exchanges setting.capabilities plan)
  proper : ∀ turn ∈ turns, turn.Proper setting plan
  selected : ∀ turn ∈ turns, Selected setting.schema root plan t turn.site.container
    turn.site.parent turn.site.node turn.site.path
  visits : t.visits = turns.map fun turn => turn.site.path
  ordered : t.visits.Pairwise fun p q => plan.Before p q ∧ ¬ q <+: p
  covered : ∀ container parent node path,
    Selected setting.schema root plan t container parent node path → path ∈ t.visits

/-- A part of an execution in turns within a scope of paths. -/
structure Passage (setting : Setting ρ) (root : Json) (plan : Plan) (all : Transcript ρ)
    (scope : Path → Prop) (t : Transcript ρ) (turns : List (Turn ρ)) : Prop where
  exchanges : t = turns.flatMap (Turn.exchanges setting.capabilities plan)
  proper : ∀ turn ∈ turns, turn.Proper setting plan
  selected : ∀ turn ∈ turns, Selected setting.schema root plan all turn.site.container
    turn.site.parent turn.site.node turn.site.path
  within : ∀ turn ∈ turns, scope turn.site.path
  ordered : turns.Pairwise fun turn turn' => plan.Before turn.site.path turn'.site.path

variable {root : Json} {all t t' : Transcript ρ} {scope scope' : Path → Prop}
  {turns turns' : List (Turn ρ)}

theorem passage_nil : Passage setting root plan all scope [] [] where
  exchanges := rfl
  proper := List.forall_mem_nil _
  selected := List.forall_mem_nil _
  within := List.forall_mem_nil _
  ordered := .nil

theorem passage_mono (h : Passage setting root plan all scope t turns)
    (hs : ∀ p, scope p → scope' p) : Passage setting root plan all scope' t turns where
  exchanges := h.exchanges
  proper := h.proper
  selected := h.selected
  within := fun turn hm => hs _ (h.within turn hm)
  ordered := h.ordered

/-- One part before another that follows in the document. -/
theorem passage_append (h : Passage setting root plan all scope t turns)
    (h' : Passage setting root plan all scope' t' turns')
    (hp : ∀ p p', scope p → scope' p' → plan.Before p p') :
    Passage setting root plan all (fun p => scope p ∨ scope' p) (t ++ t') (turns ++ turns') where
  exchanges := by rw [h.exchanges, h'.exchanges, List.flatMap_append]
  proper := List.forall_mem_append.mpr ⟨h.proper, h'.proper⟩
  selected := List.forall_mem_append.mpr ⟨h.selected, h'.selected⟩
  within := List.forall_mem_append.mpr ⟨fun turn hm => .inl (h.within turn hm),
    fun turn hm => .inr (h'.within turn hm)⟩
  ordered := by
    refine List.pairwise_append.mpr ⟨h.ordered, h'.ordered, ?_⟩
    intro turn hm turn' hm'
    exact hp _ _ (h.within turn hm) (h'.within turn' hm')

/-- What is strictly below a place. -/
def Beneath (path p : Path) : Prop := path <+: p ∧ path ≠ p

theorem beneath_of_underKeys {path p : Path} {keys : List String} (h : UnderKeys path keys p) :
    Beneath path p := by
  refine ⟨prefix_of_underKeys h, ?_⟩
  obtain ⟨key, -, hp⟩ := h
  exact (ne_of_below hp).symm

theorem beneath_of_underIndexes {path p : Path} {index : Nat} (h : UnderIndexes path index p) :
    Beneath path p := by
  refine ⟨prefix_of_underIndexes h, ?_⟩
  obtain ⟨n, -, hp⟩ := h
  exact (ne_of_below hp).symm

/-- The turn of a field by itself. -/
theorem exists_passage_of_resolves {container : ObjectType ρ} {definition : FieldDefinition ρ}
    {node : FieldNode} {path : Path} {parent : Json} {r : Except FieldError Json}
    (hd : container.field? node.name = some definition)
    (h : Resolves setting definition.resolution
      ⟨definition.toFieldSignature, node, container.name, path, plan⟩ parent t r)
    (hs : Selected setting.schema root plan all container parent node path) :
    ∃ turns, Passage setting root plan all (· = path) t turns := by
  obtain ⟨turn, hsite, hp, ht⟩ := exists_turn_of_resolves hd h
  refine ⟨[turn], ?_, List.forall_mem_singleton.mpr hp, List.forall_mem_singleton.mpr ?_,
    List.forall_mem_singleton.mpr ?_, List.pairwise_singleton _ _⟩
  · rw [List.flatMap_cons, List.flatMap_nil, List.append_nil, ht]
  · rw [hsite]
    exact hs
  · rw [hsite]

/-- The objects in a value at a path are reached, and `nodes` are selected on them. -/
def Opens (schema : Schema ρ) (root : Json) (plan : Plan) (all : Transcript ρ)
    (nodes : List FieldNode) (type : TypeRef) (value : Json) (path : Path) : Prop :=
  ∀ indexes container object, Holds schema type value indexes container object →
    Reached schema root plan all (path ++ indexes.map .index) container object nodes

theorem opens_of_resolves {resolution : Resolution ρ} {context : Context} {parent value : Json}
    (ht : t ⊆ all) (h : Resolves setting resolution context parent t (.ok value)) :
    Opens setting.schema root plan all context.node.children context.field.type value
      context.path := by
  intro indexes container object hv
  cases h with
  | @delivered _ value' _ value hd =>
    have he : .published .postResolve (Context.event context (some value)) value' ∈ all :=
      ht (by simp)
    exact .inside he hv

theorem opens_of_mem {schema : Schema ρ} {nodes : List FieldNode} {element : TypeRef}
    {nullable : Bool} {values : List Json} {path : Path}
    (h : Opens schema root plan all nodes (.list element nullable) (.arr values) path)
    (n : Nat) (v : Json) (hn : values[n]? = some v) :
    Opens schema root plan all nodes element v (path ++ [.index (0 + n)]) := by
  intro indexes container object hv
  have hr := h (n :: indexes) container object (.element hn hv)
  simpa using hr

mutual

/-- A field's turn, and then those of what is selected below. -/
theorem exists_passage_of_completesField : ∀ {node : FieldNode} {container : ObjectType ρ}
    {parent : Json} {path : Path} {t : Transcript ρ} {c : Completion Json},
    CompletesField setting plan node container parent path t c →
      node.WellFormed setting.schema container → plan.at? path.names = some node → t ⊆ all →
      (node.name ≠ Plan.typename →
        Selected setting.schema root plan all container parent node path) →
      ∃ turns, Passage setting root plan all (path <+: ·) t turns
  | _, _, _, _, _, _, .typename _, _, _, _, _ => ⟨[], passage_nil⟩
  | _, _, _, _, _, _, .undefined _ _, _, _, _, _ => ⟨[], passage_nil⟩
  | _, _, _, path, _, _, .failed hn hd hr, _, _, _, hs => by
    obtain ⟨turns, h⟩ := exists_passage_of_resolves hd hr (hs hn)
    refine ⟨turns, passage_mono h ?_⟩
    rintro p rfl
    exact List.prefix_refl p
  | _, _, _, path, _, _, .resolved hn hd hr hv, hw, ha, ht, hs => by
    obtain ⟨ht₁, ht₂⟩ := List.append_subset.mp ht
    obtain ⟨turns₁, h₁⟩ := exists_passage_of_resolves hd hr (hs hn)
    obtain ⟨turns₂, h₂⟩ := exists_passage_of_completesValue hv (fits_of_wellFormed hw hn hd) ha ht₂
      (opens_of_resolves ht₁ hr)
    refine ⟨turns₁ ++ turns₂, passage_mono (passage_append h₁ h₂ ?_) ?_⟩
    · rintro p p' rfl hp'
      exact .inl hp'
    · rintro p (rfl | hp)
      · exact List.prefix_refl p
      · exact hp.1

/-- The turns of an object's fields. -/
theorem exists_passage_of_completesFields : ∀ {nodes : List FieldNode} {container : ObjectType ρ}
    {parent : Json} {path : Path} {t : Transcript ρ} {c : Completion (List (String × Json))},
    CompletesFields setting plan nodes container parent path t c →
      WellSelected setting.schema (plan.below path.names) container →
      nodes.Sublist (plan.below path.names) → t ⊆ all →
      Reached setting.schema root plan all path container parent (plan.below path.names) →
      ∃ turns, Passage setting root plan all (UnderKeys path (outputNames nodes)) t turns
  | _, _, _, _, _, _, .nil, _, _, _, _ => ⟨[], passage_nil⟩
  | _, _, _, _, _, _, .cons hf hs, hw, hsub, ht, hr => by
    have hm := hsub.subset List.mem_cons_self
    obtain ⟨ht₁, ht₂⟩ := List.append_subset.mp ht
    obtain ⟨turns₁, h₁⟩ := exists_passage_of_completesField hf (hw.wellFormed _ hm)
      (Plan.at?_of_mem hw.distinct hm) ht₁ fun hn => ⟨⟨_, _, hr, hm, rfl⟩, hn⟩
    obtain ⟨turns₂, h₂⟩ := exists_passage_of_completesFields hs hw
      ((List.sublist_cons_self _ _).trans hsub) ht₂ hr
    refine ⟨turns₁ ++ turns₂, passage_mono (passage_append h₁ h₂ ?_) fun _ => underKeys_cons⟩
    intro p p' hp hp'
    exact .inr (precedes_of_keys hw.distinct hsub hp hp')

/-- The turns of what is selected on the objects in a value. -/
theorem exists_passage_of_completesValue : ∀ {node : FieldNode} {type : TypeRef} {value : Json}
    {path : Path} {t : Transcript ρ} {c : Completion Json},
    CompletesValue setting plan node type value path t c →
      Fits setting.schema node.children type → plan.at? path.names = some node → t ⊆ all →
      Opens setting.schema root plan all node.children type value path →
      ∃ turns, Passage setting root plan all (Beneath path) t turns
  | _, _, _, _, _, _, .null, _, _, _, _ => ⟨[], passage_nil⟩
  | _, _, _, _, _, _, .list he, hb, ha, ht, ho => by
    obtain ⟨turns, h⟩ := exists_passage_of_completesElements he hb ha ht (opens_of_mem ho)
    exact ⟨turns, passage_mono h fun _ => beneath_of_underIndexes⟩
  | _, _, _, _, _, _, .noList _ _, _, _, _, _ => ⟨[], passage_nil⟩
  | _, _, _, path, _, _, .object hv ht hs, hb, ha, hsub, ho => by
    have hw := hb _ (object?_of_find? ht)
    have hr := ho [] _ _ (.object hv (object?_of_find? ht))
    rw [List.map_nil, List.append_nil] at hr
    rw [← Plan.below_of_at? ha] at hw hr
    obtain ⟨turns, h⟩ := exists_passage_of_completesFields hs hw (by rw [Plan.below_of_at? ha])
      hsub hr
    exact ⟨turns, passage_mono h fun _ => beneath_of_underKeys⟩
  | _, _, _, _, _, _, .leaf _ _ _, _, _, _, _ => ⟨[], passage_nil⟩
  | _, _, _, _, _, _, .badLeaf _ _ _ _, _, _, _, _ => ⟨[], passage_nil⟩
  | _, _, _, _, _, _, .noType _ _, _, _, _, _ => ⟨[], passage_nil⟩

/-- The turns of what is selected on the objects in a list's elements. -/
theorem exists_passage_of_completesElements : ∀ {node : FieldNode} {type : TypeRef} {index : Nat}
    {values : List Json} {path : Path} {t : Transcript ρ} {c : Completion (List Json)},
    CompletesElements setting plan node type index values path t c →
      Fits setting.schema node.children type → plan.at? path.names = some node → t ⊆ all →
      (∀ n v, values[n]? = some v → Opens setting.schema root plan all node.children type v
        (path ++ [.index (index + n)])) →
      ∃ turns, Passage setting root plan all (UnderIndexes path index) t turns
  | _, _, _, _, _, _, _, .nil, _, _, _, _ => ⟨[], passage_nil⟩
  | _, _, index, _, _, _, _, .cons hv hs, hb, ha, ht, ho => by
    obtain ⟨ht₁, ht₂⟩ := List.append_subset.mp ht
    obtain ⟨turns₁, h₁⟩ := exists_passage_of_completesValue hv hb (by rwa [Plan.names_index]) ht₁
      (ho 0 _ rfl)
    obtain ⟨turns₂, h₂⟩ := exists_passage_of_completesElements hs hb ha ht₂ (by
      intro n v hn
      have := ho (n + 1) v hn
      rwa [show index + (n + 1) = index + 1 + n by omega] at this)
    refine ⟨turns₁ ++ turns₂, passage_mono (passage_append h₁ h₂ ?_) ?_⟩
    · intro p p' hp hp'
      exact .inr (precedes_of_indexes hp.1 hp')
    · intro p hp
      exact underIndexes_cons (hp.imp And.left id)

end

/-- All fields that are selected on the objects in a value at a path are announced. -/
def Served (schema : Schema ρ) (all : Transcript ρ) (nodes : List FieldNode) (type : TypeRef)
    (value : Json) (path : Path) : Prop :=
  ∀ indexes container object, Holds schema type value indexes container object →
    ∀ node ∈ nodes, node.name ≠ Plan.typename →
      path ++ indexes.map .index ++ [.field node.outputName] ∈ all.visits

/-- All values that are left after events are served. -/
def AllServed (schema : Schema ρ) (all t : Transcript ρ) : Prop :=
  ∀ event left, .published .postResolve event left ∈ t →
    Served schema all event.children event.field.type (left.getD .null) event.path

variable {schema : Schema ρ}

theorem allServed_nil : AllServed schema all [] := nofun

theorem allServed_append (h : AllServed schema all t) (h' : AllServed schema all t') :
    AllServed schema all (t ++ t') := by
  intro event left he
  rcases List.mem_append.mp he with he | he
  · exact h event left he
  · exact h' event left he

theorem visited_of_resolves {resolution : Resolution ρ} {context : Context} {parent : Json}
    {r : Except FieldError Json} (h : Resolves setting resolution context parent t r)
    (ht : t ⊆ all) : context.path ∈ all.visits := by
  cases h <;> exact mem_visits (ht List.mem_cons_self)

/-- The value that a field is resolved to is the one that is left after the event about it. -/
theorem left_of_resolves {resolution : Resolution ρ} {context : Context} {parent : Json}
    {r : Except FieldError Json} {event : Event} {left : Option Json}
    (h : Resolves setting resolution context parent t r)
    (he : .published .postResolve event left ∈ t) :
    r = .ok (left.getD .null) ∧ ∃ value, event = Context.event context value := by
  have hcalls : ∀ {t' : Transcript ρ} {r' : Except FieldError Json},
      (dispatch setting resolution (Context.invocation context parent)).Gives t' r' →
      .published .postResolve event left ∉ allowance setting.capabilities context ++ t' := by
    intro t' r' hg hm
    rcases List.mem_append.mp hm with hm | hm
    · unfold allowance at hm
      split at hm <;> simp at hm
    · rcases calls_of_gives hg with rfl | ⟨_, _, rfl⟩ <;> simp at hm
  cases h with
  | denied hc => simp at he
  | failed hg =>
    rcases List.mem_cons.mp he with he | he
    · cases he
    · exact absurd he (hcalls hg)
  | @delivered _ value' _ value hg =>
    rw [← List.append_assoc] at he
    rcases List.mem_cons.mp he with he | he
    · cases he
    · rcases List.mem_append.mp he with he | he
      · exact absurd he (hcalls hg)
      · cases List.mem_singleton.mp he
        exact ⟨rfl, _, rfl⟩

theorem allServed_of_resolves {resolution : Resolution ρ} {context : Context} {parent value : Json}
    (h : Resolves setting resolution context parent t (.ok value))
    (hv : Served schema all context.node.children context.field.type value context.path) :
    AllServed schema all t := by
  intro event left he
  obtain ⟨hr, _, rfl⟩ := left_of_resolves h he
  cases hr
  exact hv

theorem allServed_of_failed {resolution : Resolution ρ} {context : Context} {parent : Json}
    {e : FieldError} (h : Resolves setting resolution context parent t (.error e)) :
    AllServed schema all t := by
  intro event left he
  cases (left_of_resolves h he).1

/-- No object is in a value that is none at its type. -/
theorem served_of_unheld {nodes : List FieldNode} {type : TypeRef} {value : Json} {path : Path}
    (h : ∀ indexes container object, ¬ Holds schema type value indexes container object) :
    Served schema all nodes type value path :=
  fun indexes container object hv => absurd hv (h indexes container object)

mutual

/-- A field is announced, and so is what is selected below it. -/
theorem visited_of_completesField : ∀ {node : FieldNode} {container : ObjectType ρ}
    {parent : Json} {path : Path} {t : Transcript ρ} {c : Completion Json},
    CompletesField setting plan node container parent path t c →
      node.WellFormed setting.schema container → t ⊆ all →
      (node.name ≠ Plan.typename → path ∈ all.visits) ∧ AllServed setting.schema all t
  | _, _, _, _, _, _, .typename hn, _, _ => ⟨fun h => absurd hn h, allServed_nil⟩
  | _, _, _, _, _, _, .undefined hn hd, hw, _ => (not_undefined hw hn hd).elim
  | _, _, _, _, _, _, .failed _ _ hr, _, ht =>
    ⟨fun _ => visited_of_resolves hr ht, allServed_of_failed hr⟩
  | _, _, _, _, _, _, .resolved hn hd hr hv, hw, ht => by
    obtain ⟨ht₁, ht₂⟩ := List.append_subset.mp ht
    obtain ⟨hs, hall⟩ := served_of_completesValue hv (fits_of_wellFormed hw hn hd) ht₂
    exact ⟨fun _ => visited_of_resolves hr ht₁,
      allServed_append (allServed_of_resolves hr hs) hall⟩

theorem visited_of_completesFields : ∀ {nodes : List FieldNode} {container : ObjectType ρ}
    {parent : Json} {path : Path} {t : Transcript ρ} {c : Completion (List (String × Json))},
    CompletesFields setting plan nodes container parent path t c →
      (∀ node ∈ nodes, node.WellFormed setting.schema container) → t ⊆ all →
      (∀ node ∈ nodes, node.name ≠ Plan.typename →
        path ++ [.field node.outputName] ∈ all.visits) ∧ AllServed setting.schema all t
  | _, _, _, _, _, _, .nil, _, _ => ⟨List.forall_mem_nil _, allServed_nil⟩
  | _, _, _, _, _, _, .cons hf hs, hw, ht => by
    obtain ⟨ht₁, ht₂⟩ := List.append_subset.mp ht
    obtain ⟨hw₁, hw₂⟩ := List.forall_mem_cons.mp hw
    obtain ⟨h₁, hall₁⟩ := visited_of_completesField hf hw₁ ht₁
    obtain ⟨h₂, hall₂⟩ := visited_of_completesFields hs hw₂ ht₂
    exact ⟨List.forall_mem_cons.mpr ⟨h₁, h₂⟩, allServed_append hall₁ hall₂⟩

theorem served_of_completesValue : ∀ {node : FieldNode} {type : TypeRef} {value : Json}
    {path : Path} {t : Transcript ρ} {c : Completion Json},
    CompletesValue setting plan node type value path t c →
      Fits setting.schema node.children type → t ⊆ all →
      Served setting.schema all node.children type value path ∧ AllServed setting.schema all t
  | _, _, _, _, _, _, .null, _, _ => by
    refine ⟨served_of_unheld ?_, allServed_nil⟩
    rintro indexes container object (⟨hv, -⟩ | _)
    exact hv rfl
  | _, _, _, _, _, _, .list he, hb, ht => by
    obtain ⟨hs, hall⟩ := served_of_completesElements he hb ht
    refine ⟨?_, hall⟩
    rintro _ container object (_ | ⟨hn, hv⟩)
    simpa using hs _ _ hn _ container object hv
  | _, _, _, _, _, _, .noList _ hl, _, _ => by
    refine ⟨served_of_unheld ?_, allServed_nil⟩
    rintro _ container object (_ | _)
    exact hl _ rfl
  | _, _, _, _, _, _, .object _ ho hs, hb, ht => by
    have hw := hb _ (object?_of_find? ho)
    obtain ⟨hs, hall⟩ := visited_of_completesFields hs hw.wellFormed ht
    refine ⟨?_, hall⟩
    rintro _ container object (⟨_, _⟩ | _)
    simpa using hs
  | _, _, _, _, _, _, .leaf _ hd hl, _, _ => by
    refine ⟨served_of_unheld ?_, allServed_nil⟩
    rintro _ container object (⟨-, ho⟩ | _)
    rw [find?_of_object? ho] at hd
    cases hd
    cases hl
  | _, _, _, _, _, _, .badLeaf _ hd hno _, _, _ => by
    refine ⟨served_of_unheld ?_, allServed_nil⟩
    rintro _ container object (⟨-, ho⟩ | _)
    rw [find?_of_object? ho] at hd
    exact hno _ (Option.some.inj hd).symm
  | _, _, _, _, _, _, .noType _ hd, _, _ => by
    refine ⟨served_of_unheld ?_, allServed_nil⟩
    rintro _ container object (⟨-, ho⟩ | _)
    rw [find?_of_object? ho] at hd
    cases hd

theorem served_of_completesElements : ∀ {node : FieldNode} {type : TypeRef} {index : Nat}
    {values : List Json} {path : Path} {t : Transcript ρ} {c : Completion (List Json)},
    CompletesElements setting plan node type index values path t c →
      Fits setting.schema node.children type → t ⊆ all →
      (∀ n v, values[n]? = some v →
        Served setting.schema all node.children type v (path ++ [.index (index + n)])) ∧
      AllServed setting.schema all t
  | _, _, _, _, _, _, _, .nil, _, _ => ⟨nofun, allServed_nil⟩
  | _, _, index, _, _, _, _, .cons hv hs, hb, ht => by
    obtain ⟨ht₁, ht₂⟩ := List.append_subset.mp ht
    obtain ⟨h₁, hall₁⟩ := served_of_completesValue hv hb ht₁
    obtain ⟨h₂, hall₂⟩ := served_of_completesElements hs hb ht₂
    refine ⟨?_, allServed_append hall₁ hall₂⟩
    intro n v hn
    cases n with
    | zero =>
      cases hn
      exact h₁
    | succ n =>
      have := h₂ n v hn
      rwa [show index + 1 + n = index + (n + 1) by omega] at this

end

/-- Every field that is selected on an object that is reached is announced. -/
theorem visited_of_selected {type : ObjectType ρ} {opening : Transcript ρ}
    {c : Completion (List (String × Json))} (hopen : ∀ x ∈ opening, x = .operation plan .allow)
    (hs : CompletesFields setting plan plan.fields type root [] t c)
    (hw : WellSelected setting.schema plan.fields type) {container : ObjectType ρ} {parent : Json}
    {node : FieldNode} {path : Path}
    (h : Selected setting.schema root plan (opening ++ t) container parent node path) :
    path ∈ Transcript.visits (opening ++ t) := by
  have hsub : t ⊆ opening ++ t := List.subset_append_right opening t
  obtain ⟨hroot, hinside⟩ := visited_of_completesFields hs hw.wellFormed hsub
  obtain ⟨⟨place, nodes, hr, hm, rfl⟩, hn⟩ := h
  cases hr with
  | root ho => exact hroot node hm hn
  | inside he hv =>
    rcases List.mem_append.mp he with he | he
    · cases hopen _ he
    · exact hinside _ _ he _ _ _ hv node hm hn

/-- Unless it is denied as a whole, an operation is executed in turns: one for each field, other
than the names of types, that is selected on an object that is reached, in depth-first order. -/
theorem exists_inTurns {limit : Nat} {document : Query.Document} {name : Option String}
    {supplied : Table Json} {envelope : Envelope}
    (hp : Plan.ofDocument setting.schema limit document name supplied = .ok plan)
    (hg : (execute setting root plan).Gives t envelope)
    (ha : ∀ denial, .operation plan (.deny denial) ∉ t) :
    ∃ opening turns, InTurns setting root plan t opening turns := by
  obtain ⟨type, ht, hw⟩ := Plan.exists_wellSelected_of_ofDocument hp
  rcases cases_of_gives ht hg with ⟨denial, rfl, -⟩ | ⟨t₁, t₂, c, rfl, hopen, hs, rfl⟩
  · exact absurd (by simp) (ha denial)
  · have hsub : t₂ ⊆ t₁ ++ t₂ := List.subset_append_right t₁ t₂
    obtain ⟨turns, h⟩ := exists_passage_of_completesFields hs hw (List.Sublist.refl _) hsub
      (.root ht)
    have hvisits : Transcript.visits (t₁ ++ t₂) = turns.map fun turn => turn.site.path := by
      rw [visits_append, visits_of_opening hopen, List.nil_append, h.exchanges,
        visits_flatMap h.proper]
    refine ⟨t₁, turns, hopen, by rw [h.exchanges], h.proper, h.selected, hvisits, ?_, ?_⟩
    · rw [hvisits]
      refine List.pairwise_map.mpr (h.ordered.imp ?_)
      intro turn turn' hb
      exact ⟨hb, Plan.not_prefix_of_before hb⟩
    · intro container parent node path hsel
      exact visited_of_selected hopen hs hw hsel

end Execution

end GraphGate

namespace GraphGate.Sample

open Query Plan Execution

def pairNameContext (node child : FieldNode) : Context :=
  ⟨⟨"name", .named "String" false, []⟩, child, "User",
    [.field node.outputName, .field child.outputName], pairPlan⟩

/-- A user is found under a name. -/
def finding (node child : FieldNode) : Transcript Unit :=
  let found := Json.obj [("name", .str "Ann")]
  [.published .preResolve (Context.event (pairContext node) none) none,
    .field (pairContext node) .allow,
    .called () (Context.invocation (pairContext node) .null) (.ok found),
    .published .postResolve (Context.event (pairContext node) (some found)) (some found),
    .published .preResolve (Context.event (pairNameContext node child) none) none,
    .field (pairNameContext node child) .allow,
    .published .postResolve (Context.event (pairNameContext node child) (some (.str "Ann")))
      (some (.str "Ann"))]

theorem gives_panicking_finding : (execute guarded .null pairPlan).Gives
    (.operation pairPlan .allow :: (panicking firstNode ++ finding secondNode secondName))
    ⟨.obj [("a", .null), ("b", .obj [("name", .str "Ann")])], [panicError firstNode]⟩ :=
  .askOperation (.publish (.askField (.call (.publish (.askField (.call (.publish (.publish
    (.askField (.publish .done))))))))))

theorem exists_inTurns_panicking_finding :
    (execute guarded .null pairPlan).Gives
        (.operation pairPlan .allow :: (panicking firstNode ++ finding secondNode secondName))
        ⟨.obj [("a", .null), ("b", .obj [("name", .str "Ann")])], [panicError firstNode]⟩ ∧
      ∃ opening turns, InTurns guarded .null pairPlan
        (.operation pairPlan .allow :: (panicking firstNode ++ finding secondNode secondName))
        opening turns :=
  ⟨gives_panicking_finding, exists_inTurns ofDocument_pairDocument gives_panicking_finding
    (by simp [panicking, finding])⟩

end GraphGate.Sample
