import GraphGate.Proofs.Execution.Conformance
import GraphGate.Proofs.Execution.Order

/-! The errors of an execution stand in the order of the document, each at a place of its own. -/
namespace GraphGate.Execution

variable {ρ : Type} {setting : Setting ρ} {plan : Plan}

/-- Errors within a scope of paths: each has the position of the node that its path leads to, and
their paths part from each other in the order of the document. -/
structure Listed (plan : Plan) (scope : Path → Prop) (errors : List ResponseError) : Prop where
  located : ∀ e ∈ errors, ∃ p node, e.path = some p ∧ scope p ∧ plan.at? p.names = some node ∧
    e.locations = [node.position]
  ordered : errors.Pairwise fun e e' => ∃ p p', e.path = some p ∧ e'.path = some p' ∧
    plan.Precedes p p'

variable {scope scope' : Path → Prop} {errors errors' : List ResponseError}

theorem listed_nil : Listed plan scope [] := ⟨List.forall_mem_nil _, .nil⟩

theorem listed_mono (h : Listed plan scope errors) (hs : ∀ p, scope p → scope' p) :
    Listed plan scope' errors where
  located := by
    intro e he
    obtain ⟨p, node, hp, hscope, hat, hl⟩ := h.located e he
    exact ⟨p, node, hp, hs p hscope, hat, hl⟩
  ordered := h.ordered

/-- The errors of one part before those of another that follows in the document. -/
theorem listed_append (h : Listed plan scope errors) (h' : Listed plan scope' errors')
    (hp : ∀ p p', scope p → scope' p' → plan.Precedes p p') :
    Listed plan (fun p => scope p ∨ scope' p) (errors ++ errors') where
  located := List.forall_mem_append.mpr ⟨(listed_mono h fun _ => .inl).located,
    (listed_mono h' fun _ => .inr).located⟩
  ordered := by
    refine List.pairwise_append.mpr ⟨h.ordered, h'.ordered, ?_⟩
    intro e he e' he'
    obtain ⟨p, -, hpath, hscope, -⟩ := h.located e he
    obtain ⟨p', -, hpath', hscope', -⟩ := h'.located e' he'
    exact ⟨p, p', hpath, hpath', hp p p' hscope hscope'⟩

/-- One error about a node at its path. -/
theorem listed_error {error : FieldError} {node : FieldNode} {path : Path}
    (ha : plan.at? path.names = some node) :
    Listed plan (path <+: ·) [.ofField error node path] where
  located := by
    intro e he
    rw [List.mem_singleton.mp he]
    exact ⟨path, node, rfl, List.prefix_refl path, ha, rfl⟩
  ordered := List.pairwise_singleton _ _

theorem listed_orNull {c : Completion Json} {nullable : Bool} (h : Listed plan scope c.errors) :
    Listed plan scope (c.orNull nullable).errors := by
  rwa [errors_orNull]

/-- A field's part of the document comes before those of the fields that are selected after it. -/
theorem precedes_of_keys {path p p' : Path} {node : FieldNode} {nodes : List FieldNode}
    (hn : (outputNames (plan.below path.names)).Nodup)
    (hs : (node :: nodes).Sublist (plan.below path.names))
    (hp : path ++ [.field node.outputName] <+: p) (hp' : UnderKeys path (outputNames nodes) p') :
    plan.Precedes p p' := by
  obtain ⟨key, hk, hp'⟩ := hp'
  have hnames : (node.outputName :: outputNames nodes).Sublist
      (outputNames (plan.below path.names)) := hs.map FieldNode.outputName
  have hnodup := List.nodup_cons.mp (hn.sublist hnames)
  have hpair : [node.outputName, key].Sublist (node.outputName :: outputNames nodes) :=
    (List.singleton_sublist.mpr hk).cons_cons _
  have hne : node.outputName ≠ key := by
    rintro rfl
    exact hnodup.1 hk
  exact .fields hne (hpair.trans hnames) hp hp'

/-- An element's part comes before those of the elements after it. -/
theorem precedes_of_indexes {path p p' : Path} {index : Nat} (hp : path ++ [.index index] <+: p)
    (hp' : UnderIndexes path (index + 1) p') : plan.Precedes p p' := by
  obtain ⟨n, hn, hp'⟩ := hp'
  exact .elements hn hp hp'

mutual

/-- The errors of a field, at its path and below. -/
theorem listed_of_completesField : ∀ {node : FieldNode} {container : ObjectType ρ} {parent : Json}
    {path : Path} {t : Transcript ρ} {c : Completion Json},
    CompletesField setting plan node container parent path t c →
      node.WellFormed setting.schema container → plan.at? path.names = some node →
      Listed plan (path <+: ·) c.errors
  | _, _, _, _, _, _, .typename _, _, _ => listed_nil
  | _, _, _, _, _, _, .undefined _ _, _, ha => listed_error ha
  | _, _, _, _, _, _, .failed _ _ _, _, ha => listed_orNull (listed_error ha)
  | _, _, _, _, _, _, .resolved hn hd _ hv, hw, ha =>
    listed_of_completesValue hv (fits_of_wellFormed hw hn hd) ha

/-- The errors of an object's fields. -/
theorem listed_of_completesFields : ∀ {nodes : List FieldNode} {container : ObjectType ρ}
    {parent : Json} {path : Path} {t : Transcript ρ} {c : Completion (List (String × Json))},
    CompletesFields setting plan nodes container parent path t c →
      WellSelected setting.schema (plan.below path.names) container →
      nodes.Sublist (plan.below path.names) →
      Listed plan (UnderKeys path (outputNames nodes)) c.errors
  | _, _, _, _, _, _, .nil, _, _ => listed_nil
  | _, _, _, _, _, _, .cons hf hs, hw, hsub => by
    have hm := hsub.subset List.mem_cons_self
    have h₁ := listed_of_completesField hf (hw.wellFormed _ hm) (Plan.at?_of_mem hw.distinct hm)
    have h₂ := listed_of_completesFields hs hw ((List.sublist_cons_self _ _).trans hsub)
    exact listed_mono (listed_append h₁ h₂ fun _ _ => precedes_of_keys hw.distinct hsub)
      fun _ => underKeys_cons

/-- The errors of a value. -/
theorem listed_of_completesValue : ∀ {node : FieldNode} {type : TypeRef} {value : Json}
    {path : Path} {t : Transcript ρ} {c : Completion Json},
    CompletesValue setting plan node type value path t c →
      Fits setting.schema node.children type → plan.at? path.names = some node →
      Listed plan (path <+: ·) c.errors
  | _, _, _, _, _, _, .null, _, ha => by
    split
    · exact listed_nil
    · exact listed_error ha
  | _, _, _, _, _, _, .list he, hb, ha =>
    listed_orNull (listed_mono (listed_of_completesElements he hb ha)
      fun _ => prefix_of_underIndexes)
  | _, _, _, _, _, _, .noList _ _, _, ha => listed_orNull (listed_error ha)
  | _, _, _, _, _, _, .object _ ho hs, hb, ha => by
    have hw := hb _ (object?_of_find? ho)
    rw [← Plan.below_of_at? ha] at hw
    have h := listed_of_completesFields hs hw (by rw [Plan.below_of_at? ha])
    exact listed_orNull (listed_mono h fun _ => prefix_of_underKeys)
  | _, _, _, _, _, _, .leaf _ _ _, _, _ => listed_nil
  | _, _, _, _, _, _, .badLeaf _ _ _ _, _, ha => listed_orNull (listed_error ha)
  | _, _, _, _, _, _, .noType _ _, _, ha => listed_orNull (listed_error ha)

/-- The errors of a list's elements. -/
theorem listed_of_completesElements : ∀ {node : FieldNode} {type : TypeRef} {index : Nat}
    {values : List Json} {path : Path} {t : Transcript ρ} {c : Completion (List Json)},
    CompletesElements setting plan node type index values path t c →
      Fits setting.schema node.children type → plan.at? path.names = some node →
      Listed plan (UnderIndexes path index) c.errors
  | _, _, _, _, _, _, _, .nil, _, _ => listed_nil
  | _, _, _, _, _, _, _, .cons hv hs, hb, ha => by
    have h₁ := listed_of_completesValue hv hb (by rwa [Plan.names_index])
    have h₂ := listed_of_completesElements hs hb ha
    exact listed_mono (listed_append h₁ h₂ fun _ _ => precedes_of_indexes)
      fun _ => underIndexes_cons

end

/-- Unless the operation as a whole is denied, every error has a path and one location, that of the
node to which the names on the path lead; errors stand in the depth-first order of the document; and
the path of none is at or above that of another. -/
theorem errors_in_order {limit : Nat} {document : Query.Document} {name : Option String}
    {supplied : Table Json} {root : Json} {t : Transcript ρ} {envelope : Envelope}
    (hp : Plan.ofDocument setting.schema limit document name supplied = .ok plan)
    (hg : (execute setting root plan).Gives t envelope)
    (ha : ∀ denial, .operation plan (.deny denial) ∉ t) :
    (∀ e ∈ envelope.errors, ∃ p node, e.path = some p ∧ plan.at? p.names = some node ∧
      e.locations = [node.position]) ∧
      envelope.errors.Pairwise fun e e' => ∃ p p', e.path = some p ∧ e'.path = some p' ∧
        plan.Before p p' ∧ ¬ p <+: p' ∧ ¬ p' <+: p := by
  obtain ⟨type, ht, hw⟩ := Plan.exists_wellSelected_of_ofDocument hp
  rcases cases_of_gives ht hg with ⟨denial, rfl, -⟩ | ⟨t₁, t₂, c, rfl, -, hs, rfl⟩
  · exact absurd (by simp) (ha denial)
  · have h := listed_of_completesFields hs hw (List.Sublist.refl _)
    constructor
    · intro e he
      obtain ⟨p, node, hpath, -, hat, hl⟩ := h.located e he
      exact ⟨p, node, hpath, hat, hl⟩
    · refine h.ordered.imp ?_
      rintro e e' ⟨p, p', hpath, hpath', hprec⟩
      exact ⟨p, p', hpath, hpath', .inr hprec, Plan.not_prefix_of_precedes hprec⟩

end GraphGate.Execution

namespace GraphGate.Sample

open Query Plan Execution

/-- The query `{ a: user(id: 7) { name } b: user(id: 8) { name } }`. -/
def pairDocument : Document where
  operations := .single ⟨⟨1, 1⟩, .query, [], [
    .field ⟨⟨1, 3⟩, some "a", "user", [⟨"id", ⟨1, 15⟩, .number (.int 7)⟩], []⟩
      [.field ⟨⟨1, 20⟩, none, "name", [], []⟩ []],
    .field ⟨⟨1, 27⟩, some "b", "user", [⟨"id", ⟨1, 39⟩, .number (.int 8)⟩], []⟩
      [.field ⟨⟨1, 44⟩, none, "name", [], []⟩ []]]⟩
  fragments := []

def firstName : FieldNode := ⟨none, "name", [], [], ⟨1, 20⟩⟩

def firstNode : FieldNode := ⟨some "a", "user", [("id", .str "7")], [firstName], ⟨1, 3⟩⟩

def secondName : FieldNode := ⟨none, "name", [], [], ⟨1, 44⟩⟩

def secondNode : FieldNode := ⟨some "b", "user", [("id", .str "8")], [secondName], ⟨1, 27⟩⟩

def pairPlan : Plan := ⟨none, .query, "Query", [firstNode, secondNode]⟩

theorem ofDocument_pairDocument : ofDocument schema 64 pairDocument none [] = .ok pairPlan := by
  cbv

/-- Operations and fields are checked. -/
def guarded : Setting Unit := ⟨schema, .empty, ⟨true, true⟩⟩

def pairContext (node : FieldNode) : Context :=
  ⟨⟨"user", .named "User" true, [⟨"id", .named "ID" false, none⟩]⟩, node, "Query",
    [.field node.outputName], pairPlan⟩

/-- A user is looked up, and the resolver panics. -/
def panicking (node : FieldNode) : Transcript Unit :=
  [.published .preResolve (Context.event (pairContext node) none) none,
    .field (pairContext node) .allow,
    .called () (Context.invocation (pairContext node) .null) (.error .panicked)]

def panicError (node : FieldNode) : ResponseError :=
  .ofField (.panicked "user") node [.field node.outputName]

theorem gives_panicking : (execute guarded .null pairPlan).Gives
    (.operation pairPlan .allow :: (panicking firstNode ++ panicking secondNode))
    ⟨.obj [("a", .null), ("b", .null)], [panicError firstNode, panicError secondNode]⟩ :=
  .askOperation (.publish (.askField (.call (.publish (.askField (.call .done))))))

theorem errors_in_order_panicking :
    (execute guarded .null pairPlan).Gives
        (.operation pairPlan .allow :: (panicking firstNode ++ panicking secondNode))
        ⟨.obj [("a", .null), ("b", .null)], [panicError firstNode, panicError secondNode]⟩ ∧
      (∀ e ∈ [panicError firstNode, panicError secondNode], ∃ p node, e.path = some p ∧
        pairPlan.at? p.names = some node ∧ e.locations = [node.position]) ∧
      [panicError firstNode, panicError secondNode].Pairwise fun e e' => ∃ p p', e.path = some p ∧
        e'.path = some p' ∧ pairPlan.Before p p' ∧ ¬ p <+: p' ∧ ¬ p' <+: p :=
  ⟨gives_panicking, errors_in_order ofDocument_pairDocument gives_panicking
    (by simp [panicking])⟩

end GraphGate.Sample
