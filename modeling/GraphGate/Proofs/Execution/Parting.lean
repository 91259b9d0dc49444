import GraphGate.Proofs.Execution.Isolation

/-! Two ways for one execution to go that part at an exchange. What was completed before is the same
in both, whatever becomes of the rest. -/
namespace GraphGate

variable {ρ : Type}

namespace Dialogue

variable {α β : Type} {d : Dialogue ρ α} {f : α → Dialogue ρ β} {a₁ a₂ : α} {b₁ b₂ : β}
  {t₁ t₂ rest₁ rest₂ before : Transcript ρ} {x : Exchange ρ}

/-- An exchange is in the first part of a transcript, or comes after it. -/
theorem mem_or_after (h : before ++ x :: rest₂ = t₁ ++ t₂) :
    x ∈ t₁ ∨ ∃ before', before = t₁ ++ before' ∧ t₂ = before' ++ x :: rest₂ := by
  rcases List.append_eq_append_iff.mp h with ⟨middle, rfl, hx⟩ | ⟨before', rfl, rfl⟩
  · cases middle with
    | nil => exact .inr ⟨[], by simp, hx.symm⟩
    | cons y middle =>
      obtain ⟨rfl, -⟩ := List.cons.inj hx
      exact .inl (by simp)
  · exact .inr ⟨before', rfl, rfl⟩

/-- Where a sequence of dialogues parts from itself at an exchange, that exchange is in the first
of them, or the first is the same both times. -/
theorem parting_bind (h₁ : (d.bind f).Gives (before ++ rest₁) b₁)
    (h₂ : (d.bind f).Gives (before ++ x :: rest₂) b₂) :
    ∃ t a, d.Gives t a ∧ (x ∈ t ∨ ∃ before', (f a).Gives (before' ++ rest₁) b₁ ∧
      (f a).Gives (before' ++ x :: rest₂) b₂) := by
  obtain ⟨t₁, t₁', a₁, ht₁, hd₁, hf₁⟩ := gives_bind h₁
  obtain ⟨t₂, t₂', a₂, ht₂, hd₂, hf₂⟩ := gives_bind h₂
  refine ⟨t₂, a₂, hd₂, (mem_or_after ht₂).imp_right ?_⟩
  rintro ⟨before', rfl, rfl⟩
  rw [List.append_assoc] at ht₁
  obtain ⟨rfl, rfl⟩ := gives_prefix_unique hd₁ hd₂ ht₁.symm
  rw [← List.append_cancel_left ht₁] at hf₁
  exact ⟨before', hf₁, hf₂⟩

end Dialogue

namespace Execution

variable {setting : Setting ρ} {plan : Plan} {container : ObjectType ρ} {parent : Json}
  {path : Path} {before rest₁ rest₂ : Transcript ρ} {x : Exchange ρ}

/-- Two completions of an object's fields that part in one of them; those before it are completed
once. -/
inductive PartsIn (setting : Setting ρ) (plan : Plan) (container : ObjectType ρ) (parent : Json)
    (path : Path) (x : Exchange ρ) : List FieldNode → Completion (List (String × Json)) →
      Completion (List (String × Json)) → Prop
  | here {node : FieldNode} {nodes : List FieldNode} {t t₁ t₂ : Transcript ρ} {c : Completion Json}
    {c₁ c₂ : Completion (List (String × Json))}
    (hf : CompletesField setting plan node container parent (path ++ [.field node.outputName]) t c)
    (hx : x ∈ t) (h₁ : CompletesFields setting plan (node :: nodes) container parent path t₁ c₁)
    (h₂ : CompletesFields setting plan (node :: nodes) container parent path t₂ c₂) :
    PartsIn setting plan container parent path x (node :: nodes) c₁ c₂
  | later {node : FieldNode} {nodes : List FieldNode} {t : Transcript ρ} {c : Completion Json}
    {c₁ c₂ : Completion (List (String × Json))}
    (hf : CompletesField setting plan node container parent (path ++ [.field node.outputName]) t c)
    (h : PartsIn setting plan container parent path x nodes c₁ c₂) :
    PartsIn setting plan container parent path x (node :: nodes)
      (.both (fun value pairs => (node.outputName, value) :: pairs) c c₁)
      (.both (fun value pairs => (node.outputName, value) :: pairs) c c₂)

theorem partsIn_of_gives {nodes : List FieldNode} {before : Transcript ρ}
    {c₁ c₂ : Completion (List (String × Json))}
    (h₁ : (completeFields setting plan nodes container parent path).Gives (before ++ rest₁) c₁)
    (h₂ : (completeFields setting plan nodes container parent path).Gives (before ++ x :: rest₂)
      c₂) : PartsIn setting plan container parent path x nodes c₁ c₂ := by
  induction nodes generalizing before c₁ c₂ with
  | nil =>
    rw [completeFields] at h₂
    have ht := (Dialogue.gives_done h₂).1
    simp at ht
  | cons node nodes ih =>
    have hs₁ := completesFields_of_gives h₁
    have hs₂ := completesFields_of_gives h₂
    rw [completeFields] at h₁ h₂
    obtain ⟨t, c, hf, hx | ⟨before', h₁, h₂⟩⟩ := Dialogue.parting_bind h₁ h₂
    · exact .here (completesField_of_gives hf) hx hs₁ hs₂
    · obtain ⟨more₁, rfl, hmore₁⟩ := Dialogue.gives_bind_done h₁
      obtain ⟨more₂, rfl, hmore₂⟩ := Dialogue.gives_bind_done h₂
      exact .later (completesField_of_gives hf) (ih hmore₁ hmore₂)

variable {nodes : List FieldNode} {c₁ c₂ : Completion (List (String × Json))}

theorem completes_of_partsIn
    (h : PartsIn setting plan container parent path x nodes c₁ c₂) :
    (∃ t, CompletesFields setting plan nodes container parent path t c₁) ∧
      ∃ t, CompletesFields setting plan nodes container parent path t c₂ := by
  induction h with
  | here _ _ h₁ h₂ => exact ⟨⟨_, h₁⟩, _, h₂⟩
  | later hf _ ih =>
    obtain ⟨⟨t₁, h₁⟩, t₂, h₂⟩ := ih
    exact ⟨⟨_, .cons hf h₁⟩, _, .cons hf h₂⟩

/-- What two completions of an object's fields say about one of them is the same. -/
structure Kept (path : Path) (name : String) (c₁ c₂ : Completion (List (String × Json))) :
    Prop where
  errors : c₂.errors.filter (·.under (path ++ [.field name])) =
    c₁.errors.filter (·.under (path ++ [.field name]))
  value : ∀ pairs₁ pairs₂, c₁.value = some pairs₁ → c₂.value = some pairs₂ →
    Table.get? name pairs₂ = Table.get? name pairs₁

/-- No error of other fields is under a field. -/
theorem filter_under_of_absent {t : Transcript ρ} {c : Completion (List (String × Json))}
    {name : String} (h : CompletesFields setting plan nodes container parent path t c)
    (hw : WellSelected setting.schema (plan.below path.names) container)
    (hsub : nodes.Sublist (plan.below path.names)) (hn : name ∉ outputNames nodes) :
    c.errors.filter (·.under (path ++ [.field name])) = [] := by
  rw [List.filter_eq_nil_iff]
  intro e he hunder
  obtain ⟨p, node, hp, ⟨key, hk, hkey⟩, -⟩ := (listed_of_completesFields h hw hsub).located e he
  have hname : path ++ [.field name] <+: p := by simpa [ResponseError.under, hp] using hunder
  cases segment_unique hkey hname
  exact hn hk

theorem kept_first {first : FieldNode} {c : Completion Json}
    (h₁ : c₁.errors.filter (·.under (path ++ [.field first.outputName])) = [])
    (h₂ : c₂.errors.filter (·.under (path ++ [.field first.outputName])) = []) :
    Kept path first.outputName
      (.both (fun value pairs => (first.outputName, value) :: pairs) c c₁)
      (.both (fun value pairs => (first.outputName, value) :: pairs) c c₂) where
  errors := by
    rw [Completion.both, Completion.both, List.filter_append, List.filter_append, h₁, h₂]
  value := by
    intro pairs₁ pairs₂ hp₁ hp₂
    obtain ⟨v₁, more₁, hv₁, -, rfl⟩ := exists_of_both hp₁
    obtain ⟨v₂, more₂, hv₂, -, rfl⟩ := exists_of_both hp₂
    cases hv₁.symm.trans hv₂
    rw [Table.get?, Table.get?, if_pos rfl, if_pos rfl]

theorem kept_later {first : FieldNode} {name : String} {c : Completion Json}
    (hn : first.outputName ≠ name) (h : Kept path name c₁ c₂) :
    Kept path name (.both (fun value pairs => (first.outputName, value) :: pairs) c c₁)
      (.both (fun value pairs => (first.outputName, value) :: pairs) c c₂) where
  errors := by
    rw [Completion.both, Completion.both, List.filter_append, List.filter_append, h.errors]
  value := by
    intro pairs₁ pairs₂ hp₁ hp₂
    obtain ⟨v₁, more₁, -, hm₁, rfl⟩ := exists_of_both hp₁
    obtain ⟨v₂, more₂, -, hm₂, rfl⟩ := exists_of_both hp₂
    rw [Table.get?, Table.get?, if_neg hn, if_neg hn]
    exact h.value more₁ more₂ hm₁ hm₂

/-- The fields before the one in which completions part are kept. -/
theorem exists_kept_of_partsIn (h : PartsIn setting plan container parent path x nodes c₁ c₂)
    (hw : WellSelected setting.schema (plan.below path.names) container)
    (hsub : nodes.Sublist (plan.below path.names)) :
    ∃ front node back, nodes = front ++ node :: back ∧
      (∃ t c, CompletesField setting plan node container parent
        (path ++ [.field node.outputName]) t c ∧ x ∈ t) ∧
      ∀ field ∈ front, Kept path field.outputName c₁ c₂ := by
  induction h with
  | @here node nodes t t₁ t₂ c c₁ c₂ hf hx _ _ =>
    exact ⟨[], node, nodes, rfl, ⟨t, c, hf, hx⟩, List.forall_mem_nil _⟩
  | @later first nodes t c c₁ c₂ hf h ih =>
    have hrest : nodes.Sublist (plan.below path.names) := (List.sublist_cons_self _ _).trans hsub
    have hfresh : first.outputName ∉ outputNames nodes :=
      (List.nodup_cons.mp (hw.distinct.sublist (hsub.map FieldNode.outputName))).1
    obtain ⟨⟨t₁, h₁⟩, t₂, h₂⟩ := completes_of_partsIn h
    obtain ⟨front, node, back, rfl, hparts, hkept⟩ := ih hrest
    refine ⟨first :: front, node, back, rfl, hparts, List.forall_mem_cons.mpr ⟨?_, ?_⟩⟩
    · exact kept_first (filter_under_of_absent h₁ hw hrest hfresh)
        (filter_under_of_absent h₂ hw hrest hfresh)
    · intro field hm
      have hne : first.outputName ≠ field.outputName := fun he => hfresh
        (List.mem_map.mpr ⟨field, List.mem_append_left _ hm, he.symm⟩)
      exact kept_later hne (hkept field hm)

/-- A call is made for the field whose turn it is. -/
theorem path_of_called {turn : Turn ρ} (h : turn.Proper setting plan) {resolver : ρ}
    {invocation : Invocation} {result : CallResult}
    (hm : .called resolver invocation result ∈ turn.exchanges setting.capabilities plan) :
    invocation.context.path = turn.site.path := by
  have hcalls : .called resolver invocation result ∈ turn.calls := by
    obtain ⟨site, left, decision, calls, found⟩ := turn
    unfold Turn.exchanges Turn.check Turn.report at hm
    cases setting.capabilities.fieldCheck <;> cases found <;> simpa using hm
  rcases h.called with hnone | ⟨-, resolver', result', hone⟩
  · rw [hnone] at hcalls
    cases hcalls
  · rw [hone] at hcalls
    cases List.mem_singleton.mp hcalls
    rfl

variable {root : Json} {resolver : ρ} {invocation : Invocation} {result : CallResult}

/-- A call that is made in the completion of a field is made for it, or for a field below. -/
theorem prefix_of_called {node : FieldNode} {t : Transcript ρ} {c : Completion Json}
    (h : CompletesField setting plan node container parent path t c)
    (hw : node.WellFormed setting.schema container) (ha : plan.at? path.names = some node)
    (hs : node.name ≠ Plan.typename →
      Selected setting.schema root plan t container parent node path)
    (hm : .called resolver invocation result ∈ t) : path <+: invocation.context.path := by
  obtain ⟨turns, hp⟩ := exists_passage_of_completesField h hw ha (List.Subset.refl t) hs
  rw [hp.exchanges] at hm
  obtain ⟨turn, ht, hm⟩ := List.mem_flatMap.mp hm
  rw [path_of_called (hp.proper turn ht) hm]
  exact hp.within turn ht

end Execution

/-- Two envelopes say the same about a field at the top: the errors under it are the same, and so is
its value if both have data. -/
structure Envelope.Agree (name : String) (envelope₁ envelope₂ : Envelope) : Prop where
  errors : envelope₂.errors.filter (·.under [.field name]) =
    envelope₁.errors.filter (·.under [.field name])
  data : envelope₁.data ≠ .null → envelope₂.data ≠ .null →
    envelope₂.data.get? name = envelope₁.data.get? name

namespace Execution

variable {setting : Setting ρ} {plan : Plan} {root : Json} {before rest₁ rest₂ : Transcript ρ}
  {resolver : ρ} {invocation : Invocation} {result : CallResult} {envelope₁ envelope₂ : Envelope}

/-- Data that is there is made of the values of the fields. -/
theorem exists_data {type : ObjectType ρ} {t : Transcript ρ} {c : Completion (List (String × Json))}
    (hw : WellSelected setting.schema plan.fields type)
    (h : CompletesFields setting plan plan.fields type root [] t c)
    (hd : (c.value.map fun pairs => Json.obj (Table.ofPairs pairs)).getD .null ≠ .null) :
    ∃ pairs, c.value = some pairs ∧
      (c.value.map fun pairs => Json.obj (Table.ofPairs pairs)).getD .null = .obj pairs := by
  cases hc : c.value with
  | none =>
    rw [hc] at hd
    exact absurd rfl hd
  | some pairs =>
    have hpairs : Table.ofPairs pairs = pairs :=
      ofPairs_of_fieldsConform hw (fieldsConform_of_completes h hw.wellFormed hc)
    exact ⟨pairs, rfl, congrArg Json.obj hpairs⟩

/-- If an execution goes in two ways that part at a call, envelopes agree on the fields at the top
that come before the one for which, or below which, the call is made. -/
theorem exists_agree_of_gives {type : ObjectType ρ}
    (ht : setting.schema.object? plan.root = some type)
    (hw : WellSelected setting.schema plan.fields type)
    (h₁ : (execute setting root plan).Gives (before ++ rest₁) envelope₁)
    (h₂ : (execute setting root plan).Gives
      (before ++ .called resolver invocation result :: rest₂) envelope₂) :
    ∃ front node back, plan.fields = front ++ node :: back ∧
      [.field node.outputName] <+: invocation.context.path ∧
      ∀ field ∈ front, Envelope.Agree field.outputName envelope₁ envelope₂ := by
  obtain ⟨t, decision, hdecision, hx | ⟨before', hf₁, hf₂⟩⟩ := Dialogue.parting_bind h₁ h₂
  · rcases Dialogue.gives_operationDecision hdecision with ⟨-, rfl⟩ | ⟨-, rfl, -⟩ <;> simp at hx
  · cases decision with
    | deny denial =>
      have hnone := (Dialogue.gives_done hf₂).1
      simp at hnone
    | allow =>
      simp only [ht] at hf₁ hf₂
      obtain ⟨c₁, rfl, hc₁⟩ := Dialogue.gives_bind_done hf₁
      obtain ⟨c₂, rfl, hc₂⟩ := Dialogue.gives_bind_done hf₂
      obtain ⟨front, node, back, hfields, ⟨t, c, hf, hx⟩, hkept⟩ :=
        exists_kept_of_partsIn (partsIn_of_gives hc₁ hc₂) hw (List.Sublist.refl _)
      have hm : node ∈ plan.fields := by simp [hfields]
      have hat : plan.at? (Path.names ([] ++ [.field node.outputName])) = some node :=
        @Plan.at?_of_mem plan [] node hw.distinct hm
      refine ⟨front, node, back, hfields, ?_, fun field hfield => ⟨?_, ?_⟩⟩
      · exact prefix_of_called hf (hw.wellFormed node hm) hat
          (fun hn => ⟨⟨[], plan.fields, .root ht, hm, rfl⟩, hn⟩) hx
      · exact (hkept field hfield).errors
      · intro hd₁ hd₂
        obtain ⟨pairs₁, hv₁, hp₁⟩ := exists_data hw (completesFields_of_gives hc₁) hd₁
        obtain ⟨pairs₂, hv₂, hp₂⟩ := exists_data hw (completesFields_of_gives hc₂) hd₂
        rw [hp₁, hp₂]
        exact (hkept field hfield).value pairs₁ pairs₂ hv₁ hv₂

end Execution

end GraphGate
