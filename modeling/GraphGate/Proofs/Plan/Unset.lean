import GraphGate.Proofs.Coercion.Idempotence
import GraphGate.Proofs.Plan.Requirements

/-! What a variable without a value comes to. As an argument it is as if the argument were left out.
As a field of an input object it is null, so it hides the default of the field. -/
namespace GraphGate

open Query

variable {ε α β ν ρ : Type} {schema : Schema ρ} {field : ArgumentDefinition}

/-- What comes of null for a field next to what comes of leaving the field out: it is refused if the
field may not be null. Otherwise both fail in the same way or neither does, and then they are the
same value if and only if the field is declared with null as its default. -/
inductive NullFor (field : ArgumentDefinition) : Except ε α → Except ε α → Prop
  | refused (hn : field.type.nullable = false) (e : ε) (r : Except ε α) : NullFor field (.error e) r
  | failed (hn : field.type.nullable = true) (e : ε) : NullFor field (.error e) (.error e)
  | given {a b : α} (hn : field.type.nullable = true) (h : a = b ↔ field.default = some .null) :
    NullFor field (.ok a) (.ok b)

section NullFor

variable {r r' : Except ε α}

theorem nullFor_error (field : ArgumentDefinition) (e : ε) :
    NullFor field (.error e : Except ε α) (.error e) := by
  cases hn : field.type.nullable with
  | true => exact .failed hn e
  | false => exact .refused hn e _

/-- What is done next tells values apart, or fails whatever they are. -/
theorem nullFor_bind {f : α → Except ε β} (h : NullFor field r r')
    (hf : (∃ e, ∀ a, f a = .error e) ∨ ∃ g : α → β, g.Injective ∧ ∀ a, f a = .ok (g a)) :
    NullFor field (r >>= f) (r' >>= f) := by
  cases h with
  | refused hn e => exact .refused hn e _
  | failed hn e => exact .failed hn e
  | @given a b hn h =>
    rw [ok_bind, ok_bind]
    rcases hf with ⟨e, hf⟩ | ⟨g, hg, hf⟩
    · rw [hf, hf]
      exact .failed hn e
    · rw [hf, hf]
      exact .given hn (hg.eq_iff.trans h)

theorem nullFor_map {g : α → β} (h : NullFor field r r') (hg : g.Injective) :
    NullFor field (r.map g) (r'.map g) := by
  cases h with
  | refused hn e => exact .refused hn e _
  | failed hn e => exact .failed hn e
  | given hn h => exact .given hn (hg.eq_iff.trans h)

theorem nullFor_after {first : Except ε β} {f f' : β → Except ε α}
    (h : ∀ b, NullFor field (f b) (f' b)) : NullFor field (first >>= f) (first >>= f') := by
  cases first with
  | error e => exact nullFor_error field e
  | ok b => exact h b

theorem eq_ok_iff_of_nullFor {a : α} (h : NullFor field r (.ok a)) :
    r = .ok a ↔ field.type.nullable = true ∧ field.default = some .null := by
  cases h with
  | refused hn e => simp [hn]
  | given hn h => rw [Except.ok.injEq, h, and_iff_right hn]

end NullFor

/-- A value put in front of a table, if there is one. -/
def putFirst (name : String) (value : Option α) (rest : Table α) : Table α :=
  match value with
  | some v => (name, v) :: rest
  | none => rest

theorem putFirst_right_injective (name : String) (value : Option α) :
    (putFirst name value).Injective := by
  intro rest rest' h
  cases value with
  | none => exact h
  | some v => exact (List.cons.inj h).2

theorem putFirst_left_injective (name : String) (rest : Table α) :
    Function.Injective fun value => putFirst name value rest := by
  intro value value' h
  have hlength := congrArg List.length h
  cases value with
  | none =>
    cases value' with
    | none => rfl
    | some => exact absurd hlength (by simp [putFirst])
  | some =>
    cases value' with
    | none => exact absurd hlength (by simp [putFirst])
    | some =>
      cases (List.cons.inj h).1
      rfl

/-- The values found for declared names, in order. -/
def collected (value : ArgumentDefinition → Except ε (Option α)) :
    List ArgumentDefinition → Except ε (Table α)
  | [] => .ok []
  | d :: rest => do
    let v ← value d
    let more ← collected value rest
    return putFirst d.name v more

theorem collected_congr {value value' : ArgumentDefinition → Except ε (Option α)}
    {declared : List ArgumentDefinition} (h : ∀ d ∈ declared, value d = value' d) :
    collected value declared = collected value' declared := by
  induction declared with
  | nil => rfl
  | cons d rest ih =>
    obtain ⟨hd, hrest⟩ := List.forall_mem_cons.mp h
    rw [collected, collected, hd, ih hrest]

/-- If only one of the declared names makes a difference, it makes it to all of them together. -/
theorem nullFor_collected {value value' : ArgumentDefinition → Except ε (Option α)}
    {declared : List ArgumentDefinition} {d : ArgumentDefinition}
    (hd : (declared.map (·.name)).Nodup) (hm : d ∈ declared)
    (h : NullFor field (value d) (value' d))
    (hothers : ∀ other ∈ declared, other.name ≠ d.name → value other = value' other) :
    NullFor field (collected value declared) (collected value' declared) := by
  -- Before the name and behind it all is the same, so `h` is the whole difference.
  induction declared with
  | nil => cases hm
  | cons first rest ih =>
    obtain ⟨hfirst, hrest⟩ := List.nodup_cons.mp hd
    rw [collected, collected]
    rcases List.mem_cons.mp hm with rfl | hm
    · have hsame : collected value rest = collected value' rest := collected_congr fun other ho =>
        hothers other (.tail _ ho) fun he => hfirst (List.mem_map.mpr ⟨other, ho, he⟩)
      rw [hsame]
      refine nullFor_bind h ?_
      cases collected value' rest with
      | error e => exact .inl ⟨e, fun _ => rfl⟩
      | ok more => exact .inr ⟨_, putFirst_left_injective d.name more, fun _ => rfl⟩
    · have hne : first.name ≠ d.name := fun he => hfirst (List.mem_map.mpr ⟨d, hm, he.symm⟩)
      rw [hothers first List.mem_cons_self hne]
      refine nullFor_after fun v => nullFor_bind (ih hrest hm fun other ho =>
        hothers other (.tail _ ho)) ?_
      exact .inr ⟨_, putFirst_right_injective first.name v, fun _ => rfl⟩

/-- The input object that is declared under a name has such fields. -/
def DeclaresField (schema : Schema ρ) (type : String) (d : ArgumentDefinition) : Prop :=
  ∃ name declared, schema.find? type = some (.input name declared) ∧ d ∈ declared

/-- A value with `unset` for one field of an input object, and the same value without that field;
the object is the whole value, or an element or a field of it, to any depth. -/
inductive LeavesOut (schema : Schema ρ) (field : ArgumentDefinition) (unset : Value ν) :
    TypeRef → Value ν → Value ν → Prop
  | here {type : TypeRef} {before after : List (String × Value ν)}
    (hd : DeclaresField schema type.innermost field) (hb : field.name ∉ Table.names before)
    (ha : field.name ∉ Table.names after) :
    LeavesOut schema field unset type (.object (before ++ (field.name, unset) :: after))
      (.object (before ++ after))
  | element {element : TypeRef} {nullable : Bool} {before after : List (Value ν)} {v v' : Value ν}
    (h : LeavesOut schema field unset element v v') :
    LeavesOut schema field unset (.list element nullable) (.list (before ++ v :: after))
      (.list (before ++ v' :: after))
  | inside {type : TypeRef} {d : ArgumentDefinition} {before after : List (String × Value ν)}
    {v v' : Value ν} (hd : DeclaresField schema type.innermost d)
    (hb : d.name ∉ Table.names before) (h : LeavesOut schema field unset d.type v v') :
    LeavesOut schema field unset type (.object (before ++ (d.name, v) :: after))
      (.object (before ++ (d.name, v') :: after))

namespace Coercion

/-- What one field of an input object has: what is supplied, or else the default. -/
def inputField (type : String) (supplied : Table Supplied) (d : ArgumentDefinition) :
    Except Mismatch (Option Json) :=
  match supplied.get? d.name with
  | some value => (value d.type).map some
  | none =>
    match d.default with
    | some default => .ok (some default)
    | none =>
      if d.type.nullable then .ok none
      else .error ⟨type, "object without field '" ++ d.name ++ "'"⟩

theorem inputFields_eq {type : String} {supplied : Table Supplied}
    {declared : List ArgumentDefinition} :
    inputFields type supplied declared = collected (inputField type supplied) declared := by
  induction declared with
  | nil => rfl
  | cons d rest ih =>
    rw [inputFields, collected, inputField, ih]
    cases supplied.get? d.name with
    | some value =>
      simp only
      cases value d.type <;> rfl
    | none =>
      cases d.default with
      | some w => rfl
      | none =>
        cases d.type.nullable with
        | true => cases collected (inputField type supplied) rest <;> rfl
        | false => rfl

variable {v v' : Constant} {type : TypeRef}

theorem nullFor_wrapped {coerce coerce' : String → Except Mismatch Json}
    (h : NullFor field (coerce type.innermost) (coerce' type.innermost)) :
    NullFor field (wrapped coerce type) (wrapped coerce' type) := by
  induction type with
  | named name nullable => exact h
  | list element nullable ih =>
    refine nullFor_map (ih h) fun v v' he => ?_
    exact (List.cons.inj (Json.arr.inj he)).1

theorem nullFor_coerceElements {before after : List Constant}
    (h : NullFor field (coerce schema v type) (coerce schema v' type)) :
    NullFor field (coerceElements schema (before ++ v :: after) type)
      (coerceElements schema (before ++ v' :: after) type) := by
  induction before with
  | nil =>
    refine nullFor_bind h ?_
    cases coerceElements schema after type with
    | error e => exact .inl ⟨e, fun _ => rfl⟩
    | ok more => exact .inr ⟨(· :: more), fun _ _ he => (List.cons.inj he).1, fun _ => rfl⟩
  | cons first before ih =>
    refine nullFor_after fun w => nullFor_bind ih ?_
    exact .inr ⟨(w :: ·), fun _ _ he => (List.cons.inj he).2, fun _ => rfl⟩

/-- One field of an object makes its difference to the object, if no stray name comes in with it. -/
theorem nullFor_object {fields fields' : List (String × Constant)} {d : ArgumentDefinition}
    (hi : schema.InputsDistinct) (hd : DeclaresField schema type.innermost d)
    (h : ∀ type, NullFor field (inputField type (coerceFields schema fields) d)
      (inputField type (coerceFields schema fields') d))
    (hothers : ∀ key ≠ d.name, Table.get? key fields = Table.get? key fields')
    (hstray : ∀ p : String → Bool, p d.name = false →
      (Table.names fields).find? p = (Table.names fields').find? p) :
    NullFor field (coerce schema (.object fields) type) (coerce schema (.object fields') type) := by
  obtain ⟨name, declared, ht, hm⟩ := hd
  have hnodup := hi name declared (List.mem_of_find?_eq_some ht)
  rw [coerce, coerce]
  refine nullFor_wrapped ?_
  simp only [atName, ht, inputObject, names_coerceFields, inputFields_eq]
  -- The name itself is declared, so the first stray name is the same with it and without it.
  rw [hstray _ (by simpa using ⟨d, hm, rfl⟩)]
  refine nullFor_bind (nullFor_collected hnodup hm (h _) fun other _ hne => ?_) ?_
  · rw [inputField, inputField, get?_coerceFields, get?_coerceFields, hothers _ hne]
  · split
    · exact .inl ⟨_, fun _ => rfl⟩
    · exact .inr ⟨.obj, fun _ _ => Json.obj.inj, fun _ => rfl⟩

theorem nullFor_inputField_null {fields fields' : List (String × Constant)} {name : String}
    (h : Table.get? field.name fields = some .null) (h' : Table.get? field.name fields' = none) :
    NullFor field (inputField name (coerceFields schema fields) field)
      (inputField name (coerceFields schema fields') field) := by
  rw [inputField, inputField, get?_coerceFields, get?_coerceFields, h, h']
  cases hn : field.type.nullable with
  | false =>
    simp only [Option.map_some, coerce, hn]
    exact .refused hn _ _
  | true =>
    simp only [Option.map_some, Option.map_none, coerce, hn]
    cases hdefault : field.default with
    | none => exact .given hn (by simp [hdefault])
    | some w => exact .given hn (by simp [hdefault, eq_comm])

theorem nullFor_coerce (hi : schema.InputsDistinct) (h : LeavesOut schema field .null type v v') :
    NullFor field (coerce schema v type) (coerce schema v' type) := by
  induction h with
  | here hd hb ha =>
    refine nullFor_object hi hd (fun type => nullFor_inputField_null ?_ ?_) (fun key hne => ?_)
      fun p hp => ?_
    · rw [Table.get?_insert hb, if_pos rfl]
    · refine Table.get?_of_absent ?_
      rw [Table.names, List.map_append]
      exact List.not_mem_append hb ha
    · rw [Table.get?_insert hb, if_neg hne.symm]
    · simp [Table.names, hp]
  | element _ ih => exact nullFor_map (nullFor_coerceElements ih) fun _ _ => Json.arr.inj
  | inside hd hb _ ih =>
    refine nullFor_object hi hd (fun type => ?_) (fun key hne => ?_) fun p _ => ?_
    · rw [inputField, inputField, get?_coerceFields, get?_coerceFields, Table.get?_insert hb,
        Table.get?_insert hb, if_pos rfl, if_pos rfl]
      exact nullFor_map ih fun _ _ => Option.some.inj
    · rw [Table.get?_insert hb, Table.get?_insert hb, if_neg hne.symm, if_neg hne.symm]
    · simp [Table.names]

end Coercion

/-- Two results that fail in the same way or are values in relation. -/
inductive Paired (R : α → β → Prop) : Except ε α → Except ε β → Prop
  | error (e : ε) : Paired R (.error e) (.error e)
  | ok {a : α} {b : β} (h : R a b) : Paired R (.ok a) (.ok b)

section Paired

variable {γ δ : Type} {R : α → β → Prop} {S : γ → δ → Prop} {r : Except ε α} {r' : Except ε β}

theorem paired_bind {f : α → Except ε γ} {f' : β → Except ε δ} (h : Paired R r r')
    (hf : ∀ a b, R a b → Paired S (f a) (f' b)) : Paired S (r >>= f) (r' >>= f') := by
  cases h with
  | error e => exact .error e
  | ok h => exact hf _ _ h

theorem paired_map {g : α → γ} {g' : β → δ} (h : Paired R r r')
    (hg : ∀ a b, R a b → S (g a) (g' b)) : Paired S (r.map g) (r'.map g') := by
  cases h with
  | error e => exact .error e
  | ok h => exact .ok (hg _ _ h)

theorem paired_after {first : Except ε α} {f : α → Except ε γ} {f' : α → Except ε δ}
    (h : ∀ a, first = .ok a → Paired S (f a) (f' a)) : Paired S (first >>= f) (first >>= f') := by
  cases first with
  | error e => exact .error e
  | ok a => exact h a rfl

end Paired

namespace Query.Value

variable {attempt : ν → Except ε Constant}

theorem substituteElements_append {before after : List (Value ν)} :
    substituteElements attempt (before ++ after) = (do
      let before ← substituteElements attempt before
      let after ← substituteElements attempt after
      return before ++ after) := by
  induction before with
  | nil =>
    rw [List.nil_append, substituteElements, ok_bind]
    exact (bind_pure _).symm
  | cons first before ih =>
    rw [List.cons_append, substituteElements, substituteElements, ih]
    simp only [bind_assoc, pure_bind, List.cons_append]

theorem substituteFields_append {before after : List (String × Value ν)} :
    substituteFields attempt (before ++ after) = (do
      let before ← substituteFields attempt before
      let after ← substituteFields attempt after
      return before ++ after) := by
  induction before with
  | nil =>
    rw [List.nil_append, substituteFields, ok_bind]
    exact (bind_pure _).symm
  | cons first before ih =>
    rw [List.cons_append, substituteFields, substituteFields, ih]
    simp only [bind_assoc, pure_bind, List.cons_append]

theorem names_of_substituteFields {fields : List (String × Value ν)}
    {constants : List (String × Constant)} (h : substituteFields attempt fields = .ok constants) :
    Table.names constants = Table.names fields := by
  induction fields generalizing constants with
  | nil =>
    cases h
    rfl
  | cons pair rest ih =>
    obtain ⟨first, -, h⟩ := exists_of_bind_ok h
    obtain ⟨more, hm, h⟩ := exists_of_bind_ok h
    cases h
    exact congrArg (List.cons pair.1) (ih hm)

/-- Substitution leaves a field out where it was left out before. -/
theorem paired_substitute {x : ν} {unset : Constant} {type : TypeRef} {v v' : Value ν}
    (hu : attempt x = .ok unset) (h : LeavesOut schema field (.var x) type v v') :
    Paired (LeavesOut schema field unset type) (v.substitute attempt) (v'.substitute attempt) := by
  induction h with
  | @here type before after hd hb ha =>
    rw [substitute, substitute, substituteFields_append, substituteFields_append, substituteFields,
      substitute, hu, ok_bind]
    refine paired_map (R := fun vs vs' => LeavesOut schema field unset type
      (.object vs) (.object vs')) (paired_after fun constants hbefore => ?_) fun _ _ h => h
    rw [← names_of_substituteFields hbefore] at hb
    cases hafter : substituteFields attempt after with
    | error e => exact .error e
    | ok constants' =>
      rw [← names_of_substituteFields hafter] at ha
      exact .ok (.here hd hb ha)
  | @element element nullable before after v v' _ ih =>
    rw [substitute, substitute, substituteElements_append, substituteElements_append,
      substituteElements, substituteElements]
    simp only [bind_assoc, pure_bind]
    refine paired_map (R := fun vs vs' => LeavesOut schema field unset (.list element nullable)
      (.list vs) (.list vs')) (paired_after fun constants _ => ?_) fun _ _ h => h
    exact paired_bind ih fun _ _ h => paired_after fun _ _ => .ok (.element h)
  | @inside type d before after v v' hd hb _ ih =>
    rw [substitute, substitute, substituteFields_append, substituteFields_append, substituteFields,
      substituteFields]
    simp only [bind_assoc, pure_bind]
    refine paired_map (R := fun vs vs' => LeavesOut schema field unset type
      (.object vs) (.object vs')) (paired_after fun constants hbefore => ?_) fun _ _ h => h
    rw [← names_of_substituteFields hbefore] at hb
    exact paired_bind ih fun _ _ h => paired_after fun _ _ => .ok (.inside hd hb h)

end Query.Value

namespace Plan

open Query

variable {bindings : Bindings} {position : Position} {before after : List Argument}
  {argument : Argument} {name label : String} {d : ArgumentDefinition}

theorem writtenValue_insert (h : argument.name ≠ name ∨ argument.name = typename) :
    writtenValue bindings (suppliedTable (before ++ argument :: after)) name =
      writtenValue bindings (suppliedTable (before ++ after)) name := by
  have hfind : (counted (before ++ argument :: after)).reverse.find? (·.name = name) =
      (counted (before ++ after)).reverse.find? (·.name = name) := by
    rw [counted, counted, List.filter_append, List.filter_append, List.filter_cons]
    split
    · next hn =>
      have hne := h.resolve_right (by simpa using hn)
      simp [List.find?_append, hne]
    · rfl
  rw [writtenValue, writtenValue, get?_suppliedTable_counted, get?_suppliedTable_counted, hfind]

theorem find?_reverse_eq_none {written : List Argument} (h : name ∉ written.map (·.name)) :
    written.reverse.find? (·.name = name) = none := by
  rw [List.find?_eq_none]
  intro other ho he
  rw [decide_eq_true_eq] at he
  exact h (List.mem_map.mpr ⟨other, List.mem_reverse.mp ho, he⟩)

theorem writtenValue_last {place : Position} {v : Literal} (hn : name ≠ typename)
    (ha : name ∉ after.map (·.name)) :
    writtenValue bindings (suppliedTable (before ++ ⟨name, place, v⟩ :: after)) name =
      resolveArgument bindings place v := by
  rw [writtenValue, get?_suppliedTable hn, List.reverse_append, List.reverse_cons,
    List.find?_append, List.find?_append, find?_reverse_eq_none ha]
  simp

theorem writtenValue_absent {written : List Argument} (hn : name ≠ typename)
    (h : name ∉ written.map (·.name)) :
    writtenValue bindings (suppliedTable written) name = .ok none := by
  rw [writtenValue, get?_suppliedTable hn, find?_reverse_eq_none h]

theorem names_counted (written : List Argument) : (counted written).map (·.name) =
    (written.map (·.name)).filter (· != typename) := by
  rw [List.filter_map]
  rfl

theorem filter_eraseDups_insert {before after : List String} {name : String} {p : String → Bool}
    (hb : name ∉ before) (ha : name ∉ after) (hp : p name = false) :
    (before ++ name :: after).eraseDups.filter p = (before ++ after).eraseDups.filter p := by
  have hremove : (name :: after).removeAll before = name :: after.removeAll before := by
    simp [List.removeAll, hb]
  have hsame : (after.removeAll before).filter (fun other => !other == name) =
      after.removeAll before := by
    refine List.filter_eq_self.mpr fun other ho => ?_
    have hne : other ≠ name := fun he => ha (he ▸ (List.mem_filter.mp ho).1)
    simpa using hne
  rw [List.eraseDups_append, List.eraseDups_append, hremove, List.eraseDups_cons, hsame,
    List.filter_append, List.filter_append, List.filter_cons_of_neg (by simp [hp])]

/-- A declared argument that is named once is no stray. -/
theorem strays_insert {declared : List ArgumentDefinition}
    (hd : argument.name ∈ declared.map (·.name)) (hb : argument.name ∉ before.map (·.name))
    (ha : argument.name ∉ after.map (·.name)) :
    strays declared (counted (before ++ argument :: after)) =
      strays declared (counted (before ++ after)) := by
  rw [strays, strays, names_counted, names_counted, List.map_append, List.map_append, List.map_cons,
    List.filter_append, List.filter_append, List.filter_cons]
  split
  · refine filter_eraseDups_insert ?_ ?_ (by simpa using List.mem_map.mp hd)
    · exact fun h => hb (List.mem_filter.mp h).1
    · exact fun h => ha (List.mem_filter.mp h).1
  · rfl

/-- The values, if every argument that is supplied is declared. -/
def ifDeclared (stray : List String) (label : String) (position : Position) (values : Table Json) :
    Except PlanError (Table Json) :=
  match stray with
  | [] => .ok values
  | stray => .error (.strayArguments stray label position)

theorem argumentValues_eq {supplied : Table Argument} {declared : List ArgumentDefinition} :
    argumentValues schema bindings position label supplied declared =
      collected (argumentValue schema bindings position label supplied) declared := by
  induction declared with
  | nil => rfl
  | cons d rest ih =>
    rw [argumentValues, collected, ih]
    refine bind_congr fun value => bind_congr fun more => ?_
    cases value <;> rfl

theorem arguments_eq {head : FieldHead} {definition : FieldDefinition ρ} :
    arguments schema bindings head definition =
      collected (argumentValue schema bindings head.position definition.name
          (suppliedTable head.arguments)) definition.arguments >>=
        ifDeclared (strays definition.arguments (counted head.arguments)) definition.name
          head.position := by
  rw [arguments, argumentValues_eq, strays, ← names_suppliedTable]
  rfl

theorem nullFor_typedValue {v v' : Constant}
    (h : NullFor field (Coercion.coerce schema v d.type) (Coercion.coerce schema v' d.type)) :
    NullFor field (typedValue schema position label d (some v))
      (typedValue schema position label d (some v')) := by
  rw [typedValue, typedValue]
  generalize Coercion.coerce schema v d.type = r at h
  generalize Coercion.coerce schema v' d.type = r' at h
  cases h with
  | refused hn e => exact .refused hn _ _
  | failed hn e => exact .failed hn _
  | given hn h => exact .given hn (Option.some_inj.trans h)

theorem resolveArgument_of_leavesOut {unset v v' : Literal} {type : TypeRef}
    (h : LeavesOut schema field unset type v v') (bindings : Bindings) (position : Position) :
    resolveArgument bindings position v =
        (v.substitute (variableConstant bindings position)).map some ∧
      resolveArgument bindings position v' =
        (v'.substitute (variableConstant bindings position)).map some := by
  cases h <;> exact ⟨rfl, rfl⟩

theorem nullFor_resolved {x : String} {v v' : Literal} {place : Position}
    (hi : schema.InputsDistinct) (hx : bindings.get? x = some none)
    (h : LeavesOut schema field (.var x) d.type v v') :
    NullFor field
      (resolveArgument bindings place v >>= typedValue schema position label d)
      (resolveArgument bindings place v' >>= typedValue schema position label d) := by
  obtain ⟨hv, hv'⟩ := resolveArgument_of_leavesOut h bindings place
  have hunset : variableConstant bindings place x = .ok .null := by
    rw [variableConstant, hx]
    rfl
  have hp := Value.paired_substitute hunset h
  rw [hv, hv']
  generalize v.substitute (variableConstant bindings place) = r at hp
  generalize v'.substitute (variableConstant bindings place) = r' at hp
  cases hp with
  | error e => exact nullFor_error field e
  | ok h => exact nullFor_typedValue (Coercion.nullFor_coerce hi h)

/-- The arguments of a field, if these are written for it. -/
def argumentsOf (schema : Schema ρ) (bindings : Bindings) (head : FieldHead)
    (definition : FieldDefinition ρ) (written : List Argument) : Except PlanError (Table Json) :=
  arguments schema bindings { head with arguments := written } definition

variable {head : FieldHead} {definition : FieldDefinition ρ} {x : String} {place : Position}

/-- A declared argument that is an unset variable is as good as left out. -/
theorem argumentsOf_unset (hd : d ∈ definition.arguments) (hb : d.name ∉ before.map (·.name))
    (ha : d.name ∉ after.map (·.name)) (hx : bindings.get? x = some none) :
    argumentsOf schema bindings head definition (before ++ ⟨d.name, place, .var x⟩ :: after) =
      argumentsOf schema bindings head definition (before ++ after) := by
  have hstrays :
      strays definition.arguments (counted (before ++ ⟨d.name, place, .var x⟩ :: after)) =
        strays definition.arguments (counted (before ++ after)) :=
    strays_insert (List.mem_map.mpr ⟨d, hd, rfl⟩) hb ha
  have hwritten : ∀ name, writtenValue bindings
      (suppliedTable (before ++ ⟨d.name, place, .var x⟩ :: after)) name =
        writtenValue bindings (suppliedTable (before ++ after)) name := by
    intro name
    -- A type's own name does not count among the arguments, wherever it stands.
    by_cases hother : d.name ≠ name ∨ d.name = typename
    · exact writtenValue_insert hother
    · obtain ⟨rfl, hn⟩ : d.name = name ∧ d.name ≠ typename := by simpa using hother
      have habsent : d.name ∉ (before ++ after).map (·.name) := by
        rw [List.map_append]
        exact List.not_mem_append hb ha
      rw [writtenValue_last hn ha, writtenValue_absent hn habsent, resolveArgument, hx]
  rw [argumentsOf, argumentsOf, arguments_eq, arguments_eq]
  simp only [hstrays]
  congr 1
  refine collected_congr fun other _ => ?_
  rw [argumentValue_eq, argumentValue_eq, hwritten]

/-- An argument whose value has an unset field makes to all of them the difference that it makes
itself. -/
theorem nullFor_argumentsOf {v v' : Literal} (hi : schema.InputsDistinct)
    (hdistinct : (definition.arguments.map (·.name)).Nodup) (hd : d ∈ definition.arguments)
    (hn : d.name ≠ typename) (ha : d.name ∉ after.map (·.name)) (hx : bindings.get? x = some none)
    (h : LeavesOut schema field (.var x) d.type v v') :
    NullFor field
      (argumentsOf schema bindings head definition (before ++ ⟨d.name, place, v⟩ :: after))
      (argumentsOf schema bindings head definition (before ++ ⟨d.name, place, v'⟩ :: after)) := by
  have hstrays : strays definition.arguments (counted (before ++ ⟨d.name, place, v⟩ :: after)) =
      strays definition.arguments (counted (before ++ ⟨d.name, place, v'⟩ :: after)) := by
    rw [strays, strays, names_counted, names_counted]
    simp
  rw [argumentsOf, argumentsOf, arguments_eq, arguments_eq]
  simp only [hstrays]
  refine nullFor_bind (nullFor_collected hdistinct hd ?_ fun other _ hne => ?_) ?_
  · rw [argumentValue_eq, argumentValue_eq, writtenValue_last hn ha, writtenValue_last hn ha]
    exact nullFor_resolved hi hx h
  · rw [argumentValue_eq, argumentValue_eq, writtenValue_insert (.inl hne.symm),
      writtenValue_insert (.inl hne.symm)]
  · cases strays definition.arguments (counted (before ++ ⟨d.name, place, v'⟩ :: after)) with
    | nil => exact .inr ⟨id, Function.injective_id, fun _ => rfl⟩
    | cons stray rest => exact .inl ⟨_, fun _ => rfl⟩

/-- A variable without a value is as good as left out where it is a declared argument. Where it is a
field of an input object, at any depth in an argument, it is null instead. So where the field may be
left out at all, the arguments are the same if and only if the field may be null and null is its
default, too. -/
theorem unset_field_is_null (hi : schema.InputsDistinct)
    (hdistinct : (definition.arguments.map (·.name)).Nodup) (hd : d ∈ definition.arguments)
    (hx : bindings.get? x = some none) (head : FieldHead) (place : Position)
    (before after : List Argument) (ha : d.name ∉ after.map (·.name)) :
    (d.name ∉ before.map (·.name) →
      argumentsOf schema bindings head definition (before ++ ⟨d.name, place, .var x⟩ :: after) =
        argumentsOf schema bindings head definition (before ++ after)) ∧
    ∀ v v', LeavesOut schema field (.var x) d.type v v' → d.name ≠ typename →
      let given :=
        argumentsOf schema bindings head definition (before ++ ⟨d.name, place, v⟩ :: after)
      let left :=
        argumentsOf schema bindings head definition (before ++ ⟨d.name, place, v'⟩ :: after)
      NullFor field given left ∧ ∀ values, left = .ok values →
        (given = .ok values ↔ field.type.nullable = true ∧ field.default = some .null) := by
  refine ⟨fun hb => argumentsOf_unset hd hb ha hx, fun v v' hl hn => ?_⟩
  intro given left
  have h : NullFor field given left := nullFor_argumentsOf hi hdistinct hd hn ha hx hl
  refine ⟨h, fun values hv => ?_⟩
  rw [hv] at h
  exact eq_ok_iff_of_nullFor h

end Plan

end GraphGate

namespace GraphGate.Sample

open Query Plan

/-- The field `find(where: Order)`. -/
def findOrder : FieldDefinition Unit :=
  ⟨⟨"find", .named "Boolean" true, [⟨"where", .named "Order" true, none⟩]⟩, .default⟩

/-- The field as it is written, less its arguments. -/
def findHead : FieldHead := ⟨⟨1, 19⟩, none, "find", [], []⟩

/-- The field `limit: Int = 10` of `Order`. -/
def limitField : ArgumentDefinition := ⟨"limit", .named "Int" true, some (.num (.int 10))⟩

theorem leavesOut_limit : LeavesOut orderSchema limitField (.var "x") (.named "Order" true)
    (.object [("title", .enum "ASC"), ("limit", .var "x")]) (.object [("title", .enum "ASC")]) := by
  have hd : DeclaresField orderSchema "Order" limitField :=
    ⟨"Order", orderFields, by cbv, by simp [orderFields, limitField]⟩
  have hb : limitField.name ∉ Table.names [("title", (.enum "ASC" : Literal))] := by decide
  exact .here hd hb List.not_mem_nil

/-- With `$x` unset, `find(where: {title: ASC, limit: $x})` is not `find(where: {title: ASC})`. -/
theorem unset_field_is_null_limit :
    argumentsOf orderSchema [("x", none)] findHead findOrder
        [⟨"where", ⟨1, 24⟩, .object [("title", .enum "ASC")]⟩] =
      .ok [("where", .obj [("title", .str "ASC"), ("limit", .num (.int 10))])] ∧
    argumentsOf orderSchema [("x", none)] findHead findOrder
        [⟨"where", ⟨1, 24⟩, .object [("title", .enum "ASC"), ("limit", .var "x")]⟩] ≠
      .ok [("where", .obj [("title", .str "ASC"), ("limit", .num (.int 10))])] := by
  have hleft : argumentsOf orderSchema [("x", none)] findHead findOrder
      [⟨"where", ⟨1, 24⟩, .object [("title", .enum "ASC")]⟩] =
        .ok [("where", .obj [("title", .str "ASC"), ("limit", .num (.int 10))])] := by cbv
  have hx : Table.get? "x" ([("x", none)] : Bindings) = some none := rfl
  have hdistinct : (findOrder.arguments.map (·.name)).Nodup := List.nodup_singleton _
  obtain ⟨-, hfields⟩ := unset_field_is_null inputsDistinct_order hdistinct List.mem_cons_self hx
    findHead ⟨1, 24⟩ [] [] List.not_mem_nil
  obtain ⟨-, hsame⟩ := hfields _ _ leavesOut_limit (by decide)
  refine ⟨hleft, fun hgiven => ?_⟩
  obtain ⟨-, hnull⟩ := (hsame _ hleft).mp hgiven
  cases hnull

/-- There it is null, and hides the default. -/
theorem argumentsOf_limit :
    argumentsOf orderSchema [("x", none)] findHead findOrder
        [⟨"where", ⟨1, 24⟩, .object [("title", .enum "ASC"), ("limit", .var "x")]⟩] =
      .ok [("where", .obj [("title", .str "ASC"), ("limit", .null)])] ∧
    argumentsOf orderSchema [("x", none)] findHead findOrder
        [⟨"where", ⟨1, 24⟩, .object [("title", .enum "ASC")]⟩] =
      .ok [("where", .obj [("title", .str "ASC"), ("limit", .num (.int 10))])] := by
  constructor <;> cbv

end GraphGate.Sample
