import GraphGate.Proofs.Table
import GraphGate.Verbosity

/-! Environments in layers answer as one map, in which each key has its text from the first map that
has the key. A text is read only after it is found, so one that cannot be read hides those behind it
like any other. -/
namespace GraphGate

/-- Of maps in a row, the first that has the key has this text for it. -/
def FirstHolds (tables : List (Table String)) (key text : String) : Prop :=
  ∃ before table after, tables = before ++ table :: after ∧
    (∀ other ∈ before, Table.get? key other = none) ∧ Table.get? key table = some text

theorem firstHolds_iff {tables : List (Table String)} {key text : String} :
    tables.findSome? (Table.get? key) = some text ↔ FirstHolds tables key text := by
  rw [List.findSome?_eq_some_iff]
  constructor
  · rintro ⟨before, table, after, he, ht, hb⟩
    exact ⟨before, table, after, he, hb, ht⟩
  · rintro ⟨before, table, after, he, hb, ht⟩
    exact ⟨before, table, after, he, ht, hb⟩

/-- Maps in a row as one. -/
def overlaid (tables : List (Table String)) : Table String := .ofPairs tables.flatten.reverse

theorem get?_overlaid (tables : List (Table String)) (key : String) :
    (overlaid tables).get? key = tables.findSome? (Table.get? key) := by
  have hfind : ∀ table : Table String,
      Table.get? key table = (table.find? (·.1 = key)).map Prod.snd := by
    intro table
    induction table with
    | nil => rfl
    | cons pair rest ih =>
      obtain ⟨k, v⟩ := pair
      rw [Table.get?, List.find?_cons, ih]
      by_cases hk : k = key <;> simp [hk]
  rw [overlaid, Table.get?_ofPairs, List.reverse_reverse, ← hfind]
  induction tables with
  | nil => rfl
  | cons table rest ih =>
    rw [List.flatten_cons, hfind, List.find?_append, Option.map_or, ← hfind, ← hfind, ih,
      List.findSome?_cons]
    cases Table.get? key table <;> rfl

namespace Environment

mutual

/-- The maps of an environment, each in front of those that it hides. -/
def tables : Environment → List (Table String)
  | .table values => [values]
  | .layered layers => tablesOf layers

def tablesOf : List Environment → List (Table String)
  | [] => []
  | layer :: rest => tables layer ++ tablesOf rest

end

variable {env env' : Environment} {key value text : String} {layers layers' : List Environment}

theorem tablesOf_append : tablesOf (layers ++ layers') = tablesOf layers ++ tablesOf layers' := by
  induction layers with
  | nil => rfl
  | cons layer rest ih => rw [List.cons_append, tablesOf, tablesOf, ih, List.append_assoc]

theorem tablesOf_map_table (tables : List (Table String)) :
    tablesOf (tables.map .table) = tables := by
  induction tables with
  | nil => rfl
  | cons table rest ih =>
    rw [List.map_cons, tablesOf, Environment.tables, ih, List.singleton_append]

mutual

theorem get?_eq_findSome? (key : String) :
    ∀ env : Environment, env.get? key = env.tables.findSome? (Table.get? key)
  | .table values => by
    rw [get?, tables, List.findSome?_singleton]
  | .layered layers => firstOf_eq_findSome? key layers

theorem firstOf_eq_findSome? (key : String) :
    ∀ layers, firstOf key layers = (tablesOf layers).findSome? (Table.get? key)
  | [] => rfl
  | layer :: rest => by
    rw [firstOf, tablesOf, List.findSome?_append, get?_eq_findSome? key layer,
      firstOf_eq_findSome? key rest]

end

/-- Two environments of which each getter gives the same, errors among them. -/
structure AnswersAs (env env' : Environment) : Prop where
  get? : ∀ key, env.get? key = env'.get? key
  getOrElse : ∀ key default, env.getOrElse key default = env'.getOrElse key default
  enabled : ∀ key default, env.enabled key default = env'.enabled key default
  list : ∀ key default, env.list key default = env'.list key default
  number? : ∀ format key, env.number? format key = env'.number? format key
  depthLimit : env.depthLimit = env'.depthLimit
  timeout : env.timeout = env'.timeout
  options : env.options = env'.options
  operationCheck : env.operationCheck = env'.operationCheck
  fieldCheck : env.fieldCheck = env'.fieldCheck
  capabilities : env.capabilities = env'.capabilities
  deniedOperations : env.deniedOperations = env'.deniedOperations
  deniedFields : env.deniedFields = env'.deniedFields
  denyList : env.denyList = env'.denyList
  parallelOperations : env.parallelOperations = env'.parallelOperations
  setup : ∀ log : Log, log.setup env = log.setup env'

/-- All getters look a text up first, and know nothing of layers. -/
theorem answersAs_of_get? (h : ∀ key, env.get? key = env'.get? key) : env.AnswersAs env' := by
  have hgetOrElse : ∀ key default, env.getOrElse key default = env'.getOrElse key default :=
    fun key default => by rw [getOrElse, getOrElse, h]
  have henabled : ∀ key default, env.enabled key default = env'.enabled key default :=
    fun key default => by rw [enabled, enabled, h]
  have hlist : ∀ key default, env.list key default = env'.list key default :=
    fun key default => by rw [list, list, h]
  have hnumber : ∀ format key, env.number? format key = env'.number? format key :=
    fun format key => by rw [number?, number?, h]
  have hdepthLimit : env.depthLimit = env'.depthLimit := by rw [depthLimit, depthLimit, hnumber]
  have htimeout : env.timeout = env'.timeout := by rw [timeout, timeout, hnumber]
  have hoperationCheck : env.operationCheck = env'.operationCheck := henabled _ _
  have hfieldCheck : env.fieldCheck = env'.fieldCheck := henabled _ _
  have hdeniedOperations : env.deniedOperations = env'.deniedOperations := hlist _ _
  have hdeniedFields : env.deniedFields = env'.deniedFields := hlist _ _
  exact {
    get? := h
    getOrElse := hgetOrElse
    enabled := henabled
    list := hlist
    number? := hnumber
    depthLimit := hdepthLimit
    timeout := htimeout
    options := by rw [options, options, htimeout, hdepthLimit]
    operationCheck := hoperationCheck
    fieldCheck := hfieldCheck
    capabilities := by rw [capabilities, capabilities, hoperationCheck, hfieldCheck]
    deniedOperations := hdeniedOperations
    deniedFields := hdeniedFields
    denyList := by rw [denyList, denyList, hdeniedOperations, hdeniedFields]
    parallelOperations := henabled _ _
    setup := fun log => by rw [Log.setup, Log.setup, hgetOrElse] }

theorem answersAs_of_tables (h : env.tables = env'.tables) : env.AnswersAs env' :=
  answersAs_of_get? fun key => by rw [get?_eq_findSome?, get?_eq_findSome?, h]

theorem answersAs_overlaid (env : Environment) : env.AnswersAs (.table (overlaid env.tables)) :=
  answersAs_of_get? fun key => by rw [get?_eq_findSome?, get?, get?_overlaid]

/-- Layers within layers may as well stand in one row. -/
theorem tables_flattened (before inner after : List Environment) :
    (layered (before ++ layered inner :: after)).tables =
      (layered (before ++ inner ++ after)).tables := by
  rw [tables, tables, tablesOf_append, tablesOf_append, tablesOf_append, tablesOf, tables,
    List.append_assoc]

/-- A text to put under a key of the map at a place: the layer to go to, the layer in that one, and
so on. -/
structure Edit where
  path : List Nat
  key : String
  value : String

/-- Puts a text under a key of the map at a place, if there is one. -/
def setAt (key value : String) : List Nat → Environment → Environment
  | [], env => env.set key value
  | n :: path, .layered layers => .layered (layers.modify n (setAt key value path))
  | _ :: _, .table values => .table values

def edited (env : Environment) (edit : Edit) : Environment :=
  env.setAt edit.key edit.value edit.path

theorem setLayer_eq_edited (n : Nat) : env.setLayer n key value = env.edited ⟨[n], key, value⟩ := by
  cases env <;> rfl

/-- The maps in front of the one at a place. -/
def front? : List Nat → Environment → Option (List (Table String))
  | [], .table _ => some []
  | n :: path, .layered layers =>
    layers[n]?.bind fun layer => (front? path layer).map (tablesOf (layers.take n) ++ ·)
  | [], .layered _ => none
  | _ :: _, .table _ => none

variable {path : List Nat} {front : List (Table String)}

/-- One map is changed, and it stays where it was. -/
theorem tables_setAt (key value : String) (h : front? path env = some front) :
    ∃ values behind, env.tables = front ++ values :: behind ∧
      (env.setAt key value path).tables = front ++ values.put key value :: behind := by
  induction path generalizing env front with
  | nil =>
    cases env with
    | table values =>
      cases h
      exact ⟨values, [], rfl, rfl⟩
    | layered => cases h
  | cons n path ih =>
    cases env with
    | table => cases h
    | layered layers =>
      obtain ⟨layer, hl, h⟩ := Option.bind_eq_some_iff.mp h
      obtain ⟨inner, hi, rfl⟩ := Option.map_eq_some_iff.mp h
      obtain ⟨hn, rfl⟩ := List.getElem?_eq_some_iff.mp hl
      obtain ⟨values, behind, ht, hs⟩ := ih hi
      -- The layers around the one that is gone into keep their maps.
      have hsplit : layers = layers.take n ++ layers[n] :: layers.drop (n + 1) := by simp
      refine ⟨values, behind ++ tablesOf (layers.drop (n + 1)), ?_, ?_⟩
      · conv_lhs => rw [hsplit]
        rw [tables, tablesOf_append, tablesOf, ht]
        simp
      · rw [setAt, tables, List.modify_eq_take_cons_drop hn, tablesOf_append, tablesOf, hs]
        simp

/-- Where there is no map, nothing is changed. -/
theorem setAt_of_front?_eq_none (h : front? path env = none) : env.setAt key value path = env := by
  induction path generalizing env with
  | nil =>
    cases env with
    | table => cases h
    | layered => rfl
  | cons n path ih =>
    cases env with
    | table => rfl
    | layered layers =>
      rw [setAt]
      cases hl : layers[n]? with
      | none =>
        rw [List.modify_eq_self (List.getElem?_eq_none_iff.mp hl)]
      | some layer =>
        obtain ⟨hn, rfl⟩ := List.getElem?_eq_some_iff.mp hl
        have hi : front? path layers[n] = none := by
          rw [front?, hl, Option.bind_some, Option.map_eq_none_iff] at h
          exact h
        rw [List.modify_eq_take_cons_drop hn, ih hi]
        simp

/-- An edit shows if it is made to a map and none in front of that one has the key. -/
def shows (env : Environment) (edit : Edit) : Bool :=
  match front? edit.path env with
  | some front => front.all fun table => !Table.has edit.key table
  | none => false

theorem shows_iff {edit : Edit} (h : front? edit.path env = some front) :
    env.shows edit = true ↔ front.findSome? (Table.get? edit.key) = none := by
  rw [shows, h, List.all_eq_true, List.findSome?_eq_none_iff]
  simp [Table.has]

/-- What one edit does: it decides the text of its key if it shows, and nothing else. -/
theorem get?_edited (env : Environment) (edit : Edit) (key : String) :
    (env.edited edit).get? key =
      if env.shows edit = true ∧ edit.key = key then some edit.value else env.get? key := by
  cases hf : front? edit.path env with
  | none =>
    have hs : env.shows edit = false := by rw [shows, hf]
    rw [edited, setAt_of_front?_eq_none hf, if_neg (by simp [hs])]
  | some front =>
    obtain ⟨values, behind, ht, hs⟩ := tables_setAt edit.key edit.value hf
    rw [get?_eq_findSome?, get?_eq_findSome?, edited, hs, ht, List.findSome?_append,
      List.findSome?_append, List.findSome?_cons, List.findSome?_cons, Table.get?_put]
    -- Only under the key of the edit does it matter what the maps in front have.
    by_cases hk : edit.key = key
    · subst hk
      have hshows := shows_iff hf
      cases hfront : front.findSome? (Table.get? edit.key) with
      | none => simp [hshows.mpr hfront]
      | some text => simp [hshows, hfront]
    · simp [hk]

/-- One map, after the edits that show are made to it, too. -/
def followed (env : Environment) (single : Table String) : List Edit → Table String
  | [] => single
  | edit :: rest =>
    followed (env.edited edit)
      (if env.shows edit then single.put edit.key edit.value else single) rest

/-- An edit that shows is as good as made to the one map; one that does not is as good as none. -/
theorem get?_followed {single : Table String} (h : ∀ key, env.get? key = single.get? key)
    (edits : List Edit) (key : String) :
    (edits.foldl edited env).get? key = (followed env single edits).get? key := by
  -- Whether an edit shows depends on those before it, so the environment goes along with the map.
  induction edits generalizing env single with
  | nil => exact h key
  | cons edit rest ih =>
    rw [List.foldl_cons, followed]
    refine ih fun key => ?_
    rw [get?_edited, h]
    cases env.shows edit with
    | true =>
      rw [if_pos rfl, Table.get?_put]
      simp
    | false => simp

theorem nodup_followed {single : Table String} (h : single.names.Nodup) (edits : List Edit) :
    (followed env single edits).names.Nodup := by
  induction edits generalizing env single with
  | nil => exact h
  | cons edit rest ih =>
    rw [followed]
    refine ih ?_
    split
    · exact Table.nodup_put h
    · exact h

/-- What cannot be read is told under its key, whatever else there is. -/
theorem errors_of_unreadable (h : env.get? key = some text) :
    (switchValue? text = none → ∀ default,
      env.enabled key default = .error (.invalidBoolean key text)) ∧
    ∀ format : NumberFormat, format.parse? (Text.stripped Text.isBlank text.toList) = none →
      env.number? format key = .error (.invalidNumber key text) := by
  refine ⟨fun hread default => ?_, fun format hread => ?_⟩
  · simp only [enabled, h, hread]
  · simp only [number?, h, hread]

/-- Environments in layers, and in layers of layers, answer as one map, whatever texts are put into
their maps. For each key it has the text of the first map that has the key: a text put into a layer
is put into the one map as well, unless there is one of its key in front. The same maps in one row
answer the same. A text that cannot be read is an error, whatever is behind it, and a text that is
put behind another of its key changes no answer. -/
theorem layers_answer_as_one_map (env : Environment) (edits : List Edit) :
    let settled := edits.foldl edited env
    let single := followed env (overlaid env.tables) edits
    single.names.Nodup ∧
    (∀ key text, single.get? key = some text ↔ FirstHolds settled.tables key text) ∧
    settled.AnswersAs (.table single) ∧
    settled.AnswersAs (.layered (settled.tables.map .table)) ∧
    (∀ before inner after, settled = .layered (before ++ .layered inner :: after) →
      settled.AnswersAs (.layered (before ++ inner ++ after))) ∧
    (∀ key text, FirstHolds settled.tables key text →
      (switchValue? text = none → ∀ default,
        settled.enabled key default = .error (.invalidBoolean key text)) ∧
      ∀ format : NumberFormat, format.parse? (Text.stripped Text.isBlank text.toList) = none →
        settled.number? format key = .error (.invalidNumber key text)) ∧
    ∀ edit front, front? edit.path settled = some front →
      (∃ table ∈ front, Table.get? edit.key table ≠ none) →
        (settled.edited edit).AnswersAs settled := by
  intro settled single
  have hsingle : ∀ key, settled.get? key = single.get? key :=
    get?_followed (answersAs_overlaid env).get? edits
  have hfirst : ∀ key text, settled.get? key = some text ↔ FirstHolds settled.tables key text :=
    fun key text => by rw [get?_eq_findSome?, firstHolds_iff]
  refine ⟨nodup_followed (Table.nodup_ofPairs _) edits, fun key text => ?_,
    answersAs_of_get? hsingle, answersAs_of_tables ?_, fun before inner after he => ?_,
    fun key text h => errors_of_unreadable ((hfirst key text).mpr h),
    fun edit front hf hhidden => ?_⟩
  · rw [← hsingle, hfirst]
  · rw [tables, tablesOf_map_table]
  · rw [he]
    exact answersAs_of_tables (tables_flattened before inner after)
  · refine answersAs_of_get? fun key => ?_
    have hnot : ¬ settled.shows edit = true := by
      rw [shows_iff hf, List.findSome?_eq_none_iff]
      obtain ⟨table, hm, ht⟩ := hhidden
      exact fun hnone => ht (hnone table hm)
    rw [get?_edited, if_neg fun h => hnot h.1]

end Environment

end GraphGate

namespace GraphGate.Sample

open Environment

/-- A depth limit that cannot be read, in front of layers of which the last has one that can. -/
def layeredSettings : Environment :=
  .layered [.table [(Setting.depthLimit, "ten")],
    .layered [.table [], .table [(Setting.depthLimit, "8")]]]

/-- The depth limit is an error, also after another one is put between the two. -/
theorem layers_answer_as_one_map_unreadable :
    let settled := [⟨[1, 0], Setting.depthLimit, "12"⟩].foldl edited layeredSettings
    settled.tables = [[(Setting.depthLimit, "ten")], [(Setting.depthLimit, "12")],
      [(Setting.depthLimit, "8")]] ∧
    settled.depthLimit = .error (.invalidNumber Setting.depthLimit "ten") ∧
    (settled.edited ⟨[1, 1], Setting.depthLimit, "16"⟩).AnswersAs settled := by
  obtain ⟨-, -, -, -, -, hunreadable, hhidden⟩ :=
    layers_answer_as_one_map layeredSettings [⟨[1, 0], Setting.depthLimit, "12"⟩]
  have hten : FirstHolds ([⟨[1, 0], Setting.depthLimit, "12"⟩].foldl edited layeredSettings).tables
      Setting.depthLimit "ten" :=
    ⟨[], _, _, rfl, List.forall_mem_nil _, by decide⟩
  have hnumber := (hunreadable _ _ hten).2 (.unsigned 64) (by decide)
  refine ⟨rfl, ?_, hhidden ⟨[1, 1], Setting.depthLimit, "16"⟩ _ rfl ?_⟩
  · rw [Environment.depthLimit, hnumber]
    rfl
  · exact ⟨[(Setting.depthLimit, "ten")], List.mem_cons_self, by decide⟩

end GraphGate.Sample
