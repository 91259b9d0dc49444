import GraphGate.Table
import Mathlib.Data.List.Forall2
import Mathlib.Data.List.Induction

/-! Tables of distinct names: putting the pairs in order gives them back. Tables with the same
names: what is found in the one is found in the other. -/
namespace GraphGate.Table

variable {α : Type} {table : Table α} {name : String}

theorem put_of_absent {v : α} (h : name ∉ table.names) :
    table.put name v = table ++ [(name, v)] := by
  induction table with
  | nil => rfl
  | cons pair rest ih =>
    obtain ⟨k, w⟩ := pair
    simp only [names, List.map_cons, List.mem_cons, not_or] at h
    rw [put, if_neg (Ne.symm h.1), ih h.2, List.cons_append]

theorem foldl_put_of_nodup {pairs : List (String × α)} (h : (names (table ++ pairs)).Nodup) :
    pairs.foldl (fun table (k, v) => put k v table) table = table ++ pairs := by
  induction pairs generalizing table with
  | nil => rw [List.foldl_nil, List.append_nil]
  | cons pair rest ih =>
    obtain ⟨k, v⟩ := pair
    have hk : k ∉ table.names := by
      intro hk
      rw [names, List.map_append, List.nodup_append] at h
      exact h.2.2 k hk k (by simp) rfl
    rw [List.append_cons] at h ⊢
    rw [List.foldl_cons]
    simp only [put_of_absent hk]
    exact ih h

theorem ofPairs_of_nodup {pairs : List (String × α)} (h : (names pairs).Nodup) :
    ofPairs pairs = pairs :=
  foldl_put_of_nodup h

theorem get?_put {v : α} {key : String} :
    (table.put key v).get? name = if key = name then some v else table.get? name := by
  induction table with
  | nil => rfl
  | cons pair rest ih =>
    obtain ⟨k, w⟩ := pair
    rw [put]
    split
    · next hk =>
      subst hk
      rw [get?, get?]
      split <;> rfl
    · next hk =>
      rw [get?, get?, ih]
      split
      · next hn =>
        subst hn
        rw [if_neg (Ne.symm hk)]
      · rfl

theorem get?_foldl_put {pairs : List (String × α)} :
    (pairs.foldl (fun table (k, v) => put k v table) table).get? name =
      ((pairs.reverse.find? (·.1 = name)).map Prod.snd).or (table.get? name) := by
  induction pairs generalizing table with
  | nil => rfl
  | cons pair rest ih =>
    obtain ⟨k, v⟩ := pair
    rw [List.foldl_cons, ih, List.reverse_cons, List.find?_append, get?_put]
    cases rest.reverse.find? (·.1 = name) with
    | some _ => rfl
    | none =>
      by_cases hk : k = name
      · simp [hk]
      · simp [hk]

/-- The last value of a name counts. -/
theorem get?_ofPairs {pairs : List (String × α)} :
    (ofPairs pairs).get? name = (pairs.reverse.find? (·.1 = name)).map Prod.snd := by
  rw [ofPairs, get?_foldl_put]
  exact Option.or_none

theorem get?_of_absent (h : name ∉ table.names) : table.get? name = none := by
  induction table with
  | nil => rfl
  | cons pair rest ih =>
    obtain ⟨k, v⟩ := pair
    simp only [names, List.map_cons, List.mem_cons, not_or] at h
    rw [get?, if_neg (Ne.symm h.1), ih h.2]

theorem get?_insert {before after : Table α} {v : α} {key : String} (hb : name ∉ before.names) :
    get? key (before ++ (name, v) :: after) =
      if name = key then some v else get? key (before ++ after) := by
  induction before with
  | nil => rfl
  | cons pair before ih =>
    obtain ⟨k, w⟩ := pair
    simp only [names, List.map_cons, List.mem_cons, not_or] at hb
    rw [List.cons_append, List.cons_append, get?, get?, ih hb.2]
    by_cases hk : k = key
    · have hne : name ≠ key := fun he => hb.1 (he.trans hk.symm)
      rw [if_pos hk, if_neg hne, if_pos hk]
    · rw [if_neg hk, if_neg hk]

theorem exists_of_mem_names (h : name ∈ table.names) : ∃ v, table.get? name = some v := by
  induction table with
  | nil => cases h
  | cons pair rest ih =>
    obtain ⟨k, w⟩ := pair
    rw [get?]
    split
    · exact ⟨w, rfl⟩
    · next hk =>
      rcases List.mem_cons.mp h with he | h
      · exact absurd he.symm hk
      · exact ih h

theorem mem_of_get? {v : α} (h : table.get? name = some v) : (name, v) ∈ table := by
  induction table with
  | nil => cases h
  | cons pair rest ih =>
    obtain ⟨k, w⟩ := pair
    rw [get?] at h
    split at h
    · next hk =>
      cases h
      rw [hk]
      exact .head _
    · exact .tail _ (ih h)

theorem get?_of_mem {v : α} (hn : table.names.Nodup) (hm : (name, v) ∈ table) :
    table.get? name = some v := by
  induction table with
  | nil => cases hm
  | cons pair rest ih =>
    obtain ⟨k, w⟩ := pair
    obtain ⟨hk, hrest⟩ := List.nodup_cons.mp hn
    rcases List.mem_cons.mp hm with he | hm
    · cases he
      exact if_pos rfl
    · have hne : k ≠ name := by
        rintro rfl
        exact hk (List.mem_map.mpr ⟨_, hm, rfl⟩)
      exact (if_neg hne).trans (ih hrest hm)

/-- The order of distinct names makes no difference to what is found under them. -/
theorem get?_of_perm {table' : Table α} (hp : table.Perm table') (hn : table.names.Nodup) :
    table'.get? name = table.get? name := by
  have hn' : table'.names.Nodup := (hp.map Prod.fst).nodup_iff.mp hn
  cases hv : table.get? name with
  | some v => exact get?_of_mem hn' (hp.mem_iff.mp (mem_of_get? hv))
  | none =>
    cases hv' : table'.get? name with
    | none => rfl
    | some v =>
      rw [get?_of_mem hn (hp.mem_iff.mpr (mem_of_get? hv'))] at hv
      cases hv

theorem names_put {v : α} :
    (table.put name v).names =
      if name ∈ table.names then table.names else table.names ++ [name] := by
  induction table with
  | nil => rfl
  | cons pair rest ih =>
    obtain ⟨k, w⟩ := pair
    have hcons : ∀ rest : Table α, names ((k, w) :: rest) = k :: names rest := fun _ => rfl
    rw [put]
    by_cases hk : k = name
    · subst hk
      simp [names]
    · rw [if_neg hk, hcons, hcons, ih]
      by_cases hn : name ∈ names rest
      · simp [hn]
      · simp [hn, Ne.symm hk]

theorem nodup_put {v : α} (h : table.names.Nodup) : (table.put name v).names.Nodup := by
  rw [names_put]
  split
  · exact h
  · next hn =>
    refine List.nodup_append.mpr ⟨h, List.nodup_cons.mpr ⟨List.not_mem_nil, .nil⟩, ?_⟩
    intro key hk other ho he
    obtain rfl := List.mem_singleton.mp ho
    exact hn (he ▸ hk)

theorem nodup_ofPairs (pairs : List (String × α)) : (ofPairs pairs).names.Nodup := by
  induction pairs using List.reverseRecOn with
  | nil => exact List.nodup_nil
  | append_singleton pairs pair ih =>
    rw [ofPairs, List.foldl_append]
    exact nodup_put ih

theorem eraseDups_snoc (names : List String) (name : String) :
    (names ++ [name]).eraseDups =
      if name ∈ names then names.eraseDups else names.eraseDups ++ [name] := by
  rw [List.eraseDups_append]
  split
  · next h => simp [List.removeAll, h]
  · next h => simp [List.removeAll, h, List.eraseDups_cons]

/-- Every name stands where it came first. -/
theorem names_ofPairs (pairs : List (String × α)) :
    (ofPairs pairs).names = (pairs.map Prod.fst).eraseDups := by
  induction pairs using List.reverseRecOn with
  | nil => rfl
  | append_singleton pairs pair ih =>
    have hput : ofPairs (pairs ++ [pair]) = (ofPairs pairs).put pair.1 pair.2 := by
      rw [ofPairs, List.foldl_append]
      rfl
    rw [hput, names_put, ih, List.map_append, List.map_singleton, eraseDups_snoc]
    simp only [List.mem_eraseDups]

/-- What is left of a table without a name. -/
def without (key : String) (table : Table α) : Table α := table.filter (·.1 ≠ key)

theorem get?_without {key : String} :
    (table.without key).get? name = if name = key then none else table.get? name := by
  induction table with
  | nil => simp [without, get?]
  | cons pair rest ih =>
    obtain ⟨k, v⟩ := pair
    by_cases hk : k = key
    · have hdrop : without key ((k, v) :: rest) = without key rest := by simp [without, hk]
      rw [hdrop, ih, get?, hk]
      by_cases hn : name = key
      · simp [hn]
      · simp [hn, Ne.symm hn]
    · have hkeep : without key ((k, v) :: rest) = (k, v) :: without key rest := by
        simp [without, hk]
      rw [hkeep, get?, get?, ih]
      by_cases hn : k = name
      · simp [hn, hn ▸ hk]
      · simp [hn]

section FilterMap

variable {δ : Type} {key : δ → String} {f : δ → Option α} {ds : List δ}

theorem names_filterMap :
    (names (ds.filterMap fun d => (f d).map fun v => (key d, v))).Sublist (ds.map key) := by
  induction ds with
  | nil => exact .slnil
  | cons d rest ih =>
    rw [List.filterMap_cons]
    cases f d with
    | none => exact ih.cons _
    | some v => exact ih.cons_cons _

/-- A name that is given once has what was found for it. -/
theorem get?_filterMap (hd : (ds.map key).Nodup) {d : δ} (hm : d ∈ ds) :
    get? (key d) (ds.filterMap fun d => (f d).map fun v => (key d, v)) = f d := by
  induction ds with
  | nil => cases hm
  | cons first rest ih =>
    obtain ⟨hfirst, hrest⟩ := List.nodup_cons.mp hd
    rw [List.filterMap_cons]
    rcases List.mem_cons.mp hm with rfl | hm
    · have habsent := get?_of_absent fun hn => hfirst ((names_filterMap (f := f)).subset hn)
      cases hf : f d with
      | none => simpa using habsent
      | some v => exact if_pos rfl
    · have hne : key first ≠ key d := fun he => hfirst (List.mem_map.mpr ⟨d, hm, he.symm⟩)
      cases f first with
      | none => exact ih hrest hm
      | some v => exact (if_neg hne).trans (ih hrest hm)

end FilterMap

section MapValues

variable {β : Type} {f : String → α → β}

/-- Every value is changed under its name. -/
def mapValues (f : String → α → β) (table : Table α) : Table β :=
  table.map fun pair => (pair.1, f pair.1 pair.2)

theorem mapValues_cons {table : Table α} {name : String} {v : α} :
    mapValues f ((name, v) :: table) = (name, f name v) :: mapValues f table := rfl

theorem get?_mapValues {table : Table α} {name : String} :
    get? name (mapValues f table) = (get? name table).map (f name) := by
  induction table with
  | nil => rfl
  | cons pair rest ih =>
    obtain ⟨k, v⟩ := pair
    rw [mapValues_cons, get?, get?]
    by_cases hk : k = name
    · rw [if_pos hk, if_pos hk, hk, Option.map_some]
    · rw [if_neg hk, if_neg hk]
      exact ih

theorem put_mapValues {table : Table α} {name : String} {v : α} :
    put name (f name v) (mapValues f table) = mapValues f (put name v table) := by
  induction table with
  | nil => rfl
  | cons pair rest ih =>
    obtain ⟨k, w⟩ := pair
    rw [mapValues_cons, put, put]
    by_cases hk : k = name
    · rw [if_pos hk, if_pos hk, mapValues_cons, hk]
    · rw [if_neg hk, if_neg hk, mapValues_cons, ih]

theorem foldl_mapValues {pairs : List (String × α)} {table : Table α} :
    (mapValues f pairs).foldl (fun table (k, v) => put k v table) (mapValues f table) =
      mapValues f (pairs.foldl (fun table (k, v) => put k v table) table) := by
  induction pairs generalizing table with
  | nil => rfl
  | cons pair rest ih =>
    obtain ⟨k, v⟩ := pair
    rw [mapValues_cons, List.foldl_cons, List.foldl_cons]
    simp only [put_mapValues]
    exact ih

/-- Values may be changed before or after the names are brought together. -/
theorem ofPairs_mapValues {pairs : List (String × α)} :
    ofPairs (mapValues f pairs) = mapValues f (ofPairs pairs) := by
  have h := @foldl_mapValues _ _ f pairs []
  exact h

end MapValues

/-- The same names in the same places, and related values under them. -/
def Related {β : Type} (R : α → β → Prop) (table : Table α) (table' : Table β) : Prop :=
  List.Forall₂ (fun pair pair' => pair'.1 = pair.1 ∧ R pair.2 pair'.2) table table'

theorem related_refl {R : α → α → Prop} (h : ∀ v, R v v) : Related R table table :=
  List.forall₂_same.mpr fun pair _ => ⟨rfl, h pair.2⟩

theorem related_mapValues {β : Type} {R : α → β → Prop} {f : String → α → β}
    (h : ∀ pair ∈ table, R pair.2 (f pair.1 pair.2)) : Related R table (mapValues f table) :=
  List.forall₂_map_right_iff.mpr (List.forall₂_same.mpr fun pair hm => ⟨rfl, h pair hm⟩)

theorem related_get? {β : Type} {R : α → β → Prop} {table' : Table β} (h : Related R table table')
    (name : String) : Option.Rel R (table.get? name) (table'.get? name) := by
  induction h with
  | nil => exact .none
  | @cons pair pair' _ _ hr _ ih =>
    obtain ⟨k, v⟩ := pair
    obtain ⟨k', v'⟩ := pair'
    obtain ⟨rfl, hr⟩ := hr
    rw [get?, get?]
    split
    · exact .some hr
    · exact ih

theorem exists_right_of_related {β : Type} {R : α → β → Prop} {table' : Table β}
    (h : Related R table table') {v : α} (hv : table.get? name = some v) :
    ∃ v', table'.get? name = some v' ∧ R v v' := by
  have hr := related_get? h name
  rw [hv] at hr
  generalize table'.get? name = found at hr
  cases hr with
  | some hr => exact ⟨_, rfl, hr⟩

theorem exists_left_of_related {β : Type} {R : α → β → Prop} {table' : Table β}
    (h : Related R table table') {v' : β} (hv : table'.get? name = some v') :
    ∃ v, table.get? name = some v ∧ R v v' := by
  have hr := related_get? h name
  rw [hv] at hr
  generalize table.get? name = found at hr
  cases hr with
  | some hr => exact ⟨_, rfl, hr⟩

end GraphGate.Table
