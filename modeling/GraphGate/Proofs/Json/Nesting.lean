import GraphGate.Json.Reader
import GraphGate.Proofs.Table

/-! How deep values nest, and that what is read from a text nests no deeper than the reader
allows. -/
namespace GraphGate.Json

mutual

/-- How many arrays and objects are inside each other. -/
def nesting : Json → Nat
  | .null | .bool _ | .num _ | .str _ => 0
  | .arr elements => elementsNesting elements + 1
  | .obj fields => fieldsNesting fields + 1

def elementsNesting : List Json → Nat
  | [] => 0
  | v :: rest => max v.nesting (elementsNesting rest)

def fieldsNesting : List (String × Json) → Nat
  | [] => 0
  | (_, v) :: rest => max v.nesting (fieldsNesting rest)

end

variable {n depth : Nat} {v : Json} {vs : List Json} {fs : List (String × Json)} {cs : List Char}

theorem elementsNesting_le_iff : elementsNesting vs ≤ n ↔ ∀ v ∈ vs, v.nesting ≤ n := by
  induction vs with
  | nil => simp [elementsNesting]
  | cons v rest ih => rw [elementsNesting, Nat.max_le, ih, List.forall_mem_cons]

theorem fieldsNesting_le_iff : fieldsNesting fs ≤ n ↔ ∀ pair ∈ fs, pair.2.nesting ≤ n := by
  induction fs with
  | nil => simp [fieldsNesting]
  | cons pair rest ih => rw [fieldsNesting, Nat.max_le, ih, List.forall_mem_cons]

theorem fieldsNesting_put {key : String} (h : fieldsNesting fs ≤ n) (hv : v.nesting ≤ n) :
    fieldsNesting (Table.put key v fs) ≤ n := by
  induction fs with
  | nil => exact Nat.max_le.mpr ⟨hv, Nat.zero_le _⟩
  | cons pair rest ih =>
    obtain ⟨hpair, hrest⟩ := Nat.max_le.mp h
    rw [Table.put]
    split
    · exact Nat.max_le.mpr ⟨hv, hrest⟩
    · exact Nat.max_le.mpr ⟨hpair, ih hrest⟩

theorem fieldsNesting_ofPairs (h : fieldsNesting fs ≤ n) :
    fieldsNesting (Table.ofPairs fs) ≤ n := by
  have hfold : ∀ table, fieldsNesting table ≤ n →
      fieldsNesting (fs.foldl (fun table (k, v) => Table.put k v table) table) ≤ n := by
    induction fs with
    | nil => exact fun _ ht => ht
    | cons pair rest ih =>
      obtain ⟨hpair, hrest⟩ := Nat.max_le.mp h
      exact fun table ht => ih hrest _ (fieldsNesting_put ht hpair)
  exact hfold [] (Nat.zero_le _)

mutual

theorem nesting_of_value (depth : Nat) (cs : List Char) : ∀ {v : Json} {rest : Rest cs},
    value depth cs = some (v, rest) → v.nesting ≤ depth := by
  intro v rest h
  rw [value.eq_def] at h
  split at h
  · cases h
    exact Nat.zero_le _
  · cases h
    exact Nat.zero_le _
  · cases h
    exact Nat.zero_le _
  · split at h
    · cases h
      exact Nat.zero_le _
    · cases h
  · next inner =>
    split at h
    · cases h
    · next depth =>
      split at h
      · cases h
        exact Nat.succ_le_succ (Nat.zero_le _)
      · obtain ⟨⟨vs, rest', hlt⟩, hm, he⟩ := Option.map_eq_some_iff.mp h
        cases he
        exact Nat.succ_le_succ (nesting_of_elements depth inner hm)
  · next inner =>
    split at h
    · cases h
    · next depth =>
      split at h
      · cases h
        exact Nat.succ_le_succ (Nat.zero_le _)
      · obtain ⟨⟨fs, rest', hlt⟩, hm, he⟩ := Option.map_eq_some_iff.mp h
        cases he
        exact Nat.succ_le_succ (fieldsNesting_ofPairs (nesting_of_fields depth inner hm))
  · split at h
    · split at h
      · cases h
        exact Nat.zero_le _
      · cases h
    · cases h
termination_by (cs.length, 0)

theorem nesting_of_elements (depth : Nat) (cs : List Char) : ∀ {vs : List Json} {rest : Rest cs},
    elements depth cs = some (vs, rest) → elementsNesting vs ≤ depth := by
  intro vs rest h
  rw [elements.eq_def] at h
  -- Without blanks to skip, an element is read from the same text: only the second measure falls.
  have hskip := length_skip_le cs
  split at h
  · cases h
  · next v after hlt hv =>
    have hn := nesting_of_value depth (skip cs) hv
    split at h
    · cases h
      exact Nat.max_le.mpr ⟨hn, Nat.zero_le _⟩
    · next more hs =>
      have hmore := length_of_skip_eq hs
      obtain ⟨⟨vs, last, _⟩, hm, he⟩ := Option.map_eq_some_iff.mp h
      cases he
      exact Nat.max_le.mpr ⟨hn, nesting_of_elements depth more hm⟩
    · cases h
termination_by (cs.length, 1)
decreasing_by
  · exact (Nat.lt_or_eq_of_le hskip).elim (.left _ _) fun he => he ▸ .right _ (by decide)
  · exact .left _ _ (by omega)

theorem nesting_of_fields (depth : Nat) (cs : List Char) :
    ∀ {fs : List (String × Json)} {rest : Rest cs},
      fields depth cs = some (fs, rest) → fieldsNesting fs ≤ depth := by
  intro fs rest h
  rw [fields.eq_def] at h
  split at h
  · next afterQuote hk =>
    split at h
    · cases h
    · next k afterKey hs =>
      split at h
      · next afterColon hc =>
        have hkey := length_of_skip_eq hk
        have hbody := stringBody_length hs
        have hcolon := length_of_skip_eq hc
        have hskip := length_skip_le afterColon
        split at h
        · cases h
        · next v after hlt hv =>
          have hn := nesting_of_value depth (skip afterColon) hv
          split at h
          · cases h
            exact Nat.max_le.mpr ⟨hn, Nat.zero_le _⟩
          · next more hs =>
            have hmore := length_of_skip_eq hs
            obtain ⟨⟨vs, last, _⟩, hm, he⟩ := Option.map_eq_some_iff.mp h
            cases he
            exact Nat.max_le.mpr ⟨hn, nesting_of_fields depth more hm⟩
          · cases h
      · cases h
  · cases h
termination_by (cs.length, 1)
decreasing_by
  · exact .left _ _ (by omega)
  · exact .left _ _ (by omega)

end

theorem nesting_of_parse? (h : parse? cs = some v) : v.nesting ≤ depthLimit := by
  unfold parse? at h
  split at h
  · next w rest _ hv =>
    split at h
    · cases h
      exact nesting_of_value depthLimit _ hv
    · cases h
  · cases h

theorem nesting_lt_of_mem (h : v ∈ vs) : v.nesting < (Json.arr vs).nesting :=
  Nat.lt_succ_of_le (elementsNesting_le_iff.mp (Nat.le_refl _) v h)

theorem nesting_lt_of_get? {key : String} (h : Table.get? key fs = some v) :
    v.nesting < (Json.obj fs).nesting :=
  Nat.lt_succ_of_le (fieldsNesting_le_iff.mp (Nat.le_refl _) _ (Table.mem_of_get? h))

end GraphGate.Json
