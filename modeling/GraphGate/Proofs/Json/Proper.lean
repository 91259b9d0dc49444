import GraphGate.Proofs.Json

/-! Proper values: no key comes twice in an object, and no number differs from itself. Among them,
to count as the same is an equivalence. -/
namespace GraphGate

namespace Number

theorem float_beq_symm {a b : Float} (h : (a == b) = true) : (b == a) = true := by
  rw [float_beq_iff] at h ⊢
  rcases cases_of_compare h with he | ⟨s, s', ha, hb⟩
  · rw [he] at h ⊢
    exact h
  · rw [ha, hb]
    rfl

theorem same_symm {a b : Number} (h : a.same b = true) : b.same a = true := by
  cases a <;> cases b <;> simp only [same, Bool.false_eq_true] at h ⊢
  · simp_all
  · exact float_beq_symm h

end Number

namespace Json

mutual

/-- No object in the value has a key twice, and every number equals itself: none is NaN. -/
def Proper : Json → Prop
  | .null | .bool _ | .str _ => True
  | .num n => n.same n = true
  | .arr elements => ProperElements elements
  | .obj fields => (Table.names fields).Nodup ∧ ProperFields fields

def ProperElements : List Json → Prop
  | [] => True
  | v :: rest => v.Proper ∧ ProperElements rest

def ProperFields : List (String × Json) → Prop
  | [] => True
  | (_, v) :: rest => v.Proper ∧ ProperFields rest

end

mutual

theorem same_refl : ∀ {v : Json}, v.Proper → v.same v = true
  | .null, _ => by rw [same]
  | .bool b, _ => by simp [same]
  | .str s, _ => by simp [same]
  | .num n, h => by
    rw [Proper] at h
    rw [same, h]
  | .arr elements, h => by
    rw [Proper] at h
    rw [same]
    exact sameElements_refl h
  | .obj fields, h => by
    rw [Proper] at h
    refine same_obj_iff.mpr ⟨rfl, fun pair hp => ⟨pair.2, ?_, same_refl_of_mem h.2 pair hp⟩⟩
    exact Table.get?_of_mem h.1 hp

theorem sameElements_refl : ∀ {vs : List Json}, ProperElements vs → sameElements vs vs = true
  | [], _ => by rw [sameElements]
  | v :: rest, h => by
    rw [ProperElements] at h
    rw [sameElements, same_refl h.1, sameElements_refl h.2]
    rfl

theorem same_refl_of_mem : ∀ {fields : List (String × Json)}, ProperFields fields →
    ∀ pair ∈ fields, pair.2.same pair.2 = true
  | [], _ => List.forall_mem_nil _
  | (_, v) :: rest, h => by
    rw [ProperFields] at h
    exact List.forall_mem_cons.mpr ⟨same_refl h.1, same_refl_of_mem h.2⟩

end

mutual

theorem same_symm : ∀ {a b : Json}, a.Proper → a.same b = true → b.same a = true
  | .null, b, _, h => by
    cases b <;> simp [same] at h
    rw [same]
  | .bool a, b, _, h => by
    cases b <;> simp [same] at h
    simp [same, h]
  | .str a, b, _, h => by
    cases b <;> simp [same] at h
    simp [same, h]
  | .num a, b, _, h => by
    cases b <;> simp only [same, Bool.false_eq_true] at h ⊢
    exact Number.same_symm h
  | .arr as, b, hp, h => by
    cases b <;> simp only [same, Bool.false_eq_true] at h ⊢
    rw [Proper] at hp
    exact sameElements_symm hp h
  | .obj as, b, hp, h => by
    cases b with
    | obj bs =>
      rw [Proper] at hp
      refine same_obj_iff.mpr ⟨(same_obj_iff.mp h).1.symm, fun pair hm => ?_⟩
      have hget := Table.get?_of_mem ((names_perm_of_same hp.1 h).nodup_iff.mp hp.1) hm
      obtain ⟨v, hv, -⟩ := exists_left_of_matches hp.1 (.inr h) hget
      obtain ⟨w, hw, hvw⟩ := (same_obj_iff.mp h).2 _ (Table.mem_of_get? hv)
      rw [hget, Option.some.injEq] at hw
      subst hw
      exact ⟨v, hv, same_symm_of_mem hp.2 _ (Table.mem_of_get? hv) hvw⟩
    | _ => simp [same] at h

theorem sameElements_symm : ∀ {as bs : List Json}, ProperElements as → sameElements as bs = true →
    sameElements bs as = true
  | [], bs, _, h => by
    cases bs <;> simp [sameElements] at h
    rw [sameElements]
  | a :: as, bs, hp, h => by
    cases bs with
    | nil => simp [sameElements] at h
    | cons b bs =>
      rw [ProperElements] at hp
      rw [sameElements, Bool.and_eq_true] at h ⊢
      exact ⟨same_symm hp.1 h.1, sameElements_symm hp.2 h.2⟩

theorem same_symm_of_mem : ∀ {fields : List (String × Json)}, ProperFields fields →
    ∀ pair ∈ fields, ∀ {w : Json}, pair.2.same w = true → w.same pair.2 = true
  | [], _ => by simp
  | (_, v) :: rest, h => by
    rw [ProperFields] at h
    exact List.forall_mem_cons.mpr ⟨same_symm h.1, same_symm_of_mem h.2⟩

end

end Json

end GraphGate
