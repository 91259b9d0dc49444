import GraphGate.Json.Basic
import GraphGate.Proofs.Table
import Mathlib.Data.List.Perm.Subperm

/-! Values that count as the same: what it says of objects, and that it carries on from one value to
the next. -/
namespace GraphGate

namespace Number

open Float.Model (UnpackedFloat)

/-- Floats that compare as equal are equal, or they are both a zero. -/
theorem cases_of_compare {a b : UnpackedFloat} (h : a.compare b = some .eq) :
    a = b ∨ ∃ s s', a = .zero s ∧ b = .zero s' := by
  cases a with
  | notANumber => cases b <;> cases h
  | infinity s =>
    cases b with
    | notANumber => cases s <;> cases h
    | infinity s' =>
      have h : compare s s' = .eq := Option.some.inj h
      cases s <;> cases s' <;> first | exact .inl rfl | exact nomatch h
    | _ => cases s <;> exact nomatch Option.some.inj h
  | zero s =>
    cases b with
    | notANumber => cases h
    | zero s' => exact .inr ⟨s, s', rfl, rfl⟩
    | infinity s' => cases s' <;> exact nomatch Option.some.inj h
    | finite s' => cases s' <;> exact nomatch Option.some.inj h
  | finite s m e hp =>
    cases b with
    | finite s' m' e' hp' =>
      have heq : s = s' ∧ e = e' ∧ m = m' := by
        cases s <;> cases s'
        case negative.negative =>
          have h : ((compare e e').then (compare m m')).swap = .eq := Option.some.inj h
          simpa [Ordering.then_eq_eq] using h
        case positive.positive =>
          have h : (compare e e').then (compare m m') = .eq := Option.some.inj h
          simpa [Ordering.then_eq_eq] using h
        all_goals exact nomatch Option.some.inj h
      obtain ⟨rfl, rfl, rfl⟩ := heq
      exact .inl rfl
    | infinity s' => cases s <;> cases s' <;> exact nomatch Option.some.inj h
    | zero s' => cases s <;> exact nomatch Option.some.inj h
    | notANumber => cases s <;> cases h

theorem float_beq_iff {a b : Float} :
    (a == b) = true ↔ a.toModel.unpack.compare b.toModel.unpack = some .eq :=
  beq_iff_eq (b := some Ordering.eq)

theorem float_beq_trans {a b c : Float} (h : (a == b) = true) (h' : (b == c) = true) :
    (a == c) = true := by
  rw [float_beq_iff] at h h' ⊢
  rcases cases_of_compare h with he | ⟨s, s', ha, hb⟩
  · rw [he]
    exact h'
  · rcases cases_of_compare h' with he | ⟨-, t, -, hc⟩
    · rw [← he]
      exact h
    · rw [ha, hc]
      rfl

theorem same_trans {a b c : Number} (h : a.same b = true) (h' : b.same c = true) :
    a.same c = true := by
  cases a <;> cases b <;> cases c <;> simp only [same, Bool.false_eq_true] at h h' ⊢
  · simp_all
  · exact float_beq_trans h h'

end Number

namespace Json

theorem sameFields_iff {as bs : List (String × Json)} :
    sameFields as bs = true ↔ ∀ pair ∈ as, ∃ b, Table.get? pair.1 bs = some b ∧
      pair.2.same b = true := by
  induction as with
  | nil => simp [sameFields]
  | cons pair rest ih =>
    obtain ⟨k, a⟩ := pair
    rw [sameFields, Bool.and_eq_true, ih, List.forall_mem_cons]
    refine and_congr_left' ?_
    cases Table.get? k bs with
    | none => simp
    | some b => simp

theorem same_obj_iff {as bs : List (String × Json)} :
    (Json.obj as).same (.obj bs) = true ↔ as.length = bs.length ∧ ∀ pair ∈ as, ∃ b,
      Table.get? pair.1 bs = some b ∧ pair.2.same b = true := by
  rw [same, Bool.and_eq_true, beq_iff_eq, sameFields_iff]

mutual

theorem same_trans : ∀ {a b c : Json}, a.same b = true → b.same c = true → a.same c = true
  | .null, b, c, h, h' => by
    cases b <;> simp [same] at h
    exact h'
  | .bool a, b, c, h, h' => by
    cases b <;> simp [same] at h
    subst h
    exact h'
  | .str a, b, c, h, h' => by
    cases b <;> simp [same] at h
    subst h
    exact h'
  | .num a, b, c, h, h' => by
    cases b <;> simp only [same, Bool.false_eq_true] at h
    cases c <;> simp only [same, Bool.false_eq_true] at h' ⊢
    exact Number.same_trans h h'
  | .arr as, b, c, h, h' => by
    cases b <;> simp only [same, Bool.false_eq_true] at h
    cases c <;> simp only [same, Bool.false_eq_true] at h' ⊢
    exact sameElements_trans h h'
  | .obj as, b, c, h, h' => by
    cases b with
    | obj bs =>
      cases c with
      | obj cs =>
        rw [same, Bool.and_eq_true, beq_iff_eq] at h h' ⊢
        exact ⟨h.1.trans h'.1, sameFields_trans h.2 h'.2⟩
      | _ => simp [same] at h'
    | _ => simp [same] at h

theorem sameElements_trans : ∀ {as bs cs : List Json}, sameElements as bs = true →
    sameElements bs cs = true → sameElements as cs = true
  | [], bs, cs, h, h' => by
    cases bs <;> simp [sameElements] at h
    exact h'
  | a :: as, bs, cs, h, h' => by
    cases bs with
    | nil => simp [sameElements] at h
    | cons b bs =>
      cases cs with
      | nil => simp [sameElements] at h'
      | cons c cs =>
        rw [sameElements, Bool.and_eq_true] at h h' ⊢
        exact ⟨same_trans h.1 h'.1, sameElements_trans h.2 h'.2⟩

theorem sameFields_trans : ∀ {as bs cs : List (String × Json)}, sameFields as bs = true →
    sameFields bs cs = true → sameFields as cs = true
  | [], bs, cs, h, h' => by rw [sameFields]
  | (k, a) :: as, bs, cs, h, h' => by
    obtain ⟨b, hb, hab⟩ := sameFields_iff.mp h (k, a) List.mem_cons_self
    obtain ⟨c, hc, hbc⟩ := sameFields_iff.mp h' _ (Table.mem_of_get? hb)
    rw [sameFields, Bool.and_eq_true] at h ⊢
    simp only at hc
    rw [hc]
    exact ⟨same_trans hab hbc, sameFields_trans h.2 h'⟩

end

/-- One and the same value, or two that count as the same. -/
def Matches (v w : Json) : Prop := v = w ∨ v.same w = true

theorem matches_refl (v : Json) : v.Matches v := .inl rfl

theorem matches_trans {a b c : Json} (h : a.Matches b) (h' : b.Matches c) : a.Matches c := by
  rcases h with rfl | h
  · exact h'
  · rcases h' with rfl | h'
    · exact .inr h
    · exact .inr (same_trans h h')

variable {as bs : Table Json} {name : String}

theorem exists_right_of_matches (h : (Json.obj as).Matches (.obj bs)) {v : Json}
    (hv : as.get? name = some v) : ∃ w, bs.get? name = some w ∧ v.Matches w := by
  rcases h with he | h
  · cases he
    exact ⟨v, hv, .inl rfl⟩
  · obtain ⟨w, hw, hvw⟩ := (same_obj_iff.mp h).2 _ (Table.mem_of_get? hv)
    exact ⟨w, hw, .inr hvw⟩

/-- Distinct names of as many values are the same names. -/
theorem names_perm_of_same (hn : as.names.Nodup) (h : (Json.obj as).same (.obj bs) = true) :
    as.names.Perm bs.names := by
  have hsub : as.names ⊆ bs.names := by
    intro key hk
    obtain ⟨pair, hp, rfl⟩ := List.mem_map.mp hk
    obtain ⟨b, hb, -⟩ := (same_obj_iff.mp h).2 pair hp
    exact List.mem_map.mpr ⟨_, Table.mem_of_get? hb, rfl⟩
  refine (hn.subperm hsub).perm_of_length_le ?_
  simpa [Table.names] using Nat.le_of_eq (same_obj_iff.mp h).1.symm

theorem exists_left_of_matches (hn : as.names.Nodup) (h : (Json.obj as).Matches (.obj bs))
    {w : Json} (hw : bs.get? name = some w) : ∃ v, as.get? name = some v ∧ v.Matches w := by
  rcases h with he | h
  · cases he
    exact ⟨w, hw, .inl rfl⟩
  · have hmem : name ∈ as.names :=
      (names_perm_of_same hn h).mem_iff.mpr (List.mem_map.mpr ⟨_, Table.mem_of_get? hw, rfl⟩)
    obtain ⟨v, hv⟩ := Table.exists_of_mem_names hmem
    obtain ⟨w', hw', hvw⟩ := (same_obj_iff.mp h).2 _ (Table.mem_of_get? hv)
    rw [hw, Option.some.injEq] at hw'
    subst hw'
    exact ⟨v, hv, .inr hvw⟩

end Json

end GraphGate
