import GraphGate.Proofs.Success

/-! The first fault among several, and checks that report it: they fail with that one, and succeed
where there is none. -/
namespace GraphGate

variable {ε α β : Type} {F G : ε → Prop} {fault : α → ε → Prop}

/-- A fault of the first kind, or else, where there is none of it, one of the second. -/
def InOrder (F G : ε → Prop) (e : ε) : Prop := F e ∨ (∀ e', ¬ F e') ∧ G e

/-- The fault of the first of some things that has one. -/
def FirstFault (fault : α → ε → Prop) (as : List α) (e : ε) : Prop :=
  ∃ before a after, as = before ++ a :: after ∧ (∀ b ∈ before, ∀ e', ¬ fault b e') ∧ fault a e

theorem not_inOrder_iff : (∀ e, ¬ InOrder F G e) ↔ (∀ e, ¬ F e) ∧ ∀ e, ¬ G e := by
  constructor
  · intro h
    have hf : ∀ e, ¬ F e := fun e he => h e (.inl he)
    exact ⟨hf, fun e he => h e (.inr ⟨hf, he⟩)⟩
  · rintro ⟨hf, hg⟩ e (he | ⟨-, he⟩)
    · exact hf e he
    · exact hg e he

theorem not_firstFault_nil {e : ε} : ¬ FirstFault fault [] e := by
  rintro ⟨before, a, after, h, -⟩
  simp at h

theorem firstFault_cons_iff {a : α} {as : List α} {e : ε} :
    FirstFault fault (a :: as) e ↔ InOrder (fault a) (FirstFault fault as) e := by
  constructor
  · rintro ⟨before, b, after, h, hb, he⟩
    cases before with
    | nil =>
      obtain ⟨rfl, -⟩ := List.cons.inj h
      exact .inl he
    | cons first before =>
      obtain ⟨rfl, rfl⟩ := List.cons.inj h
      obtain ⟨hfirst, hb⟩ := List.forall_mem_cons.mp hb
      exact .inr ⟨hfirst, before, b, after, rfl, hb, he⟩
  · rintro (he | ⟨hfirst, before, b, after, rfl, hb, he⟩)
    · exact ⟨[], a, as, rfl, List.forall_mem_nil _, he⟩
    · exact ⟨a :: before, b, after, rfl, List.forall_mem_cons.mpr ⟨hfirst, hb⟩, he⟩

theorem not_firstFault_iff {as : List α} :
    (∀ e, ¬ FirstFault fault as e) ↔ ∀ a ∈ as, ∀ e, ¬ fault a e := by
  induction as with
  | nil => exact ⟨fun _ => List.forall_mem_nil _, fun _ _ => not_firstFault_nil⟩
  | cons a as ih =>
    rw [List.forall_mem_cons, ← ih, ← not_inOrder_iff]
    exact forall_congr' fun e => not_congr firstFault_cons_iff

/-- A computation fails with just these faults, and succeeds where there is none. -/
def Reports (F : ε → Prop) (x : Except ε α) : Prop := ∀ e, x = .error e ↔ F e

theorem reports_congr {x : Except ε α} (h : ∀ e, F e ↔ G e) (hx : Reports F x) : Reports G x :=
  fun e => (hx e).trans (h e)

theorem reports_ok {a : α} (h : ∀ e, ¬ F e) : Reports F (.ok a : Except ε α) :=
  fun e => ⟨nofun, fun he => absurd he (h e)⟩

theorem reports_error {e : ε} (h : ∀ e', F e' ↔ e' = e) : Reports F (.error e : Except ε α) := by
  intro e'
  rw [h e']
  exact ⟨fun he => (Except.error.inj he).symm, fun he => congrArg Except.error he.symm⟩

theorem exists_ok_iff_of_reports {x : Except ε α} (h : Reports F x) :
    (∃ a, x = .ok a) ↔ ∀ e, ¬ F e := by
  constructor
  · rintro ⟨a, rfl⟩ e he
    cases (h e).mpr he
  · intro hnone
    cases hx : x with
    | ok a => exact ⟨a, rfl⟩
    | error e => exact absurd ((h e).mp hx) (hnone e)

theorem reports_bind {x : Except ε α} {f : α → Except ε β} (hx : Reports F x)
    (hf : ∀ a, x = .ok a → Reports G (f a)) : Reports (InOrder F G) (x >>= f) := by
  intro e
  cases x with
  | error e' =>
    have hfault : F e' := (hx e').mp rfl
    constructor
    · rintro ⟨⟩
      exact .inl hfault
    · rintro (he | ⟨hnone, -⟩)
      · have hsame := (hx e).mpr he
        cases hsame
        rfl
      · exact absurd hfault (hnone e')
  | ok a =>
    have hnone : ∀ e, ¬ F e := (exists_ok_iff_of_reports hx).mp ⟨a, rfl⟩
    constructor
    · intro he
      exact .inr ⟨hnone, (hf a rfl e).mp he⟩
    · rintro (he | ⟨-, he⟩)
      · exact absurd he (hnone e)
      · exact (hf a rfl e).mpr he

/-- What is made of the result cannot fail. -/
theorem reports_then {x : Except ε α} {b : α → β} (hx : Reports F x) :
    Reports F (x >>= fun a => .ok (b a)) := by
  have hb := reports_bind hx fun a _ => reports_ok (a := b a) fun _ => id
  refine reports_congr (fun e => ⟨?_, .inl⟩) hb
  rintro (he | ⟨-, he⟩)
  · exact he
  · exact he.elim

theorem reports_forM {f : α → Except ε PUnit} {as : List α}
    (h : ∀ a ∈ as, Reports (fault a) (f a)) : Reports (FirstFault fault as) (forM as f) := by
  induction as with
  | nil => exact reports_ok fun _ => not_firstFault_nil
  | cons a as ih =>
    obtain ⟨ha, has⟩ := List.forall_mem_cons.mp h
    rw [List.forM_cons]
    exact reports_congr (fun _ => firstFault_cons_iff.symm) (reports_bind ha fun _ _ => ih has)

/-- What is checked one after the other may be gathered first. -/
theorem forM_flatMap {f : β → Except ε PUnit} {g : α → List β} {as : List α} :
    forM (as.flatMap g) f = forM as fun a => forM (g a) f := by
  induction as with
  | nil => rfl
  | cons a as ih => rw [List.flatMap_cons, List.forM_append, List.forM_cons, ih]

end GraphGate
