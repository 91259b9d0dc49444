import GraphGate.Coercion
import GraphGate.Proofs.Success

/-! What a sequence of checks may fail with. -/
namespace GraphGate

variable {ε α β ν : Type} {P Q : ε → Prop}

/-- Whatever a computation fails with is of this kind. -/
def FailsOnly (P : ε → Prop) (x : Except ε α) : Prop := ∀ e, x = .error e → P e

theorem failsOnly_ok (a : α) : FailsOnly P (.ok a : Except ε α) := nofun

theorem failsOnly_error {e : ε} (h : P e) : FailsOnly P (.error e : Except ε α) := by
  rintro _ ⟨⟩
  exact h

theorem failsOnly_imp {x : Except ε α} (hpq : ∀ e, P e → Q e) (h : FailsOnly P x) :
    FailsOnly Q x :=
  fun e he => hpq e (h e he)

theorem failsOnly_bind {x : Except ε α} {f : α → Except ε β} (hx : FailsOnly P x)
    (hf : ∀ a, x = .ok a → FailsOnly P (f a)) : FailsOnly P (x >>= f) := by
  cases x with
  | error e => exact failsOnly_error (hx e rfl)
  | ok a => exact hf a rfl

theorem failsOnly_map {x : Except ε α} {f : α → β} (hx : FailsOnly P x) :
    FailsOnly P (x.map f) := by
  cases x with
  | error e => exact failsOnly_error (hx e rfl)
  | ok a => exact failsOnly_ok (f a)

theorem failsOnly_mapM {f : α → Except ε β} {as : List α} (hf : ∀ a ∈ as, FailsOnly P (f a)) :
    FailsOnly P (as.mapM f) := by
  induction as with
  | nil => exact failsOnly_ok []
  | cons a as ih =>
    rw [List.mapM_cons]
    refine failsOnly_bind (hf a (by simp)) fun _ _ => ?_
    exact failsOnly_bind (ih fun a ha => hf a (by simp [ha])) fun _ _ => failsOnly_ok _

theorem failsOnly_foldlM {f : β → α → Except ε β} {as : List α} {start : β}
    (hf : ∀ b a, FailsOnly P (f b a)) : FailsOnly P (as.foldlM f start) := by
  induction as generalizing start with
  | nil => exact failsOnly_ok start
  | cons a as ih =>
    rw [List.foldlM_cons]
    exact failsOnly_bind (hf start a) fun _ _ => ih

namespace Query.Value

variable {constant : ν → Except ε Constant}

mutual

/-- Substitution fails with what a variable fails with. -/
theorem failsOnly_substitute (hc : ∀ name, FailsOnly P (constant name)) :
    ∀ v : Value ν, FailsOnly P (v.substitute constant)
  | .var name => hc name
  | .null | .number _ | .string _ | .bool _ | .enum _ => failsOnly_ok _
  | .list elements => failsOnly_map (failsOnly_substituteElements hc elements)
  | .object fields => failsOnly_map (failsOnly_substituteFields hc fields)

theorem failsOnly_substituteElements (hc : ∀ name, FailsOnly P (constant name)) :
    ∀ elements : List (Value ν), FailsOnly P (substituteElements constant elements)
  | [] => failsOnly_ok []
  | v :: rest =>
    failsOnly_bind (failsOnly_substitute hc v) fun _ _ =>
      failsOnly_bind (failsOnly_substituteElements hc rest) fun _ _ => failsOnly_ok _

theorem failsOnly_substituteFields (hc : ∀ name, FailsOnly P (constant name)) :
    ∀ fields : List (String × Value ν), FailsOnly P (substituteFields constant fields)
  | [] => failsOnly_ok []
  | (_, v) :: rest =>
    failsOnly_bind (failsOnly_substitute hc v) fun _ _ =>
      failsOnly_bind (failsOnly_substituteFields hc rest) fun _ _ => failsOnly_ok _

end

end Query.Value

end GraphGate
