import GraphGate.Gate

/-! Policies that are put together of others deny fields by their coordinates. -/
namespace GraphGate

/-- Policies within policies. -/
inductive PolicyTree where
  | allowAll
  | denyAll (message : String)
  | denyList (operations fields : List String)
  | composite (members : List PolicyTree)

namespace PolicyTree

mutual

def policy : PolicyTree → Policy
  | allowAll => .allowAll
  | denyAll message => .denyAll message
  | denyList operations fields => .denyList operations fields
  | composite members => .composite (policies members)

def policies : List PolicyTree → List Policy
  | [] => []
  | member :: rest => policy member :: policies rest

end

mutual

/-- Whether the field at a coordinate is denied. -/
def denies (coordinate : String) : PolicyTree → Bool
  | allowAll => false
  | denyAll _ => true
  | denyList _ fields => fields.contains coordinate
  | composite members => anyDenies coordinate members

def anyDenies (coordinate : String) : List PolicyTree → Bool
  | [] => false
  | member :: rest => denies coordinate member || anyDenies coordinate rest

end

end PolicyTree

theorem isAllow_firstDenial_cons (decision : Decision) (rest : List Decision) :
    (Policy.firstDenial (decision :: rest)).isAllow =
      (decision.isAllow && (Policy.firstDenial rest).isAllow) := by
  cases decision <;> rfl

mutual

/-- A field is let through exactly if its coordinate is not denied, whatever its alias is and
wherever it is selected. -/
theorem isAllow_checkField (context : Context) : ∀ tree : PolicyTree,
    (tree.policy.checkField context).isAllow = !tree.denies context.coordinate
  | .allowAll => rfl
  | .denyAll message => rfl
  | .denyList operations fields => by
    simp only [PolicyTree.policy, Policy.denyList, PolicyTree.denies]
    cases fields.contains context.coordinate <;> rfl
  | .composite members => by
    rw [PolicyTree.policy, Policy.composite, PolicyTree.denies]
    exact isAllow_firstDenial context members

theorem isAllow_firstDenial (context : Context) : ∀ members : List PolicyTree,
    (Policy.firstDenial ((PolicyTree.policies members).map (·.checkField context))).isAllow =
      !PolicyTree.anyDenies context.coordinate members
  | [] => rfl
  | member :: rest => by
    rw [PolicyTree.policies, List.map_cons, isAllow_firstDenial_cons,
      isAllow_checkField context member, isAllow_firstDenial context rest, PolicyTree.anyDenies,
      Bool.not_or]

end

end GraphGate
