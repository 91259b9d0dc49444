import GraphGate.Proofs.Faults
import GraphGate.Proofs.Gate

/-! Policies within policies decide as their leaves do one after the other: the first that denies
has the word, on operations as on fields. -/
namespace GraphGate

/-- What a gate is asked about. -/
inductive Question where
  | operation (plan : Plan)
  | field (context : Context)

namespace Question

/-- What a denial is to be about. -/
def target : Question → Target
  | operation plan => .operation plan.name
  | field context => .field context.field.name context.path

/-- Whether such questions are put to the policy. -/
def enabled (capabilities : Capabilities) : Question → Bool
  | operation _ => capabilities.operationCheck
  | field _ => capabilities.fieldCheck

/-- An operation's name, or a field's coordinate, is among some entries. -/
def Listed (operations fields : List String) : Question → Prop
  | operation plan => ∃ name ∈ operations, plan.name = some name
  | field context => context.coordinate ∈ fields

end Question

def Policy.answer (policy : Policy) : Question → Decision
  | .operation plan => policy.checkOperation plan
  | .field context => policy.checkField context

def Gate.answer (gate : Gate) : Question → Decision
  | .operation plan => gate.checkOperation plan
  | .field context => gate.checkField context

/-- The policy denies what it is asked about. -/
def Policy.Denies (q : Question) (policy : Policy) (denial : Denial) : Prop :=
  policy.answer q = .deny denial

namespace PolicyTree

mutual

/-- The policies that are not put together of others, from left to right. -/
def leaves : PolicyTree → List Policy
  | allowAll => [.allowAll]
  | denyAll message => [.denyAll message]
  | denyList operations fields => [.denyList operations fields]
  | composite members => memberLeaves members

def memberLeaves : List PolicyTree → List Policy
  | [] => []
  | member :: rest => leaves member ++ memberLeaves rest

end

mutual

/-- Members stand in another order, anywhere in the tree. -/
inductive Reordered : PolicyTree → PolicyTree → Prop
  | refl (tree : PolicyTree) : Reordered tree tree
  | composite {members members' : List PolicyTree} (h : ReorderedMembers members members') :
    Reordered (.composite members) (.composite members')

inductive ReorderedMembers : List PolicyTree → List PolicyTree → Prop
  | nil : ReorderedMembers [] []
  | cons {member member' : PolicyTree} {rest rest' : List PolicyTree}
    (h : Reordered member member') (hs : ReorderedMembers rest rest') :
    ReorderedMembers (member :: rest) (member' :: rest')
  | swap (first second : PolicyTree) (rest : List PolicyTree) :
    ReorderedMembers (first :: second :: rest) (second :: first :: rest)
  | trans {members middle members' : List PolicyTree} (h : ReorderedMembers members middle)
    (h' : ReorderedMembers middle members') : ReorderedMembers members members'

end

mutual

/-- Members, or entries of lists, are added anywhere in the tree. -/
inductive Extended : PolicyTree → PolicyTree → Prop
  | refl (tree : PolicyTree) : Extended tree tree
  | denyList {operations operations' fields fields' : List String} (ho : operations ⊆ operations')
    (hf : fields ⊆ fields') : Extended (.denyList operations fields) (.denyList operations' fields')
  | composite {members members' : List PolicyTree} (h : ExtendedMembers members members') :
    Extended (.composite members) (.composite members')

inductive ExtendedMembers : List PolicyTree → List PolicyTree → Prop
  | nil : ExtendedMembers [] []
  | cons {member member' : PolicyTree} {rest rest' : List PolicyTree}
    (h : Extended member member') (hs : ExtendedMembers rest rest') :
    ExtendedMembers (member :: rest) (member' :: rest')
  | added {members members' : List PolicyTree} (member : PolicyTree)
    (hs : ExtendedMembers members members') : ExtendedMembers members (member :: members')

end

end PolicyTree

variable {q : Question} {tree tree' : PolicyTree} {capabilities : Capabilities}

theorem answer_of_enabled {policy : Policy} (h : q.enabled capabilities = true) :
    Gate.answer ⟨policy, capabilities⟩ q = policy.answer q := by
  cases q with
  | operation plan => exact if_pos h
  | field context => exact if_pos h

theorem answer_of_disabled {policy : Policy} (h : q.enabled capabilities = false) :
    Gate.answer ⟨policy, capabilities⟩ q = .allow := by
  cases q with
  | operation plan => exact if_neg (Bool.eq_false_iff.mp h)
  | field context => exact if_neg (Bool.eq_false_iff.mp h)

theorem answer_composite {members : List Policy} :
    (Policy.composite members).answer q = Policy.firstDenial (members.map (·.answer q)) := by
  cases q <;> rfl

theorem firstDenial_append {decisions more : List Decision} :
    Policy.firstDenial (decisions ++ more) =
      Policy.firstDenial [Policy.firstDenial decisions, Policy.firstDenial more] := by
  induction decisions with
  | nil =>
    rw [List.nil_append]
    cases h : Policy.firstDenial more <;> rfl
  | cons decision rest ih =>
    cases decision with
    | allow => exact ih
    | deny denial => rfl

theorem firstDenial_cons {decision : Decision} {rest : List Decision} :
    Policy.firstDenial (decision :: rest) =
      Policy.firstDenial [decision, Policy.firstDenial rest] := by
  have h := @firstDenial_append [decision] rest
  cases decision <;> exact h

mutual

/-- A tree decides as its leaves in a row. -/
theorem answer_leaves : ∀ tree : PolicyTree,
    tree.policy.answer q = Policy.firstDenial (tree.leaves.map (·.answer q))
  | .allowAll | .denyAll _ => by cases q <;> rfl
  | .denyList operations fields => by
    have hone : ∀ decision, decision = Policy.firstDenial [decision] := by
      intro decision
      cases decision <;> rfl
    exact hone _
  | .composite members => by
    rw [PolicyTree.policy, answer_composite, PolicyTree.leaves, answers_memberLeaves members]

theorem answers_memberLeaves : ∀ members : List PolicyTree,
    Policy.firstDenial ((PolicyTree.policies members).map (·.answer q)) =
      Policy.firstDenial ((PolicyTree.memberLeaves members).map (·.answer q))
  | [] => rfl
  | member :: rest => by
    rw [PolicyTree.policies, PolicyTree.memberLeaves, List.map_cons, List.map_append,
      firstDenial_append, firstDenial_cons, answers_memberLeaves rest, answer_leaves member]

end

theorem firstDenial_eq_deny_iff {policies : List Policy} {denial : Denial} :
    Policy.firstDenial (policies.map (·.answer q)) = .deny denial ↔
      FirstFault (Policy.Denies q) policies denial := by
  induction policies with
  | nil => exact ⟨nofun, fun h => absurd h not_firstFault_nil⟩
  | cons policy rest ih =>
    rw [firstFault_cons_iff, List.map_cons]
    cases ha : policy.answer q with
    | allow =>
      have hnone : ∀ denial, ¬ policy.Denies q denial := by
        intro denial hd
        rw [Policy.Denies, ha] at hd
        cases hd
      exact ⟨fun h => .inr ⟨hnone, ih.mp h⟩, fun h => ih.mpr (h.resolve_left (hnone _)).2⟩
    | deny own =>
      constructor
      · intro h
        exact .inl (ha.trans h)
      · rintro (h | ⟨hnone, -⟩)
        · exact ha.symm.trans h
        · exact absurd ha (hnone own)

theorem firstDenial_eq_allow_iff {policies : List Policy} :
    Policy.firstDenial (policies.map (·.answer q)) = .allow ↔
      ∀ policy ∈ policies, policy.answer q = .allow := by
  induction policies with
  | nil => exact ⟨fun _ => List.forall_mem_nil _, fun _ => rfl⟩
  | cons policy rest ih =>
    rw [List.forall_mem_cons, ← ih, List.map_cons]
    cases ha : policy.answer q with
    | allow => exact ⟨fun h => ⟨rfl, h⟩, And.right⟩
    | deny denial => exact ⟨nofun, fun h => nomatch h.1⟩

theorem isAllow_iff {decision : Decision} : decision.isAllow = true ↔ decision = .allow := by
  cases decision <;> simp [Decision.isAllow]

theorem denyList_eq_allow_iff {operations fields : List String} :
    (Policy.denyList operations fields).answer q = .allow ↔ ¬ q.Listed operations fields := by
  cases q with
  | operation plan =>
    simp only [Policy.answer, Policy.denyList, Question.Listed]
    cases plan.name with
    | none => simp
    | some name => simp
  | field context => simp [Policy.answer, Policy.denyList, Question.Listed]

theorem listed_mono {operations operations' fields fields' : List String}
    (ho : operations ⊆ operations') (hf : fields ⊆ fields') (h : q.Listed operations fields) :
    q.Listed operations' fields' := by
  cases q with
  | operation plan =>
    obtain ⟨name, hm, hn⟩ := h
    exact ⟨name, ho hm, hn⟩
  | field context => exact hf h

theorem target_of_denyAll {message : String} {denial : Denial}
    (h : (Policy.denyAll message).answer q = .deny denial) : denial.target = q.target := by
  cases q <;> cases h <;> rfl

theorem target_of_denyList {operations fields : List String} {denial : Denial}
    (h : (Policy.denyList operations fields).answer q = .deny denial) :
    denial.target = q.target := by
  cases q with
  | operation plan =>
    simp only [Policy.answer, Policy.denyList] at h
    split at h
    · split at h
      · cases h
        rfl
      · cases h
    · cases h
  | field context =>
    simp only [Policy.answer, Policy.denyList] at h
    split at h
    · cases h
      rfl
    · cases h

mutual

/-- A leaf denies what it was asked about. -/
theorem target_of_leaf : ∀ {tree : PolicyTree}, ∀ leaf ∈ tree.leaves, ∀ denial,
    leaf.Denies q denial → denial.target = q.target
  | .allowAll, leaf, hm, denial, h => by
    obtain rfl := List.mem_singleton.mp hm
    cases q <;> cases h
  | .denyAll message, leaf, hm, denial, h => by
    obtain rfl := List.mem_singleton.mp hm
    exact target_of_denyAll h
  | .denyList operations fields, leaf, hm, denial, h => by
    obtain rfl := List.mem_singleton.mp hm
    exact target_of_denyList h
  | .composite members, leaf, hm, denial, h => target_of_memberLeaf leaf hm denial h

theorem target_of_memberLeaf : ∀ {members : List PolicyTree},
    ∀ leaf ∈ PolicyTree.memberLeaves members, ∀ denial,
      leaf.Denies q denial → denial.target = q.target
  | [], _, hm, _, _ => nomatch hm
  | member :: rest, leaf, hm, denial, h => by
    rcases List.mem_append.mp hm with hm | hm
    · exact target_of_leaf leaf hm denial h
    · exact target_of_memberLeaf leaf hm denial h

end

namespace PolicyTree

mutual

theorem leaves_perm : ∀ {tree tree' : PolicyTree}, Reordered tree tree' →
    tree.leaves.Perm tree'.leaves
  | _, _, .refl tree => .refl _
  | _, _, .composite h => memberLeaves_perm h

theorem memberLeaves_perm : ∀ {members members' : List PolicyTree},
    ReorderedMembers members members' → (memberLeaves members).Perm (memberLeaves members')
  | _, _, .nil => .refl _
  | _, _, .cons h hs => (leaves_perm h).append (memberLeaves_perm hs)
  | _, _, .swap first second rest => by
    rw [memberLeaves, memberLeaves, memberLeaves, memberLeaves, ← List.append_assoc,
      ← List.append_assoc]
    exact List.perm_append_comm.append_right _
  | _, _, .trans h h' => (memberLeaves_perm h).trans (memberLeaves_perm h')

end

mutual

/-- What a tree with more members and more entries lets through, all leaves of the other let
through. -/
theorem allow_of_extended : ∀ {tree tree' : PolicyTree}, Extended tree tree' →
    (∀ leaf ∈ tree'.leaves, leaf.answer q = .allow) → ∀ leaf ∈ tree.leaves, leaf.answer q = .allow
  | _, _, .refl _, h => h
  | _, _, .denyList ho hf, h => by
    intro leaf hm
    obtain rfl := List.mem_singleton.mp hm
    have hmore := denyList_eq_allow_iff.mp (h _ (List.mem_singleton_self _))
    exact denyList_eq_allow_iff.mpr (mt (listed_mono ho hf) hmore)
  | _, _, .composite hm, h => allow_of_extendedMembers hm h

theorem allow_of_extendedMembers : ∀ {members members' : List PolicyTree},
    ExtendedMembers members members' →
    (∀ leaf ∈ memberLeaves members', leaf.answer q = .allow) →
      ∀ leaf ∈ memberLeaves members, leaf.answer q = .allow
  | _, _, .nil, h => h
  | _, _, .cons hm hs, h => by
    obtain ⟨hmember, hrest⟩ := List.forall_mem_append.mp h
    exact List.forall_mem_append.mpr
      ⟨allow_of_extended hm hmember, allow_of_extendedMembers hs hrest⟩
  | _, _, .added _ hs, h => allow_of_extendedMembers hs (List.forall_mem_append.mp h).2

end

end PolicyTree

/-- What is not to be checked is allowed, and the rest if all leaves allow it. -/
theorem isAllow_answer_iff : (Gate.answer ⟨tree.policy, capabilities⟩ q).isAllow = true ↔
    (q.enabled capabilities = true → ∀ leaf ∈ tree.leaves, leaf.answer q = .allow) := by
  rw [isAllow_iff]
  cases h : q.enabled capabilities with
  | true =>
    rw [answer_of_enabled h, answer_leaves, firstDenial_eq_allow_iff]
    exact ⟨fun hall _ => hall, fun hall => hall rfl⟩
  | false =>
    rw [answer_of_disabled h]
    exact ⟨fun _ => nofun, fun _ => rfl⟩

theorem answer_composite_leaves :
    Gate.answer ⟨tree.policy, capabilities⟩ q =
      Gate.answer ⟨.composite tree.leaves, capabilities⟩ q := by
  cases h : q.enabled capabilities with
  | true => rw [answer_of_enabled h, answer_of_enabled h, answer_leaves, answer_composite]
  | false => rw [answer_of_disabled h, answer_of_disabled h]

theorem answer_eq_deny_iff (h : q.enabled capabilities = true) {denial : Denial} :
    Gate.answer ⟨tree.policy, capabilities⟩ q = .deny denial ↔
      FirstFault (Policy.Denies q) tree.leaves denial := by
  rw [answer_of_enabled h, answer_leaves, firstDenial_eq_deny_iff]

theorem target_of_answer {denial : Denial}
    (h : Gate.answer ⟨tree.policy, capabilities⟩ q = .deny denial) :
    denial.target = q.target := by
  cases he : q.enabled capabilities with
  | true =>
    obtain ⟨before, leaf, after, hl, -, hd⟩ := (answer_eq_deny_iff he).mp h
    have hm : leaf ∈ tree.leaves := by
      rw [hl]
      exact List.mem_append_right _ List.mem_cons_self
    exact target_of_leaf leaf hm denial hd
  | false =>
    rw [answer_of_disabled he] at h
    cases h

/-- The order of members may decide whose message is told. -/
theorem exists_reordered_ne (h : q.enabled capabilities = true) :
    ∃ tree tree' : PolicyTree, tree.Reordered tree' ∧
      Gate.answer ⟨tree.policy, capabilities⟩ q ≠ Gate.answer ⟨tree'.policy, capabilities⟩ q := by
  refine ⟨.composite [.denyAll "shut", .denyAll "closed"],
    .composite [.denyAll "closed", .denyAll "shut"], .composite (.swap _ _ _), ?_⟩
  rw [answer_of_enabled h, answer_of_enabled h]
  cases q <;> simp [Policy.answer, PolicyTree.policy, PolicyTree.policies, Policy.composite,
    Policy.denyAll, Policy.firstDenial, Denial.ofOperation, Denial.ofField]

/-- A tree of policies decides as its first leaf that denies, however it is put together, on all
that the gate is to check. The order of its members makes no difference to what is denied, though it
may to the message, and whoever is added denies no less. -/
theorem first_denying_leaf_decides (tree : PolicyTree) (capabilities : Capabilities)
    (q : Question) :
    let answer : PolicyTree → Decision := fun tree => Gate.answer ⟨tree.policy, capabilities⟩ q
    (q.enabled capabilities = false → answer tree = .allow) ∧
    (q.enabled capabilities = true →
      (∀ denial, answer tree = .deny denial ↔ FirstFault (Policy.Denies q) tree.leaves denial) ∧
      (answer tree = .allow ↔ ∀ leaf ∈ tree.leaves, leaf.answer q = .allow) ∧
      ∃ tree tree' : PolicyTree, tree.Reordered tree' ∧ answer tree ≠ answer tree') ∧
    answer tree = Gate.answer ⟨.composite tree.leaves, capabilities⟩ q ∧
    (∀ denial, answer tree = .deny denial → denial.target = q.target) ∧
    (∀ tree', tree.Reordered tree' → (answer tree').isAllow = (answer tree).isAllow) ∧
    ∀ tree', tree.Extended tree' →
      (answer tree').isAllow = true → (answer tree).isAllow = true := by
  intro answer
  refine ⟨answer_of_disabled, fun he => ⟨fun denial => answer_eq_deny_iff he, ?_,
    exists_reordered_ne he⟩, answer_composite_leaves, fun denial => target_of_answer,
    fun tree' hr => ?_, fun tree' hx ha => ?_⟩
  · change Gate.answer ⟨tree.policy, capabilities⟩ q = _ ↔ _
    rw [answer_of_enabled he, answer_leaves, firstDenial_eq_allow_iff]
  · rw [Bool.eq_iff_iff, isAllow_answer_iff, isAllow_answer_iff]
    simp only [(PolicyTree.leaves_perm hr).mem_iff]
  · have hall := isAllow_answer_iff.mp ha
    exact isAllow_answer_iff.mpr fun he => PolicyTree.allow_of_extended hx (hall he)

end GraphGate
