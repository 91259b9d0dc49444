import GraphGate.Proofs.Failure
import GraphGate.Proofs.Json.Proper
import GraphGate.Proofs.Plan.Paths

/-! What selections become when they are laid over each other: one node for each output path, in the
place of the first that has it, or else two of them are at odds. -/
namespace GraphGate.Plan

variable {nodes merged : List FieldNode} {node a b : FieldNode} {name : String}
  {path : List String}

/-- Two nodes select different fields, or give a field different arguments. -/
def Odds (a b : FieldNode) : Prop :=
  a.name ≠ b.name ∨ (Json.obj a.arguments).same (.obj b.arguments) = false

/-- Two nodes with one output path are at odds. -/
def AtOdds (nodes : List FieldNode) : Prop :=
  ∃ path a b, Lies nodes path a ∧ Lies nodes path b ∧ Odds a b

/-- Wherever a node lies, its arguments are a proper map. -/
def ProperArguments (nodes : List FieldNode) : Prop :=
  ∀ path node, Lies nodes path node → (Json.obj node.arguments).Proper

/-- A node stands for all of a group: it is the first of them, with the children of all. -/
def Gathers (node : FieldNode) (group : List FieldNode) : Prop :=
  ∃ first rest, group = first :: rest ∧
    node = { first with children := group.flatMap FieldNode.children } ∧
    ∀ other ∈ rest, sameSelection first other = true

/-- A node for each output name, in the order in which they first come, gathers all that have it. -/
def Grouped (merged nodes : List FieldNode) : Prop :=
  outputNames merged = (outputNames nodes).eraseDups ∧
    ∀ m ∈ merged, Gathers m (named m.outputName nodes)

/-- One level above what it was made of. -/
structure Overlies (merged nodes : List FieldNode) : Prop where
  distinct : (outputNames merged).Nodup
  inOrder : outputNames merged = (outputNames nodes).eraseDups
  first : ∀ node ∈ merged, ∃ first, (named node.outputName nodes).head? = some first ∧
    node.aliasName = first.aliasName ∧ node.position = first.position ∧
    node.name = first.name ∧ node.arguments = first.arguments
  common : ∀ node ∈ merged, ∀ other ∈ named node.outputName nodes,
    other.name = node.name ∧ (Json.obj node.arguments).same (.obj other.arguments) = true

theorem arguments_of_sameSelection (h : sameSelection a b = true) :
    (Json.obj a.arguments).same (.obj b.arguments) = true := by
  rw [sameSelection, Bool.and_eq_true] at h
  exact h.2

theorem odds_iff : Odds a b ↔ sameSelection a b = false := by
  rw [Odds, sameSelection, Bool.and_eq_false_iff, beq_eq_false_iff_ne]

theorem properArguments_nil : ProperArguments [] := by
  rintro path node (h | ⟨h, -⟩) <;> cases h

theorem properArguments_cons {rest : List FieldNode} (hn : (Json.obj node.arguments).Proper)
    (hc : ProperArguments node.children) (hr : ProperArguments rest) :
    ProperArguments (node :: rest) := by
  rintro path other (h | ⟨h, hl⟩)
  · rcases List.mem_cons.mp h with rfl | h
    · exact hn
    · exact hr _ other (.top h)
  · rcases List.mem_cons.mp h with rfl | h
    · exact hc _ other hl
    · exact hr _ other (.under h hl)

theorem failsOnly_layOver : FailsOnly (fun e => ∃ existing ∈ nodes,
    existing.outputName = node.outputName ∧ Odds existing node ∧
    e = .conflict node.outputName node.position) (layOver node nodes) := by
  induction nodes with
  | nil => exact failsOnly_ok [node]
  | cons existing rest ih =>
    rw [layOver]
    split
    · next he =>
      split
      · exact failsOnly_ok _
      · next hs =>
        have hodds := odds_iff.mpr (Bool.eq_false_iff.mpr hs)
        exact failsOnly_error ⟨existing, by simp, he, hodds, rfl⟩
    · refine failsOnly_map (failsOnly_imp (fun e he => ?_) ih)
      obtain ⟨other, ho, h⟩ := he
      exact ⟨other, by simp [ho], h⟩

theorem outputName_ne_of_nodup {left right : List FieldNode}
    (hn : (outputNames (left ++ a :: right)).Nodup) (hb : b ∈ left ++ right) :
    a.outputName ≠ b.outputName := by
  have hp : (outputNames (left ++ a :: right)).Perm (outputNames (a :: (left ++ right))) :=
    List.perm_middle.map _
  have hn := hp.nodup_iff.mp hn
  rw [outputNames, List.map_cons, List.nodup_cons] at hn
  exact fun he => hn.1 (mem_outputNames.mpr ⟨b, hb, he.symm⟩)

theorem level_snoc : level (nodes ++ [node]) = level nodes >>= layOver node := by
  rw [level, List.foldlM_append]
  change level nodes >>= _ = _
  refine congrArg (level nodes >>= ·) (funext fun merged => ?_)
  rw [List.foldlM_cons]
  cases layOver node merged <;> rfl

theorem gathers_singleton (node : FieldNode) : Gathers node [node] :=
  ⟨node, [], rfl, by cases node; simp, nofun⟩

/-- The next node of a group adds its children. -/
theorem gathers_snoc {group : List FieldNode} (h : Gathers a group)
    (hs : sameSelection a b = true) :
    Gathers { a with children := a.children ++ b.children } (group ++ [b]) := by
  obtain ⟨first, rest, rfl, rfl, hr⟩ := h
  refine ⟨first, rest ++ [b], rfl, by simp, fun other ho => ?_⟩
  rcases List.mem_append.mp ho with ho | ho
  · exact hr other ho
  · rw [List.mem_singleton.mp ho]
    exact hs

theorem outputNames_snoc (nodes : List FieldNode) (node : FieldNode) :
    outputNames (nodes ++ [node]) = outputNames nodes ++ [node.outputName] :=
  List.map_append

theorem mem_outputNames_of_grouped (h : Grouped merged nodes) :
    name ∈ outputNames merged ↔ name ∈ outputNames nodes := by
  rw [h.1, List.mem_eraseDups]

/-- A node with a new output name is a group of its own. -/
theorem grouped_new (h : Grouped merged nodes) (hnot : node.outputName ∉ outputNames merged) :
    Grouped (merged ++ [node]) (nodes ++ [node]) := by
  have hnew := mt (mem_outputNames_of_grouped h).mpr hnot
  constructor
  · rw [outputNames_snoc, outputNames_snoc, Table.eraseDups_snoc, if_neg hnew, h.1]
  · intro m hm
    rcases List.mem_append.mp hm with hm | hm
    · have hne : node.outputName ≠ m.outputName := by
        intro he
        exact hnot (mem_outputNames.mpr ⟨m, hm, he.symm⟩)
      rw [named_snoc_of_ne hne]
      exact h.2 m hm
    · rw [List.mem_singleton.mp hm, named_snoc_self, named_eq_nil hnew]
      exact gathers_singleton node

/-- Any other node joins its group, and the other groups stay as they are. -/
theorem grouped_joined {left right : List FieldNode}
    (h : Grouped (left ++ a :: right) nodes) (hn : (outputNames (left ++ a :: right)).Nodup)
    (he : a.outputName = node.outputName) (hs : sameSelection a node = true) :
    Grouped (left ++ { a with children := a.children ++ node.children } :: right)
      (nodes ++ [node]) := by
  have hold : node.outputName ∈ outputNames nodes :=
    (mem_outputNames_of_grouped h).mp (mem_outputNames.mpr ⟨a, by simp, he⟩)
  constructor
  · rw [outputNames_snoc, Table.eraseDups_snoc, if_pos hold, ← h.1]
    simp [outputNames, FieldNode.outputName]
  · intro m hm
    have hcases : m = { a with children := a.children ++ node.children } ∨ m ∈ left ++ right := by
      simpa [or_left_comm] using hm
    rcases hcases with rfl | hm
    · change Gathers _ (named a.outputName _)
      rw [he, named_snoc_self, ← he]
      exact gathers_snoc (h.2 a (by simp)) hs
    · have hne := outputName_ne_of_nodup hn hm
      rw [he] at hne
      rw [named_snoc_of_ne hne]
      refine h.2 m (List.mem_append.mpr ?_)
      exact (List.mem_append.mp hm).imp_right (List.mem_cons_of_mem _)

theorem grouped_of_level (h : level nodes = .ok merged) : Grouped merged nodes := by
  induction nodes using List.reverseRecOn generalizing merged with
  | nil =>
    cases h
    exact ⟨rfl, nofun⟩
  | append_singleton nodes node ih =>
    rw [level_snoc] at h
    obtain ⟨before, hb, h⟩ := exists_of_bind_ok h
    have hn := nodup_outputNames_of_level hb
    rcases exists_of_layOver h with ⟨hnot, rfl⟩ | ⟨left, existing, right, rfl, he, hs, rfl⟩
    · exact grouped_new (ih hb) hnot
    · exact grouped_joined (ih hb) hn he hs

/-- A level fails over a node that is at odds with an earlier one of the same output name. -/
theorem failsOnly_level : FailsOnly (fun e => ∃ a ∈ nodes, ∃ b ∈ nodes,
    a.outputName = b.outputName ∧ Odds a b ∧ e = .conflict b.outputName b.position)
    (level nodes) := by
  induction nodes using List.reverseRecOn with
  | nil => exact failsOnly_ok []
  | append_singleton nodes node ih =>
    rw [level_snoc]
    refine failsOnly_bind (failsOnly_imp ?_ ih) fun before hb e he => ?_
    · rintro e ⟨a, ha, b, hb, h⟩
      exact ⟨a, by simp [ha], b, by simp [hb], h⟩
    · obtain ⟨existing, hm, hname, hodds, rfl⟩ := failsOnly_layOver e he
      obtain ⟨first, rest, hgroup, heq, -⟩ := (grouped_of_level hb).2 existing hm
      have hf : first ∈ named existing.outputName nodes := by simp [hgroup]
      obtain ⟨hf, hfirst⟩ := mem_named.mp hf
      rw [heq] at hodds
      exact ⟨first, by simp [hf], node, by simp, hfirst.trans hname, hodds, rfl⟩

/-- So does every level below, over nodes of the input. -/
theorem failsOnly_overlay : FailsOnly (fun e => ∃ path a b, Lies nodes path a ∧
    Lies nodes path b ∧ Odds a b ∧ e = .conflict b.outputName b.position) (overlay nodes) := by
  induction nodes using overlay.induct with
  | case1 nodes e he =>
    rw [overlay]
    split
    · next he =>
      refine failsOnly_error ?_
      obtain ⟨a, ha, b, hb, hname, h⟩ := failsOnly_level _ he
      exact ⟨_, a, b, hname ▸ Lies.top ha, .top hb, h⟩
    · next hm =>
      rw [he] at hm
      cases hm
  | case2 nodes merged hm ih =>
    rw [overlay]
    split
    · next he =>
      rw [hm] at he
      cases he
    · next merged' hm' =>
      rw [hm, Except.ok.injEq] at hm'
      subst hm'
      refine failsOnly_mapM fun node _ => failsOnly_bind ?_ fun _ _ => failsOnly_ok _
      -- What lies below the merged node lies below its group, one step down in the input.
      refine failsOnly_imp (fun e he => ?_) (ih node.1 node.2)
      obtain ⟨path, a, b, ha, hb, h⟩ := he
      obtain ⟨first, rest, hgroup, heq, -⟩ := (grouped_of_level hm).2 node.1 node.2
      rw [heq] at ha hb
      have hpath : path ≠ [] := by
        rintro rfl
        cases ha
      exact ⟨_, a, b, (lies_cons hpath).mpr ha, (lies_cons hpath).mpr hb, h⟩

theorem outputNames_overlay (h : overlay nodes = .ok merged) :
    outputNames merged = (outputNames nodes).eraseDups := by
  obtain ⟨upper, hl, hf⟩ := exists_of_overlay h
  rw [outputNames_of_children hf]
  exact (grouped_of_level hl).1

/-- What is left of a group: its first node, over what its children merge to. -/
theorem exists_of_mem_overlay (h : overlay nodes = .ok merged) {m : FieldNode} (hm : m ∈ merged) :
    ∃ first rest children, named m.outputName nodes = first :: rest ∧ m = { first with children } ∧
      overlay ((named m.outputName nodes).flatMap FieldNode.children) = .ok children ∧
      ∀ other ∈ rest, sameSelection first other = true := by
  obtain ⟨upper, hl, hf⟩ := exists_of_overlay h
  obtain ⟨node, hn, children, hc, rfl⟩ := exists_of_forall₂_of_mem hf hm
  obtain ⟨first, rest, hgroup, heq, hr⟩ := (grouped_of_level hl).2 node hn
  rw [heq] at hc
  exact ⟨first, rest, children, hgroup, by rw [heq], hc, hr⟩

/-- Merging leaves a level alone whose nodes have nothing to merge below them. -/
theorem overlay_of_level (hl : level nodes = .ok merged)
    (hc : ∀ node ∈ merged, overlay node.children = .ok node.children) :
    overlay nodes = .ok merged := by
  rw [overlay]
  split
  · next he =>
    rw [hl] at he
    cases he
  · next merged' hm =>
    rw [hl, Except.ok.injEq] at hm
    subst hm
    have hsteps : ∀ node ∈ merged.attach, (do
        let children ← overlay node.1.children
        return { node.1 with children } : Except PlanError FieldNode) = .ok node.1 := by
      intro node _
      rw [hc node.1 node.2]
      cases node.1
      rfl
    rw [mapM_of_forall hsteps, List.attach_map_subtype_val]

/-- Where merging succeeds, one step down leads from the merged nodes to what those to which it
leads in the input merge to. -/
theorem overlay_below (h : overlay nodes = .ok merged) (name : String) :
    overlay ((named name nodes).flatMap FieldNode.children) =
      .ok ((named name merged).flatMap FieldNode.children) := by
  by_cases hname : name ∈ outputNames merged
  · obtain ⟨m, hm, rfl⟩ := mem_outputNames.mp hname
    obtain ⟨first, rest, children, -, heq, hc, -⟩ := exists_of_mem_overlay h hm
    rw [named_of_nodup (nodup_outputNames_of_overlay h) hm, hc, List.flatMap_singleton, heq]
  · have hnot : name ∉ outputNames nodes := by
      rwa [outputNames_overlay h, List.mem_eraseDups] at hname
    rw [named_eq_nil hname, named_eq_nil hnot]
    exact overlay_of_level rfl nofun

theorem overlay_beneath (h : overlay nodes = .ok merged) (path : List String) :
    overlay (beneath path nodes) = .ok (beneath path merged) := by
  induction path generalizing nodes merged with
  | nil => exact h
  | cons name path ih => exact ih (overlay_below h name)

theorem overlies_of_overlay (h : overlay nodes = .ok merged)
    (hp : ∀ node ∈ nodes, (Json.obj node.arguments).Proper) : Overlies merged nodes where
  distinct := nodup_outputNames_of_overlay h
  inOrder := outputNames_overlay h
  first m hm := by
    obtain ⟨first, rest, children, hgroup, heq, -⟩ := exists_of_mem_overlay h hm
    exact ⟨first, by rw [hgroup]; rfl, by rw [heq], by rw [heq], by rw [heq], by rw [heq]⟩
  common m hm other ho := by
    obtain ⟨first, rest, children, hgroup, heq, -, hr⟩ := exists_of_mem_overlay h hm
    rw [hgroup] at ho
    have hfirst : first ∈ nodes := (mem_named.mp (hgroup ▸ List.mem_cons_self)).1
    rw [heq]
    rcases List.mem_cons.mp ho with rfl | ho
    · exact ⟨rfl, Json.same_refl (hp other hfirst)⟩
    · have hs := hr other ho
      exact ⟨(name_eq_of_sameSelection hs).symm, arguments_of_sameSelection hs⟩

/-- Nodes of one output name, which one node of the merged level stands for, are not at odds. -/
theorem not_odds_of_overlies (h : Overlies merged nodes)
    (hp : ∀ node ∈ nodes, (Json.obj node.arguments).Proper) (ha : a ∈ nodes) (hb : b ∈ nodes)
    (hname : a.outputName = b.outputName) : ¬ Odds a b := by
  have hmem : a.outputName ∈ outputNames merged := by
    rw [h.inOrder, List.mem_eraseDups]
    exact mem_outputNames.mpr ⟨a, ha, rfl⟩
  obtain ⟨m, hm, he⟩ := mem_outputNames.mp hmem
  obtain ⟨hna, hsa⟩ := h.common m hm a (mem_named.mpr ⟨ha, he.symm⟩)
  obtain ⟨hnb, hsb⟩ := h.common m hm b (mem_named.mpr ⟨hb, hname.symm.trans he.symm⟩)
  have hpm : (Json.obj m.arguments).Proper := by
    obtain ⟨first, hf, -, -, -, harg⟩ := h.first m hm
    rw [harg]
    exact hp first (mem_named.mp (List.mem_of_mem_head? hf)).1
  rintro (hne | hne)
  · exact hne (hna.trans hnb.symm)
  · rw [Json.same_trans (Json.same_symm hpm hsa) hsb] at hne
    cases hne

theorem not_atOdds_of_overlies (hp : ProperArguments nodes)
    (h : ∀ path, Overlies (beneath path merged) (beneath path nodes)) : ¬ AtOdds nodes := by
  rintro ⟨path, a, b, ha, hb, hodds⟩
  obtain ⟨way, rfl, hwa⟩ := exists_of_lies ha
  obtain ⟨hwb, hname⟩ := mem_named.mp (lies_iff.mp hb)
  have hway : ∀ node ∈ beneath way nodes, (Json.obj node.arguments).Proper :=
    fun node hn => hp _ node (lies_of_mem hn)
  exact not_odds_of_overlies (h way) hway hwa hwb hname.symm hodds

/-- Levels that overlie others have their output paths. -/
theorem exists_lies_of_overlies (h : ∀ path, Overlies (beneath path merged) (beneath path nodes))
    (path : List String) : (∃ node, Lies merged path node) ↔ ∃ node, Lies nodes path node := by
  rw [exists_lies_iff, exists_lies_iff]
  refine exists_congr fun way => exists_congr fun name => and_congr_right fun _ => ?_
  rw [(h way).inOrder, List.mem_eraseDups]

theorem layOver_new (h : node.outputName ∉ outputNames nodes) :
    layOver node nodes = .ok (nodes ++ [node]) := by
  induction nodes with
  | nil => rfl
  | cons first rest ih =>
    rw [outputNames, List.map_cons, List.mem_cons, not_or] at h
    rw [layOver, if_neg (Ne.symm h.1), ih h.2]
    rfl

theorem level_of_nodup (hn : (outputNames nodes).Nodup) : level nodes = .ok nodes := by
  induction nodes using List.reverseRecOn with
  | nil => rfl
  | append_singleton nodes node ih =>
    rw [outputNames_snoc, List.nodup_append] at hn
    obtain ⟨hl, -, hne⟩ := hn
    rw [level_snoc, ih hl, ok_bind]
    exact layOver_new fun hmem => hne _ hmem node.outputName (by simp) rfl

/-- Where no output name comes twice beneath any path, there is nothing to merge. -/
theorem overlay_of_distinct (hn : ∀ path, (outputNames (beneath path nodes)).Nodup) :
    overlay nodes = .ok nodes := by
  have hn₀ : (outputNames nodes).Nodup := hn []
  have hl := level_of_nodup hn₀
  induction nodes using overlay.induct with
  | case1 nodes e he =>
    rw [he] at hl
    cases hl
  | case2 nodes merged hm ih =>
    rw [hm, Except.ok.injEq] at hl
    subst hl
    refine overlay_of_level hm fun node hnode => ?_
    have hc : ∀ path, (outputNames (beneath path node.children)).Nodup := by
      intro path
      have hpath := hn (node.outputName :: path)
      rwa [beneath, named_of_nodup hn₀ hnode, List.flatMap_singleton] at hpath
    exact ih node hnode hc (hc []) (level_of_nodup (hc []))

/-- Merging is the least overlay of its input. It fails exactly where two nodes with one output path
are at odds. Otherwise the output paths stay as they were, each with one node, which is the first
that has the path over what lies below all of them, and nothing is left to merge. -/
theorem overlay_least (hp : ProperArguments nodes) :
    ((∃ output position, overlay nodes = .error (.conflict output position)) ↔ AtOdds nodes) ∧
      (¬ AtOdds nodes → ∃ merged, overlay nodes = .ok merged) ∧
      ∀ merged, overlay nodes = .ok merged →
        (∀ path, (∃ node, Lies merged path node) ↔ ∃ node, Lies nodes path node) ∧
        (∀ path, Overlies (beneath path merged) (beneath path nodes)) ∧
        overlay merged = .ok merged := by
  have hlevels : ∀ merged, overlay nodes = .ok merged →
      ∀ path, Overlies (beneath path merged) (beneath path nodes) := by
    intro merged h path
    exact overlies_of_overlay (overlay_beneath h path) fun node hn => hp _ node (lies_of_mem hn)
  have hfails : ∀ e, overlay nodes = .error e → AtOdds nodes ∧ ∃ output position,
      e = .conflict output position := by
    intro e he
    obtain ⟨path, a, b, ha, hb, hodds, heq⟩ := failsOnly_overlay e he
    exact ⟨⟨path, a, b, ha, hb, hodds⟩, _, _, heq⟩
  have hodds : ∀ merged, overlay nodes = .ok merged → ¬ AtOdds nodes :=
    fun merged h => not_atOdds_of_overlies hp (hlevels merged h)
  cases h : overlay nodes with
  | error e =>
    obtain ⟨hat, output, position, rfl⟩ := hfails e h
    exact ⟨⟨fun _ => hat, fun _ => ⟨output, position, rfl⟩⟩, fun hnot => (hnot hat).elim, nofun⟩
  | ok merged =>
    refine ⟨⟨nofun, fun hat => (hodds merged h hat).elim⟩, fun _ => ⟨merged, rfl⟩, ?_⟩
    rintro _ ⟨⟩
    have hc := hlevels merged h
    exact ⟨exists_lies_of_overlies hc, hc, overlay_of_distinct fun path => (hc path).distinct⟩

end GraphGate.Plan

namespace GraphGate.Sample

open Plan

/-- A field of one argument, with what is selected below it. -/
def selecting (name : String) (argument : Int) (children : List FieldNode) : FieldNode :=
  { aliasName := none, name, arguments := [("first", .num (.int argument))], children,
    position := ⟨1, 1⟩ }

/-- The third level selects one field with two arguments. -/
def disputed : List FieldNode :=
  [selecting "item" 1 [selecting "owner" 1 [selecting "pets" 1 []]],
    selecting "item" 1 [selecting "owner" 1 [selecting "pets" 2 []]]]

def undisputed : List FieldNode :=
  [selecting "item" 1 [selecting "owner" 1 []], selecting "item" 1 [selecting "pets" 2 []]]

def joined : List FieldNode :=
  [selecting "item" 1 [selecting "owner" 1 [], selecting "pets" 2 []]]

theorem properArguments_selecting {name : String} {argument : Int} {children rest : List FieldNode}
    (hc : ProperArguments children) (hr : ProperArguments rest) :
    ProperArguments (selecting name argument children :: rest) := by
  refine properArguments_cons ?_ hc hr
  simp [selecting, Json.Proper, Json.ProperFields, Number.same, Table.names]

theorem overlay_undisputed : overlay undisputed = .ok joined := by
  refine overlay_of_level rfl fun node hn => ?_
  cases List.mem_singleton.mp hn
  refine overlay_of_level rfl fun node hn => ?_
  have hc : node.children = [] := by
    rcases hn with _ | ⟨_, _ | ⟨_, hn⟩⟩
    · rfl
    · rfl
    · cases hn
  rw [hc]
  exact overlay_of_level rfl nofun

theorem overlay_least_disputed :
    (∃ output position, overlay disputed = .error (.conflict output position)) ∧
      overlay undisputed = .ok joined ∧ overlay joined = .ok joined := by
  have hleaf : ∀ name argument, ProperArguments [selecting name argument []] :=
    fun _ _ => properArguments_selecting properArguments_nil properArguments_nil
  have hdisputed : ProperArguments disputed := by
    refine properArguments_selecting ?_ (properArguments_selecting ?_ properArguments_nil)
    all_goals exact properArguments_selecting (hleaf _ _) properArguments_nil
  have hundisputed : ProperArguments undisputed :=
    properArguments_selecting (hleaf _ _)
      (properArguments_selecting (hleaf _ _) properArguments_nil)
  have hat : AtOdds disputed := by
    refine ⟨["item", "owner", "pets"], selecting "pets" 1 [], selecting "pets" 2 [], ?_, ?_, ?_⟩
    · exact .under (.head _) (.under (.head _) (.top (.head _)))
    · exact .under (.tail _ (.head _)) (.under (.head _) (.top (.head _)))
    · exact odds_iff.mpr (by decide)
  exact ⟨(overlay_least hdisputed).1.mpr hat, overlay_undisputed,
    ((overlay_least hundisputed).2.2 joined overlay_undisputed).2.2⟩

end GraphGate.Sample
