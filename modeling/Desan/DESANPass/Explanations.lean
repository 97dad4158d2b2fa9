import Desan.DESANPass.QueriesAsked

/-! # Which checks are explained

The second loop walks the groups of the retention policy. Every analysed core check is a
node of one graph, so each is explained at most once, and no marked call goes unexplained
when certain checks are asked about too. -/

namespace Desan

namespace Module

variable {module : Module} {addresses : Addresses} {options : GroupingOptions}
  {coreCheckSet : List CoreCheckKey} {trees : DominatorTrees}

/-- The groups are the checks of the module, each in one group. -/
theorem perm_groups (module : Module) (addresses : Addresses) (options : GroupingOptions)
    (coreCheckSet : List CoreCheckKey) :
    ((module.groupChecksByVariable addresses options coreCheckSet).flatMap Prod.snd).Perm
      (module.moduleVariables coreCheckSet) :=
  perm_groupBy _ _ _

theorem mem_moduleVariables_of_group {entry : VariableKey × List CheckedVariable}
    (member : entry ∈ module.groupChecksByVariable addresses options coreCheckSet)
    {checked : CheckedVariable} (inside : checked ∈ entry.2) :
    checked ∈ module.moduleVariables coreCheckSet :=
  (module.perm_groups addresses options coreCheckSet).subset
    (List.mem_flatMap.mpr ⟨entry, member, inside⟩)

/-- A node says of its check what the check says. -/
structure OfCheck (node : CheckNode) : Prop where
  call : node.checkInst = node.var.checkInst
  type : node.type = node.var.type

theorem ofCheck_of_mem_makeNodes {group : List CheckedVariable} {nodes : List CheckNode}
    {node : CheckNode}
    (member : node ∈ (module.makeNodes group).map (module.withLinks trees nodes)) :
    OfCheck node := by
  rcases List.mem_map.mp member with ⟨base, inside, rfl⟩
  rcases List.mem_mapIdx.mp inside with ⟨index, bound, rfl⟩
  exact ⟨rfl, rfl⟩

theorem map_var_makeNodes (group : List CheckedVariable) (nodes : List CheckNode) :
    ((module.makeNodes group).map (module.withLinks trees nodes)).map CheckNode.var = group := by
  apply List.ext_getElem
  · simp [makeNodes]
  · intro index _ _
    simp [makeNodes, makeNode, withLinks]

/-- A marked call is a READ among the checks of the module. -/
theorem read_of_mem_markedCalls {inst : InstId}
    (marked : inst ∈ (module.markRedundantChecks addresses options coreCheckSet).markedCalls) :
    ∃ checked ∈ module.moduleVariables coreCheckSet,
      checked.checkInst = some inst ∧ checked.type = .READ := by
  have calls : ∀ checked ∈ module.moduleVariables coreCheckSet, checked.checkInst.isSome :=
    fun checked member => checkInst_isSome_of_mem member
  rcases (mem_markChecks_iff_split module addresses options calls inst).mp marked with
    ⟨before, checked, after, split, call, isRead, -⟩
  refine ⟨checked, ?_, call, isRead⟩
  rw [split]
  exact List.mem_append_right _ (List.mem_cons_self ..)

end Module

namespace DESANPass

open LLMAssistedAnalyzer

/-- The check that a query asks to explain, and whether the query calls it a candidate of
the static policy. -/
def explanation? : Query → Option (CheckedVariable × Bool)
  | .safeToRemove node staticPolicyCandidate => some (node.var, staticPolicyCandidate)
  | _ => none

namespace AssistedAnalysis

variable {State : Type*} (analysis : AssistedAnalysis State)

/-- A check is explained if its access is unknown, or if it is a READ and either certain
checks are asked about too or its variable is ambiguous. -/
def explains (checked : CheckedVariable) : Bool :=
  checked.type = .UNKNOWN || checked.type = .READ &&
    (!analysis.options.llmOnlyUncertain || hasAmbiguousValue analysis.module.graph checked)

variable {analysis}

theorem explanations_variableQueries (previous : Option CheckedVariable)
    (checked : CheckedVariable) :
    (analysis.variableQueries previous checked).filterMap explanation? = [] := by
  rw [List.filterMap_eq_nil_iff]
  intro query member
  rcases List.mem_append.mp member with first | second
  · split at first
    · rcases List.mem_map.mp first with ⟨check, -, rfl⟩
      rfl
    · cases first
  · rcases List.mem_map.mp second with ⟨recent, -, rfl⟩
    rfl

theorem explanations_runQueries (previous : Option CheckedVariable)
    (checks : List CheckedVariable) :
    (analysis.runQueries previous checks).filterMap explanation? = [] := by
  induction checks generalizing previous with
  | nil => rfl
  | cons head tail induction =>
      rw [runQueries, List.filterMap_append, explanations_variableQueries, induction]
      rfl

theorem explanations_nodeQueries {nodes : List CheckNode}
    (ofCheck : ∀ node ∈ nodes, Module.OfCheck node)
    (calls : ∀ node ∈ nodes, node.var.checkInst.isSome) :
    (analysis.nodeQueries nodes).filterMap explanation? =
      ((nodes.map CheckNode.var).filter analysis.explains).map fun checked =>
        (checked, decide (checked.type = .READ)) := by
  induction nodes with
  | nil => rfl
  | cons node rest induction =>
      have further := induction (fun node member => ofCheck node (List.mem_cons_of_mem _ member))
        fun node member => calls node (List.mem_cons_of_mem _ member)
      have ofNode := ofCheck node (List.mem_cons_self ..)
      have asked : analysis.askedAbout node = analysis.explains node.var := by
        rw [askedAbout, explains, ofNode.call, calls node (List.mem_cons_self ..), ofNode.type,
          Bool.true_and]
      rw [nodeQueries] at further ⊢
      rw [List.map_cons]
      by_cases explained : analysis.explains node.var = true
      · rw [List.filter_cons_of_pos (asked.trans explained), List.filter_cons_of_pos explained,
          List.map_cons, List.map_cons, ← further, ofNode.type]
        rfl
      · rw [List.filter_cons_of_neg (by rw [asked]; exact explained),
          List.filter_cons_of_neg explained, further]

theorem nodes_of_group {entry : VariableKey × List CheckedVariable}
    (member : entry ∈ analysis.groups) :
    entry.2.head?.toList.flatMap analysis.nodesFor =
      (analysis.module.makeNodes entry.2).map
        (analysis.module.withLinks analysis.trees (analysis.module.makeNodes entry.2)) := by
  cases isGroup : entry.2 with
  | nil => rfl
  | cons first rest =>
      have inside : first ∈ entry.2 := isGroup ▸ List.mem_cons_self ..
      rw [List.head?_cons, Option.toList_some, List.flatMap_singleton, nodesFor,
        Module.nodes_buildGraphForVariable member inside, isGroup]

theorem explanations_groupQueries {entry : VariableKey × List CheckedVariable}
    (member : entry ∈ analysis.groups) :
    (analysis.groupQueries entry).filterMap explanation? =
      (entry.2.filter analysis.explains).map fun checked =>
        (checked, decide (checked.type = .READ)) := by
  rw [groupQueries, nodes_of_group member, explanations_nodeQueries,
    Module.map_var_makeNodes]
  · intro node inside
    exact Module.ofCheck_of_mem_makeNodes inside
  · intro node inside
    have isVar := List.mem_map_of_mem (f := CheckNode.var) inside
    rw [Module.map_var_makeNodes] at isVar
    exact Module.checkInst_isSome_of_mem (Module.mem_moduleVariables_of_group member isVar)

theorem explanations_queries :
    (analysis.queries.filterMap explanation?).Perm
      (((analysis.module.moduleVariables analysis.coreCheckSet).filter analysis.explains).map
        fun checked => (checked, decide (checked.type = .READ))) := by
  have groups : (analysis.groups.flatMap analysis.groupQueries).filterMap explanation? =
      ((analysis.groups.flatMap Prod.snd).filter analysis.explains).map fun checked =>
        (checked, decide (checked.type = .READ)) := by
    rw [List.filterMap_flatMap, List.filter_flatMap, List.map_flatMap]
    exact List.flatMap_congr fun entry member => explanations_groupQueries member
  rw [queries, List.filterMap_append, explanations_runQueries, List.nil_append, groups]
  exact ((analysis.module.perm_groups _ _ _).filter _).map _

/-- Without a limit every analysed core check of an unknown access, and every READ that is
uncertain or asked about anyway, is explained once, the READs as candidates of the static
policy. If certain checks are asked about too, every marked call is explained as one. -/
theorem explanations_runLLMAssistedAnalysis {State : Type*} (analysis : AssistedAnalysis State)
    (hostState : State) :
    let explanations := ((analysis.unlimited.runLLMAssistedAnalysis hostState).answers.map
      Prod.fst).filterMap explanation?
    explanations.Perm
        (((analysis.module.moduleVariables analysis.coreCheckSet).filter analysis.explains).map
          fun checked => (checked, decide (checked.type = .READ))) ∧
      (analysis.options.llmOnlyUncertain = false →
        ∀ inst ∈ (analysis.module.markRedundantChecks analysis.addresses analysis.grouping
            analysis.coreCheckSet).markedCalls,
          ∃ checked, checked.checkInst = some inst ∧ (checked, true) ∈ explanations) := by
  intro explanations
  have asked : explanations = analysis.queries.filterMap explanation? := by
    rw [← asked_unlimited hostState]
  have permuted := @explanations_queries _ analysis
  rw [← asked] at permuted
  refine ⟨permuted, ?_⟩
  intro certain inst marked
  rcases Module.read_of_mem_markedCalls marked with ⟨checked, member, call, isRead⟩
  refine ⟨checked, call, permuted.mem_iff.mpr (List.mem_map.mpr ⟨checked, ?_, ?_⟩)⟩
  · apply List.mem_filter.mpr
    refine ⟨member, ?_⟩
    simp [explains, isRead, certain]
  · rw [isRead]
    rfl

end AssistedAnalysis

end DESANPass

end Desan
