import Desan.CheckGraphBuilder.Graph

/-! # What the links of a check graph say

The nodes a graph is built from are never changed but in their links, so the links of
every node can be read off the nodes themselves. -/

namespace Desan

/-- The pairs for which the two loops make a change, in their order. -/
def relatedPairs (related : CheckNode → CheckNode → Bool) (nodes : List CheckNode) :
    List (Nat × Nat) :=
  nodes.flatMap fun source =>
    (nodes.filter fun target => source.id ≠ target.id ∧ related source target = true).map
      fun target => (source.id, target.id)

/-- Nodes linked to from the given one, in order of discovery. -/
def targetsOf (pairs : List (Nat × Nat)) (source : Nat) : List Nat :=
  ((pairs.filter fun pair => pair.1 = source).map Prod.snd).foldl CheckNode.appendUniqueNode []

def sourcesOf (pairs : List (Nat × Nat)) (target : Nat) : List Nat :=
  ((pairs.filter fun pair => pair.2 = target).map Prod.fst).foldl CheckNode.appendUniqueNode []

theorem mem_relatedPairs {related : CheckNode → CheckNode → Bool} {nodes : List CheckNode}
    {first second : Nat} :
    (first, second) ∈ relatedPairs related nodes ↔
      ∃ source ∈ nodes, ∃ target ∈ nodes, source.id = first ∧ target.id = second ∧
        source.id ≠ target.id ∧ related source target = true := by
  simp only [relatedPairs, List.mem_flatMap, List.mem_map, List.mem_filter, Prod.mk.injEq,
    decide_eq_true_eq]
  constructor
  · intro parts
    rcases parts with ⟨source, sourceMember, target, ⟨targetMember, holds⟩, equal⟩
    exact ⟨source, sourceMember, target, targetMember, equal.1, equal.2, holds⟩
  · intro parts
    rcases parts with ⟨source, sourceMember, target, targetMember, first, second, holds⟩
    exact ⟨source, sourceMember, target, ⟨targetMember, holds⟩, first, second⟩

theorem mem_foldl_appendUniqueNode {more nodes : List Nat} {node : Nat} :
    node ∈ more.foldl CheckNode.appendUniqueNode nodes ↔ node ∈ nodes ∨ node ∈ more := by
  induction more generalizing nodes with
  | nil => simp
  | cons head tail induction =>
      rw [List.foldl_cons, induction, CheckNode.appendUniqueNode]
      split
      · rename_i present
        constructor
        · intro either
          exact either.imp_right (List.mem_cons_of_mem _)
        · intro either
          rcases either with old | new
          · exact .inl old
          · rcases List.mem_cons.mp new with rfl | later
            · exact .inl present
            · exact .inr later
      · simp [or_assoc]

@[simp] theorem mem_targetsOf {pairs : List (Nat × Nat)} {source target : Nat} :
    target ∈ targetsOf pairs source ↔ (source, target) ∈ pairs := by
  rw [targetsOf, mem_foldl_appendUniqueNode]
  simp

@[simp] theorem mem_sourcesOf {pairs : List (Nat × Nat)} {source target : Nat} :
    source ∈ sourcesOf pairs target ↔ (source, target) ∈ pairs := by
  rw [sourcesOf, mem_foldl_appendUniqueNode]
  simp

/-- The two loops apply the changes of the related pairs to every node. -/
theorem linkRelated_eq (related : CheckNode → CheckNode → Bool)
    (change : Nat → Nat → CheckNode → CheckNode) (nodes : List CheckNode) :
    linkRelated related change nodes = nodes.map fun node =>
      (relatedPairs related nodes).foldl (fun node pair => change pair.1 pair.2 node) node := by
  have inner : ∀ (source : CheckNode) (targets outer : List CheckNode),
      targets.foldl (fun inner target =>
        if source.id = target.id then inner
        else if !related source target then inner
        else inner.map (change source.id target.id)) outer =
      outer.map fun node =>
        ((targets.filter fun target => source.id ≠ target.id ∧ related source target = true).map
          fun target => (source.id, target.id)).foldl
            (fun node pair => change pair.1 pair.2 node) node := by
    intro source targets
    induction targets with
    | nil => simp
    | cons head tail induction =>
        intro outer
        rw [List.foldl_cons, induction]
        by_cases same : source.id = head.id
        · simp [same]
        · cases holds : related source head <;> simp [same, holds, Function.comp_def]
  have outer : ∀ sources start : List CheckNode,
      sources.foldl (fun outer source =>
        nodes.foldl (fun inner target =>
          if source.id = target.id then inner
          else if !related source target then inner
          else inner.map (change source.id target.id)) outer) start =
      start.map fun node =>
        (sources.flatMap fun source =>
          (nodes.filter fun target => source.id ≠ target.id ∧ related source target = true).map
            fun target => (source.id, target.id)).foldl
              (fun node pair => change pair.1 pair.2 node) node := by
    intro sources
    induction sources with
    | nil => simp
    | cons head tail induction =>
        intro start
        rw [List.foldl_cons, inner, induction, List.map_map]
        apply List.map_congr_left
        intro node _
        simp only [Function.comp_apply, List.flatMap_cons, List.foldl_append]
  exact outer nodes nodes

theorem foldl_addReachable (pairs : List (Nat × Nat)) (node : CheckNode) :
    pairs.foldl (fun node pair => node.addReachable pair.1 pair.2) node =
      { node with
        successors := ((pairs.filter fun pair => pair.1 = node.id).map Prod.snd).foldl
          CheckNode.appendUniqueNode node.successors
        predecessors := ((pairs.filter fun pair => pair.2 = node.id).map Prod.fst).foldl
          CheckNode.appendUniqueNode node.predecessors } := by
  induction pairs generalizing node with
  | nil => rfl
  | cons head tail induction =>
      rw [List.foldl_cons, induction]
      rcases head with ⟨source, target⟩
      by_cases atSource : source = node.id <;> by_cases atTarget : target = node.id <;>
        simp [CheckNode.addReachable, atSource, atTarget]

theorem foldl_addDominance (pairs : List (Nat × Nat)) (node : CheckNode) :
    pairs.foldl (fun node pair => node.addDominance pair.1 pair.2) node =
      { node with
        dominators := ((pairs.filter fun pair => pair.2 = node.id).map Prod.fst).foldl
          CheckNode.appendUniqueNode node.dominators
        dominatedNodes := ((pairs.filter fun pair => pair.1 = node.id).map Prod.snd).foldl
          CheckNode.appendUniqueNode node.dominatedNodes } := by
  induction pairs generalizing node with
  | nil => rfl
  | cons head tail induction =>
      rw [List.foldl_cons, induction]
      rcases head with ⟨source, target⟩
      by_cases atSource : source = node.id <;> by_cases atTarget : target = node.id <;>
        simp [CheckNode.addDominance, atSource, atTarget]

namespace Module

/-- A node of the group with the links that both computations give it. -/
def withLinks (module : Module) (trees : DominatorTrees) (nodes : List CheckNode)
    (node : CheckNode) : CheckNode :=
  { node with
    successors := targetsOf (relatedPairs module.isReachable nodes) node.id
    predecessors := sourcesOf (relatedPairs module.isReachable nodes) node.id
    dominators := sourcesOf (relatedPairs (module.isDominator trees) nodes) node.id
    dominatedNodes := targetsOf (relatedPairs (module.isDominator trees) nodes) node.id }

theorem nodes_computeReachability (module : Module) (graph : CheckGraph) :
    (module.computeReachability graph).nodes = graph.nodes.map fun node =>
      { node with
        successors := targetsOf (relatedPairs module.isReachable graph.nodes) node.id
        predecessors := sourcesOf (relatedPairs module.isReachable graph.nodes) node.id } := by
  have pairs : relatedPairs module.isReachable (graph.nodes.map fun node =>
      { node with successors := [], predecessors := [] }) =
        relatedPairs module.isReachable graph.nodes := by
    simp only [relatedPairs, List.flatMap_map, List.filter_map, List.map_map]
    rfl
  simp only [computeReachability, linkRelated_eq, pairs, List.map_map]
  apply List.map_congr_left
  intro node _
  simp only [Function.comp_apply, foldl_addReachable, targetsOf, sourcesOf]

theorem nodes_computeDominance (module : Module) (trees : DominatorTrees)
    (graph : CheckGraph) :
    (module.computeDominance trees graph).nodes = graph.nodes.map fun node =>
      { node with
        dominators := sourcesOf (relatedPairs (module.isDominator trees) graph.nodes) node.id
        dominatedNodes :=
          targetsOf (relatedPairs (module.isDominator trees) graph.nodes) node.id } := by
  have pairs : relatedPairs (module.isDominator trees) (graph.nodes.map fun node =>
      { node with dominators := [], dominatedNodes := [] }) =
        relatedPairs (module.isDominator trees) graph.nodes := by
    simp only [relatedPairs, List.flatMap_map, List.filter_map, List.map_map]
    rfl
  simp only [computeDominance, linkRelated_eq, pairs, List.map_map]
  apply List.map_congr_left
  intro node _
  simp only [Function.comp_apply, foldl_addDominance, targetsOf, sourcesOf]

variable {module : Module} {addresses : Addresses} {options : GroupingOptions}
  {coreCheckSet : List CoreCheckKey} {trees : DominatorTrees} {var : CheckedVariable}

theorem nodes_linked (module : Module) (trees : DominatorTrees) (var : CheckedVariable)
    (key : VariableKey) (group : List CheckedVariable) :
    (module.computeDominance trees
        (module.computeReachability ⟨var, key, module.makeNodes group⟩)).nodes =
      (module.makeNodes group).map (module.withLinks trees (module.makeNodes group)) := by
  rw [nodes_computeDominance, nodes_computeReachability]
  have pairs : relatedPairs (module.isDominator trees)
      ((module.makeNodes group).map fun node =>
        { node with
          successors :=
            targetsOf (relatedPairs module.isReachable (module.makeNodes group)) node.id
          predecessors :=
            sourcesOf (relatedPairs module.isReachable (module.makeNodes group)) node.id }) =
        relatedPairs (module.isDominator trees) (module.makeNodes group) := by
    simp only [relatedPairs, List.flatMap_map, List.filter_map, List.map_map]
    rfl
  simp only [pairs, List.map_map]
  rfl

/-- A graph is a group of checks with its links. -/
theorem exists_nodes (module : Module) (addresses : Addresses) (options : GroupingOptions)
    (coreCheckSet : List CoreCheckKey) (trees : DominatorTrees) (var : CheckedVariable) :
    ∃ group, (module.buildGraphForVariable addresses options coreCheckSet trees var).nodes =
      (module.makeNodes group).map (module.withLinks trees (module.makeNodes group)) := by
  rw [buildGraphForVariable]
  split
  · exact ⟨[], rfl⟩
  · rename_i group _
    exact ⟨group, nodes_linked module trees _ _ group⟩

/-- The group of a graph is the one that has its variable. -/
theorem nodes_buildGraphForVariable {entry : VariableKey × List CheckedVariable}
    (member : entry ∈ module.groupChecksByVariable addresses options coreCheckSet)
    (inside : var ∈ entry.2) :
    (module.buildGraphForVariable addresses options coreCheckSet trees var).nodes =
      (module.makeNodes entry.2).map (module.withLinks trees (module.makeNodes entry.2)) := by
  have grouped := grouped_groupBy addresses.rankedBy_variableKeyLess (makeVariableKey options)
    (module.moduleVariables coreCheckSet)
  have tie : addresses.keyRank (makeVariableKey options var) = addresses.keyRank entry.1 := by
    rw [grouped.group_eq entry member] at inside
    exact of_decide_eq_true (List.mem_filter.mp inside).2
  have ties : ∀ other : VariableKey × List CheckedVariable,
      (!addresses.variableKeyLess other.1 (makeVariableKey options var) &&
        !addresses.variableKeyLess (makeVariableKey options var) other.1) = true ↔
          addresses.keyRank other.1 = addresses.keyRank (makeVariableKey options var) := by
    intro other
    rw [← addresses.rankedBy_variableKeyLess.tie_iff, Bool.and_eq_true, Bool.not_eq_true',
      Bool.not_eq_true', Bool.not_eq_true, Bool.not_eq_true]
  rw [buildGraphForVariable]
  split
  · rename_i none
    exact absurd ((ties entry).mpr tie.symm) (List.find?_eq_none.mp none entry member)
  · rename_i key group found
    have holds := List.find?_some found
    have sameRank := (ties (key, group)).mp holds
    have same : (key, group) = entry :=
      grouped.sorted.eq_of_rank (List.mem_of_find?_eq_some found) member (sameRank.trans tie)
    rw [nodes_linked, ← same]

theorem nodup_ids_makeNodes (group : List CheckedVariable) :
    ((module.makeNodes group).map CheckNode.id).Nodup := by
  have ids : (module.makeNodes group).map CheckNode.id = List.range group.length := by
    apply List.ext_getElem
    · simp [makeNodes]
    · intro index _ _
      simp [makeNodes, makeNode]
  rw [ids]
  exact List.nodup_range

/-- A node stands in the block of its anchor. -/
theorem block_of_mem_makeNodes {group : List CheckedVariable} {node : CheckNode}
    (member : node ∈ module.makeNodes group) :
    node.block = node.nodeAnchor.bind module.parentId? := by
  rcases List.mem_mapIdx.mp member with ⟨index, bound, rfl⟩
  cases found : group[index].checkInst with
  | none => simp [makeNode, CheckNode.nodeAnchor, found]
  | some check => simp [makeNode, CheckNode.nodeAnchor, found]

/-! ## Membership -/

/-- The nodes of a graph before their links are known: the links are then as the two
relations say. -/
structure Built (module : Module) (trees : DominatorTrees) (nodes : List CheckNode) :
    Prop where
  ids : (nodes.map CheckNode.id).Nodup
  placed : ∀ node ∈ nodes, node.block = node.nodeAnchor.bind module.parentId?
  successors : ∀ source ∈ nodes, ∀ target ∈ nodes,
    target.id ∈ source.successors ↔
      source.id ≠ target.id ∧ module.isReachable source target = true
  predecessors : ∀ source ∈ nodes, ∀ target ∈ nodes,
    source.id ∈ target.predecessors ↔
      source.id ≠ target.id ∧ module.isReachable source target = true
  dominators : ∀ source ∈ nodes, ∀ target ∈ nodes,
    source.id ∈ target.dominators ↔
      source.id ≠ target.id ∧ module.isDominator trees source target = true
  dominatedNodes : ∀ source ∈ nodes, ∀ target ∈ nodes,
    target.id ∈ source.dominatedNodes ↔
      source.id ≠ target.id ∧ module.isDominator trees source target = true

theorem mem_relatedPairs_iff {related : CheckNode → CheckNode → Bool}
    {nodes : List CheckNode} (ids : (nodes.map CheckNode.id).Nodup)
    {source target : CheckNode} (sourceMember : source ∈ nodes)
    (targetMember : target ∈ nodes) :
    (source.id, target.id) ∈ relatedPairs related nodes ↔
      source.id ≠ target.id ∧ related source target = true := by
  rw [mem_relatedPairs]
  constructor
  · intro parts
    rcases parts with ⟨first, firstMember, second, secondMember, sameFirst, sameSecond, holds⟩
    rw [List.inj_on_of_nodup_map ids firstMember sourceMember sameFirst,
      List.inj_on_of_nodup_map ids secondMember targetMember sameSecond] at holds
    exact holds
  · intro holds
    exact ⟨source, sourceMember, target, targetMember, rfl, rfl, holds⟩

theorem built_buildGraphForVariable :
    module.Built trees
      (module.buildGraphForVariable addresses options coreCheckSet trees var).nodes := by
  rcases exists_nodes module addresses options coreCheckSet trees var with ⟨group, equal⟩
  have ids : ((module.makeNodes group).map CheckNode.id).Nodup := nodup_ids_makeNodes group
  rw [equal]
  refine ⟨?_, ?_, ?_, ?_, ?_, ?_⟩
  · rw [List.map_map]
    exact ids
  · intro node member
    rcases List.mem_map.mp member with ⟨base, inside, rfl⟩
    have placed : base.block = base.nodeAnchor.bind module.parentId? :=
      block_of_mem_makeNodes inside
    exact placed
  all_goals
    intro source sourceMember target targetMember
    rcases List.mem_map.mp sourceMember with ⟨first, firstMember, rfl⟩
    rcases List.mem_map.mp targetMember with ⟨second, secondMember, rfl⟩
    have pair : ∀ related, (first.id, second.id) ∈ relatedPairs related (module.makeNodes group) ↔
        first.id ≠ second.id ∧ related first second = true :=
      fun related => mem_relatedPairs_iff ids firstMember secondMember
  · exact mem_targetsOf.trans (pair module.isReachable)
  · exact mem_sourcesOf.trans (pair module.isReachable)
  · exact mem_sourcesOf.trans (pair (module.isDominator trees))
  · exact mem_targetsOf.trans (pair (module.isDominator trees))

end Module

end Desan
