import Desan.CheckGraphBuilder.Links

/-! # Edges and control flow

An edge of the check graph says that control can come from one anchor to another, but
for anchors of one block, of which only the layout is asked. -/

namespace Desan

namespace Function

variable {function : Function}

/-- The worklist search finds what a path of one edge at least leads to. -/
theorem reachesBlock_iff (shaped : function.Shaped) {source target : BlockId} :
    function.reachesBlock source target = true ↔
      Relation.TransGen function.Edge source target := by
  have outside : ∀ block, block ∉ function.blockIds.toFinset →
      function.successors block = [] := by
    intro block notMember
    exact successors_eq_nil fun member => notMember (List.mem_toFinset.mpr member)
  have edges : ∑ block ∈ function.blockIds.toFinset, (function.successors block).length =
      (function.blockIds.map fun block => (function.successors block).length).sum :=
    List.sum_toFinset _ shaped.blocks
  have searched : function.reachesBlock source target = true ↔
      ∃ next ∈ function.successors source, Search.Reaches function.successors next target :=
    Search.search_iff outside
      (Nat.le_of_eq (congrArg ((function.successors source).length + ·) edges))
  rw [searched, Relation.TransGen.head'_iff]
  rfl

theorem instructionComesBefore_iff (shaped : function.Shaped) {first second : Block}
    {left right : InstId} (firstMember : first ∈ function.blocks)
    (secondMember : second ∈ function.blocks) (inFirst : left ∈ first.definitions)
    (inSecond : right ∈ second.definitions) :
    function.instructionComesBefore left right = true ↔
      first = second ∧ [left, right].Sublist first.definitions := by
  rw [instructionComesBefore, shaped.parent?_eq firstMember inFirst,
    shaped.parent?_eq secondMember inSecond]
  by_cases same : first.id = second.id
  · have equal := shaped.block_eq firstMember secondMember same
    have nodup := Block.nodup_definitions shaped firstMember
    simp only [same, ne_eq, not_true_eq_false, if_false, List.contains_iff_mem]
    rw [mem_drop_dropWhile_iff nodup inFirst]
    exact ⟨fun ordered => ⟨equal, ordered⟩, fun parts => parts.2⟩
  · simp only [ne_eq, same, not_false_eq_true, if_true, Bool.false_eq_true, false_iff]
    intro parts
    exact same (congrArg Block.id parts.1)

end Function

namespace Module

variable {module : Module} {function : Function}

theorem parentId?_eq (distinct : module.DistinctIds) (shaped : function.Shaped)
    (inModule : function ∈ module.functions) {block : Block} {inst : InstId}
    (member : block ∈ function.blocks) (inside : inst ∈ block.definitions) :
    module.parentId? inst = some block.id := by
  have present : inst ∈ function.instructions.map Inst.id := by
    rcases List.mem_map.mp inside with ⟨found, foundMember, rfl⟩
    exact List.mem_map_of_mem (Function.mem_instructions.mpr ⟨block, member, foundMember⟩)
  rw [parentId?, distinct.functionOf?_eq inModule present, Option.bind_some,
    shaped.parent?_eq member inside]
  rfl

/-- What `isReachable` answers for two nodes that stand where their anchors do. -/
theorem isReachable_iff {trees : DominatorTrees} {nodes : List CheckNode}
    (built : module.Built trees nodes) (distinct : module.DistinctIds)
    (shaped : function.Shaped) (inModule : function ∈ module.functions)
    {source target : CheckNode} (sourceMember : source ∈ nodes) (targetMember : target ∈ nodes)
    {first second : Block} {left right : InstId}
    (sourceAnchor : source.nodeAnchor = some left)
    (targetAnchor : target.nodeAnchor = some right)
    (firstMember : first ∈ function.blocks) (secondMember : second ∈ function.blocks)
    (inFirst : left ∈ first.definitions) (inSecond : right ∈ second.definitions) :
    module.isReachable source target = true ↔
      if first = second then [left, right].Sublist first.definitions
      else Relation.TransGen function.Edge first.id second.id := by
  have sourceBlock : source.block = some first.id := by
    rw [built.placed source sourceMember, sourceAnchor]
    exact parentId?_eq distinct shaped inModule firstMember inFirst
  have targetBlock : target.block = some second.id := by
    rw [built.placed target targetMember, targetAnchor]
    exact parentId?_eq distinct shaped inModule secondMember inSecond
  have inFunction : ∀ (block : Block) (inst : InstId), block ∈ function.blocks →
      inst ∈ block.definitions → module.functionOf? inst = some function := by
    intro block inst member inside
    apply distinct.functionOf?_eq inModule
    rcases List.mem_map.mp inside with ⟨found, foundMember, rfl⟩
    exact List.mem_map_of_mem (Function.mem_instructions.mpr ⟨block, member, foundMember⟩)
  simp only [isReachable, sourceAnchor, targetAnchor, sourceBlock, targetBlock,
    inFunction first left firstMember inFirst, inFunction second right secondMember inSecond,
    ne_eq, not_true_eq_false, if_false]
  by_cases same : first = second
  · rw [if_pos (congrArg Block.id same), if_pos same,
      Function.instructionComesBefore_iff shaped firstMember secondMember inFirst inSecond]
    exact ⟨fun parts => parts.2, fun ordered => ⟨same, ordered⟩⟩
  · have different : first.id ≠ second.id :=
      fun equal => same (shaped.block_eq firstMember secondMember equal)
    rw [if_neg different, if_neg same, Function.reachesBlock_iff shaped]

variable {addresses : Addresses} {options : GroupingOptions}
  {coreCheckSet : List CoreCheckKey} {trees : DominatorTrees} {var : CheckedVariable}

/-- The edges between two nodes are there exactly if control can come from the one
anchor to the other, unless both anchors stand in one block of a loop and the layout
does not tell: control that comes round is not seen. -/
theorem edges_iff_executes (module : Module) (addresses : Addresses)
    (options : GroupingOptions) (coreCheckSet : List CoreCheckKey) (trees : DominatorTrees)
    (var : CheckedVariable) (distinct : module.DistinctIds) (function : Function)
    (inModule : function ∈ module.functions) (shaped : function.Shaped)
    (source target : CheckNode)
    (sourceMember : source ∈
      (module.buildGraphForVariable addresses options coreCheckSet trees var).nodes)
    (targetMember : target ∈
      (module.buildGraphForVariable addresses options coreCheckSet trees var).nodes)
    (different : source ≠ target) (left right : InstId)
    (sourceAnchor : source.nodeAnchor = some left)
    (targetAnchor : target.nodeAnchor = some right)
    (leftInside : left ∈ function.instructions.map Inst.id)
    (rightInside : right ∈ function.instructions.map Inst.id) :
    ((target.id ∈ source.successors ↔ function.Executes left right) ∧
        (source.id ∈ target.predecessors ↔ function.Executes left right)) ↔
      ∀ block ∈ function.blocks, left ∈ block.definitions → right ∈ block.definitions →
        [left, right].Sublist block.definitions ∨
          ¬Relation.TransGen function.Edge block.id block.id := by
  have built : module.Built trees
      (module.buildGraphForVariable addresses options coreCheckSet trees var).nodes :=
    built_buildGraphForVariable
  have otherIds : source.id ≠ target.id :=
    fun equal => different (List.inj_on_of_nodup_map built.ids sourceMember targetMember equal)
  have inBlock : ∀ inst, inst ∈ function.instructions.map Inst.id →
      ∃ block ∈ function.blocks, inst ∈ block.definitions := by
    intro inst inside
    rcases List.mem_map.mp inside with ⟨found, foundMember, rfl⟩
    rcases Function.mem_instructions.mp foundMember with ⟨block, member, inBlock⟩
    exact ⟨block, member, List.mem_map_of_mem inBlock⟩
  rcases inBlock left leftInside with ⟨first, firstMember, inFirst⟩
  rcases inBlock right rightInside with ⟨second, secondMember, inSecond⟩
  have reachable := isReachable_iff built distinct shaped inModule sourceMember targetMember
    sourceAnchor targetAnchor firstMember secondMember inFirst inSecond
  have executes := Function.executes_iff shaped firstMember secondMember inFirst inSecond
  rw [built.successors source sourceMember target targetMember,
    built.predecessors source sourceMember target targetMember, reachable, executes, and_self]
  simp only [ne_eq, otherIds, not_false_eq_true, true_and]
  by_cases same : first = second
  · rw [if_pos same, ← same]
    simp only [true_and]
    constructor
    · intro agree block member leftIn rightIn
      have equal := shaped.block_of_definition member firstMember leftIn inFirst
      rw [equal]
      by_cases ordered : [left, right].Sublist first.definitions
      · exact .inl ordered
      · exact .inr fun loop => ordered (agree.mpr (.inr loop))
    · intro condition
      refine ⟨.inl, fun either => ?_⟩
      rcases either with ordered | loop
      · exact ordered
      · exact (condition first firstMember inFirst (same ▸ inSecond)).resolve_right
          fun acyclic => acyclic loop
  · rw [if_neg same]
    simp only [same, false_and, false_or, true_iff]
    intro block member leftIn rightIn
    have atFirst := shaped.block_of_definition member firstMember leftIn inFirst
    have atSecond := shaped.block_of_definition member secondMember rightIn inSecond
    exact absurd (atFirst.symm.trans atSecond) same

/-- Two checks of one address in the block of a loop. -/
def loopCall (id : InstId) : Inst :=
  ⟨id, .other 0, .call { calledOperand := .other 0, args := [.other 1] }⟩

def loopFunction : Function where
  name := "f"
  blocks :=
    [{ id := 0, insts := [], terminator := ⟨10, .other 0, .br 1⟩ },
     { id := 1
       insts := [loopCall 0, loopCall 1]
       terminator := ⟨11, .other 0, .condBr (.other 2) 1 2⟩ },
     { id := 2, insts := [], terminator := ⟨12, .other 0, .ret none⟩ }]

def loop : Module where
  functions := [loopFunction]
  values :=
    { value
        | 0 => ⟨.constant (.function "__asan_load4" .notIntrinsic), .pointer⟩
        | 1 => ⟨.argument, .integer 64⟩
        | _ => ⟨.argument, .integer 1⟩
      count := 3 }
  dataLayout := ⟨64, 8⟩

def loopChecked (id : InstId) : CheckedVariable where
  base := some (.other 1)
  hasStaticByteOffset := true
  accessSize := 4
  type := .READ
  sanitizer := .ASan
  checkInst := some id

def loopNode (id : Nat) : CheckNode where
  id := id
  checkInst := some id
  anchorInst := some id
  var := loopChecked id
  type := .READ
  block := some 1

/-- The two checks are the only instructions that dominate one another. -/
def loopGraph : CheckGraph :=
  loop.buildGraphForVariable .byId {} [] Function.instructionComesBefore (loopChecked 0)

theorem loopGraph_nodes :
    loopGraph.nodes =
      [{ loopNode 0 with successors := [1], dominatedNodes := [1] },
       { loopNode 1 with predecessors := [0], dominators := [0] }] := by
  decide +kernel

theorem loop_edge_forward :
    1 ∈ [1] ↔ loopFunction.Executes 0 1 :=
  ((edges_iff_executes loop .byId {} [] Function.instructionComesBefore (loopChecked 0)
    (by decide) loopFunction (by decide) (by decide)
    { loopNode 0 with successors := [1], dominatedNodes := [1] }
    { loopNode 1 with predecessors := [0], dominators := [0] }
    (by decide +kernel) (by decide +kernel) (by decide) 0 1 rfl rfl (by decide)
    (by decide)).mpr (by
      intro block member leftIn _
      have atLoop : block = { id := 1, insts := [loopCall 0, loopCall 1], terminator := ⟨11, .other 0, .condBr (.other 2) 1 2⟩ } := by
        revert block
        decide
      exact .inl (atLoop ▸ by decide))).1

/-- Control comes round from the second check to the first, and no edge says so. -/
theorem loop_edge_missing :
    ∃ source ∈ loopGraph.nodes, ∃ target ∈ loopGraph.nodes, source ≠ target ∧
      source.nodeAnchor = some 1 ∧ target.nodeAnchor = some 0 ∧
        loopFunction.Executes 1 0 ∧ target.id ∉ source.successors := by
  rw [loopGraph_nodes]
  refine ⟨{ loopNode 1 with predecessors := [0], dominators := [0] }, by simp,
    { loopNode 0 with successors := [1], dominatedNodes := [1] }, by simp, by decide, rfl, rfl,
    ?_, List.not_mem_nil⟩
  have onward : loopFunction.Executes 1 11 :=
    .single ⟨_, List.mem_cons_of_mem _ (List.mem_cons_self ..), .inl ⟨[0], [], rfl⟩⟩
  have round : loopFunction.Next 11 0 :=
    ⟨_, List.mem_cons_of_mem _ (List.mem_cons_self ..), .inr ⟨rfl, _,
      List.mem_cons_of_mem _ (List.mem_cons_self ..), by decide, rfl⟩⟩
  exact .tail onward round

end Module

end Desan
