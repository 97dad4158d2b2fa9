import Desan.CheckGraphBuilder.Reachability

/-! # Dominance and reachability agree

The dominators of a node come from LLVM's dominator tree, its predecessors from a
search. A dominating anchor lies on a path to the dominated one, so the first are
among the second. -/

namespace Desan

/-- The tree of a function answers dominance as it is defined on the control-flow
graph. -/
def Module.DominatorTrees.Correct (trees : Module.DominatorTrees) (function : Function) :
    Prop :=
  ∀ definition ∈ function.instructions, ∀ user ∈ function.instructions,
    trees function definition.id user.id = true ↔ function.Dominates definition.id user.id

namespace Module

variable {module : Module} {trees : DominatorTrees} {nodes : List CheckNode}

theorem mem_of_functionOf? {function : Function} {inst : InstId}
    (found : module.functionOf? inst = some function) :
    function ∈ module.functions ∧ ∃ block ∈ function.blocks, inst ∈ block.definitions := by
  rw [functionOf?] at found
  have holds := List.find?_some found
  rcases Option.isSome_iff_exists.mp holds with ⟨present, equal⟩
  rcases Function.mem_of_inst? equal with ⟨member, rfl⟩
  rcases Function.mem_instructions.mp member with ⟨block, blockMember, inside⟩
  exact ⟨List.mem_of_find?_eq_some found, block, blockMember, List.mem_map_of_mem inside⟩

/-- The functions the anchors of a graph lie in have no unreachable block. -/
def AnchorsReachable (module : Module) (nodes : List CheckNode) : Prop :=
  ∀ node ∈ nodes, ∀ anchor, node.nodeAnchor = some anchor →
    ∀ function, module.functionOf? anchor = some function → function.AllReachable

/-- Two nodes of which one dominates the other, with what is known of their anchors. -/
structure Dominating (module : Module) (dominator node : CheckNode) : Prop where
  exists_anchors : ∃ (function : Function) (left right : InstId),
    dominator.nodeAnchor = some left ∧ node.nodeAnchor = some right ∧
      module.functionOf? left = some function ∧ module.functionOf? right = some function ∧
        function.Dominates left right

theorem isDominator_iff
    (correct : ∀ function ∈ module.functions, trees.Correct function)
    {dominator node : CheckNode} :
    module.isDominator trees dominator node = true ↔ module.Dominating dominator node := by
  have answers : ∀ (function : Function) (left right : InstId),
      module.functionOf? left = some function → module.functionOf? right = some function →
        (trees function left right = true ↔ function.Dominates left right) := by
    intro function left right foundLeft foundRight
    rcases mem_of_functionOf? foundLeft with ⟨member, first, firstMember, inFirst⟩
    rcases mem_of_functionOf? foundRight with ⟨-, second, secondMember, inSecond⟩
    rcases List.mem_map.mp inFirst with ⟨definition, definitionMember, rfl⟩
    rcases List.mem_map.mp inSecond with ⟨user, userMember, rfl⟩
    exact correct function member definition
      (Function.mem_instructions.mpr ⟨first, firstMember, definitionMember⟩) user
      (Function.mem_instructions.mpr ⟨second, secondMember, userMember⟩)
  constructor
  · intro holds
    simp only [isDominator] at holds
    split at holds
    · rename_i left right leftAnchor rightAnchor
      split at holds
      · cases holds
      · rename_i function foundLeft
        split at holds
        · cases holds
        · rename_i same
          have foundRight : module.functionOf? right = some function := by
            simpa using same
          exact ⟨function, left, right, leftAnchor, rightAnchor, foundLeft, foundRight,
            (answers function left right foundLeft foundRight).mp holds⟩
    · cases holds
  · intro dominating
    rcases dominating.exists_anchors with
      ⟨function, left, right, leftAnchor, rightAnchor, foundLeft, foundRight, dominates⟩
    simp only [isDominator, leftAnchor, rightAnchor, foundLeft, foundRight, ne_eq,
      not_true_eq_false, if_false]
    exact (answers function left right foundLeft foundRight).mpr dominates

/-- A dominator is reachable from: the two computations agree. -/
theorem Dominating.isReachable {dominator node : CheckNode}
    (dominating : module.Dominating dominator node) (built : module.Built trees nodes)
    (distinct : module.DistinctIds)
    (shaped : ∀ function ∈ module.functions, function.Shaped)
    (reachable : module.AnchorsReachable nodes) (dominatorMember : dominator ∈ nodes)
    (nodeMember : node ∈ nodes) : module.isReachable dominator node = true := by
  rcases dominating.exists_anchors with
    ⟨function, left, right, leftAnchor, rightAnchor, foundLeft, foundRight, dominates⟩
  rcases mem_of_functionOf? foundLeft with ⟨member, first, firstMember, inFirst⟩
  rcases mem_of_functionOf? foundRight with ⟨-, second, secondMember, inSecond⟩
  have functionShaped := shaped function member
  have allReachable := reachable dominator dominatorMember left leftAnchor function foundLeft
  rw [isReachable_iff built distinct functionShaped member dominatorMember nodeMember leftAnchor
    rightAnchor firstMember secondMember inFirst inSecond]
  exact dominates.leads functionShaped allReachable firstMember secondMember inFirst inSecond

theorem Dominating.trans {first second third : CheckNode}
    (shaped : ∀ function ∈ module.functions, function.Shaped)
    (left : module.Dominating first second) (right : module.Dominating second third) :
    module.Dominating first third := by
  rcases left.exists_anchors with
    ⟨function, start, middle, startAnchor, middleAnchor, foundStart, foundMiddle, outer⟩
  rcases right.exists_anchors with
    ⟨other, again, last, againAnchor, lastAnchor, foundAgain, foundLast, inner⟩
  have sameAnchor : middle = again :=
    Option.some.inj (middleAnchor.symm.trans againAnchor)
  subst sameAnchor
  have sameFunction : function = other := Option.some.inj (foundMiddle.symm.trans foundAgain)
  subst sameFunction
  exact ⟨function, start, last, startAnchor, lastAnchor, foundStart, foundLast,
    outer.trans (shaped function (mem_of_functionOf? foundStart).1) inner⟩

theorem not_dominating_self {node : CheckNode}
    (shaped : ∀ function ∈ module.functions, function.Shaped)
    (reachable : module.AnchorsReachable nodes) (member : node ∈ nodes) :
    ¬module.Dominating node node := by
  intro dominating
  rcases dominating.exists_anchors with
    ⟨function, left, right, leftAnchor, rightAnchor, foundLeft, foundRight, dominates⟩
  have same : left = right := Option.some.inj (leftAnchor.symm.trans rightAnchor)
  subst same
  rcases mem_of_functionOf? foundLeft with ⟨inModule, block, blockMember, inside⟩
  exact dominates.irrefl (shaped function inModule)
    (reachable node member left leftAnchor function foundLeft) blockMember inside

/-- In a check graph over functions without unreachable blocks, dominators are
predecessors, the links are two pairs of converse relations, and dominance is a strict
order. -/
theorem dominance_agrees (module : Module) (addresses : Addresses)
    (options : GroupingOptions) (coreCheckSet : List CoreCheckKey) (trees : DominatorTrees)
    (var : CheckedVariable) (distinct : module.DistinctIds)
    (shaped : ∀ function ∈ module.functions, function.Shaped)
    (correct : ∀ function ∈ module.functions, trees.Correct function)
    (reachable : module.AnchorsReachable
      (module.buildGraphForVariable addresses options coreCheckSet trees var).nodes)
    (first second : CheckNode)
    (firstMember : first ∈
      (module.buildGraphForVariable addresses options coreCheckSet trees var).nodes)
    (secondMember : second ∈
      (module.buildGraphForVariable addresses options coreCheckSet trees var).nodes) :
    (first.id ∈ second.dominators →
        first.id ∈ second.predecessors ∧ second.id ∈ first.successors) ∧
      (first.id ∈ second.dominators ↔ second.id ∈ first.dominatedNodes) ∧
      (first.id ∈ second.predecessors ↔ second.id ∈ first.successors) ∧
      first.id ∉ first.dominators ∧
      ∀ third ∈ (module.buildGraphForVariable addresses options coreCheckSet trees var).nodes,
        first.id ∈ second.dominators → second.id ∈ third.dominators →
          first.id ∈ third.dominators := by
  have built : module.Built trees
      (module.buildGraphForVariable addresses options coreCheckSet trees var).nodes :=
    built_buildGraphForVariable
  have dominator_iff : ∀ source ∈
      (module.buildGraphForVariable addresses options coreCheckSet trees var).nodes,
      ∀ target ∈ (module.buildGraphForVariable addresses options coreCheckSet trees var).nodes,
        source.id ∈ target.dominators ↔
          source.id ≠ target.id ∧ module.Dominating source target := by
    intro source sourceMember target targetMember
    rw [built.dominators source sourceMember target targetMember,
      isDominator_iff correct]
  refine ⟨?_, ?_, ?_, ?_, ?_⟩
  · intro dominates
    rcases (dominator_iff first firstMember second secondMember).mp dominates with
      ⟨different, dominating⟩
    have holds := dominating.isReachable built distinct shaped reachable firstMember secondMember
    exact ⟨(built.predecessors first firstMember second secondMember).mpr ⟨different, holds⟩,
      (built.successors first firstMember second secondMember).mpr ⟨different, holds⟩⟩
  · exact (built.dominators first firstMember second secondMember).trans
      (built.dominatedNodes first firstMember second secondMember).symm
  · exact (built.predecessors first firstMember second secondMember).trans
      (built.successors first firstMember second secondMember).symm
  · intro dominates
    exact ((dominator_iff first firstMember first firstMember).mp dominates).1 rfl
  · intro third thirdMember left right
    have outer := ((dominator_iff first firstMember second secondMember).mp left).2
    have inner := ((dominator_iff second secondMember third thirdMember).mp right).2
    have whole := outer.trans shaped inner
    refine (dominator_iff first firstMember third thirdMember).mpr ⟨?_, whole⟩
    intro sameId
    have same := List.inj_on_of_nodup_map built.ids firstMember thirdMember sameId
    exact not_dominating_self shaped reachable thirdMember (same ▸ whole)

def firstBlock : Block where
  id := 1
  insts := [loopCall 0]
  terminator := ⟨10, .other 0, .br 2⟩

def secondBlock : Block where
  id := 2
  insts := [loopCall 1]
  terminator := ⟨11, .other 0, .ret none⟩

def straightFunction : Function := { name := "f", blocks := [firstBlock, secondBlock] }

/-- The two checks without the loop, each in a block of its own. -/
def straight : Module := { loop with functions := [straightFunction] }

/-- The order of layout, which is dominance where each block leads to the next. -/
def layoutOrder : DominatorTrees := fun function definition user =>
  decide ([definition, user].Sublist (function.instructions.map Inst.id))

theorem straight_path {done : List BlockId} {id : BlockId}
    (path : straightFunction.Path done id) : id = 1 ∧ done = [] ∨ id = 2 ∧ done = [1] := by
  induction path with
  | start isEntry => exact .inl ⟨(Option.some.inj isEntry).symm, rfl⟩
  | step path edge induction =>
      rcases Function.edge_iff.mp edge with ⟨block, member, isSource, leads⟩
      rcases List.mem_pair.mp member with rfl | rfl
      · rcases induction with ⟨-, nothing⟩ | ⟨other, -⟩
        · rw [List.mem_singleton.mp leads, ← isSource, nothing]
          exact .inr ⟨rfl, rfl⟩
        · rw [other] at isSource
          cases isSource
      · cases leads

theorem straight_correct :
    ∀ function ∈ straight.functions, DominatorTrees.Correct layoutOrder function := by
  intro function member definition definitionMember user userMember
  rw [List.mem_singleton.mp member] at definitionMember userMember ⊢
  have inFirst : ∀ inst ∈ straightFunction.instructions, ∀ other ∈ firstBlock.instructions,
      [inst.id, other.id].Sublist (straightFunction.instructions.map Inst.id) ↔
        [inst.id, other.id].Sublist firstBlock.definitions := by decide
  have inSecond : ∀ inst ∈ straightFunction.instructions, ∀ other ∈ secondBlock.instructions,
      [inst.id, other.id].Sublist (straightFunction.instructions.map Inst.id) ↔
        [inst.id, other.id].Sublist secondBlock.definitions ∨
          inst.id ∈ firstBlock.definitions := by decide
  have noPhi : ∀ inst ∈ straightFunction.instructions, inst.op.isPhi = false := by decide
  rw [layoutOrder, decide_eq_true_iff]
  constructor
  · intro ordered block isBlock inst inside same done path
    have plain := noPhi inst (Function.mem_instructions.mpr ⟨block, isBlock, inside⟩)
    rw [← same] at ordered ⊢
    rcases List.mem_pair.mp isBlock with rfl | rfl
    · exact .inl ⟨plain, (inFirst definition definitionMember inst inside).mp ordered⟩
    · rcases straight_path path with ⟨other, -⟩ | ⟨-, isDone⟩
      · cases other
      · rcases (inSecond definition definitionMember inst inside).mp ordered with here | before
        · exact .inl ⟨plain, here⟩
        · refine .inr ⟨firstBlock, List.mem_cons_self .., before, ?_, ?_⟩
          · rw [isDone]
            exact List.mem_singleton_self _
          · intro site normal unwind _ kind
            cases kind
  · intro dominates
    rcases Function.mem_instructions.mp userMember with ⟨block, isBlock, inside⟩
    rcases List.mem_pair.mp isBlock with rfl | rfl
    · rw [inFirst definition definitionMember user inside]
      rcases dominates firstBlock isBlock user inside rfl [] (.start rfl) with here | executed
      · exact here.2
      · rcases executed with ⟨source, -, -, passed, -⟩
        cases passed
    · rw [inSecond definition definitionMember user inside]
      rcases dominates secondBlock isBlock user inside rfl [1]
        (.step (.start rfl) (by decide)) with here | executed
      · exact .inl here.2
      · rcases executed with ⟨source, isSource, defined, passed, -⟩
        rcases List.mem_pair.mp isSource with rfl | rfl
        · exact .inr defined
        · exact absurd passed (by decide)

theorem straight_dominance :
    ∃ first ∈ (straight.buildGraphForVariable .byId {} [] layoutOrder (loopChecked 0)).nodes,
      ∃ second ∈ (straight.buildGraphForVariable .byId {} [] layoutOrder (loopChecked 0)).nodes,
        first.id ∈ second.dominators ∧ first.id ∈ second.predecessors := by
  have first : { loopNode 0 with successors := [1], dominatedNodes := [1] } ∈
      (straight.buildGraphForVariable .byId {} [] layoutOrder (loopChecked 0)).nodes := by
    decide +kernel
  have second : { loopNode 1 with block := some 2, predecessors := [0], dominators := [0] } ∈
      (straight.buildGraphForVariable .byId {} [] layoutOrder (loopChecked 0)).nodes := by
    decide +kernel
  have reachable : straight.AnchorsReachable
      (straight.buildGraphForVariable .byId {} [] layoutOrder (loopChecked 0)).nodes := by
    intro node _ anchor _ function found block member
    have inModule := List.mem_singleton.mp (mem_of_functionOf? found).1
    rw [inModule] at member ⊢
    rcases List.mem_pair.mp member with rfl | rfl
    · exact ⟨[], .start rfl⟩
    · exact ⟨[1], .step (.start rfl) (by decide)⟩
  have agrees := dominance_agrees straight .byId {} [] layoutOrder
    (loopChecked 0) (by decide) (by decide) straight_correct reachable _ _ first second
  exact ⟨_, first, _, second, by decide, (agrees.1 (by decide)).1⟩

end Module

end Desan
