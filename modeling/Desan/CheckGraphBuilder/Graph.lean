import Desan.CheckGraphBuilder
import Desan.Foundation.Search
import Desan.IR.Execution

/-! # The check graph of a variable -/

namespace Desan

/-! ## Anchors -/

namespace ValueTable

def isASanReportCall (values : ValueTable) (site : CallSite) : Bool :=
  match values.calledFunction? site with
  | none => false
  | some (name, _) =>
      startsWith name "__asan_report_load" || startsWith name "__asan_report_store" ||
        startsWith name "__asan_report_exp_load" ||
        startsWith name "__asan_report_exp_store" || startsWith name "__asan_report_error"

def isMemSanReportCall (values : ValueTable) (site : CallSite) : Bool :=
  match values.calledFunction? site with
  | none => false
  | some (calleeName, _) =>
      let name := consumeFront calleeName "\x01"
      let name := if startsWith name "___msan_" then dropFront name 1 else name
      startsWith name "__msan_warning"

end ValueTable

namespace Function

/-- The loop of `findCheckAnchor` over the predecessors of a report block. -/
def guardingBranch (function : Function) (report : BlockId) (check : InstId) :
    Option InstId → List BlockId → InstId
  | anchor, [] => anchor.getD check
  | anchor, pred :: rest =>
      match (function.block? pred).map Block.terminator with
      | some ⟨branch, _, .condBr _ ifTrue ifFalse⟩ =>
          if ifTrue ≠ report ∧ ifFalse ≠ report then check
          else if anchor.isSome then check
          else function.guardingBranch report check (some branch) rest
      | _ => check

/-- The branch that alone guards the report call of a check, or the check itself. -/
def findCheckAnchor (function : Function) (values : ValueTable) (check : InstId) : InstId :=
  match (function.inst? check).bind fun inst => inst.op.callSite? with
  | none => check
  | some site =>
      if !values.isASanReportCall site && !values.isMemSanReportCall site then check
      else
        match function.parent? check with
        | none => check
        | some report =>
            function.guardingBranch report.id check none (function.predecessors report.id)

def instructionComesBefore (function : Function) (first second : InstId) : Bool :=
  match function.parent? first, function.parent? second with
  | some firstBlock, some secondBlock =>
      if firstBlock.id ≠ secondBlock.id then false
      else ((firstBlock.definitions.dropWhile fun inst => inst ≠ first).drop 1).contains second
  | _, _ => false

/-- The worklist search of `isReachable` from the successors of a block. -/
def reachesBlock (function : Function) (source target : BlockId) : Bool :=
  search function.successors target
    ((function.successors source).length +
      (function.blockIds.map fun block => (function.successors block).length).sum)
    [] (function.successors source)

end Function

/-! ## Nodes -/

/-- A node refers to other nodes by their number. -/
structure CheckNode where
  id : Nat
  checkInst : Option InstId
  anchorInst : Option InstId
  var : CheckedVariable
  type : AccessType
  block : Option BlockId
  successors : List Nat := []
  predecessors : List Nat := []
  dominators : List Nat := []
  dominatedNodes : List Nat := []
deriving DecidableEq, Repr

structure CheckGraph where
  var : CheckedVariable
  key : VariableKey
  nodes : List CheckNode
deriving DecidableEq, Repr

namespace CheckNode

def nodeAnchor (node : CheckNode) : Option InstId :=
  match node.anchorInst with
  | some anchor => some anchor
  | none => node.checkInst

def appendUniqueNode (nodes : List Nat) (node : Nat) : List Nat :=
  if node ∈ nodes then nodes else nodes ++ [node]

/-- What an edge between two nodes does to a node. -/
def addReachable (source target : Nat) (node : CheckNode) : CheckNode :=
  { node with
    successors :=
      if source = node.id then appendUniqueNode node.successors target else node.successors
    predecessors :=
      if target = node.id then appendUniqueNode node.predecessors source
      else node.predecessors }

/-- What the dominance of one node over another does to a node. -/
def addDominance (dominator dominated : Nat) (node : CheckNode) : CheckNode :=
  { node with
    dominators :=
      if dominated = node.id then appendUniqueNode node.dominators dominator
      else node.dominators
    dominatedNodes :=
      if dominator = node.id then appendUniqueNode node.dominatedNodes dominated
      else node.dominatedNodes }

end CheckNode

/-- For every two different nodes that are related, in the order of two nested loops
over the nodes, every node takes the change for them. -/
def linkRelated (related : CheckNode → CheckNode → Bool)
    (change : Nat → Nat → CheckNode → CheckNode) (nodes : List CheckNode) : List CheckNode :=
  nodes.foldl (fun outer source =>
    nodes.foldl (fun inner target =>
      if source.id = target.id then inner
      else if !related source target then inner
      else inner.map (change source.id target.id)) outer) nodes

/-! ## Edges -/

namespace Module

/-- `getParent` of an instruction, as the address of the block. -/
def parentId? (module : Module) (inst : InstId) : Option BlockId :=
  (module.functionOf? inst).bind fun function => (function.parent? inst).map Block.id

def isReachable (module : Module) (source target : CheckNode) : Bool :=
  match source.nodeAnchor, target.nodeAnchor, source.block, target.block with
  | some sourceAnchor, some targetAnchor, some sourceBlock, some targetBlock =>
      match module.functionOf? sourceAnchor with
      | none => false
      | some function =>
          if module.functionOf? targetAnchor ≠ some function then false
          else if sourceBlock = targetBlock then
            function.instructionComesBefore sourceAnchor targetAnchor
          else function.reachesBlock sourceBlock targetBlock
  | _, _, _, _ => false

def computeReachability (module : Module) (graph : CheckGraph) : CheckGraph :=
  { graph with
    nodes := linkRelated module.isReachable CheckNode.addReachable
      (graph.nodes.map fun node => { node with successors := [], predecessors := [] }) }

/-- The answers of LLVM's `DominatorTree` of a function. -/
abbrev DominatorTrees := Function → InstId → InstId → Bool

def isDominator (module : Module) (trees : DominatorTrees) (dominator node : CheckNode) :
    Bool :=
  match dominator.nodeAnchor, node.nodeAnchor with
  | some dominatorAnchor, some nodeAnchor =>
      match module.functionOf? dominatorAnchor with
      | none => false
      | some function =>
          if module.functionOf? nodeAnchor ≠ some function then false
          else trees function dominatorAnchor nodeAnchor
  | _, _ => false

def computeDominance (module : Module) (trees : DominatorTrees) (graph : CheckGraph) :
    CheckGraph :=
  { graph with
    nodes := linkRelated (module.isDominator trees) CheckNode.addDominance
      (graph.nodes.map fun node => { node with dominators := [], dominatedNodes := [] }) }

/-! ## Graphs -/

def makeNode (module : Module) (id : Nat) (checked : CheckedVariable) : CheckNode :=
  let anchorInst := checked.checkInst.map fun check =>
    match module.functionOf? check with
    | some function => function.findCheckAnchor module.values check
    | none => check
  { id
    checkInst := checked.checkInst
    anchorInst
    var := checked
    type := checked.type
    block :=
      match anchorInst with
      | some anchor => module.parentId? anchor
      | none => checked.checkInst.bind module.parentId? }

/-- The nodes of a group, numbered in order. -/
def makeNodes (module : Module) (group : List CheckedVariable) : List CheckNode :=
  group.mapIdx module.makeNode

def buildGraphForVariable (module : Module) (addresses : Addresses)
    (options : GroupingOptions) (coreCheckSet : List CoreCheckKey) (trees : DominatorTrees)
    (var : CheckedVariable) : CheckGraph :=
  let key := makeVariableKey options var
  match (module.groupChecksByVariable addresses options coreCheckSet).find? fun entry =>
      !addresses.variableKeyLess entry.1 key && !addresses.variableKeyLess key entry.1 with
  | none => ⟨var, key, []⟩
  | some (_, group) =>
      module.computeDominance trees
        (module.computeReachability ⟨var, key, module.makeNodes group⟩)

end Module

end Desan
