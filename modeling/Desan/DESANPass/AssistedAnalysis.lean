import Desan.Foundation.Budget
import Desan.LLMAssistedAnalyzer.Answers
import Desan.LLMAssistedAnalyzer.Queries

/-! # The advisory analysis of the pass

Two loops ask about the core checks of the module, first in module order and then group by
group, until the limit on the queries is met. -/

namespace Desan

namespace DESANPass

open LLMAssistedAnalyzer

/-- The options that the advisory analysis looks at. -/
structure LLMOptions where
  llmCommand : String := ""
  /-- 0 means unlimited. -/
  llmMaxQueries : Nat := 8
  llmMaxSliceInstructions : Nat := 32
  llmDumpPrompts : Bool := true
  llmOnlyUncertain : Bool := true
deriving DecidableEq, Repr

def isPhiOrSelect (graph : ValueGraph) (value : Value) : Bool :=
  match graph.node value with
  | .instruction (.phi _) => true
  | .instruction (.select ..) => true
  | _ => false

def hasAmbiguousValue (graph : ValueGraph) (checked : CheckedVariable) : Bool :=
  match checked.base with
  | none => true
  | some base => isPhiOrSelect graph base || checked.offsets.any (isPhiOrSelect graph)

def LLMOptions.canIssueLLMQuery (options : LLMOptions) (queryCount : Nat) : Bool :=
  options.llmMaxQueries = 0 || queryCount < options.llmMaxQueries

/-- What the analysis is about, and what it works with. -/
structure AssistedAnalysis (State : Type*) where
  module : Module
  coreCheckSet : List CoreCheckKey
  addresses : Addresses
  grouping : GroupingOptions
  trees : Module.DominatorTrees
  printer : IRPrinter
  host : PromptHost State
  options : LLMOptions

/-- The queries so far with their results, the last checked variables, the host and the
text written to the log. -/
structure Assisted (State : Type*) where
  answers : List (Query × LLMQueryResult) := []
  recentVariables : List CheckedVariable := []
  hostState : State
  log : String := ""

/-- At most four variables are kept. -/
def Assisted.remember {State : Type*} (assisted : Assisted State) (checked : CheckedVariable) :
    Assisted State :=
  let recent := assisted.recentVariables ++ [checked]
  { assisted with recentVariables := if 4 < recent.length then recent.tail else recent }

namespace AssistedAnalysis

variable {State : Type*} (analysis : AssistedAnalysis State)

def shouldAskLLMAboutVariable (checked : CheckedVariable) : Bool :=
  if !analysis.options.llmOnlyUncertain then true
  else checked.type = .UNKNOWN || hasAmbiguousValue analysis.module.graph checked

def canIssue (assisted : Assisted State) : Bool :=
  analysis.options.canIssueLLMQuery assisted.answers.length

/-- One of the three questions, with the dump of its result. -/
def ask (assisted : Assisted State) (query : Query) : Assisted State :=
  let (result, hostState) := runPrompt analysis.host analysis.options.llmCommand
    (prompt analysis.module analysis.printer analysis.options.llmMaxSliceInstructions query)
    assisted.hostState
  { assisted with
    answers := assisted.answers ++ [(query, result)]
    hostState
    log := assisted.log ++ dumpResult query.title result analysis.options.llmDumpPrompts }

def askIfCheckIsReadOrWrite (checked : CheckedVariable) (check : InstId)
    (assisted : Assisted State) : Assisted State :=
  if analysis.shouldAskLLMAboutVariable checked then
    analysis.ask assisted (.checkIsReadOrWrite check)
  else assisted

def askIfSameCheckedVariable (checked : CheckedVariable) (assisted : Assisted State) :
    Assisted State :=
  match assisted.recentVariables.getLast? with
  | none => assisted
  | some recent =>
      if analysis.canIssue assisted && (analysis.shouldAskLLMAboutVariable checked ||
          analysis.shouldAskLLMAboutVariable recent) then
        analysis.ask assisted (.sameCheckedVariable recent checked)
      else assisted

def visitInstruction (function : Function) (assisted : Assisted State) (inst : Inst) :
    Assisted State :=
  match analysis.module.coreVariable? analysis.coreCheckSet function inst with
  | none => assisted
  | some checked =>
      (analysis.askIfSameCheckedVariable checked
        (analysis.askIfCheckIsReadOrWrite checked inst.id assisted)).remember checked

def spent (assisted : Assisted State) : Bool := !analysis.canIssue assisted

def visitFunction (assisted : Assisted State) (function : Function) : Assisted State :=
  if function.isDeclaration then assisted
  else untilSpent analysis.spent (analysis.visitInstruction function) assisted
    function.instructions

def askIfSafeToRemove (assisted : Assisted State) (node : CheckNode) : Assisted State :=
  match node.checkInst with
  | none => assisted
  | some _ =>
      if node.type ≠ .READ ∧ node.type ≠ .UNKNOWN then assisted
      else
        let staticPolicyMayRemove := decide (node.type = .READ)
        if analysis.options.llmOnlyUncertain && staticPolicyMayRemove &&
            !hasAmbiguousValue analysis.module.graph node.var then assisted
        else analysis.ask assisted (.safeToRemove node staticPolicyMayRemove)

def groups : List (VariableKey × List CheckedVariable) :=
  analysis.module.groupChecksByVariable analysis.addresses analysis.grouping
    analysis.coreCheckSet

def nodesFor (var : CheckedVariable) : List CheckNode :=
  (analysis.module.buildGraphForVariable analysis.addresses analysis.grouping
    analysis.coreCheckSet analysis.trees var).nodes

def visitGroup (assisted : Assisted State) (group : VariableKey × List CheckedVariable) :
    Assisted State :=
  match group.2 with
  | [] => assisted
  | first :: _ =>
      untilSpent analysis.spent analysis.askIfSafeToRemove assisted (analysis.nodesFor first)

/-- Both loops. -/
def visitModule (assisted : Assisted State) : Assisted State :=
  let assisted := untilSpent analysis.spent analysis.visitFunction assisted
    analysis.module.functions
  if analysis.canIssue assisted then
    untilSpent analysis.spent analysis.visitGroup assisted analysis.groups
  else assisted

def header : String :=
  "DESAN LLM-Assisted Analysis\n" ++
    "Mode: " ++
      (if analysis.options.llmCommand.isEmpty then "prompt/log only" else "external command") ++
    "\n" ++
    "Safety: advisory only; static analysis remains the only deletion authority.\n"

/-- The counter is an `unsigned`. -/
def footer (queries : Nat) : String :=
  "DESAN LLM Assist Queries: " ++ toString (queries % 2 ^ 32) ++ "\n"

def runLLMAssistedAnalysis (hostState : State) : Assisted State :=
  let assisted := analysis.visitModule { hostState, log := analysis.header }
  { assisted with log := assisted.log ++ footer assisted.answers.length }

/-! ## What is asked without a limit -/

/-- What a check is asked about in the first loop, next to the check before it. -/
def variableQueries (previous : Option CheckedVariable) (checked : CheckedVariable) :
    List Query :=
  (if analysis.shouldAskLLMAboutVariable checked then
      checked.checkInst.toList.map .checkIsReadOrWrite else []) ++
    (previous.toList.filter fun recent =>
      analysis.shouldAskLLMAboutVariable checked ||
        analysis.shouldAskLLMAboutVariable recent).map fun recent =>
          .sameCheckedVariable recent checked

def runQueries : Option CheckedVariable → List CheckedVariable → List Query
  | _, [] => []
  | previous, checked :: rest =>
      analysis.variableQueries previous checked ++ runQueries (some checked) rest

/-- Whether the second loop asks about a node. -/
def askedAbout (node : CheckNode) : Bool :=
  node.checkInst.isSome && (node.type = .UNKNOWN || node.type = .READ &&
    (!analysis.options.llmOnlyUncertain || hasAmbiguousValue analysis.module.graph node.var))

def nodeQueries (nodes : List CheckNode) : List Query :=
  (nodes.filter analysis.askedAbout).map fun node => .safeToRemove node (node.type = .READ)

def groupQueries (group : VariableKey × List CheckedVariable) : List Query :=
  analysis.nodeQueries (group.2.head?.toList.flatMap analysis.nodesFor)

/-- All that is asked about the module. -/
def queries : List Query :=
  analysis.runQueries none (analysis.module.moduleVariables analysis.coreCheckSet) ++
    analysis.groups.flatMap analysis.groupQueries

end AssistedAnalysis

end DESANPass

end Desan
