import Desan.CheckGraphBuilder.Graph
import Desan.LLMAssistedAnalyzer
import Desan.LLMAssistedAnalyzer.RunPrompt
import Desan.RedundantCheckEliminator.Marking

/-! # The queries

What each of the three questions asks, and what is told of the answer. -/

namespace Desan

/-- The texts LLVM prints for an instruction and for a value as an operand, and the order
in which the use list of a block has its predecessors. -/
structure IRPrinter where
  instructionText : InstId → String
  operandText : Value → String
  predecessors : Function → BlockId → List BlockId
  perm_predecessors : ∀ function block,
    (predecessors function block).Perm (function.predecessors block)

def accessTypeName : AccessType → String
  | .READ => "READ"
  | .WRITE => "WRITE"
  | .UNKNOWN => "UNKNOWN"

/-- The questions, with what they are about. -/
inductive Query where
  | checkIsReadOrWrite (check : InstId)
  | sameCheckedVariable (lhs rhs : CheckedVariable)
  | safeToRemove (node : CheckNode) (staticPolicyCandidate : Bool)
deriving DecidableEq, Repr

def Query.title : Query → String
  | .checkIsReadOrWrite _ => "checked variable and access type"
  | .sameCheckedVariable _ _ => "same checked variable"
  | .safeToRemove _ _ => "safe-to-remove explanation"

namespace LLMAssistedAnalyzer

def valueAsOperand (printer : IRPrinter) : Option Value → String
  | some value => printer.operandText value
  | none => "<null>"

/-- Every line with a line break behind it. -/
def printLines (lines : List String) : String := String.join (lines.map (· ++ "\n"))

section Prompts

variable (module : Module) (printer : IRPrinter)

def controlFlowContext (function : Function) (block : Block) : String :=
  printLines ((printer.predecessors function block.id).map fun pred =>
      "Predecessor terminator: " ++
        (((function.block? pred).map fun found =>
          printer.instructionText found.terminator.id).getD "<null>")) ++
    (if (function.predecessors block.id).isEmpty then "<no predecessors>\n"
      else "Current terminator: " ++ printer.instructionText block.terminator.id ++ "\n")

/-- The instructions of the block that come before the check; the last eight are shown. -/
def localContext (block : Block) (check : InstId) : List InstId :=
  block.definitions.takeWhile fun inst => inst ≠ check

/-- A limit of 0 stands for 32 instructions. -/
def sliceLimit (maxSliceInstructions : Nat) : Nat :=
  if maxSliceInstructions = 0 then 32 else maxSliceInstructions

def backwardSliceOf (maxSliceInstructions : Nat) (check : InstId) : List InstId :=
  match module.functionOf? check with
  | none => []
  | some function =>
      match function.inst? check with
      | none => []
      | some inst => (function.backwardSlice (sliceLimit maxSliceInstructions) inst).out

def summarizeIRSlice (maxSliceInstructions : Nat) (check : InstId) : String :=
  let function := module.functionOf? check
  let block := function.bind fun function => function.parent? check
  let functionName := (function.map Function.name).getD ""
  let context := (block.map fun block => localContext block check).getD []
  let slice := backwardSliceOf module maxSliceInstructions check
  "Function: " ++ (if functionName.isEmpty then "<unknown>" else functionName) ++ "\n" ++
    "BasicBlock: " ++ module.basicBlockName check ++ "\n\n" ++
    "Local context before sanitizer call:\n" ++
    printLines ((context.drop (context.length - 8)).map printer.instructionText) ++
    (if context.isEmpty then "<none>\n" else "") ++ "\n" ++
    "Backward data slice:\n" ++
    printLines ((slice.filter fun inst => inst ≠ check).map printer.instructionText) ++
    (if slice.isEmpty then "<none>\n" else "") ++ "\n" ++
    "Sanitizer call:\n" ++ printer.instructionText check ++ "\n\n" ++
    "Control-flow context:\n" ++
    match function, block with
    | some function, some block => controlFlowContext printer function block
    | _, _ => "<unknown>\n"

def checkedVariableSummary (checked : CheckedVariable) : String :=
  "Sanitizer: " ++ sanitizerKindName checked.sanitizer ++ "\n" ++
    "Access Type: " ++ accessTypeName checked.type ++ "\n" ++
    "Base: " ++ valueAsOperand printer checked.base ++ "\n" ++
    "Offsets:" ++
    (if checked.offsets.isEmpty then " <none>\n"
      else "\n" ++ printLines (checked.offsets.map fun offset =>
        "  - " ++ valueAsOperand printer (some offset))) ++
    "Region: " ++
    (if checked.hasStaticByteOffset then "static-offset=" ++ toString checked.staticByteOffset
      else "static-offset=<unknown>") ++
    ", access-size=" ++
    (if checked.accessSize ≠ 0 then toString checked.accessSize else "<unknown>") ++ "\n" ++
    match checked.checkInst with
    | some check => "Check: " ++ printer.instructionText check ++ "\n"
    | none => ""

def buildCheckQuestion (maxSliceInstructions : Nat) (check : InstId) : String :=
  "Given the following LLVM IR slice, identify the high-level variable being checked by the " ++
    "sanitizer call.\n" ++
    "Also infer whether the check corresponds to a read or write access.\n" ++
    "Be conservative. If uncertain, return UNKNOWN.\n" ++
    "This result is advisory only; the optimizer will not delete checks unless static " ++
    "analysis independently proves safety.\n\n" ++
    "LLVM IR:\n" ++ summarizeIRSlice module printer maxSliceInstructions check ++ "\n" ++
    "Return JSON:\n" ++ "\x7b\n" ++ "  \"checked_variable\": \"...\",\n" ++
    "  \"access_type\": \"READ | WRITE | UNKNOWN\",\n" ++ "  \"confidence\": 0.0,\n" ++
    "  \"reason\": \"...\"\n" ++ "\x7d\n"

/-- One of the two checked values of the second question. -/
def checkedValueText (maxSliceInstructions : Nat) (name : String) (checked : CheckedVariable) :
    String :=
  "Checked value " ++ name ++ ":\n" ++ checkedVariableSummary printer checked ++ "\n" ++
    match checked.checkInst with
    | some check =>
        "IR slice " ++ name ++ ":\n" ++
          summarizeIRSlice module printer maxSliceInstructions check ++ "\n"
    | none => ""

def sameVariableQuestion (maxSliceInstructions : Nat) (lhs rhs : CheckedVariable) : String :=
  "You are assisting an LLVM sanitizer-check optimizer.\n" ++
    "Determine whether the two checked values semantically correspond to the same high-level " ++
    "variable.\n" ++
    "Be conservative. If aliasing, PHI, select, or casts make this uncertain, return " ++
    "UNKNOWN.\n" ++
    "Your answer is advisory only. The optimizer will not delete checks unless static " ++
    "analysis independently proves safety.\n\n" ++
    checkedValueText module printer maxSliceInstructions "A" lhs ++
    checkedValueText module printer maxSliceInstructions "B" rhs ++
    "Return JSON:\n" ++ "\x7b\n" ++ "  \"same_checked_variable\": \"YES | NO | UNKNOWN\",\n" ++
    "  \"confidence\": 0.0,\n" ++ "  \"reason\": \"...\"\n" ++ "\x7d\n"

def safeToRemoveQuestion (maxSliceInstructions : Nat) (node : CheckNode)
    (staticPolicyCandidate : Bool) : String :=
  "You are assisting an LLVM sanitizer-check optimizer.\n" ++
    "Explain whether this sanitizer check appears redundant. This answer is advisory only and " ++
    "must not be used as the deletion decision.\n" ++
    "The current static pass deletes only READ checks selected by its per-variable retention " ++
    "policy; LLM output is explanation-only.\n" ++
    "Static policy candidate: " ++ (if staticPolicyCandidate then "true" else "false") ++
    "\n\n" ++
    (match node.checkInst with
      | none => "Check: <null>\n"
      | some check =>
          "Check node:\n" ++ "Sanitizer: " ++ sanitizerKindName node.var.sanitizer ++ "\n" ++
            "Access Type: " ++ accessTypeName node.type ++ "\n" ++
            checkedVariableSummary printer node.var ++ "\n" ++
            "IR slice:\n" ++ summarizeIRSlice module printer maxSliceInstructions check ++
            "\n") ++
    "Return JSON:\n" ++ "\x7b\n" ++ "  \"appears_redundant\": \"YES | NO | UNKNOWN\",\n" ++
    "  \"static_analysis_must_decide\": true,\n" ++ "  \"confidence\": 0.0,\n" ++
    "  \"reason\": \"...\"\n" ++ "\x7d\n"

def prompt (maxSliceInstructions : Nat) : Query → String
  | .checkIsReadOrWrite check => buildCheckQuestion module printer maxSliceInstructions check
  | .sameCheckedVariable lhs rhs =>
      sameVariableQuestion module printer maxSliceInstructions lhs rhs
  | .safeToRemove node staticPolicyCandidate =>
      safeToRemoveQuestion module printer maxSliceInstructions node staticPolicyCandidate

end Prompts

def dumpResult (title : String) (result : LLMQueryResult) (includePrompt : Bool) : String :=
  "DESAN LLM Assist: " ++ title ++ "\n" ++
    "Invoked: " ++ (if result.invoked then "yes" else "no") ++ "\n" ++
    "Succeeded: " ++ (if result.succeeded then "yes" else "no") ++ "\n" ++
    (if result.invoked then "ExitCode: " ++ toString result.exitCode ++ "\n" else "") ++
    (if !result.error.isEmpty then "Error: " ++ result.error ++ "\n" else "") ++
    (if includePrompt then "Prompt:\n" ++ result.prompt ++ "\n" else "") ++
    (if !result.response.isEmpty then "Response:\n" ++ result.response ++ "\n" else "") ++
    "End DESAN LLM Assist\n"

end LLMAssistedAnalyzer

end Desan
