import Desan.SanitizerCheckCollector

/-! # The slice of a check

What the remover takes to belong to a check: the instructions its operands come
from and the sanitizer-only blocks that lead to it. -/

namespace Desan

/-- The sets `Instructions` and `Blocks` hold what the two lists hold. -/
structure CheckSlice where
  orderedInstructions : List InstId := []
  orderedBlocks : List BlockId := []
deriving DecidableEq, Repr

namespace ValueTable

def isNoopIntrinsic (values : ValueTable) (op : Op) : Bool :=
  match values.intrinsicID op with
  | .debugInfo | .lifetimeStart | .lifetimeEnd | .invariantStart | .invariantEnd => true
  | _ => false

def isEmptyInlineAsmCall (values : ValueTable) (op : Op) : Bool :=
  match op.callSite?.bind fun site => values.otherNode? site.calledOperand with
  | some (.inlineAsm asmString) => asmString.isEmpty
  | _ => false

def isSanitizerOnlyInstruction (values : ValueTable) (op : Op) : Bool :=
  match op with
  | .call _ | .invoke .. =>
      values.isCheck op || values.isDirectMemSanRuntimeCall op ||
        values.isEmptyInlineAsmCall op || values.isNoopIntrinsic op
  | .br _ | .condBr .. | .unreachable => true
  | .load _ isVolatile ordering => !isVolatile && ordering == .notAtomic
  | .cast .. | .getElementPtr .. | .cmp .. | .binary .. | .select .. | .phi _
  | .aggregate .. => !op.mayHaveSideEffects
  | _ => false

/-- Whether only the sanitizer is at work in the block and it has no recognised
check but the target. -/
def isSanitizerOnlyBlock (values : ValueTable) (block : Block) (target : InstId) : Bool :=
  block.instructions.all fun inst =>
    (!values.isCheck inst.op || inst.id == target) &&
      values.isSanitizerOnlyInstruction inst.op

end ValueTable

namespace CheckSlice

/-- The slice with the instruction, if it is one to add and was not there. -/
def addInstruction (values : ValueTable) (slice : CheckSlice) (inst : Inst) :
    Option CheckSlice :=
  if !values.isSanitizerOnlyInstruction inst.op then none
  else if inst.id ∈ slice.orderedInstructions then none
  else some { slice with orderedInstructions := slice.orderedInstructions ++ [inst.id] }

def withInstruction (values : ValueTable) (slice : CheckSlice) (inst : Inst) : CheckSlice :=
  (slice.addInstruction values inst).getD slice

def addBlock (values : ValueTable) (slice : CheckSlice) (block : Block) : CheckSlice :=
  if block.id ∈ slice.orderedBlocks then slice
  else
    block.instructions.foldl (withInstruction values)
      { slice with orderedBlocks := slice.orderedBlocks ++ [block.id] }

end CheckSlice

namespace Function

/-- Every call below another one has added an instruction to the slice, so the
number of instructions bounds the depth. -/
def collectBackwardFromValue (function : Function) (values : ValueTable) :
    Nat → CheckSlice → Value → CheckSlice
  | 0, slice, _ => slice
  | fuel + 1, slice, value =>
      match value.asInst.bind function.inst? with
      | none => slice
      | some inst =>
          match slice.addInstruction values inst with
          | none => slice
          | some slice =>
              inst.op.operands.foldl (function.collectBackwardFromValue values fuel) slice

def collectBackwardFromInstruction (function : Function) (values : ValueTable)
    (slice : CheckSlice) (inst : Inst) : CheckSlice :=
  inst.op.operands.foldl
    (function.collectBackwardFromValue values (function.instructions.length + 1)) slice

/-- One predecessor of a block taken from the worklist. -/
def visitPredecessor (function : Function) (values : ValueTable) (check : InstId)
    (state : CheckSlice × List BlockId) (pred : BlockId) : CheckSlice × List BlockId :=
  match function.block? pred with
  | none => state
  | some block =>
      if !values.isSanitizerOnlyInstruction block.terminator.op then state
      else
        let slice := state.1.withInstruction values block.terminator
        let slice := function.collectBackwardFromInstruction values slice block.terminator
        if values.isSanitizerOnlyBlock block check then
          (slice.addBlock values block, pred :: state.2)
        else (slice, state.2)

/-- The worklist loop; the block taken is the one pushed last. A block is pushed at
most once for each edge it is the source of. -/
def collectControlFlowLoop (function : Function) (values : ValueTable) (check : InstId) :
    Nat → List BlockId → CheckSlice → List BlockId → CheckSlice
  | 0, _, slice, _ => slice
  | _ + 1, _, slice, [] => slice
  | fuel + 1, seenBlocks, slice, block :: worklist =>
      if block ∈ seenBlocks then
        function.collectControlFlowLoop values check fuel seenBlocks slice worklist
      else
        let visited := (function.predecessors block).foldl
          (function.visitPredecessor values check) (slice, worklist)
        function.collectControlFlowLoop values check fuel (block :: seenBlocks)
          visited.1 visited.2

def collectControlFlowSlice (function : Function) (values : ValueTable) (check : InstId)
    (slice : CheckSlice) (parent : BlockId) : CheckSlice :=
  function.collectControlFlowLoop values check
    ((function.blocks.flatMap Block.successors).length + 2) [] slice [parent]

def collectCheckSlice (function : Function) (values : ValueTable) (check : InstId) :
    CheckSlice :=
  match function.inst? check, function.parent? check with
  | some inst, some parent =>
      let slice := CheckSlice.withInstruction values {} inst
      let slice := function.collectBackwardFromInstruction values slice inst
      let slice :=
        if values.isSanitizerOnlyBlock parent check then slice.addBlock values parent
        else slice
      function.collectControlFlowSlice values check slice parent.id
  | _, _ => {}

end Function

end Desan
