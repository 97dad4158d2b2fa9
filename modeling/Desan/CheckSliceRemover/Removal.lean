import Desan.IR.Edit
import Desan.CheckSliceRemover.Slice

/-! # Removing the slice of a check

`CheckSliceRemover` on one function. LLVM's own clean-up utilities are not part of
the program: a removal takes them as a parameter. -/

namespace Desan

/-- The LLVM utilities that clean up after a removal. -/
structure CleanupUtilities where
  /-- `RecursivelyDeleteTriviallyDeadInstructions`. -/
  deleteTriviallyDead : List InstId → Function → Function
  /-- `EliminateUnreachableBlocks`. -/
  eliminateUnreachableBlocks : Function → Function
  /-- `MergeBlockIntoPredecessor`: the function after the merge, if the block could be
  merged. -/
  mergeBlockIntoPredecessor : BlockId → Function → Option Function

/-- Utilities as they act where there is nothing to clean up. -/
def CleanupUtilities.inert : CleanupUtilities where
  deleteTriviallyDead _ function := function
  eliminateUnreachableBlocks function := function
  mergeBlockIntoPredecessor _ _ := none

/-! ## Clean-up -/

namespace Function

/-- `isInstructionTriviallyDead`. -/
def isTriviallyDead (function : Function) (inst : Inst) : Bool :=
  !inst.op.isTerminator && !inst.op.mayHaveSideEffects && function.useEmpty inst.id

def deadInsts (function : Function) : List InstId :=
  (function.instructions.filter function.isTriviallyDead).map Inst.id

end Function

namespace CleanupUtilities

/-- The loop of `cleanupDeadInstructions`, for one touched function. -/
def cleanupLoop (utilities : CleanupUtilities) : Nat → Function → Function
  | 0, function => function
  | fuel + 1, function =>
      if function.deadInsts.isEmpty then function
      else
        utilities.cleanupLoop fuel
          (utilities.deleteTriviallyDead function.deadInsts function)

def cleanupDeadInstructions (utilities : CleanupUtilities) (function : Function) : Function :=
  utilities.cleanupLoop (function.instructions.length + 1) function

/-- The first merge of a block that is not the entry, in layout order. -/
def mergeFirst (utilities : CleanupUtilities) (function : Function) : Option Function :=
  function.blockIds.tail.findSome? fun block =>
    utilities.mergeBlockIntoPredecessor block function

def simplifyLoop (utilities : CleanupUtilities) : Nat → Function → Function
  | 0, function => function
  | fuel + 1, function =>
      match utilities.mergeFirst function with
      | none => function
      | some merged => utilities.simplifyLoop fuel merged

/-- `simplifyCFG`, for one touched function. -/
def simplifyCFG (utilities : CleanupUtilities) (function : Function) : Function :=
  let eliminated := utilities.eliminateUnreachableBlocks function
  utilities.simplifyLoop (eliminated.blocks.length + 1) eliminated

/-- What the two clean-ups make of a touched function that has a body. -/
def tidy (utilities : CleanupUtilities) (function : Function) : Function :=
  if function.isDeclaration then function
  else utilities.simplifyCFG (utilities.cleanupDeadInstructions function)

end CleanupUtilities

/-! ## Bypassing the report block -/

def isReportBlockTerminator : Op → Bool
  | .unreachable | .br _ => true
  | _ => false

def getReportBlockFallthrough (report : Block) : Option BlockId :=
  match report.terminator.op with
  | .br destination => some destination
  | _ => none

/-- The successor the first loop finds for the terminator of a predecessor, if it
accepts it. -/
def safeSuccessor (report : BlockId) (fallthrough : Option BlockId) (terminator : Op) :
    Option BlockId :=
  let safeSucc :=
    match terminator with
    | .condBr _ ifTrue ifFalse =>
        let otherSucc :=
          if ifTrue = report then some ifFalse
          else if ifFalse = report then some ifTrue
          else none
        match fallthrough with
        | some fallthrough => otherSucc.bind fun other =>
            if other = fallthrough then some fallthrough else none
        | none => otherSucc
    | .br _ => fallthrough
    | _ => none
  safeSucc.filter fun target => target ≠ report

/-- The successor the second loop branches to. It asks nothing of the terminator. -/
def bypassSuccessor (report : BlockId) (fallthrough : Option BlockId) (terminator : Op) :
    Option BlockId :=
  match terminator with
  | .condBr _ ifTrue ifFalse =>
      some (fallthrough.getD (if ifTrue = report then ifFalse else ifTrue))
  | _ => fallthrough

/-- What is left of the function and the slice when `bypassReportBlock` returns. -/
structure Bypass where
  function : Function
  slice : CheckSlice
  bypassed : Bool

namespace Function

def acceptsPredecessor (function : Function) (report : BlockId)
    (fallthrough : Option BlockId) (pred : BlockId) : Bool :=
  match function.block? pred with
  | some block => (safeSuccessor report fallthrough block.terminator.op).isSome
  | none => false

/-- One turn of the rewriting loop. -/
def bypassPredecessor (values : ValueTable) (report : BlockId)
    (fallthrough : Option BlockId) (state : Function × CheckSlice) (pred : BlockId) :
    Function × CheckSlice :=
  match state.1.block? pred with
  | none => state
  | some block =>
      match bypassSuccessor report fallthrough block.terminator.op with
      | none => state
      | some safeSucc =>
          ((state.1.removePredecessor report pred).branchTo pred safeSucc,
            state.1.collectBackwardFromInstruction values state.2 block.terminator)

def hasNonSanitizerPredecessor (function : Function) (block : BlockId)
    (blocks : List BlockId) : Bool :=
  (function.predecessors block).any fun pred => pred ∉ blocks

def bypassReportBlock (function : Function) (values : ValueTable) (slice : CheckSlice)
    (check : InstId) : Bypass :=
  match function.parent? check with
  | none => ⟨function, slice, false⟩
  | some report =>
      if !values.isSanitizerOnlyBlock report check then ⟨function, slice, false⟩
      else if !isReportBlockTerminator report.terminator.op then ⟨function, slice, false⟩
      else
        let fallthrough := getReportBlockFallthrough report
        let preds := function.predecessors report.id
        if !preds.all (function.acceptsPredecessor report.id fallthrough) then
          ⟨function, slice, false⟩
        else
          let rewritten := preds.foldl (bypassPredecessor values report.id fallthrough)
            (function, slice)
          if rewritten.1.hasNonSanitizerPredecessor report.id rewritten.2.orderedBlocks then
            ⟨rewritten.1, rewritten.2, false⟩
          else if !(rewritten.1.predecessors report.id).isEmpty then
            ⟨rewritten.1, rewritten.2, false⟩
          else ⟨rewritten.1.deleteDeadBlock report.id, rewritten.2, true⟩

/-! ## Erasing the call and its slice -/

def eraseDirectCheckCall (function : Function) (check : InstId) : Option Function :=
  match (function.inst? check).map Inst.op with
  | some (.call _) =>
      if function.useEmpty check then some (function.eraseInst check) else none
  | _ => none

def allUsersInsideSlice (function : Function) (slice : CheckSlice) (inst : InstId) : Bool :=
  (function.users (.inst inst)).all fun user => user ∈ slice.orderedInstructions

end Function

/-- The kinds of instruction `canEraseInstruction` answers yes for. -/
def ValueTable.isErasableKind (values : ValueTable) (op : Op) : Bool :=
  !op.isTerminator &&
    match op with
    | .call _ | .invoke .. =>
        values.isCheck op || values.isDirectMemSanRuntimeCall op || values.isNoopIntrinsic op
    | .load _ isVolatile ordering => !isVolatile && ordering == .notAtomic
    | _ => values.isSanitizerOnlyInstruction op && !op.mayHaveSideEffects

/-- An instruction the remover looks at, and whether it is still in the module. -/
structure Look where
  inst : InstId
  live : Bool
deriving DecidableEq, Repr

/-- The state of `eraseDeadSliceInstructions`, with what it has looked at. -/
structure Sweep where
  function : Function
  looks : List Look := []
  changed : Bool := false

namespace Function

/-- An erased instruction has no parent and is refused. -/
def canEraseInstruction (function : Function) (values : ValueTable) (slice : CheckSlice)
    (inst : InstId) : Bool :=
  match function.inst? inst with
  | none => false
  | some found =>
      decide (inst ∈ slice.orderedInstructions) &&
        function.allUsersInsideSlice slice inst && function.useEmpty inst &&
        values.isErasableKind found.op

def eraseIfDead (values : ValueTable) (slice : CheckSlice) (sweep : Sweep) (inst : InstId) :
    Sweep :=
  let look : Look := ⟨inst, (sweep.function.inst? inst).isSome⟩
  if sweep.function.canEraseInstruction values slice inst then
    ⟨sweep.function.eraseInst inst, sweep.looks ++ [look], true⟩
  else { sweep with looks := sweep.looks ++ [look] }

/-- The fixpoint loop: every round that goes on has erased an instruction. -/
def eraseDeadSliceLoop (values : ValueTable) (slice : CheckSlice) : Nat → Sweep → Sweep
  | 0, sweep => sweep
  | fuel + 1, sweep =>
      let round := slice.orderedInstructions.reverse.foldl (eraseIfDead values slice)
        { sweep with changed := false }
      if round.changed then eraseDeadSliceLoop values slice fuel round else round

def eraseDeadSliceInstructions (function : Function) (values : ValueTable)
    (slice : CheckSlice) : Sweep :=
  eraseDeadSliceLoop values slice (function.instructions.length + 1) { function }

end Function

/-! ## Removing a check -/

/-- What `removeCheckSlice` leaves of the function of the check. -/
structure Removal where
  function : Function
  looks : List Look := []
  removed : Bool

namespace Function

/-- `removeCheckSlice` up to the clean-up. -/
def eraseCheckSlice (function : Function) (values : ValueTable) (check : InstId) : Removal :=
  let slice := function.collectCheckSlice values check
  let bypass := function.bypassReportBlock values slice check
  if bypass.bypassed then ⟨bypass.function, [], true⟩
  else
    match bypass.function.eraseDirectCheckCall check with
    | none => ⟨bypass.function, [], false⟩
    | some erased =>
        let sweep := erased.eraseDeadSliceInstructions values bypass.slice
        ⟨sweep.function, sweep.looks, true⟩

def removeCheckSlice (function : Function) (utilities : CleanupUtilities)
    (values : ValueTable) (check : InstId) : Removal :=
  let removal := function.eraseCheckSlice values check
  if removal.removed then { removal with function := utilities.tidy removal.function }
  else removal

end Function

end Desan
