import Mathlib.Data.List.Flatten
import Desan.IR.Function

/-! # Editing a function

What LLVM's own edits leave of a function: incoming entries of phis, branches and
deleted blocks. -/

namespace Desan

namespace Op

/-- Change the incoming entries of a phi; any other operation stays. -/
def mapIncoming (change : List (Value × BlockId) → List (Value × BlockId)) : Op → Op
  | .phi incoming => .phi (change incoming)
  | op => op

@[simp] theorem isPhi_mapIncoming (change : List (Value × BlockId) → List (Value × BlockId))
    (op : Op) : (op.mapIncoming change).isPhi = op.isPhi := by
  cases op <;> rfl

theorem exists_of_mapOperands_invoke {transform : Value → Value} {op : Op} {site : CallSite}
    {normal unwind : BlockId} (kind : op.mapOperands transform = .invoke site normal unwind) :
    ∃ original, op = .invoke original normal unwind := by
  cases op with
  | invoke original _ _ =>
      cases kind
      exact ⟨original, rfl⟩
  | _ => cases kind

theorem isPhi_of_isTerminator {op : Op} (isTerminator : op.isTerminator = true) :
    op.isPhi = false := by
  cases op with
  | phi incoming => cases isTerminator
  | _ => rfl

theorem exists_of_isPhi {op : Op} (isPhi : op.isPhi = true) :
    ∃ incoming, op = .phi incoming := by
  cases op with
  | phi incoming => exact ⟨incoming, rfl⟩
  | _ => cases isPhi

end Op

namespace Value

/-- The value after its instruction was zapped. -/
def poisonWhere (dead : List InstId) : Value → Value
  | .inst id => if id ∈ dead then .poison else .inst id
  | value => value

end Value

namespace Block

def mapPhis (change : List (Value × BlockId) → List (Value × BlockId)) (block : Block) :
    Block :=
  { block with
    insts := block.insts.map fun inst => { inst with op := inst.op.mapIncoming change } }

def setTerminator (op : Op) (block : Block) : Block :=
  { block with terminator := { block.terminator with op } }

end Block

/-- `removeIncomingValue`: the first entry of the predecessor goes. -/
def removeIncomingValue (pred : BlockId) (incoming : List (Value × BlockId)) :
    List (Value × BlockId) :=
  incoming.eraseP fun entry => entry.2 = pred

/-- `hasConstantValue`: the one value that comes in, the phi itself left out. A phi
into which nothing else comes is poison. -/
def hasConstantValue (phi : InstId) (incoming : List (Value × BlockId)) : Option Value :=
  match (incoming.map Prod.fst).filter fun value => value ≠ .inst phi with
  | [] => some .poison
  | value :: rest => if rest.all fun other => other = value then some value else none

namespace Function

/-- `replaceAllUsesWith`, then `eraseFromParent`. -/
def replaceInst (function : Function) (inst : InstId) (new : Value) : Function :=
  (function.replaceAllUsesWith inst new).eraseInst inst

def foldPhi (function : Function) (phi : InstId) : Function :=
  match (function.inst? phi).map Inst.op with
  | some (.phi incoming) =>
      match hasConstantValue phi incoming with
      | some value => function.replaceInst phi value
      | none => function
  | _ => function

def phisOf (function : Function) (block : BlockId) : List InstId :=
  ((function.block? block).map fun found => found.phis.map Inst.id).getD []

/-- `BasicBlock::removePredecessor`, one-input phis not kept: the phis of the block
lose an entry of the predecessor, and those left with one value are folded. -/
def removePredecessor (function : Function) (block pred : BlockId) : Function :=
  let dropped := function.updateBlock block (Block.mapPhis (removeIncomingValue pred))
  (dropped.phisOf block).foldl foldPhi dropped

/-- The instructions a block defines. -/
def definedIn (function : Function) (block : BlockId) : List InstId :=
  (function.blocks.filter fun candidate => candidate.id = block).flatMap Block.definitions

def dropBlock (function : Function) (block : BlockId) : Function :=
  { function with blocks := function.blocks.filter fun candidate => candidate.id ≠ block }

/-- What is left of a function once a detached block is erased: the values it
defined are poison. -/
def eraseBlock (function : Function) (block : BlockId) : Function :=
  (function.mapBlocks (Block.mapInsts (Inst.mapOperands
    (Value.poisonWhere (function.definedIn block))))).dropBlock block

/-- `DeleteDeadBlock`: the successors lose the block as a predecessor, then it goes. -/
def deleteDeadBlock (function : Function) (block : BlockId) : Function :=
  ((function.successors block).foldl
    (fun function successor => function.removePredecessor successor block)
    function).eraseBlock block

/-- A new unconditional branch takes the place and the address of the terminator. -/
def branchTo (function : Function) (block target : BlockId) : Function :=
  function.updateBlock block (Block.setTerminator (.br target))

theorem mem_dropBlock {function : Function} {block : BlockId} {candidate : Block} :
    candidate ∈ (function.dropBlock block).blocks ↔
      candidate ∈ function.blocks ∧ candidate.id ≠ block := by
  simp [dropBlock]

theorem blockIds_dropBlock (function : Function) (block : BlockId) :
    (function.dropBlock block).blockIds.Sublist function.blockIds :=
  List.filter_sublist.map _

theorem instructions_dropBlock (function : Function) (block : BlockId) :
    (function.dropBlock block).instructions.Sublist function.instructions :=
  List.Sublist.flatMap List.filter_sublist _

end Function

end Desan
