import Desan.CheckSliceRemover.SliceErasure
import Desan.Foundation.DepthFirst
import Desan.Foundation.Search
import Mathlib.Algebra.Order.BigOperators.Group.Finset

/-! # How far the slice of a check goes

The walk back through the operands and the walk back through the predecessors share
one slice. Each stops at what the other has put there, so an instruction that came in
with its block is not walked on from. -/

namespace Desan

/-! ## What the slice should hold -/

namespace Function

section Extent

variable (function : Function) (values : ValueTable) (check : InstId)

/-- The blocks that the walk over the predecessors takes from its worklist. -/
inductive SeenBlock : BlockId → Prop
  | parent {block : Block} (member : block ∈ function.blocks)
      (holds : check ∈ block.definitions) : SeenBlock block.id
  | pred {block : BlockId} {source : Block} (seen : SeenBlock block)
      (member : source ∈ function.blocks) (edge : function.Edge source.id block)
      (sanitizerOnly : values.isSanitizerOnlyBlock source check = true) :
      SeenBlock source.id

def SliceBlock (block : Block) : Prop :=
  block ∈ function.blocks ∧ function.SeenBlock values check block.id ∧
    values.isSanitizerOnlyBlock block check = true

/-- A terminator that leads to a block the walk has seen. -/
def GuardBranch (inst : Inst) : Prop :=
  ∃ block, function.SeenBlock values check block ∧
    ∃ source ∈ function.blocks, function.Edge source.id block ∧ source.terminator = inst

/-- What belongs to the check when the operands of the `walked` instructions do. -/
inductive Gathered (walked : Inst → Prop) : InstId → Prop
  | check : Gathered walked check
  | ofBlock {block : Block} {inst : Inst} (inSlice : function.SliceBlock values check block)
      (inside : inst ∈ block.instructions) : Gathered walked inst.id
  | ofBranch {inst : Inst} (guards : function.GuardBranch values check inst)
      (sanitizerOnly : values.isSanitizerOnlyInstruction inst.op = true) :
      Gathered walked inst.id
  | ofOperand {user inst : Inst} (gathered : Gathered walked user.id)
      (isUser : user ∈ function.instructions) (walks : walked user)
      (member : inst ∈ function.instructions) (used : inst.value ∈ user.op.operands)
      (sanitizerOnly : values.isSanitizerOnlyInstruction inst.op = true) :
      Gathered walked inst.id

/-- The instructions whose operands are walked in any order of the two walks: all but
those that may have come in with their block. -/
def AlwaysWalked (inst : Inst) : Prop :=
  inst.id = check ∨ function.GuardBranch values check inst ∨
    ∀ block, function.SliceBlock values check block → inst ∉ block.instructions

end Extent

/-! ## The walk through the operands is a depth-first collection -/

def isKept (function : Function) (values : ValueTable) (id : InstId) : Bool :=
  (function.inst? id).any fun inst => values.isSanitizerOnlyInstruction inst.op

def operandInsts (inst : Inst) : List InstId :=
  inst.op.operands.filterMap Value.asInst

def sources (function : Function) (id : InstId) : List InstId :=
  (function.inst? id).elim [] operandInsts

variable {function : Function} {values : ValueTable} {check : InstId} {slice : CheckSlice}

theorem mem_operandInsts {inst : Inst} {id : InstId} :
    id ∈ operandInsts inst ↔ Value.inst id ∈ inst.op.operands := by
  rw [operandInsts, List.mem_filterMap]
  constructor
  · intro found
    rcases found with ⟨value, member, isInst⟩
    rw [Value.asInst_eq_some] at isInst
    exact isInst ▸ member
  · intro member
    exact ⟨.inst id, member, rfl⟩

theorem isKept_iff (shaped : function.Shaped) {inst : Inst}
    (member : inst ∈ function.instructions) :
    function.isKept values inst.id = true ↔
      values.isSanitizerOnlyInstruction inst.op = true := by
  rw [isKept, shaped.inst?_eq member, Option.any_some]

theorem exists_inst_of_isKept {id : InstId} (kept : function.isKept values id = true) :
    ∃ inst ∈ function.instructions, inst.id = id ∧
      values.isSanitizerOnlyInstruction inst.op = true := by
  rw [isKept, Option.any_eq_true] at kept
  rcases kept with ⟨inst, found, sanitizerOnly⟩
  have known := mem_of_inst? found
  exact ⟨inst, known.1, known.2, sanitizerOnly⟩

/-- A walk that appends to the instructions of the slice only, over the operands. -/
theorem foldl_operands {step : CheckSlice → Value → CheckSlice}
    {collect : List InstId → InstId → List InstId}
    (agrees : ∀ slice value, step slice value = (value.asInst.elim slice fun id =>
      { slice with orderedInstructions := collect slice.orderedInstructions id }))
    (operands : List Value) (slice : CheckSlice) :
    operands.foldl step slice = { slice with
      orderedInstructions :=
        (operands.filterMap Value.asInst).foldl collect slice.orderedInstructions } := by
  induction operands generalizing slice with
  | nil => rfl
  | cons head tail induction =>
      rw [List.foldl_cons, agrees, induction]
      cases isInst : head.asInst with
      | none => rw [List.filterMap_cons_none isInst, Option.elim_none]
      | some id => rw [List.filterMap_cons_some isInst, Option.elim_some, List.foldl_cons]

theorem collectBackwardFromValue_eq (fuel : Nat) (slice : CheckSlice) (value : Value) :
    function.collectBackwardFromValue values fuel slice value =
      value.asInst.elim slice fun id =>
        { slice with
          orderedInstructions := depthFirst (function.isKept values) function.sources fuel
            slice.orderedInstructions id } := by
  induction fuel generalizing slice value with
  | zero => cases value.asInst <;> rfl
  | succ fuel induction =>
      rw [collectBackwardFromValue]
      cases value.asInst with
      | none => rfl
      | some id =>
          rw [Option.bind_some, Option.elim_some, depthFirst]
          cases found : function.inst? id with
          | none => rw [if_pos (by rw [isKept, found, Option.any_none])]
          | some inst =>
              have address := (mem_of_inst? found).2
              have kept : function.isKept values id =
                  values.isSanitizerOnlyInstruction inst.op := by
                rw [isKept, found, Option.any_some]
              have same : function.sources id = operandInsts inst := by
                rw [sources, found, Option.elim_some]
              simp only [CheckSlice.addInstruction, address]
              cases sanitizerOnly : values.isSanitizerOnlyInstruction inst.op with
              | false => simp [kept, sanitizerOnly]
              | true =>
                  by_cases old : id ∈ slice.orderedInstructions
                  · simp [kept, sanitizerOnly, old]
                  · simp only [kept, sanitizerOnly, old, same, Bool.not_true, if_false,
                      Bool.true_eq_false, Bool.false_eq_true]
                    rw [foldl_operands induction]
                    rfl

theorem collectBackwardFromInstruction_eq (slice : CheckSlice) (inst : Inst) :
    function.collectBackwardFromInstruction values slice inst = { slice with
      orderedInstructions := (operandInsts inst).foldl
        (depthFirst (function.isKept values) function.sources
          (function.instructions.length + 1)) slice.orderedInstructions } := by
  rw [collectBackwardFromInstruction, foldl_operands (collectBackwardFromValue_eq _)]
  rfl

theorem orderedBlocks_collectBackwardFromInstruction (slice : CheckSlice) (inst : Inst) :
    (function.collectBackwardFromInstruction values slice inst).orderedBlocks =
      slice.orderedBlocks := by
  rw [collectBackwardFromInstruction_eq]

theorem settles_collectBackwardFromInstruction (slice : CheckSlice) (inst : Inst) :
    DepthFirst.Settles (function.isKept values) function.sources (operandInsts inst)
      slice.orderedInstructions
      (function.collectBackwardFromInstruction values slice inst).orderedInstructions := by
  rw [collectBackwardFromInstruction_eq]
  have inside : ∀ id, function.isKept values id = true →
      id ∈ (function.instructions.map Inst.id).toFinset := by
    intro id kept
    rcases exists_inst_of_isKept kept with ⟨inst, member, address, _⟩
    exact List.mem_toFinset.mpr (address ▸ List.mem_map_of_mem member)
  apply DepthFirst.settles_foldl fun seen root => DepthFirst.settles_depthFirst inside
  apply Nat.lt_succ_of_le
  calc DepthFirst.unseen (function.instructions.map Inst.id).toFinset slice.orderedInstructions
      ≤ (function.instructions.map Inst.id).toFinset.card :=
        Finset.card_le_card Finset.sdiff_subset
    _ ≤ (function.instructions.map Inst.id).length := List.toFinset_card_le _
    _ = function.instructions.length := List.length_map _

theorem forall_collectBackwardFromInstruction {holds : InstId → Prop} {inst : Inst}
    (passes : ∀ id, holds id → ∀ source ∈ function.sources id,
      function.isKept values source = true → holds source)
    (start : ∀ id ∈ operandInsts inst, function.isKept values id = true → holds id)
    (before : ∀ id ∈ slice.orderedInstructions, holds id) :
    ∀ id ∈ (function.collectBackwardFromInstruction values slice inst).orderedInstructions,
      holds id := by
  rw [collectBackwardFromInstruction_eq]
  exact List.foldlRecOn (motive := fun seen => ∀ id ∈ seen, holds id) _ _ before
    fun seen before id member => DepthFirst.forall_of_depthFirst passes (start id member) before

theorem nodup_collectBackwardFromInstruction {inst : Inst}
    (nodup : slice.orderedInstructions.Nodup) :
    (function.collectBackwardFromInstruction values slice inst).orderedInstructions.Nodup := by
  rw [collectBackwardFromInstruction_eq]
  exact List.foldlRecOn (motive := List.Nodup) _ _ nodup
    fun seen before id _ => DepthFirst.nodup_depthFirst before

end Function

/-! ## What the other additions do -/

namespace CheckSlice

variable {values : ValueTable} {slice : CheckSlice}

theorem withInstruction_eq (inst : Inst) :
    slice.withInstruction values inst =
      if values.isSanitizerOnlyInstruction inst.op = true ∧
          inst.id ∉ slice.orderedInstructions then
        { slice with orderedInstructions := slice.orderedInstructions ++ [inst.id] }
      else slice := by
  rw [withInstruction, addInstruction]
  cases values.isSanitizerOnlyInstruction inst.op with
  | false => simp
  | true => by_cases old : inst.id ∈ slice.orderedInstructions <;> simp [old]

theorem mem_withInstruction {inst : Inst} {id : InstId} :
    id ∈ (slice.withInstruction values inst).orderedInstructions ↔
      id ∈ slice.orderedInstructions ∨
        (values.isSanitizerOnlyInstruction inst.op = true ∧ id = inst.id) := by
  rw [withInstruction_eq]
  split
  · rename_i added
    simp [added.1]
  · rename_i same
    constructor
    · exact .inl
    · intro cases
      rcases cases with old | new
      · exact old
      · by_contra fresh
        exact same ⟨new.1, new.2 ▸ fresh⟩

theorem nodup_withInstruction {inst : Inst} (nodup : slice.orderedInstructions.Nodup) :
    (slice.withInstruction values inst).orderedInstructions.Nodup := by
  rw [withInstruction_eq]
  split
  · rename_i added
    rw [List.nodup_append]
    refine ⟨nodup, List.nodup_singleton _, ?_⟩
    intro old member other isNew equal
    rw [List.mem_singleton.mp isNew] at equal
    exact added.2 (equal ▸ member)
  · exact nodup

@[simp] theorem orderedBlocks_withInstruction (inst : Inst) :
    (slice.withInstruction values inst).orderedBlocks = slice.orderedBlocks := by
  rw [withInstruction_eq]
  split <;> rfl

theorem mem_foldl_withInstruction {insts : List Inst} {id : InstId} :
    id ∈ (insts.foldl (withInstruction values) slice).orderedInstructions ↔
      id ∈ slice.orderedInstructions ∨
        ∃ inst ∈ insts, values.isSanitizerOnlyInstruction inst.op = true ∧ id = inst.id := by
  induction insts generalizing slice with
  | nil => simp
  | cons head tail induction =>
      rw [List.foldl_cons, induction, mem_withInstruction]
      simp [or_assoc]

theorem orderedBlocks_foldl_withInstruction (insts : List Inst) :
    (insts.foldl (withInstruction values) slice).orderedBlocks = slice.orderedBlocks := by
  induction insts generalizing slice with
  | nil => rfl
  | cons head tail induction => rw [List.foldl_cons, induction, orderedBlocks_withInstruction]

theorem mem_addBlock {block : Block} {id : InstId} (fresh : block.id ∉ slice.orderedBlocks) :
    id ∈ (slice.addBlock values block).orderedInstructions ↔
      id ∈ slice.orderedInstructions ∨ ∃ inst ∈ block.instructions,
        values.isSanitizerOnlyInstruction inst.op = true ∧ id = inst.id := by
  rw [addBlock, if_neg fresh, mem_foldl_withInstruction]

theorem nodup_addBlock {block : Block} (nodup : slice.orderedInstructions.Nodup) :
    (slice.addBlock values block).orderedInstructions.Nodup := by
  rw [addBlock]
  split
  · exact nodup
  · exact List.foldlRecOn (motive := fun slice : CheckSlice => slice.orderedInstructions.Nodup)
      _ _ nodup fun slice before inst _ => nodup_withInstruction before

theorem mem_orderedBlocks_addBlock {block : Block} {id : BlockId} :
    id ∈ (slice.addBlock values block).orderedBlocks ↔
      id ∈ slice.orderedBlocks ∨ id = block.id := by
  rw [addBlock]
  split
  · rename_i old
    constructor
    · exact .inl
    · intro cases
      rcases cases with before | rfl
      · exact before
      · exact old
  · rw [orderedBlocks_foldl_withInstruction]
    simp

end CheckSlice

/-! ## What every turn keeps -/

namespace Function

variable {function : Function} {values : ValueTable} {check : InstId} {slice : CheckSlice}

theorem sanitizerOnly_of_mem {block : Block} {inst : Inst}
    (sanitizerOnly : values.isSanitizerOnlyBlock block check = true)
    (inside : inst ∈ block.instructions) :
    values.isSanitizerOnlyInstruction inst.op = true := by
  rw [ValueTable.isSanitizerOnlyBlock, List.all_eq_true] at sanitizerOnly
  exact (Bool.and_eq_true_iff.mp (sanitizerOnly inst inside)).2

/-- The sanitizer-only operands of the instruction are in the slice. -/
def HoldsOperands (function : Function) (values : ValueTable) (slice : CheckSlice)
    (user : Inst) : Prop :=
  ∀ inst ∈ function.instructions, inst.value ∈ user.op.operands →
    values.isSanitizerOnlyInstruction inst.op = true → inst.id ∈ slice.orderedInstructions

theorem HoldsOperands.mono {after : CheckSlice} {user : Inst}
    (holds : function.HoldsOperands values slice user)
    (subset : slice.orderedInstructions ⊆ after.orderedInstructions) :
    function.HoldsOperands values after user :=
  fun inst member used sanitizerOnly => subset (holds inst member used sanitizerOnly)

/-- Nothing in the slice is there without a cause, a block is there with all it holds,
and what did not come in with its block has been walked on from. -/
structure Gathering (function : Function) (values : ValueTable) (check : InstId)
    (slice : CheckSlice) : Prop where
  gathered : ∀ id ∈ slice.orderedInstructions,
    function.Gathered values check (fun _ => True) id
  blocks : ∀ id ∈ slice.orderedBlocks,
    ∃ block, function.SliceBlock values check block ∧ block.id = id
  contents : ∀ block, function.SliceBlock values check block →
    block.id ∈ slice.orderedBlocks →
      ∀ inst ∈ block.instructions, inst.id ∈ slice.orderedInstructions
  walked : ∀ inst ∈ function.instructions, inst.id ∈ slice.orderedInstructions →
    (∃ block, function.SliceBlock values check block ∧ inst ∈ block.instructions) ∨
      function.HoldsOperands values slice inst
  nodup : slice.orderedInstructions.Nodup

/-- An instruction and what the walk back from it adds. -/
def withWalk (function : Function) (values : ValueTable) (slice : CheckSlice) (inst : Inst) :
    CheckSlice :=
  function.collectBackwardFromInstruction values (slice.withInstruction values inst) inst

theorem subset_withWalk (inst : Inst) : slice.orderedInstructions ⊆
    (function.withWalk values slice inst).orderedInstructions :=
  List.Subset.trans (CheckSlice.subset_withInstruction inst)
    (subset_collectBackwardFromInstruction _ inst)

theorem orderedBlocks_withWalk (inst : Inst) :
    (function.withWalk values slice inst).orderedBlocks = slice.orderedBlocks := by
  rw [withWalk, orderedBlocks_collectBackwardFromInstruction,
    CheckSlice.orderedBlocks_withInstruction]

theorem mem_withWalk {inst : Inst}
    (sanitizerOnly : values.isSanitizerOnlyInstruction inst.op = true) :
    inst.id ∈ (function.withWalk values slice inst).orderedInstructions :=
  subset_collectBackwardFromInstruction _ inst
    (CheckSlice.mem_withInstruction.mpr (.inr ⟨sanitizerOnly, rfl⟩))

theorem holdsOperands_withWalk (shaped : function.Shaped) (inst : Inst) :
    function.HoldsOperands values (function.withWalk values slice inst) inst := by
  intro operand member used sanitizerOnly
  apply (settles_collectBackwardFromInstruction _ inst).roots operand.id
  · exact mem_operandInsts.mpr used
  · exact (isKept_iff shaped member).mpr sanitizerOnly

theorem Gathering.withWalk (gathering : function.Gathering values check slice)
    (shaped : function.Shaped) {inst : Inst} (member : inst ∈ function.instructions)
    (cause : function.Gathered values check (fun _ => True) inst.id) :
    function.Gathering values check (function.withWalk values slice inst) := by
  have operand : ∀ user ∈ function.instructions,
      function.Gathered values check (fun _ => True) user.id →
      ∀ id ∈ operandInsts user, function.isKept values id = true →
        function.Gathered values check (fun _ => True) id := by
    intro user isUser gathered id used kept
    rcases exists_inst_of_isKept kept with ⟨source, sourceMember, rfl, sourceOnly⟩
    exact .ofOperand gathered isUser trivial sourceMember (mem_operandInsts.mp used) sourceOnly
  refine ⟨?_, ?_, ?_, ?_, ?_⟩
  · apply forall_collectBackwardFromInstruction
    · intro id gathered source isSource kept
      rw [sources] at isSource
      cases found : function.inst? id with
      | none => rw [found, Option.elim_none] at isSource; cases isSource
      | some user =>
          have known := mem_of_inst? found
          rw [found, Option.elim_some] at isSource
          exact operand user known.1 (known.2 ▸ gathered) source isSource kept
    · exact operand inst member cause
    · intro id old
      rcases CheckSlice.mem_withInstruction.mp old with before | new
      · exact gathering.gathered id before
      · exact new.2 ▸ cause
  · rw [orderedBlocks_withWalk]
    exact gathering.blocks
  · rw [orderedBlocks_withWalk]
    intro block inSlice old user inside
    exact subset_withWalk inst (gathering.contents block inSlice old user inside)
  · intro user isUser held
    by_cases isInst : user = inst
    · rw [isInst]
      exact .inr (holdsOperands_withWalk shaped inst)
    · by_cases old : user.id ∈ (slice.withInstruction values inst).orderedInstructions
      · rcases CheckSlice.mem_withInstruction.mp old with before | new
        · rcases gathering.walked user isUser before with inBlock | holds
          · exact .inl inBlock
          · exact .inr (holds.mono (subset_withWalk inst))
        · exact absurd (shaped.inst_eq isUser member new.2) isInst
      · apply Or.inr
        intro source sourceMember used sourceOnly
        apply (settles_collectBackwardFromInstruction _ inst).closed user.id held old
        · rw [sources, shaped.inst?_eq isUser, Option.elim_some]
          exact mem_operandInsts.mpr used
        · exact (isKept_iff shaped sourceMember).mpr sourceOnly
  · exact nodup_collectBackwardFromInstruction (CheckSlice.nodup_withInstruction gathering.nodup)

theorem Gathering.addBlock (gathering : function.Gathering values check slice)
    (shaped : function.Shaped) {block : Block}
    (inSlice : function.SliceBlock values check block) :
    function.Gathering values check (slice.addBlock values block) := by
  by_cases old : block.id ∈ slice.orderedBlocks
  · rw [CheckSlice.addBlock, if_pos old]
    exact gathering
  · refine ⟨?_, ?_, ?_, ?_, CheckSlice.nodup_addBlock gathering.nodup⟩
    · intro id member
      rcases (CheckSlice.mem_addBlock old).mp member with before | ⟨inst, inside, -, rfl⟩
      · exact gathering.gathered id before
      · exact .ofBlock inSlice inside
    · intro id member
      rcases CheckSlice.mem_orderedBlocks_addBlock.mp member with before | rfl
      · exact gathering.blocks id before
      · exact ⟨block, inSlice, rfl⟩
    · intro other otherInSlice member inst inside
      rcases CheckSlice.mem_orderedBlocks_addBlock.mp member with before | same
      · exact CheckSlice.subset_addBlock block
          (gathering.contents other otherInSlice before inst inside)
      · have equal := shaped.block_eq otherInSlice.1 inSlice.1 same
        rw [equal] at inside
        exact (CheckSlice.mem_addBlock old).mpr
          (.inr ⟨inst, inside, sanitizerOnly_of_mem inSlice.2.2 inside, rfl⟩)
    · intro inst member held
      rcases (CheckSlice.mem_addBlock old).mp held with before | ⟨other, inside, -, same⟩
      · rcases gathering.walked inst member before with inBlock | holds
        · exact .inl inBlock
        · exact .inr (holds.mono (CheckSlice.subset_addBlock block))
      · have equal := shaped.inst_eq member (mem_instructions.mpr ⟨block, inSlice.1, inside⟩) same
        exact .inl ⟨block, inSlice, equal ▸ inside⟩

/-! ## The predecessors of a block -/

/-- Whether the walk goes on from the block. -/
def goesOn (function : Function) (values : ValueTable) (check : InstId) (block : BlockId) :
    Bool :=
  (function.block? block).any fun block => values.isSanitizerOnlyBlock block check

theorem goesOn_iff (shaped : function.Shaped) {block : Block}
    (member : block ∈ function.blocks) :
    function.goesOn values check block.id = true ↔
      values.isSanitizerOnlyBlock block check = true := by
  rw [goesOn, shaped.block?_eq member, Option.any_some]

theorem exists_block_of_goesOn {id : BlockId} (goes : function.goesOn values check id = true) :
    ∃ block ∈ function.blocks, block.id = id ∧
      values.isSanitizerOnlyBlock block check = true := by
  rw [goesOn, Option.any_eq_true] at goes
  rcases goes with ⟨block, found, sanitizerOnly⟩
  have known := mem_of_block? found
  exact ⟨block, known.1, known.2, sanitizerOnly⟩

theorem visitPredecessor_eq (shaped : function.Shaped) {source : Block}
    (member : source ∈ function.blocks) (state : CheckSlice × List BlockId) :
    function.visitPredecessor values check state source.id =
      if values.isSanitizerOnlyInstruction source.terminator.op = false then state
      else if function.goesOn values check source.id = true then
        ((function.withWalk values state.1 source.terminator).addBlock values source,
          source.id :: state.2)
      else (function.withWalk values state.1 source.terminator, state.2) := by
  have goes : function.goesOn values check source.id =
      values.isSanitizerOnlyBlock source check := by
    rw [goesOn, shaped.block?_eq member, Option.any_some]
  rw [visitPredecessor, shaped.block?_eq member]
  simp only [goes, withWalk]
  cases values.isSanitizerOnlyInstruction source.terminator.op <;> rfl

/-- The terminator is in the slice, if it may be, and so are its operands. -/
def HoldsBranch (function : Function) (values : ValueTable) (slice : CheckSlice)
    (branch : Inst) : Prop :=
  values.isSanitizerOnlyInstruction branch.op = true →
    branch.id ∈ slice.orderedInstructions ∧ function.HoldsOperands values slice branch

theorem HoldsBranch.mono {after : CheckSlice} {branch : Inst}
    (holds : function.HoldsBranch values slice branch)
    (subset : slice.orderedInstructions ⊆ after.orderedInstructions) :
    function.HoldsBranch values after branch :=
  fun sanitizerOnly =>
    ⟨subset (holds sanitizerOnly).1, (holds sanitizerOnly).2.mono subset⟩

/-- What the predecessors in the list have left in the slice and on the worklist. -/
structure Visited (function : Function) (values : ValueTable) (check : InstId)
    (preds : List BlockId) (before after : CheckSlice × List BlockId) : Prop where
  gathering : function.Gathering values check after.1
  subset : before.1.orderedInstructions ⊆ after.1.orderedInstructions
  worklist : after.2 = (preds.filter (function.goesOn values check)).reverse ++ before.2
  blocks : ∀ id, id ∈ after.1.orderedBlocks ↔
    id ∈ before.1.orderedBlocks ∨ (id ∈ preds ∧ function.goesOn values check id = true)
  branches : ∀ source ∈ function.blocks, source.id ∈ preds →
    function.HoldsBranch values after.1 source.terminator

theorem visited_visitPredecessor (shaped : function.Shaped) {source : Block}
    (member : source ∈ function.blocks) {block : BlockId}
    (seen : function.SeenBlock values check block) (edge : function.Edge source.id block)
    {state : CheckSlice × List BlockId} (gathering : function.Gathering values check state.1) :
    function.Visited values check [source.id] state
      (function.visitPredecessor values check state source.id) := by
  have alone : ∀ other ∈ function.blocks, other.id ∈ [source.id] → other = source :=
    fun other otherMember isSource =>
      shaped.block_eq otherMember member (List.mem_singleton.mp isSource)
  rw [visitPredecessor_eq shaped member]
  split
  · rename_i notOnly
    have stops : function.goesOn values check source.id = false := by
      rw [Bool.eq_false_iff]
      intro goes
      rw [sanitizerOnly_of_mem ((goesOn_iff shaped member).mp goes) source.terminator_mem]
        at notOnly
      cases notOnly
    refine ⟨gathering, List.Subset.refl _, by simp [stops], ?_, ?_⟩
    · intro id
      constructor
      · exact .inl
      · intro cases
        rcases cases with old | ⟨isSource, goes⟩
        · exact old
        · rw [List.mem_singleton.mp isSource, stops] at goes
          cases goes
    · intro other otherMember isSource sanitizerOnly
      rw [alone other otherMember isSource, notOnly] at sanitizerOnly
      cases sanitizerOnly
  · rename_i notOther
    have sanitizerOnly := Bool.eq_true_of_not_eq_false notOther
    have inside : source.terminator ∈ function.instructions :=
      mem_instructions.mpr ⟨source, member, source.terminator_mem⟩
    have walked : function.Gathering values check
        (function.withWalk values state.1 source.terminator) :=
      gathering.withWalk shaped inside
        (.ofBranch ⟨block, seen, source, member, edge, rfl⟩ sanitizerOnly)
    have branch : function.HoldsBranch values
        (function.withWalk values state.1 source.terminator) source.terminator :=
      fun _ => ⟨mem_withWalk sanitizerOnly, holdsOperands_withWalk shaped _⟩
    split
    · rename_i goes
      have inSlice : function.SliceBlock values check source := by
        have only := (goesOn_iff shaped member).mp goes
        exact ⟨member, .pred seen member edge only, only⟩
      refine ⟨walked.addBlock shaped inSlice, ?_, by simp [goes], ?_, ?_⟩
      · exact List.Subset.trans (subset_withWalk _) (CheckSlice.subset_addBlock source)
      · intro id
        rw [CheckSlice.mem_orderedBlocks_addBlock, orderedBlocks_withWalk, List.mem_singleton]
        constructor
        · exact Or.imp_right fun isSource => ⟨isSource, isSource ▸ goes⟩
        · exact Or.imp_right And.left
      · intro other otherMember isSource
        rw [alone other otherMember isSource]
        exact branch.mono (CheckSlice.subset_addBlock source)
    · rename_i stops
      refine ⟨walked, subset_withWalk _, by simp [stops], ?_, ?_⟩
      · intro id
        rw [orderedBlocks_withWalk, List.mem_singleton]
        constructor
        · exact .inl
        · intro cases
          rcases cases with old | ⟨isSource, goes⟩
          · exact old
          · exact absurd (isSource ▸ goes) stops
      · intro other otherMember isSource
        rw [alone other otherMember isSource]
        exact branch

theorem visited_foldl (shaped : function.Shaped) {block : BlockId}
    (seen : function.SeenBlock values check block) {preds : List BlockId}
    (edges : ∀ pred ∈ preds, pred ∈ function.predecessors block)
    {state : CheckSlice × List BlockId} (gathering : function.Gathering values check state.1) :
    function.Visited values check preds state
      (preds.foldl (function.visitPredecessor values check) state) := by
  induction preds generalizing state with
  | nil => exact ⟨gathering, List.Subset.refl _, by simp, by simp, by simp⟩
  | cons head tail induction =>
      have edge := mem_predecessors.mp (edges head (List.mem_cons_self ..))
      rcases edge_iff.mp edge with ⟨source, member, rfl, -⟩
      have first := visited_visitPredecessor shaped member seen edge gathering
      have rest := induction (fun pred inTail => edges pred (List.mem_cons_of_mem _ inTail))
        first.gathering
      rw [List.foldl_cons]
      refine ⟨rest.gathering, List.Subset.trans first.subset rest.subset, ?_, ?_, ?_⟩
      · rw [rest.worklist, first.worklist, ← List.append_assoc, ← List.reverse_append,
          ← List.filter_append, List.singleton_append]
      · intro id
        rw [rest.blocks, first.blocks, List.mem_singleton, List.mem_cons]
        tauto
      · intro other otherMember isPred
        rcases List.mem_cons.mp isPred with isHead | inTail
        · have branch := first.branches other otherMember (List.mem_singleton.mpr isHead)
          exact branch.mono rest.subset
        · exact rest.branches other otherMember inTail

/-! ## The worklist -/

/-- The predecessors that a turn of the loop pushes. -/
def pushed (function : Function) (values : ValueTable) (check : InstId) (block : BlockId) :
    List BlockId :=
  (function.predecessors block).filter (function.goesOn values check)

/-- What the loop keeps. -/
structure Sweeping (function : Function) (values : ValueTable) (check : InstId)
    (seen : List BlockId) (slice : CheckSlice) (worklist : List BlockId) : Prop where
  gathering : function.Gathering values check slice
  sound : ∀ id, id ∈ seen ∨ id ∈ worklist → function.SeenBlock values check id
  parent : ∀ block ∈ function.blocks, check ∈ block.definitions →
    block.id ∈ seen ∨ block.id ∈ worklist
  closed : ∀ id ∈ seen, ∀ pred ∈ function.pushed values check id,
    pred ∈ seen ∨ pred ∈ worklist
  blocks : ∀ id, id ∈ slice.orderedBlocks ↔
    (id ∈ seen ∨ id ∈ worklist) ∧ function.goesOn values check id = true
  check : ∀ inst ∈ function.instructions, inst.id = check →
    check ∈ slice.orderedInstructions ∧ function.HoldsOperands values slice inst
  branches : ∀ id ∈ seen, ∀ source ∈ function.blocks, function.Edge source.id id →
    function.HoldsBranch values slice source.terminator

theorem Sweeping.skip {seen rest : List BlockId} {block : BlockId}
    (sweep : function.Sweeping values check seen slice (block :: rest)) (old : block ∈ seen) :
    function.Sweeping values check seen slice rest where
  gathering := sweep.gathering
  sound := fun id known => sweep.sound id (known.imp_right (List.mem_cons_of_mem block))
  parent := fun parent member holds =>
    Search.known_of_skip old (sweep.parent parent member holds)
  closed := fun id inSeen pred isPushed =>
    Search.known_of_skip old (sweep.closed id inSeen pred isPushed)
  blocks := by
    intro id
    rw [sweep.blocks]
    constructor
    · exact And.imp_left (Search.known_of_skip old)
    · exact And.imp_left (Or.imp_right (List.mem_cons_of_mem block))
  check := sweep.check
  branches := sweep.branches

theorem Sweeping.visited {seen rest : List BlockId} {block : BlockId}
    (sweep : function.Sweeping values check seen slice (block :: rest)) (shaped : function.Shaped) :
    function.Visited values check (function.predecessors block) (slice, rest)
      ((function.predecessors block).foldl (function.visitPredecessor values check)
        (slice, rest)) :=
  visited_foldl shaped (sweep.sound block (.inr (List.mem_cons_self ..)))
    (fun _ isPred => isPred) sweep.gathering

theorem Sweeping.visit {seen rest : List BlockId} {block : BlockId}
    (sweep : function.Sweeping values check seen slice (block :: rest)) (shaped : function.Shaped) :
    function.Sweeping values check (block :: seen)
      ((function.predecessors block).foldl (function.visitPredecessor values check)
        (slice, rest)).1
      ((function.predecessors block).foldl (function.visitPredecessor values check)
        (slice, rest)).2 := by
  have isSeen := sweep.sound block (.inr (List.mem_cons_self ..))
  have visited := sweep.visited shaped
  have waits : ∀ id, id ∈ ((function.predecessors block).foldl
      (function.visitPredecessor values check) (slice, rest)).2 ↔
        id ∈ function.pushed values check block ∨ id ∈ rest := by
    intro id
    rw [visited.worklist, List.mem_append, List.mem_reverse]
    rfl
  have known : ∀ id, id ∈ seen ∨ id ∈ block :: rest → id ∈ block :: seen ∨
      id ∈ ((function.predecessors block).foldl
        (function.visitPredecessor values check) (slice, rest)).2 := by
    intro id old
    rw [waits]
    rcases old with inSeen | inRest
    · exact .inl (List.mem_cons_of_mem _ inSeen)
    · rcases List.mem_cons.mp inRest with rfl | later
      · exact .inl (List.mem_cons_self ..)
      · exact .inr (.inr later)
  refine ⟨visited.gathering, ?_, ?_, ?_, ?_, ?_, ?_⟩
  · intro id found
    rw [waits] at found
    rcases found with inSeen | isPushed | later
    · rcases List.mem_cons.mp inSeen with rfl | old
      · exact isSeen
      · exact sweep.sound id (.inl old)
    · have parts := List.mem_filter.mp isPushed
      rcases exists_block_of_goesOn parts.2 with ⟨source, member, rfl, only⟩
      exact .pred isSeen member (mem_predecessors.mp parts.1) only
    · exact sweep.sound id (.inr (List.mem_cons_of_mem _ later))
  · intro parent member holds
    exact known parent.id (sweep.parent parent member holds)
  · intro id inSeen pred isPushed
    rcases List.mem_cons.mp inSeen with rfl | old
    · exact .inr ((waits pred).mpr (.inl isPushed))
    · exact known pred (sweep.closed id old pred isPushed)
  · intro id
    rw [visited.blocks, sweep.blocks, waits, pushed, List.mem_filter]
    simp only [List.mem_cons]
    tauto
  · intro inst member isCheck
    have held := sweep.check inst member isCheck
    exact ⟨visited.subset held.1, held.2.mono visited.subset⟩
  · intro id inSeen source member edge
    rcases List.mem_cons.mp inSeen with rfl | old
    · exact visited.branches source member (mem_predecessors.mpr edge)
    · exact (sweep.branches id old source member edge).mono visited.subset

/-- The blocks that some edge leads to. -/
def targets (function : Function) : Finset BlockId :=
  (function.blocks.flatMap Block.successors).toFinset

theorem length_predecessors (function : Function) (block : BlockId) :
    (function.predecessors block).length =
      (function.blocks.flatMap Block.successors).count block := by
  rw [predecessors, List.length_flatMap, List.count_flatMap]
  congr 1
  apply List.map_congr_left
  intro source _
  rw [List.length_map, Function.comp_apply, List.count_eq_length_filter]
  rfl

/-- The loop has a turn for every block it can push. -/
theorem sum_pushed_le : ∑ block ∈ function.targets,
    (function.pushed values check block).length ≤
      (function.blocks.flatMap Block.successors).length := by
  rw [← List.sum_toFinset_count_eq_length]
  apply Finset.sum_le_sum
  intro block _
  rw [← length_predecessors]
  exact List.length_filter_le _ _

theorem pushed_outside {block : BlockId} (outside : block ∉ function.targets) :
    function.pushed values check block = [] := by
  have none : function.predecessors block = [] := by
    rw [← List.length_eq_zero_iff, length_predecessors, List.count_eq_zero]
    exact fun member => outside (List.mem_toFinset.mpr member)
  rw [pushed, none, List.filter_nil]

theorem Sweeping.pending_visit {seen rest : List BlockId} {block : BlockId}
    (sweep : function.Sweeping values check seen slice (block :: rest)) (shaped : function.Shaped)
    (fresh : block ∉ seen) :
    Search.pending (function.pushed values check) function.targets (block :: seen)
        ((function.predecessors block).foldl (function.visitPredecessor values check)
          (slice, rest)).2 + 1 =
      Search.pending (function.pushed values check) function.targets seen (block :: rest) := by
  rw [← Search.pending_visit (fun _ outside => pushed_outside outside) fresh,
    (sweep.visited shaped).worklist, Search.pending, Search.pending, List.length_append,
    List.length_append, List.length_reverse, Nat.add_comm rest.length]
  rfl

theorem exists_sweep (shaped : function.Shaped) {fuel : Nat} {seen worklist : List BlockId}
    {slice : CheckSlice}
    (enough : Search.pending (function.pushed values check) function.targets seen worklist < fuel)
    (sweep : function.Sweeping values check seen slice worklist) :
    ∃ blocks, function.Sweeping values check blocks
      (function.collectControlFlowLoop values check fuel seen slice worklist) [] := by
  induction fuel generalizing seen slice worklist with
  | zero => exact absurd enough (Nat.not_lt_zero _)
  | succ fuel induction =>
      cases worklist with
      | nil => exact ⟨seen, sweep⟩
      | cons block rest =>
          rw [collectControlFlowLoop]
          split
          · rename_i old
            apply induction _ (sweep.skip old)
            rw [Search.pending, List.length_cons] at enough
            rw [Search.pending]
            omega
          · rename_i fresh
            apply induction _ (sweep.visit shaped)
            have turn := sweep.pending_visit shaped fresh
            omega

/-! ## The slice -/

theorem gathering_empty : function.Gathering values check {} :=
  ⟨by simp, by simp, by simp, by simp, List.nodup_nil⟩

/-- The loop starts with the block of the check on its worklist. -/
theorem Gathering.sweep {inst : Inst} {parent : Block}
    (gathering : function.Gathering values inst.id slice) (shaped : function.Shaped)
    (parentMember : parent ∈ function.blocks) (inside : inst ∈ parent.instructions)
    (blocks : ∀ id, id ∈ slice.orderedBlocks ↔
      id = parent.id ∧ function.goesOn values inst.id id = true)
    (held : inst.id ∈ slice.orderedInstructions ∧ function.HoldsOperands values slice inst) :
    function.Sweeping values inst.id [] slice [parent.id] := by
  have member : inst ∈ function.instructions :=
    mem_instructions.mpr ⟨parent, parentMember, inside⟩
  have defines : inst.id ∈ parent.definitions := List.mem_map_of_mem inside
  refine ⟨gathering, ?_, ?_, by simp, ?_, ?_, by simp⟩
  · intro id waits
    rw [List.mem_singleton.mp (waits.resolve_left List.not_mem_nil)]
    exact .parent parentMember defines
  · intro block blockMember holds
    rw [shaped.block_of_definition blockMember parentMember holds defines]
    exact .inr (List.mem_singleton_self _)
  · simpa using blocks
  · intro other otherMember same
    rw [shaped.inst_eq otherMember member same]
    exact held

theorem exists_sweep_collectCheckSlice (shaped : function.Shaped) {inst : Inst}
    (member : inst ∈ function.instructions)
    (sanitizerOnly : values.isSanitizerOnlyInstruction inst.op = true) :
    ∃ blocks, function.Sweeping values inst.id blocks
      (function.collectCheckSlice values inst.id) [] := by
  rcases mem_instructions.mp member with ⟨parent, parentMember, inside⟩
  have defines : inst.id ∈ parent.definitions := List.mem_map_of_mem inside
  have walked : function.Gathering values inst.id (function.withWalk values {} inst) :=
    gathering_empty.withWalk shaped member .check
  have held : inst.id ∈ (function.withWalk values {} inst).orderedInstructions ∧
      function.HoldsOperands values (function.withWalk values {} inst) inst :=
    ⟨mem_withWalk sanitizerOnly, holdsOperands_withWalk shaped inst⟩
  have noBlocks : (function.withWalk values {} inst).orderedBlocks = [] :=
    orderedBlocks_withWalk inst
  have goes : function.goesOn values inst.id parent.id = true ↔
      values.isSanitizerOnlyBlock parent inst.id = true := goesOn_iff shaped parentMember
  have enough : Search.pending (function.pushed values inst.id) function.targets []
      [parent.id] < (function.blocks.flatMap Block.successors).length + 2 := by
    have bound : ∑ block ∈ function.targets, (function.pushed values inst.id block).length ≤
      (function.blocks.flatMap Block.successors).length := sum_pushed_le
    rw [Search.pending, List.toFinset_nil, Finset.sdiff_empty, List.length_singleton]
    omega
  rw [collectCheckSlice, shaped.inst?_eq member, shaped.parent?_eq parentMember defines]
  apply exists_sweep shaped enough
  split
  · rename_i only
    have inSlice : function.SliceBlock values inst.id parent :=
      ⟨parentMember, .parent parentMember defines, only⟩
    have grown : (function.withWalk values {} inst).orderedInstructions ⊆
        ((function.withWalk values {} inst).addBlock values parent).orderedInstructions :=
      CheckSlice.subset_addBlock parent
    apply (walked.addBlock shaped inSlice).sweep shaped parentMember inside
    · intro id
      rw [CheckSlice.mem_orderedBlocks_addBlock, noBlocks]
      constructor
      · intro added
        have same := added.resolve_left List.not_mem_nil
        exact ⟨same, same ▸ goes.mpr only⟩
      · exact fun parts => .inr parts.1
    · exact ⟨grown held.1, held.2.mono grown⟩
  · rename_i notOnly
    apply walked.sweep shaped parentMember inside _ held
    intro id
    rw [noBlocks]
    constructor
    · exact fun member => absurd member List.not_mem_nil
    · intro parts
      exact absurd (goes.mp (parts.1 ▸ parts.2)) notOnly

/-- Once nothing waits, all that the walk should see has been seen. -/
theorem Sweeping.mem_of_seenBlock {seen : List BlockId} {id : BlockId}
    (sweep : function.Sweeping values check seen slice []) (shaped : function.Shaped)
    (isSeen : function.SeenBlock values check id) : id ∈ seen := by
  induction isSeen with
  | parent member holds =>
      exact (sweep.parent _ member holds).resolve_right List.not_mem_nil
  | pred _ member edge sanitizerOnly inside =>
      apply (sweep.closed _ inside _ _).resolve_right List.not_mem_nil
      exact List.mem_filter.mpr ⟨mem_predecessors.mpr edge,
        (goesOn_iff shaped member).mpr sanitizerOnly⟩

theorem Sweeping.mem_orderedBlocks {seen : List BlockId} {id : BlockId}
    (sweep : function.Sweeping values check seen slice []) (shaped : function.Shaped) :
    id ∈ slice.orderedBlocks ↔
      ∃ block, function.SliceBlock values check block ∧ block.id = id := by
  constructor
  · exact sweep.gathering.blocks id
  · intro inSlice
    rcases inSlice with ⟨block, ⟨member, isSeen, only⟩, rfl⟩
    exact (sweep.blocks block.id).mpr
      ⟨.inl (sweep.mem_of_seenBlock shaped isSeen), (goesOn_iff shaped member).mpr only⟩

theorem Sweeping.holdsOperands {seen : List BlockId} {user : Inst}
    (sweep : function.Sweeping values check seen slice []) (shaped : function.Shaped)
    (isUser : user ∈ function.instructions) (held : user.id ∈ slice.orderedInstructions)
    (sanitizerOnly : values.isSanitizerOnlyInstruction user.op = true)
    (walked : function.AlwaysWalked values check user) :
    function.HoldsOperands values slice user := by
  rcases walked with isCheck | ⟨block, isSeen, source, member, edge, rfl⟩ | notInBlock
  · exact (sweep.check user isUser isCheck).2
  · have known := sweep.mem_of_seenBlock shaped isSeen
    exact (sweep.branches block known source member edge sanitizerOnly).2
  · rcases sweep.gathering.walked user isUser held with ⟨block, inSlice, inside⟩ | holds
    · exact absurd inside (notInBlock block inSlice)
    · exact holds

theorem Gathered.sanitizerOnly {walked : Inst → Prop} {id : InstId}
    (gathered : function.Gathered values check walked id) (shaped : function.Shaped)
    {target : Inst} (isTarget : target ∈ function.instructions) (address : target.id = check)
    (targetOnly : values.isSanitizerOnlyInstruction target.op = true) {inst : Inst}
    (member : inst ∈ function.instructions) (same : inst.id = id) :
    values.isSanitizerOnlyInstruction inst.op = true := by
  cases gathered with
  | check =>
      rw [shaped.inst_eq member isTarget (same.trans address.symm)]
      exact targetOnly
  | ofBlock inSlice inside =>
      rw [shaped.inst_eq member (mem_instructions.mpr ⟨_, inSlice.1, inside⟩) same]
      exact sanitizerOnly_of_mem inSlice.2.2 inside
  | ofBranch guards sanitizerOnly =>
      rcases guards with ⟨block, isSeen, source, sourceMember, edge, rfl⟩
      rw [shaped.inst_eq member
        (mem_instructions.mpr ⟨source, sourceMember, source.terminator_mem⟩) same]
      exact sanitizerOnly
  | ofOperand _ _ _ found _ sanitizerOnly =>
      rw [shaped.inst_eq member found same]
      exact sanitizerOnly

theorem sanitizerOnly_of_isCheck {op : Op} (isCheck : values.isCheck op = true) :
    values.isSanitizerOnlyInstruction op = true := by
  have isCall : op.callSite? ≠ none := by
    intro noCall
    rw [ValueTable.isCheck, ValueTable.classifyCheck, noCall] at isCheck
    cases isCheck
  cases op with
  | call site => simp [ValueTable.isSanitizerOnlyInstruction, isCheck]
  | invoke site normal unwind => simp [ValueTable.isSanitizerOnlyInstruction, isCheck]
  | _ => exact absurd rfl isCall

/-- The slice of a check has the sanitizer-only blocks that lead to it. Each of its
instructions belongs to the check, and it has each that belongs to the check by way of
instructions whose operands are walked in any order. -/
theorem collectCheckSlice_extent (shaped : function.Shaped) {inst : Inst}
    (member : inst ∈ function.instructions) (isCheck : values.isCheck inst.op = true) :
    (∀ id, id ∈ (function.collectCheckSlice values inst.id).orderedBlocks ↔
      ∃ block, function.SliceBlock values inst.id block ∧ block.id = id) ∧
    (∀ id ∈ (function.collectCheckSlice values inst.id).orderedInstructions,
      function.Gathered values inst.id (fun _ => True) id) ∧
    (∀ id, function.Gathered values inst.id (function.AlwaysWalked values inst.id) id →
      id ∈ (function.collectCheckSlice values inst.id).orderedInstructions) ∧
    (function.collectCheckSlice values inst.id).orderedInstructions.Nodup := by
  have sanitizerOnly := sanitizerOnly_of_isCheck isCheck
  rcases exists_sweep_collectCheckSlice shaped member sanitizerOnly with ⟨seen, sweep⟩
  refine ⟨fun id => sweep.mem_orderedBlocks shaped, sweep.gathering.gathered, ?_,
    sweep.gathering.nodup⟩
  intro id gathered
  induction gathered with
  | check => exact (sweep.check inst member rfl).1
  | ofBlock inSlice inside =>
      exact sweep.gathering.contents _ inSlice
        ((sweep.mem_orderedBlocks shaped).mpr ⟨_, inSlice, rfl⟩) _ inside
  | ofBranch guards branchOnly =>
      rcases guards with ⟨block, isSeen, source, sourceMember, edge, rfl⟩
      have known := sweep.mem_of_seenBlock shaped isSeen
      exact (sweep.branches block known source sourceMember edge branchOnly).1
  | ofOperand gathered isUser walks found used operandOnly held =>
      have userOnly := gathered.sanitizerOnly shaped member rfl sanitizerOnly isUser rfl
      exact sweep.holdsOperands shaped isUser held userOnly walks _ found used operandOnly

def guardValues : ValueTable where
  value
    | 0 => ⟨.constant (.function "__asan_load4" .notIntrinsic), .pointer⟩
    | _ => ⟨.argument, .pointer⟩
  count := 2

/-- A check behind a test of the shadow, with a load of its own block before it. -/
def guardedShadow : Function where
  name := "f"
  blocks :=
    [{ id := 0
       insts :=
        [⟨0, .integer 8, .load (.other 1) false .notAtomic⟩,
         ⟨1, .integer 1, .cmp "sge" (.inst 0) (.other 1)⟩,
         ⟨2, .pointer, .getElementPtr (.other 1) []⟩,
         ⟨3, .other 0, .store (.other 1) (.other 1)⟩]
       terminator := ⟨10, .other 0, .condBr (.inst 1) 1 2⟩ },
     { id := 1
       insts :=
        [⟨4, .pointer, .load (.inst 2) false .notAtomic⟩,
         ⟨5, .other 0, .call { calledOperand := .other 0, args := [.other 1] }⟩]
       terminator := ⟨11, .other 0, .br 2⟩ },
     { id := 2, insts := [], terminator := ⟨12, .other 0, .ret none⟩ }]

/-- The load came in with its block, and the address it reads is left out. -/
theorem guardedShadow_extent :
    (guardedShadow.collectCheckSlice guardValues 5).orderedInstructions = [5, 4, 11, 10, 1, 0] ∧
      (∃ block, guardedShadow.SliceBlock guardValues 5 block ∧ block.id = 1) ∧
        guardedShadow.Gathered guardValues 5 (fun _ => True) 2 ∧
          ¬guardedShadow.Gathered guardValues 5 (guardedShadow.AlwaysWalked guardValues 5) 2 := by
  have extent := @collectCheckSlice_extent guardedShadow guardValues (by decide)
    ⟨5, .other 0, .call { calledOperand := .other 0, args := [.other 1] }⟩
    (by decide) (by decide)
  refine ⟨by decide, (extent.1 1).mp (by decide), ?_, ?_⟩
  · have load : guardedShadow.Gathered guardValues 5 (fun _ => True) 4 :=
      extent.2.1 4 (by decide)
    have isUser : ⟨4, .pointer, .load (.inst 2) false .notAtomic⟩ ∈
        guardedShadow.instructions := by decide
    have isAddress : ⟨2, .pointer, .getElementPtr (.other 1) []⟩ ∈
        guardedShadow.instructions := by decide
    exact .ofOperand load isUser trivial isAddress (by decide) (by decide)
  · intro gathered
    exact absurd (extent.2.2.1 2 gathered) (by decide)

end Function

end Desan
