import Desan.IR.Edit
import Desan.SanitizerCheckCollector
import Desan.Foundation.Layout

/-! # What an edit carries over

An edit of a function may replace operands, erase phis and change branches. Here is
what it leaves of the other instructions. -/

namespace Desan

namespace Value

/-- Only operands that are instructions are edited. -/
def KeepsConstants (transform : Value → Value) : Prop :=
  ∀ value, value.asInst = none → transform value = value

theorem keepsConstants_replace (old : InstId) (new : Value) :
    KeepsConstants (replace old new) := by
  intro value constant
  apply replace_of_ne
  intro equal
  rw [equal] at constant
  cases constant

theorem keepsConstants_poisonWhere (dead : List InstId) :
    KeepsConstants (poisonWhere dead) := by
  intro value constant
  cases value with
  | inst id => cases constant
  | other id => rfl
  | poison => rfl

end Value

namespace Op

theorem mapOperands_id (op : Op) : op.mapOperands id = op := by
  cases op <;> simp [mapOperands, CallSite.mapOperands]

theorem mapOperands_mapOperands (first second : Value → Value) (op : Op) :
    (op.mapOperands first).mapOperands second = op.mapOperands (second ∘ first) := by
  cases op <;> simp [mapOperands, CallSite.mapOperands, Function.comp_def]

/-- The same operation, on edited operands. -/
def EditedTo (before after : Op) : Prop :=
  ∃ transform, Value.KeepsConstants transform ∧ after = before.mapOperands transform

theorem EditedTo.refl (op : Op) : op.EditedTo op :=
  ⟨id, fun _ _ => rfl, op.mapOperands_id.symm⟩

theorem EditedTo.trans {first second third : Op} (left : first.EditedTo second)
    (right : second.EditedTo third) : first.EditedTo third := by
  rcases left with ⟨before, keepsBefore, rfl⟩
  rcases right with ⟨after, keepsAfter, rfl⟩
  refine ⟨after ∘ before, ?_, mapOperands_mapOperands before after first⟩
  intro value constant
  rw [Function.comp_apply, keepsBefore value constant, keepsAfter value constant]

theorem EditedTo.successors_eq {before after : Op} (edited : before.EditedTo after) :
    after.successors = before.successors := by
  rcases edited with ⟨transform, -, rfl⟩
  exact before.successors_mapOperands transform

theorem EditedTo.isPhi_eq {before after : Op} (edited : before.EditedTo after) :
    after.isPhi = before.isPhi := by
  rcases edited with ⟨transform, -, rfl⟩
  exact before.isPhi_mapOperands transform

theorem isPhi_of_callSite? {op : Op} (call : op.callSite?.isSome) : op.isPhi = false := by
  cases op with
  | phi incoming => cases call
  | _ => rfl

theorem EditedTo.mayHaveSideEffects_eq {before after : Op} (edited : before.EditedTo after) :
    after.mayHaveSideEffects = before.mayHaveSideEffects := by
  rcases edited with ⟨transform, -, rfl⟩
  exact before.mayHaveSideEffects_mapOperands transform

theorem callSite?_mapOperands (transform : Value → Value) (op : Op) :
    (op.mapOperands transform).callSite? = op.callSite?.map (CallSite.mapOperands transform) := by
  cases op <;> rfl

theorem EditedTo.isSome_callSite? {before after : Op} (edited : before.EditedTo after) :
    after.callSite?.isSome = before.callSite?.isSome := by
  rcases edited with ⟨transform, -, rfl⟩
  rw [callSite?_mapOperands, Option.isSome_map]

end Op

namespace ValueTable

/-- An instruction in the place of the callee resolves to no function. -/
theorem resolveCalledFunction_inst (values : ValueTable) {site : CallSite} {id : InstId}
    (called : site.calledOperand = .inst id) : values.resolveCalledFunction site = none := by
  have direct : values.calledFunction? site = none := by
    rw [calledFunction?, called]
    split <;> rfl
  have stripped : values.stripCallee values.count (.inst id) = .inst id := by
    cases values.count <;> rfl
  rw [resolveCalledFunction, direct, called, stripped]
  rfl

/-- A recognised check names its callee, so edited operands leave it a check of its kind. -/
theorem classifyCheck_of_editedTo {values : ValueTable} {before after : Op}
    {check : ClassifiedCheck} (edited : before.EditedTo after)
    (classified : values.classifyCheck before = some check) :
    values.classifyCheck after = some check := by
  rcases edited with ⟨transform, keeps, rfl⟩
  rw [classifyCheck, Op.callSite?_mapOperands]
  rw [classifyCheck] at classified
  cases found : before.callSite? with
  | none =>
      rw [found] at classified
      cases classified
  | some site =>
      rw [found, Option.bind_some] at classified
      rw [Option.map_some, Option.bind_some]
      have constant : site.calledOperand.asInst = none := by
        cases called : site.calledOperand with
        | inst id =>
            rw [classifyCall, resolveCalledFunction_inst values called] at classified
            cases classified
        | other id => rfl
        | poison => rfl
      have same : values.resolveCalledFunction (site.mapOperands transform) =
          values.resolveCalledFunction site := by
        simp only [resolveCalledFunction, calledFunction?, CallSite.mapOperands,
          keeps _ constant]
      rw [classifyCall, same]
      exact classified

theorem isCheck_of_editedTo {values : ValueTable} {before after : Op}
    (edited : before.EditedTo after) (check : values.isCheck before = true) :
    values.isCheck after = true := by
  rw [isCheck] at check ⊢
  rcases Option.isSome_iff_exists.mp check with ⟨kind, classified⟩
  rw [classifyCheck_of_editedTo edited classified]
  rfl

end ValueTable

/-! ## Shaped functions -/

namespace Function

/-- Distinct blocks and distinct instructions have distinct addresses, and every block
ends in a terminator. -/
structure Shaped (function : Function) : Prop where
  blocks : function.blockIds.Nodup
  insts : (function.instructions.map Inst.id).Nodup
  terminators : ∀ block ∈ function.blocks, block.terminator.op.isTerminator = true

instance (function : Function) : Decidable function.Shaped :=
  decidable_of_iff
    (function.blockIds.Nodup ∧ (function.instructions.map Inst.id).Nodup ∧
      ∀ block ∈ function.blocks, block.terminator.op.isTerminator = true)
    ⟨fun parts => ⟨parts.1, parts.2.1, parts.2.2⟩,
      fun shaped => ⟨shaped.blocks, shaped.insts, shaped.terminators⟩⟩

theorem Shaped.block_eq {function : Function} (shaped : function.Shaped)
    {first second : Block} (firstMember : first ∈ function.blocks)
    (secondMember : second ∈ function.blocks) (equal : first.id = second.id) :
    first = second :=
  List.inj_on_of_nodup_map shaped.blocks firstMember secondMember equal

theorem Shaped.inst_eq {function : Function} (shaped : function.Shaped)
    {first second : Inst} (firstMember : first ∈ function.instructions)
    (secondMember : second ∈ function.instructions) (equal : first.id = second.id) :
    first = second :=
  List.inj_on_of_nodup_map shaped.insts firstMember secondMember equal

/-- An instruction that is no terminator is the terminator of no block. -/
theorem Shaped.terminator_ne {function : Function} (shaped : function.Shaped) {inst : Inst}
    (member : inst ∈ function.instructions) (body : inst.op.isTerminator = false) :
    ∀ block ∈ function.blocks, block.terminator.id ≠ inst.id := by
  intro block blockMember equal
  have same := shaped.inst_eq
    (mem_instructions.mpr ⟨block, blockMember, block.terminator_mem⟩) member equal
  have isTerminator := shaped.terminators block blockMember
  rw [same, body] at isTerminator
  cases isTerminator

theorem Shaped.exists_home {function : Function} (shaped : function.Shaped) {inst : Inst}
    (member : inst ∈ function.instructions) (body : inst.op.isTerminator = false) :
    ∃ home ∈ function.blocks, inst ∈ home.insts := by
  rcases mem_instructions.mp member with ⟨home, homeMember, inside⟩
  refine ⟨home, homeMember, (Block.mem_instructions.mp inside).resolve_right ?_⟩
  intro last
  exact shaped.terminator_ne member body home homeMember (congrArg Inst.id last).symm

/-- An instruction stands in one block. -/
theorem Shaped.block_of_definition {function : Function} (shaped : function.Shaped) {first second : Block}
    {id : InstId} (firstMember : first ∈ function.blocks)
    (secondMember : second ∈ function.blocks) (inFirst : id ∈ first.definitions)
    (inSecond : id ∈ second.definitions) : first = second := by
  have nodup : (function.blocks.flatMap Block.definitions).Nodup := by
    have same : function.blocks.flatMap Block.definitions =
        function.instructions.map Inst.id := by
      rw [instructions, List.map_flatMap]
      rfl
    rw [same]
    exact shaped.insts
  exact eq_of_nodup_flatMap nodup firstMember secondMember inFirst inSecond

theorem Shaped.block?_eq {function : Function} (shaped : function.Shaped)
    {block : Block} (member : block ∈ function.blocks) :
    function.block? block.id = some block := by
  have isSome : (function.block? block.id).isSome := by
    rw [block?, List.find?_isSome]
    exact ⟨block, member, by simp⟩
  rcases Option.isSome_iff_exists.mp isSome with ⟨found, equal⟩
  have same := shaped.block_eq (List.mem_of_find?_eq_some equal) member
    (by simpa using List.find?_some equal)
  rw [equal, same]

theorem Shaped.successors_eq {function : Function} (shaped : function.Shaped) {block : Block}
    (member : block ∈ function.blocks) : function.successors block.id = block.successors := by
  have single : (function.blocks.filter fun candidate => candidate.id = block.id) =
      [block] := by
    have nodup := shaped.blocks
    rw [blockIds] at nodup
    revert member nodup
    generalize function.blocks = blocks
    intro member nodup
    induction blocks with
    | nil => cases member
    | cons head tail induction =>
        rw [List.map_cons, List.nodup_cons] at nodup
        rcases List.mem_cons.mp member with rfl | later
        · rw [List.filter_cons_of_pos (by simp), List.filter_eq_nil_iff.mpr]
          intro other otherMember equal
          apply nodup.1
          rw [← of_decide_eq_true equal]
          exact List.mem_map_of_mem otherMember
        · have different : head.id ≠ block.id := by
            intro equal
            apply nodup.1
            rw [equal]
            exact List.mem_map_of_mem later
          rw [List.filter_cons_of_neg (by simpa using different)]
          exact induction later nodup.2
  rw [successors, single, List.flatMap_cons, List.flatMap_nil, List.append_nil]

theorem Shaped.parent?_eq {function : Function} (shaped : function.Shaped) {block : Block}
    {id : InstId} (member : block ∈ function.blocks) (inside : id ∈ block.definitions) :
    function.parent? id = some block := by
  have isSome : (function.parent? id).isSome := by
    rw [parent?, List.find?_isSome]
    exact ⟨block, member, decide_eq_true inside⟩
  rcases Option.isSome_iff_exists.mp isSome with ⟨found, equal⟩
  have holds : id ∈ found.definitions := by simpa using List.find?_some equal
  have same := shaped.block_of_definition (List.mem_of_find?_eq_some equal) member holds
    inside
  rw [equal, same]

theorem mem_of_inst? {function : Function} {id : InstId} {inst : Inst}
    (found : function.inst? id = some inst) :
    inst ∈ function.instructions ∧ inst.id = id :=
  ⟨List.mem_of_find?_eq_some found, by simpa using List.find?_some found⟩

theorem mem_of_block? {function : Function} {id : BlockId} {block : Block}
    (found : function.block? id = some block) : block ∈ function.blocks ∧ block.id = id :=
  ⟨List.mem_of_find?_eq_some found, by simpa using List.find?_some found⟩

theorem Shaped.inst?_eq {function : Function} (shaped : function.Shaped)
    {inst : Inst} (member : inst ∈ function.instructions) :
    function.inst? inst.id = some inst := by
  have isSome : (function.inst? inst.id).isSome := by
    rw [inst?, List.find?_isSome]
    exact ⟨inst, member, by simp⟩
  rcases Option.isSome_iff_exists.mp isSome with ⟨found, equal⟩
  have parts := mem_of_inst? equal
  rw [equal, shaped.inst_eq parts.1 member parts.2]

theorem Shaped.dropBlock {function : Function} (shaped : function.Shaped) (block : BlockId) :
    (function.dropBlock block).Shaped where
  blocks := (blockIds_dropBlock _ _).nodup shaped.blocks
  insts := ((instructions_dropBlock _ _).map _).nodup shaped.insts
  terminators := fun _ member => shaped.terminators _ (mem_dropBlock.mp member).1

end Function

/-! ## Edited blocks -/

namespace Block

/-- What an edit keeps of a block: its address, all instructions but phis, and the
order of what is left of it. Nothing is added. -/
structure Carries (before after : Block) : Prop where
  id : after.id = before.id
  terminator : after.terminator.id = before.terminator.id
  isTerminator : before.terminator.op.isTerminator = true →
    after.terminator.op.isTerminator = true
  insts : (after.insts.map Inst.id).Sublist (before.insts.map Inst.id)
  kept : ∀ inst ∈ before.insts, inst.op.isPhi = false →
    ∃ edited ∈ after.insts, edited.id = inst.id ∧ inst.op.EditedTo edited.op
  phis : ∀ edited ∈ after.insts, edited.op.isPhi = true →
    ∃ inst ∈ before.insts, inst.id = edited.id ∧ inst.op.isPhi = true

theorem Carries.refl (block : Block) : block.Carries block where
  id := rfl
  terminator := rfl
  isTerminator := fun is => is
  insts := List.Sublist.refl _
  kept := fun inst member _ => ⟨inst, member, rfl, .refl _⟩
  phis := fun inst member isPhi => ⟨inst, member, rfl, isPhi⟩

theorem Carries.trans {first second third : Block} (left : first.Carries second)
    (right : second.Carries third) : first.Carries third where
  id := right.id.trans left.id
  terminator := right.terminator.trans left.terminator
  isTerminator := right.isTerminator ∘ left.isTerminator
  insts := right.insts.trans left.insts
  kept := by
    intro inst member body
    rcases left.kept inst member body with ⟨middle, middleMember, sameId, edited⟩
    rcases right.kept middle middleMember (edited.isPhi_eq.trans body) with
      ⟨last, lastMember, lastId, again⟩
    exact ⟨last, lastMember, lastId.trans sameId, edited.trans again⟩
  phis := by
    intro last member isPhi
    rcases right.phis last member isPhi with ⟨middle, middleMember, sameId, middlePhi⟩
    rcases left.phis middle middleMember middlePhi with ⟨inst, instMember, equal, instPhi⟩
    exact ⟨inst, instMember, equal.trans sameId, instPhi⟩

theorem Carries.instructions {before after : Block} (carries : before.Carries after) :
    (after.instructions.map Inst.id).Sublist (before.instructions.map Inst.id) := by
  rw [Block.instructions, Block.instructions, List.map_append, List.map_append,
    List.map_singleton, List.map_singleton, carries.terminator]
  exact carries.insts.append (List.Sublist.refl _)

theorem carries_mapOperands {transform : Value → Value}
    (keeps : Value.KeepsConstants transform) (block : Block) :
    block.Carries (block.mapInsts (Inst.mapOperands transform)) where
  id := rfl
  terminator := rfl
  isTerminator := fun is => (block.terminator.op.isTerminator_mapOperands transform).trans is
  insts := by simp [mapInsts, Function.comp_def]
  kept := fun inst member _ =>
    ⟨inst.mapOperands transform, List.mem_map_of_mem member, rfl, transform, keeps, rfl⟩
  phis := by
    intro edited member isPhi
    rcases List.mem_map.mp member with ⟨inst, inside, rfl⟩
    exact ⟨inst, inside, rfl, (inst.op.isPhi_mapOperands transform).symm.trans isPhi⟩

theorem carries_mapPhis (change : List (Value × BlockId) → List (Value × BlockId))
    (block : Block) : block.Carries (block.mapPhis change) where
  id := rfl
  terminator := rfl
  isTerminator := fun is => is
  insts := by simp [mapPhis, Function.comp_def]
  kept := by
    intro inst member body
    refine ⟨{ inst with op := inst.op.mapIncoming change },
      List.mem_map_of_mem member, rfl, ?_⟩
    have same : inst.op.mapIncoming change = inst.op := by
      cases kind : inst.op with
      | phi incoming =>
          rw [kind] at body
          cases body
      | _ => rfl
    rw [same]
    exact .refl _
  phis := by
    intro edited member isPhi
    rcases List.mem_map.mp member with ⟨inst, inside, rfl⟩
    refine ⟨inst, inside, rfl, ?_⟩
    cases kind : inst.op with
    | phi incoming => rfl
    | _ =>
        simp only [kind, Op.mapIncoming] at isPhi
        exact isPhi

theorem carries_erase {inst : InstId} {block : Block}
    (onlyPhi : ∀ other ∈ block.insts, other.id = inst → other.op.isPhi = true) :
    block.Carries (block.erase inst) where
  id := rfl
  terminator := rfl
  isTerminator := fun is => is
  insts := List.filter_sublist.map _
  kept := by
    intro other member body
    refine ⟨other, List.mem_filter.mpr ⟨member, ?_⟩, rfl, .refl _⟩
    apply decide_eq_true
    intro equal
    rw [onlyPhi other member equal] at body
    cases body
  phis := fun other member isPhi => ⟨other, (List.mem_filter.mp member).1, rfl, isPhi⟩

theorem carries_setTerminator {op : Op} (isTerminator : op.isTerminator = true)
    (block : Block) : block.Carries (block.setTerminator op) where
  id := rfl
  terminator := rfl
  isTerminator := fun _ => isTerminator
  insts := List.Sublist.refl _
  kept := fun inst member _ => ⟨inst, member, rfl, .refl _⟩
  phis := fun inst member isPhi => ⟨inst, member, rfl, isPhi⟩

/-- The terminator is the same operation. -/
def KeepsTerminator (before after : Block) : Prop :=
  before.terminator.op.EditedTo after.terminator.op

end Block

/-! ## Edited functions -/

namespace Function

/-- Every block is edited, in its place. -/
def Edits (relation : Block → Block → Prop) (before after : Function) : Prop :=
  ∃ transform : Block → Block, after = before.mapBlocks transform ∧
    ∀ block ∈ before.blocks, block.Carries (transform block) ∧
      relation block (transform block)

section Edits

variable {relation : Block → Block → Prop} {before after : Function}

theorem Edits.refl (function : Function) (holds : ∀ block, relation block block) :
    function.Edits relation function :=
  ⟨id, by simp [mapBlocks], fun block _ => ⟨.refl block, holds block⟩⟩

theorem Edits.trans {second : Block → Block → Prop} {last : Function}
    {whole : Block → Block → Prop} (left : before.Edits relation after)
    (right : after.Edits second last)
    (compose : ∀ first ∈ before.blocks, ∀ middle last, middle.id = first.id →
      relation first middle → second middle last → whole first last) :
    before.Edits whole last := by
  rcases left with ⟨first, rfl, firstKept⟩
  rcases right with ⟨next, rfl, nextKept⟩
  refine ⟨next ∘ first, by simp [mapBlocks], ?_⟩
  intro block member
  have left := firstKept block member
  have right := nextKept (first block) (List.mem_map_of_mem member)
  exact ⟨left.1.trans right.1, compose block member _ _ left.1.id left.2 right.2⟩

theorem Edits.name_eq (edits : before.Edits relation after) : after.name = before.name := by
  rcases edits with ⟨transform, rfl, -⟩
  rfl

theorem Edits.blockIds_eq (edits : before.Edits relation after) :
    after.blockIds = before.blockIds := by
  rcases edits with ⟨transform, rfl, kept⟩
  rw [blockIds, blockIds, blocks_mapBlocks, List.map_map]
  exact List.map_congr_left fun block member => (kept block member).1.id

theorem Edits.instructions (edits : before.Edits relation after) :
    (after.instructions.map Inst.id).Sublist (before.instructions.map Inst.id) := by
  rcases edits with ⟨transform, rfl, kept⟩
  simp only [Function.instructions, blocks_mapBlocks, List.map_flatMap, List.flatMap_map]
  apply List.Sublist.flatMap_right
  intro block member
  exact (kept block member).1.instructions

theorem Edits.shaped (edits : before.Edits relation after) (shaped : before.Shaped) :
    after.Shaped where
  blocks := edits.blockIds_eq ▸ shaped.blocks
  insts := edits.instructions.nodup shaped.insts
  terminators := by
    rcases edits with ⟨transform, rfl, kept⟩
    intro edited member
    rcases List.mem_map.mp member with ⟨block, inside, rfl⟩
    exact (kept block inside).1.isTerminator (shaped.terminators block inside)

theorem Edits.exists_after (edits : before.Edits relation after) {block : Block}
    (member : block ∈ before.blocks) :
    ∃ edited ∈ after.blocks, block.Carries edited ∧ relation block edited := by
  rcases edits with ⟨transform, rfl, kept⟩
  exact ⟨transform block, List.mem_map_of_mem member, kept block member⟩

theorem Edits.exists_before (edits : before.Edits relation after) {edited : Block}
    (member : edited ∈ after.blocks) :
    ∃ block ∈ before.blocks, block.Carries edited ∧ relation block edited := by
  rcases edits with ⟨transform, rfl, kept⟩
  rcases List.mem_map.mp member with ⟨block, inside, rfl⟩
  exact ⟨block, inside, kept block inside⟩

end Edits

/-! ## The edits of the remover -/

section KeepsTerminator

theorem edits_replaceInst {function : Function} {inst : InstId} (new : Value)
    (onlyPhi : ∀ other ∈ function.instructions, other.id = inst → other.op.isPhi = true) :
    function.Edits Block.KeepsTerminator (function.replaceInst inst new) := by
  refine ⟨Block.erase inst ∘ Block.mapInsts (Inst.mapOperands (Value.replace inst new)),
    by simp [replaceInst, replaceAllUsesWith, eraseInst, mapBlocks], ?_⟩
  intro block member
  have keeps := Value.keepsConstants_replace inst new
  refine ⟨(Block.carries_mapOperands keeps block).trans (Block.carries_erase ?_),
    _, keeps, rfl⟩
  intro other inside equal
  rcases List.mem_map.mp inside with ⟨original, originalInside, rfl⟩
  rw [Inst.op_mapOperands, Op.isPhi_mapOperands]
  exact onlyPhi original
    (mem_instructions.mpr ⟨block, member, Block.mem_instructions.mpr (.inl originalInside)⟩)
    equal

theorem edits_foldPhi {function : Function} (shaped : function.Shaped) (phi : InstId) :
    function.Edits Block.KeepsTerminator (function.foldPhi phi) := by
  have unchanged : function.Edits Block.KeepsTerminator function :=
    Edits.refl function fun block => .refl block.terminator.op
  rw [foldPhi]
  cases found : function.inst? phi with
  | none => exact unchanged
  | some inst =>
      have parts := mem_of_inst? found
      rw [Option.map_some]
      split
      · rename_i incoming isPhi
        split
        · apply edits_replaceInst
          intro other member equal
          rw [shaped.inst_eq member parts.1 (equal.trans parts.2.symm),
            Option.some.inj isPhi]
          rfl
        · exact unchanged
      · exact unchanged

theorem edits_foldPhis {function : Function} (shaped : function.Shaped)
    (phis : List InstId) :
    function.Edits Block.KeepsTerminator (phis.foldl foldPhi function) := by
  induction phis generalizing function with
  | nil => exact .refl function fun block => .refl _
  | cons head tail induction =>
      have first := edits_foldPhi shaped head
      exact first.trans (induction (first.shaped shaped))
        fun _ _ _ _ _ left right => left.trans right

theorem edits_removePredecessor {function : Function} (shaped : function.Shaped)
    (block pred : BlockId) :
    function.Edits Block.KeepsTerminator (function.removePredecessor block pred) := by
  have dropped : function.Edits Block.KeepsTerminator
      (function.updateBlock block (Block.mapPhis (removeIncomingValue pred))) := by
    refine ⟨_, rfl, ?_⟩
    intro candidate member
    split
    · exact ⟨Block.carries_mapPhis _ candidate, .refl _⟩
    · exact ⟨.refl candidate, .refl _⟩
  exact dropped.trans (edits_foldPhis (dropped.shaped shaped) _)
    fun _ _ _ _ _ left right => left.trans right

theorem edits_removePredecessors {function : Function} (shaped : function.Shaped)
    (blocks : List BlockId) (pred : BlockId) :
    function.Edits Block.KeepsTerminator
      (blocks.foldl (fun function block => function.removePredecessor block pred)
        function) := by
  induction blocks generalizing function with
  | nil => exact .refl function fun block => .refl _
  | cons head tail induction =>
      have first := edits_removePredecessor shaped head pred
      exact first.trans (induction (first.shaped shaped))
        fun _ _ _ _ _ left right => left.trans right

end KeepsTerminator

end Function

end Desan
