import Desan.CheckSliceRemover.FormKept

/-! # Removals keep functions well formed

An erasure takes out instructions without uses. A bypass keeps the form where the report
block can be spliced out. -/

namespace Desan

namespace Function

/-- A well-formed function stays well formed and keeps its entry block. -/
def KeepsForm (before after : Function) : Prop :=
  before.WellFormed → after.WellFormed ∧ after.entry? = before.entry?

theorem KeepsForm.refl (function : Function) : function.KeepsForm function :=
  fun wellFormed => ⟨wellFormed, rfl⟩

theorem KeepsForm.trans {first second third : Function} (left : first.KeepsForm second)
    (right : second.KeepsForm third) : first.KeepsForm third := by
  intro wellFormed
  have middle := left wellFormed
  have last := right middle.1
  exact ⟨last.1, last.2.trans middle.2⟩

section Removal

variable {function : Function} {values : ValueTable} {check : InstId} {report : Block}

theorem keepsForm_eraseInst {inst : Inst} (member : inst ∈ function.instructions)
    (body : inst.op.isTerminator = false) (unused : function.useEmpty inst.id = true) :
    function.KeepsForm (function.eraseInst inst.id) := by
  intro wellFormed
  refine ⟨wellFormed.eraseInst member body unused, ?_⟩
  rw [eraseInst_eq_rewrite, entry?_rewrite]

/-- What the sweep erases is unused and no terminator. -/
theorem keepsForm_of_canErase {slice : CheckSlice} {inst : InstId}
    (dead : function.canEraseInstruction values slice inst = true) :
    function.KeepsForm (function.eraseInst inst) := by
  rcases canEraseInstruction_iff.mp dead with ⟨present, found, -, unused, kind⟩
  rcases mem_of_inst? found with ⟨member, rfl⟩
  exact keepsForm_eraseInst member (body_of_isErasableKind kind) unused

theorem keepsForm_eraseDeadSliceInstructions (function : Function) (slice : CheckSlice) :
    function.KeepsForm (function.eraseDeadSliceInstructions values slice).function := by
  apply eraseDeadSliceInstructions_induction
  · intro swept inst kept dead
    exact kept.trans (keepsForm_of_canErase dead)
  · exact .refl function

theorem Bypassable.keepsForm (bypassable : function.Bypassable values check report)
    (well : function.SplicesWell report.id) (slice : CheckSlice) :
    function.KeepsForm (function.bypassReportBlock values slice check).function := by
  intro wellFormed
  rcases bypassable.folds_splice wellFormed.shaped slice with ⟨transform, buries, folds⟩
  rw [buried_eq] at folds
  rcases well.wellFormed_buried wellFormed bypassable buries with ⟨buriedWell, entries⟩
  rcases buriedWell.folds folds with ⟨whole, entry⟩
  refine ⟨whole, entry.trans (Option.ext fun block => ?_)⟩
  exact entries block

theorem keepsForm_eraseCheckSlice
    (wells : ∀ report, function.Bypassable values check report →
      function.SplicesWell report.id) :
    function.KeepsForm (function.eraseCheckSlice values check).function := by
  intro wellFormed
  rcases eraseCheckSlice_cases wellFormed.shaped with bypass | direct | refused
  · rcases bypass with ⟨report, bypassable, equal⟩
    rw [equal]
    exact bypassable.keepsForm (wells report bypassable) _ wellFormed
  · rw [direct.2]
    rcases Option.isSome_iff_exists.mp direct.1.erased with ⟨erased, erasedEqual⟩
    rcases eraseDirectCheckCall_eq_some erasedEqual with
      ⟨-, unused, inst, site, found, kind⟩
    rcases mem_of_inst? found with ⟨member, rfl⟩
    have call : function.KeepsForm (function.eraseInst inst.id) :=
      keepsForm_eraseInst member (by rw [kind]; rfl) unused
    exact call.trans (keepsForm_eraseDeadSliceInstructions _ _) wellFormed
  · rw [refused.2.2]
    exact ⟨wellFormed, rfl⟩

end Removal

end Function

/-! ## Clean-up -/

/-- What LLVM promises of its clean-up utilities: they leave valid functions, and they
delete no entry block. -/
structure CleanupUtilities.KeepForm (utilities : CleanupUtilities) : Prop where
  deleteTriviallyDead : ∀ function : Function,
    function.KeepsForm (utilities.deleteTriviallyDead function.deadInsts function)
  eliminateUnreachableBlocks : ∀ function : Function,
    function.KeepsForm (utilities.eliminateUnreachableBlocks function)
  mergeBlockIntoPredecessor : ∀ (function merged : Function),
    ∀ block ∈ function.blockIds.tail,
      utilities.mergeBlockIntoPredecessor block function = some merged →
        function.KeepsForm merged

namespace CleanupUtilities

theorem keepForm_inert : inert.KeepForm where
  deleteTriviallyDead := fun function => .refl function
  eliminateUnreachableBlocks := fun function => .refl function
  mergeBlockIntoPredecessor := by
    intro function merged block _ isMerged
    cases isMerged

theorem keepsForm_tidy {utilities : CleanupUtilities} (keep : utilities.KeepForm)
    (function : Function) : function.KeepsForm (utilities.tidy function) :=
  tidy_of_steps .refl (fun left right => left.trans right) keep.deleteTriviallyDead
    keep.eliminateUnreachableBlocks keep.mergeBlockIntoPredecessor function

end CleanupUtilities

namespace Function

/-- A removal leaves a well-formed function with the same entry block, if a report block
that is bypassed can be spliced out. -/
theorem wellFormed_removeCheckSlice (utilities : CleanupUtilities) (function : Function)
    (values : ValueTable) (check : InstId) (keep : utilities.KeepForm)
    (wellFormed : function.WellFormed)
    (wells : ∀ report, function.Bypassable values check report →
      function.SplicesWell report.id) :
    (function.removeCheckSlice utilities values check).function.WellFormed ∧
      Function.entry? (function.removeCheckSlice utilities values check).function =
        function.entry? := by
  have erased := keepsForm_eraseCheckSlice wells
  rw [removeCheckSlice]
  split
  · exact erased.trans (CleanupUtilities.keepsForm_tidy keep _) wellFormed
  · exact erased wellFormed

/-- Every predecessor leads past the block anyway. -/
theorem splicesWell_of_covered {function : Function} {report : BlockId}
    (notEntry : ¬function.IsEntry report)
    (covered : ∀ pred ∈ function.predecessors report, ∀ next ∈ function.successors report,
      next ∈ function.successors pred) : function.SplicesWell report := by
  have none : ∀ pred, ¬function.OnlyInto report pred := by
    intro pred onlyInto
    rcases onlyInto with ⟨edge, next, toNext, missing⟩
    exact missing (covered pred (mem_predecessors.mpr edge) next toNext)
  exact ⟨notEntry, fun pred only => absurd only (none pred),
    fun pred only => absurd only (none pred)⟩

theorem wellFormed_of_noPhi {function : Function} (shaped : function.Shaped)
    (entry : function.entry?.isSome = true) (entersOnce : function.EntersOnce)
    (noPhi : ∀ inst ∈ function.instructions, inst.op.isPhi = false)
    (operands : ∀ user ∈ function.instructions, ∀ id, .inst id ∈ user.op.operands →
      function.Dominates id user.id) : function.WellFormed where
  shaped := shaped
  entry := Option.isSome_iff_exists.mp entry
  entersOnce := entersOnce
  phis := by
    intro block member _ inst inside incoming isPhi
    have none := noPhi inst (mem_instructions.mpr
      ⟨block, member, Block.mem_instructions.mpr (.inl inside)⟩)
    rw [isPhi] at none
    cases none
  operands := fun user member _ => operands user member
  incoming := by
    intro block member inst inside incoming isPhi
    have none := noPhi inst (mem_instructions.mpr
      ⟨block, member, Block.mem_instructions.mpr (.inl inside)⟩)
    rw [isPhi] at none
    cases none

/-- A function of constant operands and without phis. -/
theorem wellFormed_of_constants {function : Function} (shaped : function.Shaped)
    (entry : function.entry?.isSome = true) (entersOnce : function.EntersOnce)
    (noPhi : ∀ inst ∈ function.instructions, inst.op.isPhi = false)
    (constants : ∀ inst ∈ function.instructions, ∀ value ∈ inst.op.operands,
      value.asInst = none) : function.WellFormed := by
  apply wellFormed_of_noPhi shaped entry entersOnce noPhi
  intro user member id operand
  cases constants user member (.inst id) operand

def readValues : ValueTable where
  value
    | 0 => ⟨.constant (.function "__asan_load4" .notIntrinsic), .pointer⟩
    | 1 => ⟨.argument, .integer 64⟩
    | _ => ⟨.argument, .integer 1⟩
  count := 3

def readCheck : Inst :=
  ⟨0, .other 0, .call { calledOperand := .other 0, args := [.other 1] }⟩

/-- The read in front of the loop makes a block of checks of the entry block. -/
def preheaderRead : Function where
  name := "f"
  blocks :=
    [{ id := 0, insts := [readCheck], terminator := ⟨1, .other 0, .br 1⟩ },
     { id := 1, insts := [], terminator := ⟨2, .other 0, .condBr (.other 2) 1 2⟩ },
     { id := 2, insts := [], terminator := ⟨3, .other 0, .ret none⟩ }]

theorem preheaderRead_wellFormed : preheaderRead.WellFormed :=
  wellFormed_of_constants (by decide) rfl (by decide) (by decide) (by decide)

/-- The entry block has no predecessor to ask, so it is deleted, and the loop becomes the
entry. -/
theorem preheaderRead_not_keepsForm :
    CleanupUtilities.inert.KeepForm ∧ preheaderRead.WellFormed ∧
      (preheaderRead.removeCheckSlice .inert readValues 0).removed = true ∧
        ¬(preheaderRead.removeCheckSlice .inert readValues 0).function.WellFormed ∧
          Function.entry? (preheaderRead.removeCheckSlice .inert readValues 0).function =
            some 1 := by
  have left : (preheaderRead.removeCheckSlice .inert readValues 0).function =
      { name := "f", blocks := preheaderRead.blocks.tail } := by
    decide +kernel
  refine ⟨CleanupUtilities.keepForm_inert, preheaderRead_wellFormed, by decide +kernel, ?_, ?_⟩
  · intro wellFormed
    rw [left] at wellFormed
    exact absurd wellFormed.entersOnce (by decide)
  · rw [left]
    rfl

/-- The same read on one side of a branch; the block behind it has another predecessor, so
that no block is left to merge. -/
def guardedRead : Function where
  name := "f"
  blocks :=
    [{ id := 4, insts := [], terminator := ⟨5, .other 0, .condBr (.other 2) 0 3⟩ },
     { id := 0, insts := [], terminator := ⟨1, .other 0, .condBr (.other 2) 1 2⟩ },
     { id := 1, insts := [readCheck], terminator := ⟨2, .other 0, .br 2⟩ },
     { id := 3, insts := [], terminator := ⟨6, .other 0, .br 2⟩ },
     { id := 2, insts := [], terminator := ⟨3, .other 0, .ret none⟩ }]

theorem guardedRead_wellFormed : guardedRead.WellFormed :=
  wellFormed_of_constants (by decide) rfl (by decide) (by decide) (by decide)

theorem guardedRead_keepsForm :
    (guardedRead.removeCheckSlice .inert readValues 0).function.WellFormed ∧
      Function.entry? (guardedRead.removeCheckSlice .inert readValues 0).function =
        guardedRead.entry? := by
  apply wellFormed_removeCheckSlice .inert guardedRead readValues 0
    CleanupUtilities.keepForm_inert guardedRead_wellFormed
  intro report bypassable
  have parent : guardedRead.parent? 0 = some
      { id := 1, insts := [readCheck], terminator := ⟨2, .other 0, .br 2⟩ } := by decide
  rw [bypassable.parent] at parent
  rw [Option.some.inj parent]
  exact splicesWell_of_covered (by decide) (by decide)

end Function

end Desan
