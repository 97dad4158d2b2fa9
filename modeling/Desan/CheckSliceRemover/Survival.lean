import Desan.CheckSliceRemover.PathSplice

/-! # Which calls survive -/

namespace Desan

namespace Function

/-! ## Calls that control can reach -/

/-- A reachable block has the call, it is a recognised check, and LLVM may not delete
it for being unused. -/
def HoldsCheck (function : Function) (values : ValueTable) (check : InstId) : Prop :=
  ∃ block ∈ function.blocks, function.Reachable block.id ∧
    ∃ inst ∈ block.instructions, inst.id = check ∧ values.isCheck inst.op = true ∧
      inst.op.mayHaveSideEffects = true

/-- Calls with side effects in reachable blocks are kept in reachable blocks, but for
those that may be lost, and no instruction is new. -/
structure KeepsCalls (lost : InstId → Prop) (before after : Function) : Prop where
  name : after.name = before.name
  shaped : before.Shaped → after.Shaped
  old : ∀ id ∈ after.instructions.map Inst.id, id ∈ before.instructions.map Inst.id
  calls : ∀ block ∈ before.blocks, before.Reachable block.id →
    ∀ inst ∈ block.instructions, inst.op.callSite?.isSome →
      inst.op.mayHaveSideEffects = true → ¬lost inst.id →
        ∃ edited ∈ after.blocks, after.Reachable edited.id ∧
          ∃ kept ∈ edited.instructions, kept.id = inst.id ∧ inst.op.EditedTo kept.op

namespace KeepsCalls

theorem refl (lost : InstId → Prop) (function : Function) :
    function.KeepsCalls lost function where
  name := rfl
  shaped := id
  old := fun _ => id
  calls := fun block member reachable inst inside _ _ _ =>
    ⟨block, member, reachable, inst, inside, rfl, .refl _⟩

theorem trans {first second third : Function} {lost : InstId → Prop}
    (left : first.KeepsCalls lost second) (right : second.KeepsCalls lost third) :
    first.KeepsCalls lost third where
  name := right.name.trans left.name
  shaped := right.shaped ∘ left.shaped
  old := fun id member => left.old id (right.old id member)
  calls := by
    intro block member reachable inst inside call effect kept
    rcases left.calls block member reachable inst inside call effect kept with
      ⟨middle, middleMember, middleReachable, other, otherInside, sameId, edited⟩
    rcases right.calls middle middleMember middleReachable other otherInside
      (edited.isSome_callSite? ▸ call) (edited.mayHaveSideEffects_eq ▸ effect)
      (sameId ▸ kept) with ⟨last, lastMember, lastReachable, found, foundInside, equal, again⟩
    exact ⟨last, lastMember, lastReachable, found, foundInside, equal.trans sameId,
      edited.trans again⟩

theorem mono {before after : Function} {lost more : InstId → Prop}
    (keeps : before.KeepsCalls lost after) (weaker : ∀ id, lost id → more id) :
    before.KeepsCalls more after where
  name := keeps.name
  shaped := keeps.shaped
  old := keeps.old
  calls := fun block member reachable inst inside call effect kept =>
    keeps.calls block member reachable inst inside call effect
      fun gone => kept (weaker _ gone)

theorem holdsCheck {before after : Function} {lost : InstId → Prop} {values : ValueTable}
    {check : InstId} (keeps : before.KeepsCalls lost after)
    (holds : before.HoldsCheck values check) (kept : ¬lost check) :
    after.HoldsCheck values check := by
  rcases holds with ⟨block, member, reachable, inst, inside, rfl, isCheck, effect⟩
  have call : inst.op.callSite?.isSome := by
    cases found : inst.op.callSite? with
    | some site => rfl
    | none =>
        rw [ValueTable.isCheck, ValueTable.classifyCheck, found] at isCheck
        cases isCheck
  rcases keeps.calls block member reachable inst inside call effect kept with
    ⟨edited, editedMember, editedReachable, other, otherInside, equal, editedTo⟩
  exact ⟨edited, editedMember, editedReachable, other, otherInside, equal,
    ValueTable.isCheck_of_editedTo editedTo isCheck,
    editedTo.mayHaveSideEffects_eq ▸ effect⟩

end KeepsCalls

end Function

/-! ## Clean-up -/

namespace CleanupUtilities

section Steps

variable {utilities : CleanupUtilities} {relation : Function → Function → Prop}
  (refl : ∀ function, relation function function)
  (trans : ∀ {first second third}, relation first second → relation second third →
    relation first third)
include refl trans

theorem cleanupLoop_of_steps
    (deletes : ∀ function : Function,
      relation function (utilities.deleteTriviallyDead function.deadInsts function))
    (fuel : Nat) (function : Function) :
    relation function (utilities.cleanupLoop fuel function) := by
  induction fuel generalizing function with
  | zero => exact refl function
  | succ fuel induction =>
      rw [cleanupLoop]
      split
      · exact refl function
      · exact trans (deletes function) (induction _)

theorem simplifyLoop_of_steps
    (merges : ∀ (function merged : Function), ∀ block ∈ function.blockIds.tail,
      utilities.mergeBlockIntoPredecessor block function = some merged →
        relation function merged)
    (fuel : Nat) (function : Function) :
    relation function (utilities.simplifyLoop fuel function) := by
  induction fuel generalizing function with
  | zero => exact refl function
  | succ fuel induction =>
      rw [simplifyLoop]
      cases found : utilities.mergeFirst function with
      | none => exact refl function
      | some merged =>
          rcases List.exists_of_findSome?_eq_some found with ⟨block, member, isMerged⟩
          exact trans (merges function merged block member isMerged) (induction merged)

/-- What every utility does, the clean-up does. -/
theorem tidy_of_steps
    (deletes : ∀ function : Function,
      relation function (utilities.deleteTriviallyDead function.deadInsts function))
    (eliminates : ∀ function : Function,
      relation function (utilities.eliminateUnreachableBlocks function))
    (merges : ∀ (function merged : Function), ∀ block ∈ function.blockIds.tail,
      utilities.mergeBlockIntoPredecessor block function = some merged →
        relation function merged)
    (function : Function) : relation function (utilities.tidy function) := by
  rw [tidy]
  split
  · exact refl function
  · exact trans (cleanupLoop_of_steps refl trans deletes _ function)
      (trans (eliminates _) (simplifyLoop_of_steps refl trans merges _ _))

end Steps

end CleanupUtilities

/-- What LLVM promises of its clean-up utilities: they delete dead code only. A call
with side effects in a reachable block stays, in a reachable block. -/
structure CleanupUtilities.KeepCalls (utilities : CleanupUtilities) : Prop where
  deleteTriviallyDead : ∀ function : Function,
    function.KeepsCalls (fun _ => False)
      (utilities.deleteTriviallyDead function.deadInsts function)
  eliminateUnreachableBlocks : ∀ function : Function,
    function.KeepsCalls (fun _ => False) (utilities.eliminateUnreachableBlocks function)
  mergeBlockIntoPredecessor : ∀ (function merged : Function),
    ∀ block ∈ function.blockIds.tail,
      utilities.mergeBlockIntoPredecessor block function = some merged →
        function.KeepsCalls (fun _ => False) merged

namespace CleanupUtilities

theorem keepCalls_inert : inert.KeepCalls where
  deleteTriviallyDead := fun function => .refl _ function
  eliminateUnreachableBlocks := fun function => .refl _ function
  mergeBlockIntoPredecessor := by
    intro function merged block _ isMerged
    cases isMerged

section KeepCalls

variable {utilities : CleanupUtilities} (keep : utilities.KeepCalls)
include keep

theorem keepsCalls_tidy (function : Function) :
    function.KeepsCalls (fun _ => False) (utilities.tidy function) :=
  tidy_of_steps (.refl _) (fun left right => left.trans right) keep.deleteTriviallyDead
    keep.eliminateUnreachableBlocks keep.mergeBlockIntoPredecessor function

end KeepCalls

end CleanupUtilities

/-! ## Bypass -/

namespace Function

section Bypassable

variable {function edited : Function} {values : ValueTable} {check : InstId} {report : Block}

/-- Every block but the report block is reached as before, and past the report block
control goes on where it did. -/
theorem Bypassable.reachable (bypassable : function.Bypassable values check report)
    (shaped : function.Shaped) (notEntry : ¬function.IsEntry report.id)
    (edits : function.Edits
      (Redirected report.id (getReportBlockFallthrough report)
        (function.predecessors report.id)) edited)
    {done : List BlockId} {block : BlockId} (path : function.Path done block) :
    (block ≠ report.id → (edited.dropBlock report.id).Reachable block) ∧
      (block = report.id → ∀ fallthrough,
        getReportBlockFallthrough report = some fallthrough →
          (edited.dropBlock report.id).Reachable fallthrough) := by
  have splices := bypassable.splices shaped edits notEntry
  rcases Walk.deleted_of_splices splices path with ⟨outside, atReport⟩
  constructor
  · intro different
    exact ⟨_, outside different⟩
  · intro equal fallthrough found
    rcases atReport equal with ⟨source, before, -, sourceNot, into, arrived⟩
    have edge := (bypassable.edge_report_iff shaped).mpr found
    have other : fallthrough ≠ report.id :=
      fun same => bypassable.noLoop shaped (same ▸ edge)
    exact ⟨_, .step arrived
      ((splices.edge_iff source fallthrough).mpr ⟨sourceNot, other, .inr ⟨into, edge⟩⟩)⟩

/-- A bypass loses the calls of the report block only. -/
theorem Bypassable.keepsCalls (bypassable : function.Bypassable values check report)
    (slice : CheckSlice) (shaped : function.Shaped)
    (notEntry : ¬function.IsEntry report.id) :
    function.KeepsCalls (fun id => id ∈ report.definitions)
      (function.bypassReportBlock values slice check).function := by
  rcases bypassable.exists_edited slice shaped with ⟨edited, edits, equal⟩
  rw [equal]
  refine ⟨edits.name_eq, ?_, ?_, ?_⟩
  · intro _
    have whole := edits.shaped shaped
    refine ⟨(blockIds_dropBlock _ _).nodup whole.blocks,
      ((instructions_dropBlock _ _).map _).nodup whole.insts, ?_⟩
    intro block member
    exact whole.terminators block (mem_dropBlock.mp member).1
  · intro id member
    exact edits.instructions.subset
      (((instructions_dropBlock edited report.id).map _).subset member)
  · intro block member reachable inst inside call _ outside
    have different : block.id ≠ report.id := by
      intro same
      apply outside
      rw [← shaped.block_eq member bypassable.report_mem.1 same]
      exact List.mem_map_of_mem inside
    rcases edits.exists_after member with ⟨after, afterMember, carries, redirected⟩
    rcases reachable with ⟨done, path⟩
    refine ⟨after, mem_dropBlock.mpr ⟨afterMember, carries.id ▸ different⟩, ?_, ?_⟩
    · rw [carries.id]
      exact (bypassable.reachable shaped notEntry edits path).1 different
    · rcases Block.mem_instructions.mp inside with body | rfl
      · rcases carries.kept inst body (Op.isPhi_of_callSite? call) with
          ⟨kept, keptInside, sameId, editedTo⟩
        exact ⟨kept, Block.mem_instructions.mpr (.inl keptInside), sameId, editedTo⟩
      · refine ⟨after.terminator, after.terminator_mem, carries.terminator, ?_⟩
        rw [Redirected] at redirected
        split at redirected
        · -- A branch is no call.
          rcases redirected with ⟨target, safe, -⟩
          rcases safeSuccessor_cases safe with ⟨-, ⟨_, shape | shape, _⟩ | ⟨⟨_, shape⟩, _⟩⟩ <;>
            rw [shape] at call <;> cases call
        · exact redirected

end Bypassable

end Function

end Desan
