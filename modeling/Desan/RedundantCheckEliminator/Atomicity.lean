import Desan.CheckSliceRemover.Spared
import Desan.RedundantCheckEliminator.LiveLooks

/-! # All or nothing

A removal that is refused leaves the module as it was, although the bypass rewrites
branches before its last two exits. One that is carried out takes the check with it. -/

namespace Desan

namespace Function

/-- No instruction of the function is new. -/
structure AddsNothing (before after : Function) : Prop where
  name : after.name = before.name
  old : ∀ id ∈ after.instructions.map Inst.id, id ∈ before.instructions.map Inst.id

namespace AddsNothing

theorem refl (function : Function) : function.AddsNothing function := ⟨rfl, fun _ => id⟩

theorem trans {first second third : Function} (left : first.AddsNothing second)
    (right : second.AddsNothing third) : first.AddsNothing third :=
  ⟨right.name.trans left.name, fun id member => left.old id (right.old id member)⟩

end AddsNothing

end Function

/-- LLVM's clean-up utilities delete and move instructions, and make none. -/
structure CleanupUtilities.AddNothing (utilities : CleanupUtilities) : Prop where
  deleteTriviallyDead : ∀ function : Function,
    function.AddsNothing (utilities.deleteTriviallyDead function.deadInsts function)
  eliminateUnreachableBlocks : ∀ function : Function,
    function.AddsNothing (utilities.eliminateUnreachableBlocks function)
  mergeBlockIntoPredecessor : ∀ (function merged : Function),
    ∀ block ∈ function.blockIds.tail,
      utilities.mergeBlockIntoPredecessor block function = some merged →
        function.AddsNothing merged

namespace CleanupUtilities

theorem addNothing_inert : inert.AddNothing where
  deleteTriviallyDead := .refl
  eliminateUnreachableBlocks := .refl
  mergeBlockIntoPredecessor := by
    intro function merged block _ isMerged
    cases isMerged

theorem addsNothing_tidy {utilities : CleanupUtilities} (adds : utilities.AddNothing)
    (function : Function) : function.AddsNothing (utilities.tidy function) :=
  tidy_of_steps .refl (fun left right => left.trans right) adds.deleteTriviallyDead
    adds.eliminateUnreachableBlocks adds.mergeBlockIntoPredecessor function

/-- Utilities that keep calls make none. -/
theorem KeepCalls.addNothing {utilities : CleanupUtilities} (keep : utilities.KeepCalls) :
    utilities.AddNothing where
  deleteTriviallyDead := fun function =>
    ⟨(keep.deleteTriviallyDead function).name, (keep.deleteTriviallyDead function).old⟩
  eliminateUnreachableBlocks := fun function =>
    ⟨(keep.eliminateUnreachableBlocks function).name,
      (keep.eliminateUnreachableBlocks function).old⟩
  mergeBlockIntoPredecessor := by
    intro function merged block member isMerged
    have keeps := keep.mergeBlockIntoPredecessor function merged block member isMerged
    exact ⟨keeps.name, keeps.old⟩

end CleanupUtilities

namespace Function

variable {function : Function} {utilities : CleanupUtilities} {values : ValueTable}
  {check : InstId}

theorem mem_ids_of_definition {block : Block} {id : InstId}
    (member : block ∈ function.blocks) (inside : id ∈ block.definitions) :
    id ∈ function.instructions.map Inst.id := by
  rcases List.mem_map.mp inside with ⟨inst, instMember, rfl⟩
  exact List.mem_map_of_mem (mem_instructions.mpr ⟨block, member, instMember⟩)

/-- A bypassed check goes with its block. -/
theorem Bypassable.check_notMem {report : Block}
    (bypassable : function.Bypassable values check report) (slice : CheckSlice)
    (shaped : function.Shaped) :
    check ∉ (function.bypassReportBlock values slice check).function.instructions.map
      Inst.id := by
  rcases bypassable.exists_edited slice shaped with ⟨edited, edits, equal⟩
  rw [equal]
  intro present
  rcases List.mem_map.mp present with ⟨inst, member, address⟩
  rcases mem_instructions.mp member with ⟨block, blockMember, inside⟩
  rcases mem_dropBlock.mp blockMember with ⟨editedMember, different⟩
  rcases edits.exists_before editedMember with ⟨original, originalMember, carries, -⟩
  have defined : check ∈ original.definitions := by
    apply carries.instructions.subset
    rw [← address]
    exact List.mem_map_of_mem inside
  have same := shaped.block_of_definition originalMember bypassable.report_mem.1 defined
    bypassable.report_mem.2
  rw [carries.id, same] at different
  exact different rfl

/-- After a removal that answers true the check is gone. -/
theorem check_notMem_eraseCheckSlice (shaped : function.Shaped)
    (removed : (function.eraseCheckSlice values check).removed = true) :
    check ∉ (function.eraseCheckSlice values check).function.instructions.map Inst.id := by
  rcases eraseCheckSlice_cases shaped with bypass | direct | refused
  · rcases bypass with ⟨report, bypassable, equal⟩
    rw [equal]
    exact bypassable.check_notMem _ shaped
  · rw [direct.2]
    rcases Option.isSome_iff_exists.mp direct.1.erased with ⟨erased, found⟩
    rcases (eraseDirectCheckCall_eq_some found).2.2 with ⟨inst, site, present, kind⟩
    have gone := inst?_eq_none.mp (inst?_eraseInst shaped present (by rw [kind]; rfl))
    have swept : (function.eraseInst check).SweptFrom values
        (function.collectCheckSlice values check)
        ((function.eraseInst check).eraseDeadSliceInstructions values
          (function.collectCheckSlice values check)).function :=
      sweptFrom_eraseDeadSliceInstructions _
    rcases swept with ⟨insts, equal, -⟩
    rw [equal]
    intro present
    exact gone (((instructions_eraseInsts insts).map _).subset present)
  · rw [refused.2.2] at removed
    cases removed

theorem removed_removeCheckSlice :
    (function.removeCheckSlice utilities values check).removed =
      (function.eraseCheckSlice values check).removed := by
  rw [removeCheckSlice]
  split
  · rfl
  · rfl

theorem name_eraseCheckSlice (shaped : function.Shaped) :
    (function.eraseCheckSlice values check).function.name = function.name :=
  (old_eraseCheckSlice shaped).1

/-- A refused removal has done nothing to its function. -/
theorem function_of_refused (shaped : function.Shaped)
    (refused : (function.removeCheckSlice utilities values check).removed = false) :
    (function.removeCheckSlice utilities values check).function = function := by
  have untouched : (function.eraseCheckSlice values check).removed = false :=
    removed_removeCheckSlice.symm.trans refused
  rw [removeCheckSlice, untouched]
  rcases eraseCheckSlice_cases shaped with bypass | direct | outcome
  · rcases bypass with ⟨report, -, equal⟩
    rw [equal] at untouched
    cases untouched
  · rw [direct.2] at untouched
    cases untouched
  · rw [outcome.2.2]
    rfl

theorem check_notMem_of_removed (adds : utilities.AddNothing) (shaped : function.Shaped)
    (removed : (function.removeCheckSlice utilities values check).removed = true) :
    check ∉ (function.removeCheckSlice utilities values check).function.instructions.map
      Inst.id := by
  have erased : (function.eraseCheckSlice values check).removed = true :=
    removed_removeCheckSlice.symm.trans removed
  rw [removeCheckSlice, if_pos erased]
  intro present
  exact check_notMem_eraseCheckSlice shaped erased
    ((CleanupUtilities.addsNothing_tidy adds _).old check present)

theorem name_removeCheckSlice (adds : utilities.AddNothing) (shaped : function.Shaped) :
    (function.removeCheckSlice utilities values check).function.name = function.name := by
  rw [removeCheckSlice]
  split
  · exact (CleanupUtilities.addsNothing_tidy adds _).name.trans (name_eraseCheckSlice shaped)
  · exact name_eraseCheckSlice shaped

/-- Once the validation has accepted every predecessor, the exits after the rewriting
loop are closed: no predecessor is left, in the slice or outside it. -/
theorem Bypassable.exits_closed {report : Block}
    (bypassable : function.Bypassable values check report) (shaped : function.Shaped)
    (slice : CheckSlice) :
    (function.rewritten values slice report).1.hasNonSanitizerPredecessor report.id
        (function.rewritten values slice report).2.orderedBlocks = false ∧
      ((function.rewritten values slice report).1.predecessors report.id).isEmpty = true := by
  have none : (function.rewritten values slice report).1.predecessors report.id = [] :=
    bypassable.predecessors_rewritten shaped
  rw [hasNonSanitizerPredecessor, none]
  exact ⟨rfl, rfl⟩

end Function

namespace Erasure

variable {erasure : Erasure} {utilities : CleanupUtilities} {values : ValueTable}
  {check : InstId} {function : Function}

theorem isLive_iff :
    erasure.isLive check = true ↔
      ∃ function ∈ erasure.functions, check ∈ function.instructions.map Inst.id := by
  rw [isLive, functionOf?, List.find?_isSome]
  apply exists_congr
  intro function
  apply and_congr_right
  intro _
  exact Function.inst?_isSome

theorem functions_of_refused (shaped : erasure.Shaped)
    (found : erasure.functionOf? check = some function)
    (refused : (function.removeCheckSlice utilities values check).removed = false) :
    (erasure.removeCheckSlice utilities values check).functions = erasure.functions := by
  rcases mem_of_functionOf? found with ⟨member, -⟩
  have same := Function.function_of_refused (shaped.functions function member) refused
  simp only [removeCheckSlice, found, refused, Bool.false_eq_true, if_false, same,
    setFunction, functions_touch]
  have kept : ∀ candidate ∈ erasure.functions,
      (if candidate.name = function.name then function else candidate) = candidate := by
    intro candidate candidateMember
    split
    · rename_i equal
      exact shaped.function_eq member candidateMember equal.symm
    · rfl
  rw [List.map_congr_left kept, List.map_id']

theorem not_isLive_of_removed (adds : utilities.AddNothing) (shaped : erasure.Shaped)
    (found : erasure.functionOf? check = some function)
    (removed : (function.removeCheckSlice utilities values check).removed = true) :
    (erasure.removeCheckSlice utilities values check).isLive check = false := by
  rcases mem_of_functionOf? found with ⟨member, isSome⟩
  have functionShaped := shaped.functions function member
  rcases functions_removeCheckSlice found
    (Function.name_removeCheckSlice adds functionShaped) with ⟨cleans, equal⟩
  apply Bool.eq_false_iff.mpr
  intro live
  rcases isLive_iff.mp live with ⟨after, afterMember, inside⟩
  rw [equal] at afterMember
  rcases List.mem_map.mp afterMember with ⟨candidate, candidateMember, rfl⟩
  split at inside
  · exact Function.check_notMem_of_removed adds functionShaped removed inside
  · rename_i different
    have old : check ∈ candidate.instructions.map Inst.id := by
      split at inside
      · exact (CleanupUtilities.addsNothing_tidy adds candidate).old check inside
      · exact inside
    rcases Option.isSome_iff_exists.mp isSome with ⟨inst, instEqual⟩
    rcases Function.mem_of_inst? instEqual with ⟨instMember, rfl⟩
    exact different (shaped.apart candidate candidateMember function member inst.id old
      (List.mem_map_of_mem instMember))

/-- A removal that answers false leaves every function of the module as it was. One
that answers true leaves the call in none. The exits of the bypass after its rewriting
loop play no part in it. -/
theorem removeCheckSlice_allOrNothing (erasure : Erasure) (utilities : CleanupUtilities)
    (values : ValueTable) (check : InstId) (function : Function)
    (adds : utilities.AddNothing) (shaped : erasure.Shaped)
    (found : erasure.functionOf? check = some function) :
    ((function.removeCheckSlice utilities values check).removed = false →
        (function.removeCheckSlice utilities values check).function = function ∧
          (erasure.removeCheckSlice utilities values check).functions =
            erasure.functions) ∧
      ((function.removeCheckSlice utilities values check).removed = true →
        check ∉ (function.removeCheckSlice utilities values
            check).function.instructions.map Inst.id ∧
          (erasure.removeCheckSlice utilities values check).isLive check = false) ∧
      ∀ (report : Block) (slice : CheckSlice), function.Bypassable values check report →
        (function.rewritten values slice report).1.hasNonSanitizerPredecessor report.id
            (function.rewritten values slice report).2.orderedBlocks = false ∧
          ((function.rewritten values slice report).1.predecessors report.id).isEmpty =
            true := by
  have functionShaped := shaped.functions function (mem_of_functionOf? found).1
  refine ⟨?_, ?_, ?_⟩
  · intro refused
    exact ⟨Function.function_of_refused functionShaped refused,
      functions_of_refused shaped found refused⟩
  · intro removed
    exact ⟨Function.check_notMem_of_removed adds functionShaped removed,
      not_isLive_of_removed adds shaped found removed⟩
  · intro report slice bypassable
    exact bypassable.exits_closed functionShaped slice

end Erasure

theorem Module.sample_allOrNothing :
    (sampleFunction.removeCheckSlice .inert sample.values 3).removed = true ∧
      (sample.erasure.removeCheckSlice .inert sample.values 3).isLive 3 = false := by
  have removed : (sampleFunction.removeCheckSlice .inert sample.values 3).removed = true := by
    decide +kernel
  have whole := Erasure.removeCheckSlice_allOrNothing sample.erasure .inert sample.values 3
    sampleFunction CleanupUtilities.addNothing_inert (by decide) (by decide)
  exact ⟨removed, (whole.2.1 removed).2⟩

end Desan
