import Desan.Foundation.Descent
import Desan.RedundantCheckEliminator.Refusals

/-! # What a run leaves of a function

A run touches the functions that hold a marked call and no others. Those it cleans up at
the end, and both loops of the clean-up come to their end. -/

namespace Desan

/-- What LLVM documents of the utilities: the dead instructions handed over are deleted, and
a merged block is gone. -/
structure CleanupUtilities.MakeProgress (utilities : CleanupUtilities) : Prop where
  deleteTriviallyDead : ∀ function : Function, function.Shaped → function.deadInsts ≠ [] →
    (utilities.deleteTriviallyDead function.deadInsts function).instructions.length <
      function.instructions.length
  mergeBlockIntoPredecessor : ∀ (function merged : Function), function.Shaped →
    ∀ block ∈ function.blockIds.tail,
      utilities.mergeBlockIntoPredecessor block function = some merged →
        merged.blocks.length < function.blocks.length

namespace CleanupUtilities

variable {utilities : CleanupUtilities}

/-! ## The loops of the clean-up -/

/-- One round of `cleanupDeadInstructions`. -/
def deleteRound (utilities : CleanupUtilities) (function : Function) : Option Function :=
  if function.deadInsts.isEmpty then none
  else some (utilities.deleteTriviallyDead function.deadInsts function)

theorem cleanupLoop_eq (fuel : Nat) (function : Function) :
    utilities.cleanupLoop fuel function = settle utilities.deleteRound fuel function := by
  induction fuel generalizing function with
  | zero => rfl
  | succ fuel induction =>
      rw [cleanupLoop, settle, deleteRound]
      split
      · rfl
      · exact induction _

theorem simplifyLoop_eq (fuel : Nat) (function : Function) :
    utilities.simplifyLoop fuel function = settle utilities.mergeFirst fuel function := by
  induction fuel generalizing function with
  | zero => rfl
  | succ fuel induction =>
      rw [simplifyLoop, settle]
      cases utilities.mergeFirst function with
      | none => rfl
      | some merged => exact induction merged

section Progress

variable (keep : utilities.KeepCalls) (progress : utilities.MakeProgress)
include keep progress

theorem deleteRound_lowers (function next : Function) (shaped : function.Shaped)
    (round : utilities.deleteRound function = some next) :
    next.Shaped ∧ next.instructions.length < function.instructions.length := by
  rw [deleteRound] at round
  split at round
  · cases round
  · rename_i dead
    cases round
    exact ⟨(keep.deleteTriviallyDead function).shaped shaped,
      progress.deleteTriviallyDead function shaped (mt List.isEmpty_iff.mpr dead)⟩

theorem mergeFirst_lowers (function next : Function) (shaped : function.Shaped)
    (merges : utilities.mergeFirst function = some next) :
    next.Shaped ∧ next.blocks.length < function.blocks.length := by
  rcases List.exists_of_findSome?_eq_some merges with ⟨block, member, merged⟩
  exact ⟨(keep.mergeBlockIntoPredecessor function next block member merged).shaped shaped,
    progress.mergeBlockIntoPredecessor function next shaped block member merged⟩

theorem shaped_cleanupDeadInstructions {function : Function} (shaped : function.Shaped) :
    (utilities.cleanupDeadInstructions function).Shaped := by
  rw [cleanupDeadInstructions, cleanupLoop_eq]
  exact Descent.valid_settle (deleteRound_lowers keep progress) shaped

theorem deadInsts_cleanupDeadInstructions {function : Function} (shaped : function.Shaped) :
    (utilities.cleanupDeadInstructions function).deadInsts = [] := by
  have ended := Descent.step_settle (deleteRound_lowers keep progress) shaped
    (Nat.lt_succ_self function.instructions.length)
  rw [← cleanupLoop_eq, deleteRound] at ended
  split at ended
  · rename_i empty
    exact List.isEmpty_iff.mp empty
  · cases ended

theorem mergeFirst_simplifyCFG {function : Function} (shaped : function.Shaped) :
    utilities.mergeFirst (utilities.simplifyCFG function) = none := by
  rw [simplifyCFG, simplifyLoop_eq]
  exact Descent.step_settle (mergeFirst_lowers keep progress)
    ((keep.eliminateUnreachableBlocks function).shaped shaped) (Nat.lt_succ_self _)

end Progress

/-- A function after its clean-up: what is left when no instruction is dead any more, with
its blocks merged until none can be. More rounds of either loop change nothing. -/
structure CleanedUp (utilities : CleanupUtilities) (before after : Function) : Prop where
  noDead : (utilities.cleanupDeadInstructions before).deadInsts = []
  simplified : after = utilities.simplifyCFG (utilities.cleanupDeadInstructions before)
  noMerge : utilities.mergeFirst after = none
  rounds : ∀ fuel, before.instructions.length < fuel →
    utilities.cleanupLoop fuel before = utilities.cleanupDeadInstructions before
  merges : ∀ fuel, (utilities.eliminateUnreachableBlocks
      (utilities.cleanupDeadInstructions before)).blocks.length < fuel →
    utilities.simplifyLoop fuel (utilities.eliminateUnreachableBlocks
      (utilities.cleanupDeadInstructions before)) = after

theorem cleanedUp_tidy (keep : utilities.KeepCalls) (progress : utilities.MakeProgress)
    {function : Function} (shaped : function.Shaped)
    (defined : function.isDeclaration = false) :
    utilities.CleanedUp function (utilities.tidy function) := by
  have tidied : utilities.tidy function =
      utilities.simplifyCFG (utilities.cleanupDeadInstructions function) := by
    rw [tidy, defined]
    rfl
  have cleaned := shaped_cleanupDeadInstructions keep progress shaped
  rw [tidied]
  refine ⟨deadInsts_cleanupDeadInstructions keep progress shaped, rfl,
    mergeFirst_simplifyCFG keep progress cleaned, ?_, ?_⟩
  · intro fuel enough
    rw [cleanupDeadInstructions, cleanupLoop_eq, cleanupLoop_eq]
    exact Descent.settle_of_enough (deleteRound_lowers keep progress) shaped
      (Nat.lt_succ_self function.instructions.length) enough
  · intro fuel enough
    rw [simplifyCFG, simplifyLoop_eq, simplifyLoop_eq]
    exact Descent.settle_of_enough (mergeFirst_lowers keep progress)
      ((keep.eliminateUnreachableBlocks _).shaped cleaned) (Nat.lt_succ_self _) enough

end CleanupUtilities

/-! ## The functions a run touches -/

namespace Erasure

variable {erasure : Erasure} {utilities : CleanupUtilities} {values : ValueTable}
  {check : InstId}

/-- A removal leaves alone what it has not touched. -/
theorem mem_functions_of_untouched (keep : utilities.KeepCalls) (shaped : erasure.Shaped)
    {function : Function} (member : function ∈ erasure.functions)
    (untouched : function.name ∉
      (erasure.removeCheckSlice utilities values check).touchedFunctions) :
    function ∈ (erasure.removeCheckSlice utilities values check).functions := by
  cases found : erasure.functionOf? check with
  | none =>
      simp only [removeCheckSlice, found]
      exact member
  | some holder =>
      rcases mem_of_functionOf? found with ⟨holderMember, -⟩
      have holderName := (Function.old_removeCheckSlice values keep
        (shaped.functions holder holderMember) check).1
      have apart : function.name ≠ holder.name := by
        intro same
        apply untouched
        rw [mem_touched_removeCheckSlice shaped]
        exact .inr ⟨function, member,
          (mem_ids_iff_of_functionOf? shaped found member).mpr same, rfl⟩
      simp only [removeCheckSlice, found] at untouched ⊢
      split
      · rename_i removed
        rw [if_pos removed] at untouched
        simp only [tidyTouched, setFunction, functions_touch, List.map_map, List.mem_map]
        refine ⟨function, member, ?_⟩
        rw [Function.comp_apply, holderName, if_neg apart, if_neg]
        exact fun touched => untouched touched.1
      · simp only [setFunction, functions_touch, List.mem_map]
        refine ⟨function, member, ?_⟩
        rw [holderName, if_neg apart]

/-- A run has touched the functions that hold one of its calls, and left the others
alone. -/
theorem touched_eraseCalls (keep : utilities.KeepCalls) {calls : List InstId}
    (shaped : erasure.Shaped) :
    ∀ function ∈ erasure.functions,
      (function.name ∈ (erasure.eraseCalls utilities values calls).touchedFunctions ↔
        function.name ∈ erasure.touchedFunctions ∨ ∃ check ∈ calls, check ∈ function.ids) ∧
      (function.name ∉ (erasure.eraseCalls utilities values calls).touchedFunctions →
        function ∈ (erasure.eraseCalls utilities values calls).functions) := by
  induction calls generalizing erasure with
  | nil =>
      intro function member
      refine ⟨?_, fun _ => member⟩
      simp [eraseCalls]
  | cons check rest induction =>
      intro function member
      let next := erasure.removeCheckSlice utilities values check
      have nextShaped : next.Shaped := shaped_of_removal values keep shaped check
      have holds : (∃ other ∈ erasure.functions, check ∈ other.ids ∧
          other.name = function.name) ↔ check ∈ function.ids := by
        constructor
        · intro holder
          rcases holder with ⟨other, otherMember, inside, sameName⟩
          exact shaped.function_eq otherMember member sameName ▸ inside
        · exact fun inside => ⟨function, member, inside, rfl⟩
      have step : function.name ∈ next.touchedFunctions ↔
          function.name ∈ erasure.touchedFunctions ∨ check ∈ function.ids := by
        rw [mem_touched_removeCheckSlice shaped, holds]
      have run : erasure.eraseCalls utilities values (check :: rest) =
        next.eraseCalls utilities values rest := rfl
      rw [run, List.exists_mem_cons_iff, ← or_assoc, ← step]
      by_cases touched : function.name ∈ next.touchedFunctions
      · rcases relates_old values keep shaped check with ⟨transform, equal, related⟩
        rcases related function member (shaped.functions function member) with ⟨name, -, -⟩
        have inside : transform function ∈ next.functions :=
          equal ▸ List.mem_map_of_mem member
        rcases induction nextShaped (transform function) inside with ⟨later, -⟩
        rw [name] at later
        have stays := later.mpr (.inl touched)
        exact ⟨iff_of_true stays (.inl touched), fun untouched => absurd stays untouched⟩
      · -- A function that is not touched is met again as it was.
        have inside := mem_functions_of_untouched keep shaped member touched
        exact induction nextShaped function inside

/-- No run makes an instruction or renames a function. -/
theorem old_eraseCalls (values : ValueTable) (keep : utilities.KeepCalls)
    (shaped : erasure.Shaped) (calls : List InstId) :
    ∃ transform : Function → Function,
      (erasure.eraseCalls utilities values calls).functions = erasure.functions.map transform ∧
        ∀ function ∈ erasure.functions, (transform function).name = function.name ∧
          (transform function).Shaped ∧ ∀ id ∈ (transform function).ids, id ∈ function.ids := by
  have run : Relates (fun before after => before.Shaped → after.name = before.name ∧
      after.Shaped ∧ ∀ id ∈ after.ids, id ∈ before.ids) erasure
        (erasure.eraseCalls utilities values calls) := by
    apply relates_eraseCalls
    · exact fun function own => ⟨rfl, own, fun _ inside => inside⟩
    · intro first second third left right own
      rcases left own with ⟨leftName, middle, leftOld⟩
      rcases right middle with ⟨rightName, last, rightOld⟩
      exact ⟨rightName.trans leftName, last, fun id inside => leftOld id (rightOld id inside)⟩
    · exact keep
    · exact shaped
    · intro function own
      have tidied := CleanupUtilities.keepsCalls_tidy keep function
      exact ⟨tidied.name, tidied.shaped own, tidied.old⟩
    · apply EveryStep.of_all
      exact fun function check own => Function.old_removeCheckSlice values keep own check
  rcases run with ⟨transform, equal, related⟩
  exact ⟨transform, equal, fun function member =>
    related function member (shaped.functions function member)⟩

end Erasure

namespace Module

/-- The erasure of the marked calls leaves a function without one as it was, and cleans up
every other one to the end. -/
theorem cleanedUp_eraseMarkedChecks (module : Module) (utilities : CleanupUtilities)
    (calls : List InstId) (keep : utilities.KeepCalls) (progress : utilities.MakeProgress)
    (shaped : module.erasure.Shaped) :
    ∃ transform : Function → Function,
      (module.eraseMarkedChecks utilities calls).functions = module.functions.map transform ∧
        ∀ function ∈ module.functions,
          ((∀ check ∈ calls, check ∉ function.ids) → transform function = function) ∧
          ((∃ check ∈ calls, check ∈ function.ids) →
            ∃ reached ∈ (module.erasure.eraseCalls utilities module.values calls).functions,
              reached.name = function.name ∧
                (if reached.isDeclaration then transform function = reached
                else utilities.CleanedUp reached (transform function))) := by
  let run := module.erasure.eraseCalls utilities module.values calls
  rcases Erasure.old_eraseCalls module.values keep shaped calls with ⟨transform, equal, old⟩
  have runShaped : run.Shaped := shaped.map equal old
  have touched := @Erasure.touched_eraseCalls module.erasure utilities module.values keep calls
    shaped
  refine ⟨fun function => if (transform function).name ∈ run.touchedFunctions then
    utilities.tidy (transform function) else transform function, ?_, ?_⟩
  · rw [eraseMarkedChecks, Erasure.tidy, equal, List.map_map]
    rfl
  · intro function member
    rcases old function member with ⟨name, own, -⟩
    rcases touched function member with ⟨isTouched, unchanged⟩
    have inside : transform function ∈ run.functions := equal ▸ List.mem_map_of_mem member
    simp only [name]
    constructor
    · intro none
      have untouched : function.name ∉ run.touchedFunctions := by
        intro holder
        rcases isTouched.mp holder with nothing | ⟨check, marked, held⟩
        · cases nothing
        · exact none check marked held
      rw [if_neg untouched]
      exact runShaped.function_eq inside (unchanged untouched) name
    · intro held
      rw [if_pos (isTouched.mpr (.inr held))]
      refine ⟨transform function, inside, name, ?_⟩
      split
      · rename_i declared
        rw [CleanupUtilities.tidy, if_pos declared]
      · rename_i defined
        rw [Bool.not_eq_true] at defined
        exact CleanupUtilities.cleanedUp_tidy keep progress own defined

end Module

/-! ## A sample -/

/-- Utilities that delete dead instructions and merge nothing. -/
def CleanupUtilities.deleting : CleanupUtilities where
  deleteTriviallyDead insts function :=
    if function.Shaped then function.eraseInsts insts else function
  eliminateUnreachableBlocks function := function
  mergeBlockIntoPredecessor _ _ := none

namespace Function

variable {function : Function}

theorem mem_deadInsts {id : InstId} :
    id ∈ function.deadInsts ↔
      ∃ inst ∈ function.instructions, function.isTriviallyDead inst = true ∧ inst.id = id := by
  simp only [deadInsts, List.mem_map, List.mem_filter, and_assoc]

theorem not_mem_deadInsts (shaped : function.Shaped) {inst : Inst}
    (member : inst ∈ function.instructions) (effect : inst.op.mayHaveSideEffects = true) :
    inst.id ∉ function.deadInsts := by
  intro dead
  rcases mem_deadInsts.mp dead with ⟨other, otherMember, isDead, sameId⟩
  rw [shaped.inst_eq otherMember member sameId, isTriviallyDead, effect] at isDead
  simp at isDead

theorem length_eraseInsts_deadInsts (shaped : function.Shaped) (dead : function.deadInsts ≠ []) :
    (function.eraseInsts function.deadInsts).instructions.length <
      function.instructions.length := by
  rcases List.exists_mem_of_ne_nil _ dead with ⟨id, isDead⟩
  rcases mem_deadInsts.mp isDead with ⟨inst, member, isTriviallyDead, rfl⟩
  have sublist := @instructions_eraseInsts function function.deadInsts
  refine lt_of_le_of_ne sublist.length_le ?_
  intro sameLength
  have body : inst.op.isTerminator = false := by
    rw [Function.isTriviallyDead] at isTriviallyDead
    simp only [Bool.and_eq_true, Bool.not_eq_true'] at isTriviallyDead
    exact isTriviallyDead.1.1
  have kept : inst ∈ (function.eraseInsts function.deadInsts).instructions := by
    rw [sublist.eq_of_length sameLength]
    exact member
  rcases mem_instructions.mp kept with ⟨after, afterMember, inside⟩
  rcases mem_eraseInsts.mp afterMember with ⟨block, blockMember, rfl⟩
  rcases Block.mem_instructions.mp inside with inBody | last
  · exact absurd isDead (of_decide_eq_true (List.mem_filter.mp inBody).2)
  · exact shaped.terminator_ne member body block blockMember (congrArg Inst.id last).symm

end Function

namespace CleanupUtilities

theorem keepCalls_deleting : deleting.KeepCalls where
  deleteTriviallyDead := by
    intro function
    show function.KeepsCalls _ (if function.Shaped then _ else _)
    split
    · rename_i shaped
      have erased := function.keepsCalls_eraseInsts function.deadInsts
      refine ⟨erased.name, erased.shaped, erased.old, ?_⟩
      intro block member reachable inst inside call effect _
      exact erased.calls block member reachable inst inside call effect
        (Function.not_mem_deadInsts shaped
          (Function.mem_instructions.mpr ⟨block, member, inside⟩) effect)
    · exact .refl _ function
  eliminateUnreachableBlocks := fun function => .refl _ function
  mergeBlockIntoPredecessor := by
    intro function merged block _ isMerged
    cases isMerged

theorem makeProgress_deleting : deleting.MakeProgress where
  deleteTriviallyDead := by
    intro function shaped dead
    show (if function.Shaped then _ else _ : Function).instructions.length < _
    rw [if_pos shaped]
    exact Function.length_eraseInsts_deadInsts shaped dead
  mergeBlockIntoPredecessor := by
    intro function merged _ block _ isMerged
    cases isMerged

end CleanupUtilities

namespace Module

/-- A function with a dead instruction before its check, and its twin without a check. -/
def untidyFunction : Function where
  name := "g"
  blocks :=
    [{ id := 0
       insts := [⟨30, .integer 1, .binary .add (.other 3) (.other 3)⟩, sampleCall 31 0 1]
       terminator := ⟨32, .other 0, .ret none⟩ }]

def uncheckedFunction : Function where
  name := "h"
  blocks :=
    [{ id := 0
       insts := [⟨40, .integer 1, .binary .add (.other 3) (.other 3)⟩]
       terminator := ⟨41, .other 0, .ret none⟩ }]

def untidy : Module where
  functions := [untidyFunction, uncheckedFunction]
  values := readersValues
  dataLayout := ⟨64, 8⟩

theorem untidy_cleanedUp :
    uncheckedFunction ∈ (untidy.eraseMarkedChecks .deleting [31]).functions ∧
      ∃ after ∈ (untidy.eraseMarkedChecks .deleting [31]).functions,
        ∃ reached : Function, reached.name = "g" ∧
          (if reached.isDeclaration then after = reached
          else CleanupUtilities.deleting.CleanedUp reached after) := by
  rcases cleanedUp_eraseMarkedChecks untidy .deleting [31] CleanupUtilities.keepCalls_deleting
    CleanupUtilities.makeProgress_deleting (by decide) with ⟨transform, equal, kept⟩
  rw [equal]
  constructor
  · have apart := (kept uncheckedFunction (by decide)).1 (by decide)
    rw [← apart]
    exact List.mem_map_of_mem (by decide)
  · rcases (kept untidyFunction (by decide)).2 ⟨31, by decide, by decide⟩ with
      ⟨reached, -, name, cleaned⟩
    exact ⟨transform untidyFunction, List.mem_map_of_mem (by decide), reached, name, cleaned⟩

end Module

end Desan
