import Desan.RedundantCheckEliminator.Refusals
import Desan.Scripts.CountSanitizerChecks

/-! # Counting again after the elimination

A careful removal takes one recognised check and leaves the others what they were. So a
second collection misses no more checks of a type than marked calls of that type are gone. -/

namespace Desan

namespace Function

/-- A reachable block has the call, it is a check of this kind, and LLVM may not delete it
for being unused. -/
def HoldsAs (function : Function) (values : ValueTable) (kind : ClassifiedCheck)
    (check : InstId) : Prop :=
  ∃ block ∈ function.blocks, function.Reachable block.id ∧
    ∃ inst ∈ block.instructions, inst.id = check ∧ values.classifyCheck inst.op = some kind ∧
      inst.op.mayHaveSideEffects = true

variable {function : Function} {values : ValueTable} {kind : ClassifiedCheck} {check : InstId}

theorem HoldsAs.holdsCheck (holds : function.HoldsAs values kind check) :
    function.HoldsCheck values check := by
  rcases holds with ⟨block, member, reachable, inst, inside, address, classified, effect⟩
  refine ⟨block, member, reachable, inst, inside, address, ?_, effect⟩
  rw [ValueTable.isCheck, classified]
  rfl

theorem KeepsCalls.holdsAs {before after : Function} {lost : InstId → Prop}
    (keeps : before.KeepsCalls lost after) (holds : before.HoldsAs values kind check)
    (kept : ¬lost check) : after.HoldsAs values kind check := by
  rcases holds with ⟨block, member, reachable, inst, inside, rfl, classified, effect⟩
  have call : inst.op.callSite?.isSome := by
    cases found : inst.op.callSite? with
    | some site => rfl
    | none =>
        rw [ValueTable.classifyCheck, found] at classified
        cases classified
  rcases keeps.calls block member reachable inst inside call effect kept with
    ⟨edited, editedMember, editedReachable, other, otherInside, same, editedTo⟩
  exact ⟨edited, editedMember, editedReachable, other, otherInside, same,
    ValueTable.classifyCheck_of_editedTo editedTo classified,
    editedTo.mayHaveSideEffects_eq ▸ effect⟩

end Function

namespace Erasure

variable {erasure : Erasure} {utilities : CleanupUtilities} {values : ValueTable}
  {kind : ClassifiedCheck} {check : InstId}

def HoldsAs (erasure : Erasure) (values : ValueTable) (kind : ClassifiedCheck)
    (check : InstId) : Prop :=
  ∃ function ∈ erasure.functions, function.HoldsAs values kind check

theorem KeepsCalls.holdsAs {lost : Function → InstId → Prop} {before after : Erasure}
    (keeps : before.KeepsCalls lost after) (holds : before.HoldsAs values kind check)
    (kept : ∀ function ∈ before.functions, function.HoldsCheck values check →
      ¬lost function check) : after.HoldsAs values kind check := by
  rcases keeps with ⟨transform, equal, functionKept⟩
  rcases holds with ⟨function, member, inside⟩
  refine ⟨transform function, ?_, ?_⟩
  · rw [equal]
    exact List.mem_map_of_mem member
  · exact (functionKept function member).holdsAs inside
      (kept function member inside.holdsCheck)

theorem holdsAs_removeCheckSlice {other : InstId} (keep : utilities.KeepCalls)
    (shaped : erasure.Shaped)
    (careful : ∀ function, erasure.functionOf? check = some function →
      Careful values function check)
    (holds : erasure.HoldsAs values kind other) (different : other ≠ check) :
    (erasure.removeCheckSlice utilities values check).HoldsAs values kind other := by
  have keeps := keepsCalls_removeCheckSlice keep shaped fun function found =>
    (careful function found).1
  apply keeps.holdsAs holds
  intro function member inside lost
  exact Function.not_loses (shaped.functions function member)
    (careful function lost.1).2 inside different lost.2

theorem holdsAs_of_refused {function : Function}
    (shaped : erasure.Shaped) (found : erasure.functionOf? check = some function)
    (holds : erasure.HoldsAs values kind check)
    (refused : (function.removeCheckSlice utilities values check).removed = false) :
    (erasure.removeCheckSlice utilities values check).HoldsAs values kind check := by
  rcases holds with ⟨holder, member, inside⟩
  exact ⟨holder, (functions_of_refused shaped found refused).symm ▸ member, inside⟩

/-- In a careful run a check is left what it was, or it is one of the calls and gone. -/
theorem holdsAs_or_gone {calls : List InstId} (keep : utilities.KeepCalls)
    (pending : erasure.Pending values calls)
    (careful : EveryStep utilities values (Careful values) erasure calls)
    (holds : erasure.HoldsAs values kind check) :
    (erasure.eraseCalls utilities values calls).HoldsAs values kind check ∨
      check ∈ calls ∧ (erasure.eraseCalls utilities values calls).isLive check = false := by
  induction calls generalizing erasure with
  | nil => exact .inl holds
  | cons first rest induction =>
      have next := pending.step keep careful.1
      by_cases same : check = first
      · subst same
        rcases holds with ⟨holder, member, inside⟩
        have live := isLive_of_holdsCheck ⟨holder, member, inside.holdsCheck⟩
        rcases Option.isSome_iff_exists.mp live with ⟨function, found⟩
        cases removed : (function.removeCheckSlice utilities values check).removed with
        | true =>
            right
            refine ⟨List.mem_cons_self .., ?_⟩
            have gone := not_isLive_of_removed keep.addNothing pending.shaped found removed
            rw [← Bool.not_eq_true]
            intro back
            have early := isLive_of_run keep next.shaped back
            rw [gone] at early
            cases early
        | false =>
            have stays := holdsAs_of_refused pending.shaped found ⟨holder, member, inside⟩
              removed
            exact (induction next careful.2 stays).imp_right fun gone =>
              ⟨List.mem_cons_of_mem _ gone.1, gone.2⟩
      · have stays := holdsAs_removeCheckSlice keep pending.shaped careful.1 holds same
        exact (induction next careful.2 stays).imp_right fun gone =>
          ⟨List.mem_cons_of_mem _ gone.1, gone.2⟩

end Erasure

namespace Module

open CountSanitizerChecks

/-- The instructions that a collection counts as checks of one kind. -/
def checksOf (module : Module) (kind : ClassifiedCheck) : List InstId :=
  ((bodies module).filter fun inst => module.values.classifyCheck inst.op = some kind).map
    Inst.id

/-- What a collection counts of one kind. -/
def countOf (module : Module) (kind : ClassifiedCheck) : Nat :=
  ((({} : SanitizerCheckCollector).collectModule module).checkCounts kind.sanitizer).valueAt
    kind.checkType

theorem countOf_eq (module : Module) (kind : ClassifiedCheck) :
    module.countOf kind = (module.checksOf kind).length := by
  have fresh : ({} : SanitizerCheckCollector).Counts [] :=
    SanitizerCheckCollector.counts_fresh rfl rfl rfl
  have counts := SanitizerCheckCollector.counts_record fresh
    ((bodies module).filterMap fun inst => module.values.classifyCheck inst.op)
  rw [countOf, collectModule_eq, counts.counts, List.nil_append, checksOf, List.length_map]
  induction bodies module with
  | nil => rfl
  | cons inst rest induction =>
      cases classified : module.values.classifyCheck inst.op with
      | none => simpa [classified] using induction
      | some check =>
          have recorded := isRecorded_of_classifyCheck classified
          simp only [List.filterMap_cons, classified]
          rw [List.filter_cons_of_pos recorded, List.count_cons, induction, List.filter_cons]
          by_cases same : check = kind
          · simp [classified, same]
          · simp [classified, same]

theorem mem_checksOf {module : Module} {kind : ClassifiedCheck} {check : InstId} :
    check ∈ module.checksOf kind ↔ ∃ function ∈ module.functions,
      ∃ inst ∈ function.instructions, inst.id = check ∧
        module.values.classifyCheck inst.op = some kind := by
  simp only [checksOf, bodies, List.mem_map, List.mem_filter, List.mem_flatMap,
    decide_eq_true_eq]
  constructor
  · intro held
    rcases held with ⟨inst, ⟨⟨function, ⟨member, -⟩, inside⟩, classified⟩, same⟩
    exact ⟨function, member, inst, inside, same, classified⟩
  · intro held
    rcases held with ⟨function, member, inst, inside, same, classified⟩
    refine ⟨inst, ⟨⟨function, ⟨member, ?_⟩, inside⟩, classified⟩, same⟩
    cases isDeclaration : function.isDeclaration with
    | false => rfl
    | true =>
        rw [Function.isDeclaration, List.isEmpty_iff] at isDeclaration
        rw [Function.instructions, isDeclaration] at inside
        cases inside

theorem nodup_checksOf {module : Module} (distinct : module.DistinctIds)
    (kind : ClassifiedCheck) : (module.checksOf kind).Nodup := by
  have sub : (bodies module).Sublist module.instructions :=
    List.filter_sublist.flatMap _
  exact distinct.insts.sublist ((List.filter_sublist.trans sub).map _)

/-- The module with what is left of its functions. -/
def afterErasure (module : Module) (utilities : CleanupUtilities) (calls : List InstId) :
    Module :=
  { module with functions := (module.eraseMarkedChecks utilities calls).functions }

/-- A second collection finds every check of a kind that the first one found, but for the
marked calls of that kind that are gone. -/
theorem countOf_afterErasure (module : Module) (utilities : CleanupUtilities)
    (calls : List InstId) (kind : ClassifiedCheck) (keep : utilities.KeepCalls)
    (distinct : module.DistinctIds)
    (pending : module.erasure.Pending module.values calls)
    (careful : Erasure.EveryStep utilities module.values (Erasure.Careful module.values)
      module.erasure calls)
    (reached : ∀ check ∈ module.checksOf kind, module.erasure.HoldsAs module.values kind check) :
    module.countOf kind ≤ (module.afterErasure utilities calls).countOf kind +
      (calls.filter fun call => call ∈ module.checksOf kind ∧
        (module.eraseMarkedChecks utilities calls).isLive call = false).length := by
  rw [countOf_eq, countOf_eq, ← List.length_append]
  apply (List.subperm_of_subset (nodup_checksOf distinct kind) _).length_le
  intro check member
  have kept := Erasure.keepsCalls_tidy keep
    (module.erasure.eraseCalls utilities module.values calls)
  rw [List.mem_append]
  rcases Erasure.holdsAs_or_gone keep pending careful (reached check member) with stays | gone
  · left
    rcases kept.holdsAs stays fun _ _ _ => False.elim with ⟨function, inside, holds⟩
    rcases holds with ⟨block, blockMember, -, inst, instInside, same, classified, -⟩
    exact mem_checksOf.mpr ⟨function, inside, inst,
      Function.mem_instructions.mpr ⟨block, blockMember, instInside⟩, same, classified⟩
  · right
    apply List.mem_filter.mpr
    refine ⟨gone.1, decide_eq_true ⟨member, ?_⟩⟩
    rw [← Bool.not_eq_true]
    intro live
    have early := kept.isLive live
    rw [gone.2] at early
    cases early

def sampleLoad : ClassifiedCheck := ⟨.ASan, "__asan_load4"⟩

theorem sample_reached :
    ∀ check ∈ sample.checksOf sampleLoad,
      sample.erasure.HoldsAs sample.values sampleLoad check := by
  have checks : sample.checksOf sampleLoad = [0, 2, 3] := by decide +kernel
  have load : sample.values.classifyCheck (sampleCall 0 0 3).op = some sampleLoad := by
    decide +kernel
  rw [checks]
  intro check member
  have inside : sampleCall check 0 3 ∈ sampleBlock.instructions := by
    revert check
    decide
  exact ⟨sampleFunction, List.mem_singleton_self _, sampleBlock, List.mem_singleton_self _,
    ⟨[], .start rfl⟩, sampleCall check 0 3, inside, rfl, load, rfl⟩

theorem sample_recount :
    sample.countOf sampleLoad ≤ (sample.afterErasure .inert [3]).countOf sampleLoad +
      ([3].filter fun call => call ∈ sample.checksOf sampleLoad ∧
        (sample.eraseMarkedChecks .inert [3]).isLive call = false).length :=
  countOf_afterErasure sample .inert [3] sampleLoad CleanupUtilities.keepCalls_inert (by decide)
    ⟨by decide, by decide, fun check member => List.mem_singleton.mp member ▸
      ⟨sampleFunction, by decide, sample_holdsCheck⟩⟩
    sample_careful sample_reached

end Module

end Desan
