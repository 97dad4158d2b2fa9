import Desan.RedundantCheckEliminator.Policy

/-! # Barriers and the core filter

The policy only sees core checks. Among all recognised checks of a key, no core
WRITE or UNKNOWN check separates a marked READ from the unmarked one before it. -/

namespace Desan

namespace Module

/-- Every recognised check of the module, core or not, in module order. -/
def recognisedVariables (module : Module) : List CheckedVariable := module.moduleVariables []

theorem coreVariable?_of_core {module : Module} {coreCheckSet : List CoreCheckKey}
    {function : Function} {inst : Inst} {checked : CheckedVariable}
    (core : module.coreVariable? coreCheckSet function inst = some checked) :
    module.coreVariable? [] function inst = some checked := by
  rcases coreVariable?_eq_some.mp core with ⟨recognised, analyzed⟩
  rcases recognised with ⟨check, classified, -⟩
  exact coreVariable?_eq_some.mpr ⟨⟨check, classified, rfl⟩, analyzed⟩

theorem functionVariables_sublist (module : Module) (coreCheckSet : List CoreCheckKey)
    (function : Function) :
    (module.functionVariables coreCheckSet function).Sublist
      (module.functionVariables [] function) := by
  rw [functionVariables, functionVariables]
  split
  · exact List.Sublist.refl _
  · induction function.instructions with
    | nil => exact List.Sublist.refl _
    | cons head tail induction =>
        cases core : module.coreVariable? coreCheckSet function head with
        | some checked =>
            rw [List.filterMap_cons_some core,
              List.filterMap_cons_some (coreVariable?_of_core core)]
            exact induction.cons_cons _
        | none =>
            rw [List.filterMap_cons_none core]
            cases recognised : module.coreVariable? [] function head with
            | none =>
                rw [List.filterMap_cons_none recognised]
                exact induction
            | some checked =>
                rw [List.filterMap_cons_some recognised]
                exact induction.cons _

theorem moduleVariables_sublist (module : Module) (coreCheckSet : List CoreCheckKey) :
    (module.moduleVariables coreCheckSet).Sublist module.recognisedVariables := by
  rw [recognisedVariables, moduleVariables, moduleVariables]
  induction module.functions with
  | nil => exact List.Sublist.refl _
  | cons head tail induction =>
      simp only [List.flatMap_cons]
      exact (module.functionVariables_sublist coreCheckSet head).append induction

/-- The core checks are the recognised checks that are core. -/
theorem filter_mem_moduleVariables {module : Module} (distinct : module.DistinctIds)
    (coreCheckSet : List CoreCheckKey) :
    module.recognisedVariables.filter
        (fun checked => checked ∈ module.moduleVariables coreCheckSet) =
      module.moduleVariables coreCheckSet := by
  have nodup : module.recognisedVariables.Nodup :=
    List.Nodup.of_map _ (numbered_moduleVariables distinct []).distinct
  have sub := module.moduleVariables_sublist coreCheckSet
  generalize module.moduleVariables coreCheckSet = core at sub
  generalize module.recognisedVariables = recognised at sub nodup
  induction sub with
  | slnil => rfl
  | @cons core recognised head sub induction =>
      have parts := List.nodup_cons.mp nodup
      have fresh : head ∉ core := fun member => parts.1 (sub.subset member)
      rw [List.filter_cons_of_neg (by simpa using fresh)]
      exact induction parts.2
  | @cons_cons core recognised head sub induction =>
      have parts := List.nodup_cons.mp nodup
      rw [List.filter_cons_of_pos (by simp)]
      have tails := induction parts.2
      rw [List.cons.injEq]
      refine ⟨rfl, ?_⟩
      calc
        recognised.filter (fun checked => checked ∈ head :: core)
            = recognised.filter (fun checked => checked ∈ core) := by
          apply List.filter_congr
          intro checked member
          have different : checked ≠ head := fun equal => parts.1 (equal ▸ member)
          simp [different]
        _ = core := tails

/-- Before every marked check stands an unmarked READ of its key, and none of the given
barriers lies between the closest such READ and the check. -/
def BarriersKept (module : Module) (addresses : Addresses) (options : GroupingOptions)
    (coreCheckSet : List CoreCheckKey) (barriers : List CheckedVariable) : Prop :=
  let marks := module.markRedundantChecks addresses options coreCheckSet
  let key := makeVariableKey options
  ∀ before checked after, module.recognisedVariables = before ++ checked :: after →
    marks.unmarked checked = false →
      ∃ front reader between, before = front ++ reader :: between ∧
        (reader.type = .READ ∧ key reader = key checked ∧ marks.unmarked reader = true) ∧
        (∀ other ∈ between, ¬(other.type = .READ ∧ key other = key checked ∧
          marks.unmarked other = true)) ∧
        ∀ barrier ∈ between, barrier ∈ barriers → key barrier = key checked →
          barrier.type = .READ

/-- No core barrier is lost. -/
theorem barriersKept_of_core (module : Module) (addresses : Addresses)
    (options : GroupingOptions) (coreCheckSet : List CoreCheckKey)
    (distinct : module.DistinctIds) :
    module.BarriersKept addresses options coreCheckSet
      (module.moduleVariables coreCheckSet) := by
  intro before checked after split marked
  have numbered := numbered_moduleVariables distinct coreCheckSet
  have recognised := numbered_moduleVariables distinct []
  have isCore : checked ∈ module.moduleVariables coreCheckSet := by
    have call : ∃ inst, checked.checkInst = some inst ∧
        inst ∈ (module.markRedundantChecks addresses options coreCheckSet).markedCalls := by
      by_contra none
      rw [← Bool.not_eq_true, Marks.unmarked_iff] at marked
      exact marked fun inst call inside => none ⟨inst, call, inside⟩
    rcases call with ⟨inst, call, inside⟩
    rcases (mem_markChecks module addresses options numbered.calls inst).mp inside with
      ⟨other, repeatedOther, otherCall⟩
    have otherCore := List.mem_of_mem_filter (repeated_subset _ _ _ repeatedOther)
    have otherMember := (module.moduleVariables_sublist coreCheckSet).subset otherCore
    have member : checked ∈ module.recognisedVariables := by
      rw [split]
      simp
    rw [recognised.eq_of_checkInst member otherMember (call.trans otherCall.symm)]
    exact otherCore
  have coreSplit : module.moduleVariables coreCheckSet =
      (before.filter fun other => other ∈ module.moduleVariables coreCheckSet) ++
        checked :: after.filter fun other => other ∈ module.moduleVariables coreCheckSet := by
    have filtered := filter_mem_moduleVariables distinct coreCheckSet
    rw [split, List.filter_append, List.filter_cons_of_pos (by simpa using isCore)] at filtered
    exact filtered.symm
  rcases exists_reader numbered coreSplit marked with
    ⟨coreFront, reader, coreBetween, beforeEqual, isRead, sameKey, unmarked, all⟩
  rcases List.filter_eq_append_iff.mp beforeEqual with ⟨early, rest, whole, -, right⟩
  rcases List.filter_eq_cons_iff.mp right with
    ⟨skipped, late, restEqual, -, -, lateEqual⟩
  have candidate : ∃ other ∈ reader :: late, other.type = .READ ∧
      makeVariableKey options other = makeVariableKey options checked ∧
      (module.markRedundantChecks addresses options coreCheckSet).unmarked other = true :=
    ⟨reader, List.mem_cons_self .., isRead, sameKey, unmarked⟩
  rcases exists_last candidate with ⟨front, closestReader, between, lastSplit, holds, none⟩
  refine ⟨early ++ skipped ++ front, closestReader, between, ?_, holds, none, ?_⟩
  · rw [whole, restEqual, lastSplit]
    simp
  · intro barrier member barrierCore equal
    have inside : barrier ∈ late := by
      cases front with
      | nil =>
          rw [(List.cons.inj lastSplit).2]
          exact member
      | cons head tail =>
          rw [(List.cons.inj lastSplit).2]
          simp [member]
    apply all barrier _ equal
    rw [← lateEqual]
    exact List.mem_filter.mpr ⟨inside, decide_eq_true barrierCore⟩

/-- The core checks of the sample when only the most frequent check type is core. -/
def sampleCoreChecks : List CoreCheckKey :=
  coreCheckKeys ((({} : SanitizerCheckCollector).collectModule sample).identifyCoreChecks 1 0)

theorem sample_barriersKept :
    sample.DistinctIds ∧
      sample.BarriersKept .byId {} sampleCoreChecks
        (sample.moduleVariables sampleCoreChecks) :=
  ⟨by decide, barriersKept_of_core sample .byId {} sampleCoreChecks (by decide)⟩

/-- The store between the first two loads is not core, so the second load is marked. -/
theorem sample_loses_barrier :
    ¬sample.BarriersKept .byId {} sampleCoreChecks sample.recognisedVariables := by
  intro kept
  have recognised : sample.recognisedVariables =
      [sampleChecked 0 .READ, sampleChecked 1 .WRITE] ++
        sampleChecked 2 .READ :: [sampleChecked 3 .READ] := by decide +kernel
  have marked : (sample.markRedundantChecks .byId {} sampleCoreChecks).unmarked
      (sampleChecked 2 .READ) = false := by decide +kernel
  rcases kept _ _ _ recognised marked with
    ⟨front, reader, between, split, ⟨isRead, -, -⟩, -, none⟩
  cases front with
  | nil =>
      have parts := List.cons.inj split
      have write := none (sampleChecked 1 .WRITE) (by rw [← parts.2]; simp)
        (by decide +kernel) (by decide)
      cases write
  | cons head tail =>
      have later : [sampleChecked 1 .WRITE] = tail ++ reader :: between :=
        (List.cons.inj split).2
      have equal : reader = sampleChecked 1 .WRITE := by
        have inside : reader ∈ [sampleChecked 1 .WRITE] := by
          rw [later]
          simp
        exact List.mem_singleton.mp inside
      rw [equal] at isRead
      cases isRead

end Module

end Desan
