import Desan.RedundantCheckEliminator.FirstReport

/-! # A second run

The policy keeps every barrier. So among the checks it has kept, no READ has a READ as the
closest earlier check with its key, and a second run finds nothing to mark. -/

namespace Desan

namespace Module

variable {module : Module} {options : GroupingOptions} {checks : List CheckedVariable}

/-- What the policy looks at in a check. -/
def policyView (options : GroupingOptions) (checked : CheckedVariable) :
    VariableKey × AccessType :=
  (makeVariableKey options checked, checked.type)

/-- A barrier is never marked. -/
theorem unmarked_of_barrier {addresses : Addresses} (numbered : Numbered checks)
    {checked : CheckedVariable} (member : checked ∈ checks) (barrier : checked.type ≠ .READ) :
    (module.markChecks addresses options checks).unmarked checked = true := by
  rcases List.append_of_mem member with ⟨before, after, split⟩
  by_contra marked
  rw [Bool.not_eq_true, unmarked_eq_false_iff numbered split] at marked
  exact barrier (of_decide_eq_true marked.1)

/-- Among the kept checks, the closest earlier one with the key of a READ is no READ. -/
theorem closest_of_kept {addresses : Addresses} (numbered : Numbered checks)
    {before after : List CheckedVariable} {checked previous : CheckedVariable}
    (split : checks.filter (module.markChecks addresses options checks).unmarked =
      before ++ checked :: after) (isRead : checked.type = .READ)
    (isClosest : closest (makeVariableKey options) (makeVariableKey options checked) before =
      some previous) : previous.type ≠ .READ := by
  rcases List.filter_eq_append_iff.mp split with ⟨front, rest, whole, isFront, isRest⟩
  rcases List.filter_eq_cons_iff.mp isRest with ⟨skipped, later, rfl, skips, isKept, -⟩
  have place : checks = (front ++ skipped) ++ checked :: later := by
    rw [whole, List.append_assoc]
  have skipsAll : skipped.filter (module.markChecks addresses options checks).unmarked = [] :=
    List.filter_eq_nil_iff.mpr skips
  have isBefore : (front ++ skipped).filter
      (module.markChecks addresses options checks).unmarked = before := by
    rw [List.filter_append, skipsAll, List.append_nil, isFront]
  have barrier : ∀ last, closest (makeVariableKey options) (makeVariableKey options checked)
      (front ++ skipped) = some last → last.type ≠ .READ := by
    intro last isLast lastRead
    have marked : (module.markChecks addresses options checks).unmarked checked = false :=
      (unmarked_eq_false_iff numbered place).mpr ⟨decide_eq_true isRead,
        holdsOfLast_eq_true.mpr ⟨last, isLast, decide_eq_true lastRead⟩⟩
    rw [isKept] at marked
    cases marked
  have keeps : ∀ last, closest (makeVariableKey options) (makeVariableKey options checked)
      (front ++ skipped) = some last →
        (module.markChecks addresses options checks).unmarked last = true := by
    intro last isLast
    have earlier := List.mem_of_mem_filter (List.mem_of_getLast? isLast)
    exact unmarked_of_barrier numbered (place ▸ List.mem_append_left _ earlier)
      (barrier last isLast)
  have same := closest_filter keeps
  rw [isBefore, isClosest] at same
  exact barrier previous same.symm

/-- A run over what a first run has kept marks nothing, wherever the values lie. -/
theorem markedCalls_of_kept (module after : Module) (addresses others : Addresses)
    (options : GroupingOptions) (coreCheckSet : List CoreCheckKey)
    (distinct : module.DistinctIds)
    (kept : (after.moduleVariables coreCheckSet).map (policyView options) =
      ((module.moduleVariables coreCheckSet).filter
        (module.markRedundantChecks addresses options coreCheckSet).unmarked).map
          (policyView options)) :
    (after.markRedundantChecks others options coreCheckSet).markedCalls = [] := by
  apply List.eq_nil_iff_forall_not_mem.mpr
  intro inst marked
  have calls : ∀ checked ∈ after.moduleVariables coreCheckSet, checked.checkInst.isSome :=
    fun checked member => checkInst_isSome_of_mem member
  rcases (mem_markChecks_iff_split after others options calls inst).mp marked with
    ⟨before, checked, rest, split, -, isRead, previous, isClosest, previousRead⟩
  rw [split, List.map_append, List.map_cons] at kept
  rcases List.map_eq_append_iff.mp kept.symm with ⟨front, back, whole, isFront, isBack⟩
  rcases List.map_eq_cons_iff.mp isBack with ⟨twin, later, rfl, sameView, -⟩
  rcases Prod.mk.inj sameView with ⟨sameKey, sameType⟩
  have views : ∀ (checks : List CheckedVariable) (key : VariableKey),
      closest Prod.fst key (checks.map (policyView options)) =
        (closest (makeVariableKey options) key checks).map (policyView options) :=
    fun checks key => closest_map Prod.fst (policyView options) key checks
  have seen := views before (makeVariableKey options checked)
  rw [← isFront, views, isClosest, ← sameKey] at seen
  rcases Option.map_eq_some_iff.mp seen with ⟨earlier, isEarlier, earlierView⟩
  have noRead := closest_of_kept (numbered_moduleVariables distinct coreCheckSet) whole
    (sameType.trans isRead) isEarlier
  exact noRead ((Prod.mk.inj earlierView).2.trans previousRead)

/-- The module with two loads of a global, run over again. -/
theorem twice_again :
    (twice.markRedundantChecks .byId {} []).markedCalls = [21] ∧
      (({ twice with functions := (twice.eraseMarkedChecks .inert [21]).functions } :
        Module).markRedundantChecks .byId {} []).markedCalls = [] :=
  ⟨by decide +kernel, markedCalls_of_kept twice
    { twice with functions := (twice.eraseMarkedChecks .inert [21]).functions } .byId .byId {} []
    (by decide) (by decide +kernel)⟩

end Module

end Desan
