import Desan.RedundantCheckEliminator.Marking

/-! # The marked set is the documented policy

In module order, a check is redundant when it is a READ and the closest earlier
check with its key is a READ. -/

namespace Desan

/-! ## Checks in module order -/

/-- Every check of the list comes from a call, and no two from the same one. -/
structure Numbered (checks : List CheckedVariable) : Prop where
  calls : ∀ checked ∈ checks, checked.checkInst.isSome
  distinct : (checks.map CheckedVariable.checkInst).Nodup

theorem Numbered.sublist {checks part : List CheckedVariable} (numbered : Numbered checks)
    (sub : part.Sublist checks) : Numbered part where
  calls := fun checked member => numbered.calls checked (sub.subset member)
  distinct := numbered.distinct.sublist (sub.map _)

theorem Numbered.eq_of_checkInst {checks : List CheckedVariable}
    (numbered : Numbered checks) {left right : CheckedVariable} (leftMember : left ∈ checks)
    (rightMember : right ∈ checks) (equal : left.checkInst = right.checkInst) :
    left = right :=
  List.inj_on_of_nodup_map numbered.distinct leftMember rightMember equal

/-- A call has one place among the checks. -/
theorem Numbered.split_unique {checks before after before' after' : List CheckedVariable}
    {checked checked' : CheckedVariable} (numbered : Numbered checks)
    (split : checks = before ++ checked :: after)
    (split' : checks = before' ++ checked' :: after')
    (sameCall : checked'.checkInst = checked.checkInst) :
    before' = before ∧ checked' = checked := by
  have member : checked ∈ checks := by
    rw [split]
    simp
  have member' : checked' ∈ checks := by
    rw [split']
    simp
  have equal := numbered.eq_of_checkInst member' member sameCall
  have nodup : (before ++ checked :: after).Nodup :=
    split ▸ List.Nodup.of_map _ numbered.distinct
  have parts := List.nodup_append'.mp nodup
  have notAfter : checked ∉ after := (List.nodup_cons.mp parts.2.1).1
  have notBefore : checked ∉ before :=
    fun inside => parts.2.2 inside (List.mem_cons_self ..)
  have same : before ++ checked :: after = before' ++ checked :: after' := by
    rw [← split, split', equal]
  exact ⟨((List.append_cons_inj_of_notMem notBefore notAfter).mp same).1.symm, equal⟩

namespace Module

theorem checkInst_of_analyzeCheck {module : Module} {function : Function} {inst : Inst}
    {checked : CheckedVariable}
    (analyzed : module.analyzeCheck function inst = some checked) :
    checked.checkInst = some inst.id := by
  rw [analyzeCheck] at analyzed
  split at analyzed
  · cases analyzed
    rfl
  · cases analyzed

theorem coreVariable?_eq_some {module : Module} {coreCheckSet : List CoreCheckKey}
    {function : Function} {inst : Inst} {checked : CheckedVariable} :
    module.coreVariable? coreCheckSet function inst = some checked ↔
      (∃ check, module.values.classifyCheck inst.op = some check ∧
        isCoreCheck coreCheckSet check = true) ∧
      module.analyzeCheck function inst = some checked := by
  rw [coreVariable?]
  cases module.values.classifyCheck inst.op with
  | none => simp
  | some check =>
      by_cases core : isCoreCheck coreCheckSet check = true
      · simp [core]
      · simp [core]

theorem checkInst_of_coreVariable? {module : Module} {coreCheckSet : List CoreCheckKey}
    {function : Function} {inst : Inst} {checked : CheckedVariable}
    (core : module.coreVariable? coreCheckSet function inst = some checked) :
    checked.checkInst = some inst.id :=
  checkInst_of_analyzeCheck (coreVariable?_eq_some.mp core).2

theorem mem_functionVariables {module : Module} {coreCheckSet : List CoreCheckKey}
    {function : Function} {checked : CheckedVariable} :
    checked ∈ module.functionVariables coreCheckSet function ↔
      function.isDeclaration = false ∧ ∃ inst ∈ function.instructions,
        module.coreVariable? coreCheckSet function inst = some checked := by
  rw [functionVariables]
  cases function.isDeclaration with
  | true => simp
  | false => simp

theorem mem_moduleVariables {module : Module} {coreCheckSet : List CoreCheckKey}
    {checked : CheckedVariable} :
    checked ∈ module.moduleVariables coreCheckSet ↔
      ∃ function ∈ module.functions, function.isDeclaration = false ∧
        ∃ inst ∈ function.instructions,
          module.coreVariable? coreCheckSet function inst = some checked := by
  simp only [moduleVariables, List.mem_flatMap, mem_functionVariables]

theorem checkInst_isSome_of_mem {module : Module} {coreCheckSet : List CoreCheckKey}
    {checked : CheckedVariable} (member : checked ∈ module.moduleVariables coreCheckSet) :
    checked.checkInst.isSome := by
  rcases mem_moduleVariables.mp member with ⟨function, -, -, inst, -, core⟩
  rw [checkInst_of_coreVariable? core]
  rfl

theorem checkInst_functionVariables_sublist (module : Module)
    (coreCheckSet : List CoreCheckKey) (function : Function) :
    ((module.functionVariables coreCheckSet function).map
      CheckedVariable.checkInst).Sublist
        (function.instructions.map fun inst => some inst.id) := by
  rw [functionVariables]
  split
  · exact List.nil_sublist _
  · induction function.instructions with
    | nil => exact List.Sublist.refl _
    | cons head tail induction =>
        cases core : module.coreVariable? coreCheckSet function head with
        | none =>
            rw [List.filterMap_cons_none core]
            exact induction.cons _
        | some checked =>
            rw [List.filterMap_cons_some core, List.map_cons, List.map_cons,
              checkInst_of_coreVariable? core]
            exact induction.cons_cons _

theorem checkInst_moduleVariables_sublist (module : Module)
    (coreCheckSet : List CoreCheckKey) :
    ((module.moduleVariables coreCheckSet).map CheckedVariable.checkInst).Sublist
      (module.instructions.map fun inst => some inst.id) := by
  rw [moduleVariables, instructions]
  induction module.functions with
  | nil => exact List.Sublist.refl _
  | cons head tail induction =>
      simp only [List.flatMap_cons, List.map_append]
      exact (module.checkInst_functionVariables_sublist coreCheckSet head).append induction

theorem numbered_moduleVariables {module : Module} (distinct : module.DistinctIds)
    (coreCheckSet : List CoreCheckKey) : Numbered (module.moduleVariables coreCheckSet) where
  calls := by
    intro checked member
    rcases mem_moduleVariables.mp member with ⟨function, -, -, inst, -, core⟩
    rw [checkInst_of_coreVariable? core]
    rfl
  distinct := by
    apply List.Nodup.sublist (module.checkInst_moduleVariables_sublist coreCheckSet)
    have somes : (module.instructions.map fun inst => some inst.id) =
        (module.instructions.map Inst.id).map some := by
      rw [List.map_map]
      rfl
    rw [somes]
    exact distinct.insts.map (Option.some_injective _)

/-! ## Marks as repetitions -/

/-- The policy applied to checks in a given order. -/
def markChecks (module : Module) (addresses : Addresses) (options : GroupingOptions)
    (checks : List CheckedVariable) : Marks :=
  module.markGroups (groupBy addresses.variableKeyLess (makeVariableKey options) checks)

theorem grouped_checks (addresses : Addresses) (options : GroupingOptions)
    (checks : List CheckedVariable) :
    Grouped addresses.keyRank (makeVariableKey options) checks
      (groupBy addresses.variableKeyLess (makeVariableKey options) checks) :=
  grouped_groupBy addresses.rankedBy_variableKeyLess _ checks

/-- A group is what the checks hold under the key of any of its members. -/
theorem group_eq_withKey {addresses : Addresses} {options : GroupingOptions}
    {checks : List CheckedVariable} {entry : VariableKey × List CheckedVariable}
    (member : entry ∈
      groupBy addresses.variableKeyLess (makeVariableKey options) checks)
    {checked : CheckedVariable} (inside : checked ∈ entry.2) :
    entry.2 = withKey (makeVariableKey options) (makeVariableKey options checked) checks := by
  have grouped := grouped_checks addresses options checks
  have content := grouped.group_eq entry member
  rw [content] at inside
  have tie := of_decide_eq_true (List.mem_filter.mp inside).2
  rw [content, withKey]
  apply List.filter_congr
  intro other _
  rw [← tie]
  exact decide_eq_decide.mpr (makeVariableKey_rank_eq_iff addresses options other checked)

theorem exists_group (addresses : Addresses) (options : GroupingOptions)
    {checks : List CheckedVariable} {checked : CheckedVariable} (member : checked ∈ checks) :
    ∃ entry ∈ groupBy addresses.variableKeyLess (makeVariableKey options) checks,
      entry.2 = withKey (makeVariableKey options) (makeVariableKey options checked) checks := by
  have grouped := grouped_checks addresses options checks
  rcases grouped.covers checked member with ⟨entry, inside, tie⟩
  refine ⟨entry, inside, group_eq_withKey inside ?_⟩
  rw [grouped.group_eq entry inside]
  exact List.mem_filter.mpr ⟨member, decide_eq_true tie.symm⟩

theorem mem_markChecks (module : Module) (addresses : Addresses) (options : GroupingOptions)
    {checks : List CheckedVariable}
    (calls : ∀ checked ∈ checks, checked.checkInst.isSome) (inst : InstId) :
    inst ∈ (module.markChecks addresses options checks).markedCalls ↔
      ∃ checked ∈ repeated CheckedVariable.isRead false
          (withKey (makeVariableKey options) (makeVariableKey options checked) checks),
        checked.checkInst = some inst := by
  have grouped := grouped_checks addresses options checks
  have groupCalls : ∀ group ∈
      groupBy addresses.variableKeyLess (makeVariableKey options) checks,
      ∀ checked ∈ group.2, checked.checkInst.isSome := by
    intro group member checked inside
    rw [grouped.group_eq group member] at inside
    exact calls checked (List.mem_of_mem_filter inside)
  rw [markChecks, mem_markGroups groupCalls]
  constructor
  · intro found
    rcases found with ⟨group, member, checked, marked, equal⟩
    refine ⟨checked, ?_, equal⟩
    rw [← group_eq_withKey member (repeated_subset _ _ _ marked)]
    exact marked
  · intro found
    rcases found with ⟨checked, marked, equal⟩
    have inside := List.mem_of_mem_filter (repeated_subset _ _ _ marked)
    rcases exists_group addresses options inside with ⟨entry, member, content⟩
    refine ⟨entry, member, checked, ?_, equal⟩
    rw [content]
    exact marked

/-- The marked calls by their places: a READ whose closest earlier check with its key is
a READ. -/
theorem mem_markChecks_iff_split (module : Module) (addresses : Addresses)
    (options : GroupingOptions) {checks : List CheckedVariable}
    (calls : ∀ checked ∈ checks, checked.checkInst.isSome) (inst : InstId) :
    inst ∈ (module.markChecks addresses options checks).markedCalls ↔
      ∃ before checked after, checks = before ++ checked :: after ∧
        checked.checkInst = some inst ∧ checked.type = .READ ∧
        ∃ previous, closest (makeVariableKey options) (makeVariableKey options checked)
          before = some previous ∧ previous.type = .READ := by
  rw [mem_markChecks module addresses options calls]
  constructor
  · intro found
    rcases found with ⟨checked, again, call⟩
    rcases mem_repeated_withKey.mp again with
      ⟨before, after, split, -, isRead, previous, last, previousRead⟩
    exact ⟨before, checked, after, split, call, of_decide_eq_true isRead, previous, last,
      of_decide_eq_true previousRead⟩
  · intro found
    rcases found with ⟨before, checked, after, split, call, isRead, previous, last,
      previousRead⟩
    exact ⟨checked, mem_repeated_withKey.mpr ⟨before, after, split, rfl,
      decide_eq_true isRead, previous, last, decide_eq_true previousRead⟩, call⟩

end Module

/-! ## The policy -/

def Marks.unmarked (marks : Marks) (checked : CheckedVariable) : Bool :=
  match checked.checkInst with
  | none => true
  | some inst => !marks.markedCalls.contains inst

theorem Marks.unmarked_iff {marks : Marks} {checked : CheckedVariable} :
    marks.unmarked checked = true ↔
      ∀ inst, checked.checkInst = some inst → inst ∉ marks.markedCalls := by
  rw [Marks.unmarked]
  cases checked.checkInst with
  | none => simp
  | some inst => simp

namespace Module

/-- A call is a core check of a defined function, a READ, and the closest core check
before it in module order with its key is a READ too. -/
def MarkedByPolicy (module : Module) (options : GroupingOptions)
    (coreCheckSet : List CoreCheckKey) (inst : InstId) : Prop :=
  ∃ function ∈ module.functions, function.isDeclaration = false ∧
    ∃ call ∈ function.instructions, call.id = inst ∧
      ∃ checked, module.coreVariable? coreCheckSet function call = some checked ∧
        checked.type = .READ ∧
        ∃ before after previous,
          module.moduleVariables coreCheckSet = before ++ checked :: after ∧
          closest (makeVariableKey options) (makeVariableKey options checked) before =
            some previous ∧
          previous.type = .READ

section Numbered

variable {module : Module} {addresses : Addresses} {options : GroupingOptions}
  {checks : List CheckedVariable}

/-- Among checks from distinct calls, a check is unmarked unless it repeats a READ
of its own group. -/
theorem unmarked_markChecks_iff (numbered : Numbered checks) {checked : CheckedVariable}
    (member : checked ∈ checks) :
    (module.markChecks addresses options checks).unmarked checked = true ↔
      checked ∉ repeated CheckedVariable.isRead false
        (withKey (makeVariableKey options) (makeVariableKey options checked) checks) := by
  rw [Marks.unmarked_iff]
  constructor
  · intro unmarked marked
    rcases Option.isSome_iff_exists.mp (numbered.calls checked member) with ⟨inst, call⟩
    exact unmarked inst call
      ((mem_markChecks _ _ _ numbered.calls inst).mpr ⟨checked, marked, call⟩)
  · intro kept inst call marked
    rcases (mem_markChecks _ _ _ numbered.calls inst).mp marked with
      ⟨other, otherMarked, otherCall⟩
    have otherMember := List.mem_of_mem_filter (repeated_subset _ _ _ otherMarked)
    have equal := numbered.eq_of_checkInst otherMember member (otherCall.trans call.symm)
    rw [equal] at otherMarked
    exact kept otherMarked

/-- At a given place: a READ whose closest earlier check with its key is a READ. -/
theorem unmarked_eq_false_iff (numbered : Numbered checks)
    {before after : List CheckedVariable} {checked : CheckedVariable}
    (split : checks = before ++ checked :: after) :
    (module.markChecks addresses options checks).unmarked checked = false ↔
      checked.isRead = true ∧
        holdsOfLast CheckedVariable.isRead false
          (withKey (makeVariableKey options) (makeVariableKey options checked) before) =
            true := by
  have member : checked ∈ checks := by
    rw [split]
    simp
  have nodup : (withKey (makeVariableKey options) (makeVariableKey options checked)
      checks).Nodup := (List.Nodup.of_map _ numbered.distinct).filter _
  have keySplit : withKey (makeVariableKey options) (makeVariableKey options checked) checks =
      withKey (makeVariableKey options) (makeVariableKey options checked) before ++
        checked ::
          withKey (makeVariableKey options) (makeVariableKey options checked) after := by
    rw [split, withKey_append]
    simp [withKey]
  rw [← repeated_iff_of_split nodup keySplit, ← not_iff_not, Bool.not_eq_false,
    unmarked_markChecks_iff numbered member]

/-- Before a marked check stands an unmarked READ of its key with nothing but READs of
that key in between. -/
theorem exists_reader (numbered : Numbered checks)
    {before after : List CheckedVariable} {checked : CheckedVariable}
    (split : checks = before ++ checked :: after)
    (marked : (module.markChecks addresses options checks).unmarked checked = false) :
    ∃ front reader between, before = front ++ reader :: between ∧
      reader.type = .READ ∧
      makeVariableKey options reader = makeVariableKey options checked ∧
      (module.markChecks addresses options checks).unmarked reader = true ∧
      ∀ other ∈ between, makeVariableKey options other = makeVariableKey options checked →
        other.type = .READ := by
  have last := ((unmarked_eq_false_iff numbered split).mp marked).2
  rcases exists_leader last with ⟨keyFront, reader, keyBetween, keySplit, isRead, start, all⟩
  rcases List.filter_eq_append_iff.mp keySplit with ⟨front, rest, whole, left, right⟩
  rcases List.filter_eq_cons_iff.mp right with
    ⟨skipped, between, restEqual, none, keyed, betweenEqual⟩
  have sameKey : makeVariableKey options reader = makeVariableKey options checked :=
    of_decide_eq_true keyed
  have beforeEqual : before = (front ++ skipped) ++ reader :: between := by
    rw [whole, restEqual, List.append_assoc]
  have skippedNone : withKey (makeVariableKey options) (makeVariableKey options checked)
      skipped = [] := List.filter_eq_nil_iff.mpr none
  refine ⟨front ++ skipped, reader, between, beforeEqual, of_decide_eq_true isRead, sameKey,
    ?_, ?_⟩
  · have readerSplit : checks = (front ++ skipped) ++ reader :: (between ++ checked :: after) := by
      rw [split, beforeEqual]
      simp
    rw [← Bool.not_eq_false]
    intro readerMarked
    have earlier := ((unmarked_eq_false_iff numbered readerSplit).mp readerMarked).2
    rw [sameKey, withKey_append, skippedNone, List.append_nil, withKey, left, start] at earlier
    cases earlier
  · intro other member equal
    have inside : other ∈ keyBetween := by
      rw [← betweenEqual]
      exact List.mem_filter.mpr ⟨member, decide_eq_true equal⟩
    exact of_decide_eq_true (all other inside)

/-- What is left of a group after the marked checks are taken out. -/
theorem withKey_filter_unmarked (numbered : Numbered checks) (target : VariableKey) :
    withKey (makeVariableKey options) target
        (checks.filter (module.markChecks addresses options checks).unmarked) =
      collapsed CheckedVariable.isRead false
        (withKey (makeVariableKey options) target checks) := by
  have nodup : (withKey (makeVariableKey options) target checks).Nodup :=
    (List.Nodup.of_map _ numbered.distinct).filter _
  rw [← filter_not_repeated CheckedVariable.isRead false nodup, withKey,
    List.filter_comm, ← withKey]
  apply List.filter_congr
  intro checked inside
  have parts := List.mem_filter.mp inside
  have keyed : makeVariableKey options checked = target := of_decide_eq_true parts.2
  rw [Bool.eq_iff_iff, unmarked_markChecks_iff numbered parts.1, keyed]
  simp

theorem unmarked_of_type_ne_read (numbered : Numbered checks) {checked : CheckedVariable}
    (member : checked ∈ checks) (type : checked.type ≠ .READ) :
    (module.markChecks addresses options checks).unmarked checked = true := by
  apply (unmarked_markChecks_iff numbered member).mpr
  intro marked
  rcases mem_repeated.mp marked with ⟨-, -, -, isRead, -⟩
  exact type (of_decide_eq_true isRead)

/-- The first check of a group is never marked. -/
theorem exists_unmarked_of_group (numbered : Numbered checks)
    {entry : VariableKey × List CheckedVariable}
    (member : entry ∈
      groupBy addresses.variableKeyLess (makeVariableKey options) checks) :
    ∃ checked ∈ entry.2,
      (module.markChecks addresses options checks).unmarked checked = true := by
  have grouped := grouped_checks addresses options checks
  cases content : entry.2 with
  | nil => exact absurd content (grouped.group_ne_nil entry member)
  | cons first rest =>
      have inside : first ∈ entry.2 := by
        rw [content]
        exact List.mem_cons_self ..
      have whole := group_eq_withKey member inside
      have firstMember : first ∈ checks := by
        rw [whole] at inside
        exact List.mem_of_mem_filter inside
      refine ⟨first, List.mem_cons_self .., ?_⟩
      apply (unmarked_markChecks_iff numbered firstMember).mpr
      rw [← whole, content]
      intro marked
      have nodup : (first :: rest).Nodup := by
        rw [← content, whole]
        exact (List.Nodup.of_map _ numbered.distinct).filter _
      have fresh := (List.nodup_cons.mp nodup).1
      simp only [repeated, Bool.and_false, Bool.false_eq_true, if_false] at marked
      exact fresh (repeated_subset _ _ _ marked)

/-- The policy has nothing to remove from what it has kept. -/
theorem markChecks_unmarked (numbered : Numbered checks) :
    (module.markChecks addresses options
      (checks.filter (module.markChecks addresses options checks).unmarked)).markedCalls =
        [] := by
  apply List.eq_nil_iff_forall_not_mem.mpr
  intro inst marked
  have kept := numbered.sublist
    (List.filter_sublist (p := (module.markChecks addresses options checks).unmarked))
  rcases (mem_markChecks _ _ _ kept.calls inst).mp marked with ⟨checked, again, -⟩
  rw [withKey_filter_unmarked numbered, repeated_collapsed] at again
  exact List.not_mem_nil again

end Numbered

/-- The marked calls are those the documented policy names. So WRITE and UNKNOWN
checks stay, every group keeps a check, and a second application marks nothing. -/
theorem markRedundantChecks_eq_policy (module : Module) (addresses : Addresses)
    (options : GroupingOptions) (coreCheckSet : List CoreCheckKey)
    (distinct : module.DistinctIds) :
    (∀ inst, inst ∈
        (module.markRedundantChecks addresses options coreCheckSet).markedCalls ↔
      module.MarkedByPolicy options coreCheckSet inst) ∧
    (∀ checked ∈ module.moduleVariables coreCheckSet, checked.type ≠ .READ →
      (module.markRedundantChecks addresses options coreCheckSet).unmarked checked =
        true) ∧
    (∀ group ∈ module.groupChecksByVariable addresses options coreCheckSet,
      ∃ checked ∈ group.2,
        (module.markRedundantChecks addresses options coreCheckSet).unmarked checked =
          true) ∧
    (module.markChecks addresses options
      ((module.moduleVariables coreCheckSet).filter
        (module.markRedundantChecks addresses options coreCheckSet).unmarked)).markedCalls =
      [] := by
  have numbered := numbered_moduleVariables distinct coreCheckSet
  refine ⟨?_, ?_, ?_, ?_⟩
  · intro inst
    rw [markRedundantChecks, groupChecksByVariable, ← markChecks,
      mem_markChecks_iff_split module addresses options numbered.calls]
    constructor
    · intro found
      rcases found with ⟨before, checked, after, split, call, rest⟩
      have member : checked ∈ module.moduleVariables coreCheckSet := by
        rw [split]
        simp
      rcases mem_moduleVariables.mp member with
        ⟨function, functionMember, defined, caller, callerMember, core⟩
      have sameCall : caller.id = inst := by
        rw [checkInst_of_coreVariable? core] at call
        exact Option.some.inj call
      rcases rest with ⟨isRead, previous, last, previousRead⟩
      exact ⟨function, functionMember, defined, caller, callerMember, sameCall, checked,
        core, isRead, before, after, previous, split, last, previousRead⟩
    · intro policy
      rcases policy with ⟨function, -, -, caller, -, sameCall, checked, core, isRead,
        before, after, previous, split, last, previousRead⟩
      refine ⟨before, checked, after, split, ?_, isRead, previous, last, previousRead⟩
      rw [checkInst_of_coreVariable? core, sameCall]
  · intro checked member type
    exact unmarked_of_type_ne_read numbered member type
  · intro group member
    exact exists_unmarked_of_group numbered member
  · exact markChecks_unmarked numbered

/-! ## A sample

One block checks the same address four times: load, store, load, load. -/

def sampleValues : ValueTable where
  value
    | 0 => ⟨.constant (.function "__asan_load4" .notIntrinsic), .pointer⟩
    | 1 => ⟨.constant (.function "__asan_store4" .notIntrinsic), .pointer⟩
    | 2 => ⟨.constant .globalVariable, .pointer⟩
    | 3 => ⟨.argument, .integer 64⟩
    | _ => ⟨.argument, .integer 1⟩
  count := 5

def sampleCall (id : InstId) (callee address : Nat) : Inst :=
  ⟨id, .other 0, .call { calledOperand := .other callee, args := [.other address] }⟩

theorem isCheck_sampleCall (id : InstId) :
    sampleValues.isCheck (sampleCall id 0 3).op = true := by
  have load : sampleValues.isCheck
      (.call { calledOperand := .other 0, args := [.other 3] }) = true := by
    decide +kernel
  exact load

def sampleChecked (id : InstId) (type : AccessType) : CheckedVariable where
  base := some (.other 3)
  hasStaticByteOffset := true
  accessSize := 4
  type := type
  sanitizer := .ASan
  checkInst := some id

def sample : Module where
  functions :=
    [{ name := "f"
       blocks :=
         [{ id := 0
            insts := [sampleCall 0 0 3, sampleCall 1 1 3, sampleCall 2 0 3, sampleCall 3 0 3]
            terminator := ⟨4, .other 0, .ret none⟩ }] }]
  values := sampleValues
  dataLayout := ⟨64, 8⟩

theorem sample_markedByPolicy :
    sample.DistinctIds ∧ sample.MarkedByPolicy {} [] 3 ∧ ¬sample.MarkedByPolicy {} [] 2 :=
  have policy := (markRedundantChecks_eq_policy sample .byId {} [] (by decide)).1
  ⟨by decide, (policy 3).mp (by decide +kernel),
    fun marked => absurd ((policy 2).mpr marked) (by decide +kernel)⟩

end Module

end Desan
