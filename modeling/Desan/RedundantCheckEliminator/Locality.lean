import Desan.RedundantCheckEliminator.Coverage

/-! # Marks of one function

Groups span the module. What the other functions of a module can change about the
marks of a function is the first check of each of its groups, and nothing else. -/

namespace Desan

/-! ## The analysis of a check sees its own function -/

namespace CheckContext

/-- Whether the walk over the uses of a value looks at a user. -/
def sees (context : CheckContext) (user : InstId) : Bool := (context.function.inst? user).isSome

theorem foldl_scanUser (context : CheckContext) (current : Value) (users : List InstId)
    (scan : UseScan) :
    users.foldl (context.scanUser current) scan =
      (users.filter context.sees).foldl (context.scanUser current) scan := by
  induction users generalizing scan with
  | nil => rfl
  | cons head tail induction =>
      by_cases seen : context.sees head = true
      · rw [List.filter_cons_of_pos seen, List.foldl_cons, List.foldl_cons]
        exact induction _
      · have outside : (context.function.inst? head).isNone = true := by
          rw [sees, Bool.not_eq_true, Option.isSome_eq_false_iff] at seen
          exact seen
        have skipped : context.scanUser current scan head = scan := by
          rw [scanUser, if_pos (Or.inl outside)]
        rw [List.filter_cons_of_neg seen, List.foldl_cons, skipped]
        exact induction scan

/-- The same check in another module with the same function. -/
def moved (context : CheckContext) (moduleGraph : ValueGraph)
    (users : Value → List InstId) : CheckContext :=
  { context with moduleGraph := moduleGraph, users := users }

section Moved

variable {context : CheckContext} {moduleGraph : ValueGraph} {users : Value → List InstId}

theorem scanValue_moved
    (same : ∀ value, (users value).filter context.sees =
      (context.users value).filter context.sees) (scan : UseScan) (current : Value) :
    (context.moved moduleGraph users).scanValue scan current =
      context.scanValue scan current := by
  rw [scanValue, scanValue]
  split
  · rfl
  · rw [foldl_scanUser, foldl_scanUser context, ← same current]
    rfl

theorem inferAccessTypeFromUses_moved
    (same : ∀ value, (users value).filter context.sees =
      (context.users value).filter context.sees) :
    (context.moved moduleGraph users).inferAccessTypeFromUses =
      context.inferAccessTypeFromUses := by
  have values : (context.moved moduleGraph users).scanValue = context.scanValue := by
    funext scan current
    exact scanValue_moved same scan current
  have levels : ∀ fuel scan worklist,
      (context.moved moduleGraph users).scanLevels fuel scan worklist =
        context.scanLevels fuel scan worklist := by
    intro fuel
    induction fuel with
    | zero =>
        intro scan worklist
        rfl
    | succ fuel induction =>
        intro scan worklist
        cases worklist with
        | nil => rfl
        | cons head tail =>
            simp only [scanLevels, values]
            exact induction _ _
  funext value
  rw [inferAccessTypeFromUses, inferAccessTypeFromUses, levels]

theorem inferAccessType_moved
    (same : ∀ value, (users value).filter context.sees =
      (context.users value).filter context.sees) (site : CallSite)
    (check : ClassifiedCheck) :
    (context.moved moduleGraph users).inferAccessType site check =
      context.inferAccessType site check := by
  have uses := @inferAccessTypeFromUses_moved context moduleGraph users same
  have operand : (context.moved moduleGraph users).getCheckedOperand site check =
      context.getCheckedOperand site check := rfl
  have ubsan : (context.moved moduleGraph users).inferUBSanAccessType =
      context.inferUBSanAccessType := by
    funext value
    cases value with
    | none => rfl
    | some value =>
        rw [inferUBSanAccessType, inferUBSanAccessType, uses]
        rfl
  rw [inferAccessType, inferAccessType, operand, ubsan, uses]

end Moved

end CheckContext

/-- A checked variable up to its access size, which no key and no mark depends on. -/
def CheckedVariable.unsized (checked : CheckedVariable) : CheckedVariable :=
  { checked with accessSize := 0 }

namespace Function

theorem mem_of_mem_users {function : Function} {value : Value} {user : InstId}
    (member : user ∈ function.users value) : user ∈ function.instructions.map Inst.id := by
  rcases mem_users.mp member with ⟨inst, inside, equal, -⟩
  exact List.mem_map.mpr ⟨inst, inside, equal⟩

end Function

namespace Module

/-- The module with every other function turned into a declaration. -/
def isolate (module : Module) (function : Function) : Module :=
  { module with
    functions := module.functions.map fun other =>
      if other = function then other else { other with blocks := [] } }

/-- In its own function a value has the same users in the isolated module. -/
theorem filter_users_isolate {module : Module} (distinct : module.DistinctIds)
    {function : Function} (member : function ∈ module.functions) (value : Value) :
    ((module.isolate function).users value).filter
        (fun user => (function.inst? user).isSome) =
      (module.users value).filter fun user => (function.inst? user).isSome := by
  have each : ∀ other ∈ module.functions,
      ((if other = function then other else { other with blocks := [] }).users value).filter
          (fun user => (function.inst? user).isSome) =
        (other.users value).filter fun user => (function.inst? user).isSome := by
    intro other otherMember
    by_cases equal : other = function
    · rw [if_pos equal]
    · rw [if_neg equal]
      have none : (other.users value).filter (fun user => (function.inst? user).isSome) = [] := by
        apply List.filter_eq_nil_iff.mpr
        intro user inside seen
        exact equal (distinct.function_eq otherMember member
          (Function.mem_of_mem_users inside) (Function.inst?_isSome.mp seen))
      rw [none]
      rfl
  rw [users, users, isolate, List.flatMap_map, List.filter_flatMap, List.filter_flatMap]
  apply List.flatMap_congr
  exact each

theorem unsized_coreVariable?_isolate {module : Module} (distinct : module.DistinctIds)
    {function : Function} (member : function ∈ module.functions)
    (coreCheckSet : List CoreCheckKey) (inst : Inst) :
    ((module.isolate function).coreVariable? coreCheckSet function inst).map
        CheckedVariable.unsized =
      (module.coreVariable? coreCheckSet function inst).map CheckedVariable.unsized := by
  have context : (module.isolate function).checkContext function inst.id =
      (module.checkContext function inst.id).moved (module.isolate function).graph
        (module.isolate function).users := rfl
  have values : (module.isolate function).values = module.values := rfl
  rw [coreVariable?, coreVariable?, values]
  cases classified : module.values.classifyCheck inst.op with
  | none => rfl
  | some check =>
      by_cases core : isCoreCheck coreCheckSet check = true
      · simp only [core, if_true]
        rw [analyzeCheck, analyzeCheck, values, classified]
        cases inst.op.callSite? with
        | none => rfl
        | some site =>
            have type : ((module.isolate function).checkContext function
                inst.id).inferAccessType site check =
                  (module.checkContext function inst.id).inferAccessType site check := by
              have same : ∀ value, ((module.isolate function).users value).filter
                  (module.checkContext function inst.id).sees =
                    ((module.checkContext function inst.id).users value).filter
                      (module.checkContext function inst.id).sees :=
                filter_users_isolate distinct member
              rw [context]
              exact CheckContext.inferAccessType_moved same site check
            simp only [Option.map_some, Option.some.injEq]
            rw [CheckContext.analyzeCall, CheckContext.analyzeCall, type]
            rfl
      · simp [core]

theorem unsized_functionVariables_isolate {module : Module} (distinct : module.DistinctIds)
    {function : Function} (member : function ∈ module.functions)
    (coreCheckSet : List CoreCheckKey) :
    ((module.isolate function).functionVariables coreCheckSet function).map
        CheckedVariable.unsized =
      (module.functionVariables coreCheckSet function).map CheckedVariable.unsized := by
  rw [functionVariables, functionVariables]
  split
  · rfl
  · rw [List.map_filterMap, List.map_filterMap]
    apply List.filterMap_congr
    intro inst _
    exact unsized_coreVariable?_isolate distinct member coreCheckSet inst

/-! ## Marks across functions -/

theorem makeVariableKey_unsized (options : GroupingOptions) (checked : CheckedVariable) :
    makeVariableKey options checked.unsized = makeVariableKey options checked := rfl

/-- A READ among the given checks whose closest earlier check with its key is a READ. -/
def RedundantAmong (options : GroupingOptions) (checks : List CheckedVariable)
    (inst : InstId) : Prop :=
  ∃ before checked after, checks = before ++ checked :: after ∧
    checked.checkInst = some inst ∧ checked.type = .READ ∧
    ∃ previous, closest (makeVariableKey options) (makeVariableKey options checked) before =
      some previous ∧ previous.type = .READ

theorem redundantAmong_unsized {options : GroupingOptions} {checks : List CheckedVariable}
    {inst : InstId} :
    RedundantAmong options (checks.map CheckedVariable.unsized) inst ↔
      RedundantAmong options checks inst := by
  have keys : makeVariableKey options ∘ CheckedVariable.unsized = makeVariableKey options := rfl
  constructor
  · intro redundant
    rcases redundant with ⟨before, checked, after, split, call, isRead, previous, last,
      previousRead⟩
    rcases List.map_eq_append_iff.mp split with ⟨front, rest, whole, frontEqual, restEqual⟩
    rcases List.map_eq_cons_iff.mp restEqual with ⟨origin, back, restSplit, same, -⟩
    rw [← frontEqual, ← same, closest_map, keys] at last
    rcases Option.map_eq_some_iff.mp last with ⟨earlier, lastEarlier, earlierEqual⟩
    rw [← same] at call isRead
    rw [← earlierEqual] at previousRead
    exact ⟨front, origin, back, by rw [whole, restSplit], call, isRead, earlier, lastEarlier,
      previousRead⟩
  · intro redundant
    rcases redundant with ⟨before, checked, after, split, call, isRead, previous, last,
      previousRead⟩
    refine ⟨before.map .unsized, checked.unsized, after.map .unsized, ?_, call, isRead,
      previous.unsized, ?_, previousRead⟩
    · rw [split, List.map_append, List.map_cons]
    · rw [closest_map, keys, makeVariableKey_unsized, last, Option.map_some]

theorem mem_markRedundantChecks (module : Module) (addresses : Addresses)
    (options : GroupingOptions) (coreCheckSet : List CoreCheckKey)
    (distinct : module.DistinctIds) (inst : InstId) :
    inst ∈ (module.markRedundantChecks addresses options coreCheckSet).markedCalls ↔
      RedundantAmong options (module.moduleVariables coreCheckSet) inst :=
  mem_markChecks_iff_split module addresses options
    (numbered_moduleVariables distinct coreCheckSet).calls inst

/-- The checks of the functions before and after a function in the module. -/
def variablesOf (module : Module) (coreCheckSet : List CoreCheckKey)
    (functions : List Function) : List CheckedVariable :=
  functions.flatMap (module.functionVariables coreCheckSet)

theorem isolate_moduleVariables {module : Module} (distinct : module.DistinctIds)
    {earlier later : List Function} {function : Function}
    (split : module.functions = earlier ++ function :: later)
    (defined : function.instructions ≠ []) (coreCheckSet : List CoreCheckKey) :
    (module.isolate function).moduleVariables coreCheckSet =
      (module.isolate function).functionVariables coreCheckSet function := by
  have others : ∀ functions : List Function, (∀ other ∈ functions, other ≠ function) →
      (functions.map fun other => if other = function then other else
        { other with blocks := [] }).flatMap
          ((module.isolate function).functionVariables coreCheckSet) = [] := by
    intro functions different
    apply List.flatMap_eq_nil_iff.mpr
    intro declaration member
    rcases List.mem_map.mp member with ⟨other, otherMember, equal⟩
    rw [if_neg (different other otherMember)] at equal
    rw [← equal]
    rfl
  have nodup := distinct.insts
  rw [map_id_instructions, split, List.flatMap_append, List.flatMap_cons] at nodup
  have outer := List.nodup_append'.mp nodup
  have inner := List.nodup_append'.mp outer.2.1
  rcases List.exists_mem_of_ne_nil _ defined with ⟨some, someMember⟩
  have someId := List.mem_map_of_mem (f := Inst.id) someMember
  have earlierOther : ∀ other ∈ earlier, other ≠ function := by
    intro other member equal
    rw [equal] at member
    exact outer.2.2 (List.mem_flatMap.mpr ⟨function, member, someId⟩)
      (List.mem_append_left _ someId)
  have laterOther : ∀ other ∈ later, other ≠ function := by
    intro other member equal
    rw [equal] at member
    exact inner.2.2 someId (List.mem_flatMap.mpr ⟨function, member, someId⟩)
  have functions : (module.isolate function).functions =
      (earlier.map fun other => if other = function then other else
        { other with blocks := [] }) ++
      function :: later.map fun other => if other = function then other else
        { other with blocks := [] } := by
    rw [isolate, split, List.map_append, List.map_cons, if_pos rfl]
  rw [moduleVariables, functions, List.flatMap_append, List.flatMap_cons,
    others earlier earlierOther, others later laterOther, List.nil_append, List.append_nil]

theorem distinctIds_isolate {module : Module} (distinct : module.DistinctIds)
    (function : Function) : (module.isolate function).DistinctIds where
  insts := by
    have sub : ((module.isolate function).instructions.map Inst.id).Sublist
        (module.instructions.map Inst.id) := by
      rw [map_id_instructions, map_id_instructions, isolate]
      induction module.functions with
      | nil => exact List.Sublist.refl _
      | cons head tail induction =>
          rw [List.map_cons, List.flatMap_cons, List.flatMap_cons]
          refine List.Sublist.append ?_ induction
          by_cases equal : head = function
          · rw [if_pos equal]
          · rw [if_neg equal]
            exact List.nil_sublist _
    exact distinct.insts.sublist sub
  blocks := by
    intro other member
    rcases List.mem_map.mp member with ⟨origin, originMember, equal⟩
    by_cases same : origin = function
    · rw [if_pos same] at equal
      rw [← equal]
      exact distinct.blocks origin originMember
    · rw [if_neg same] at equal
      rw [← equal]
      exact List.nodup_nil

/-- The first check of its key in the function, a READ, after a READ of that key in an
earlier function. -/
def FirstAfterRead (module : Module) (options : GroupingOptions)
    (coreCheckSet : List CoreCheckKey) (function : Function) (inst : InstId) : Prop :=
  ∃ earlier later before checked after previous,
    module.functions = earlier ++ function :: later ∧
    module.functionVariables coreCheckSet function = before ++ checked :: after ∧
    checked.checkInst = some inst ∧ checked.type = .READ ∧
    withKey (makeVariableKey options) (makeVariableKey options checked) before = [] ∧
    closest (makeVariableKey options) (makeVariableKey options checked)
      (module.variablesOf coreCheckSet earlier) = some previous ∧
    previous.type = .READ

section Place

variable {module : Module} {coreCheckSet : List CoreCheckKey} {function : Function}
  {checked : CheckedVariable}

/-- Where a check of a function stands among those of the module. -/
theorem moduleVariables_of_split {earlier later : List Function}
    {before after : List CheckedVariable}
    (functions : module.functions = earlier ++ function :: later)
    (own : module.functionVariables coreCheckSet function = before ++ checked :: after) :
    module.moduleVariables coreCheckSet =
      (module.variablesOf coreCheckSet earlier ++ before) ++
        checked :: (after ++ module.variablesOf coreCheckSet later) := by
  rw [moduleVariables, functions, List.flatMap_append, List.flatMap_cons, own,
    ← variablesOf, ← variablesOf]
  simp

/-- A check of the module with a call of the function is one of the function's. -/
theorem mem_functionVariables_of_call (distinct : module.DistinctIds)
    (member : function ∈ module.functions) {inst : InstId}
    (inside : inst ∈ function.instructions.map Inst.id)
    (inModule : checked ∈ module.moduleVariables coreCheckSet)
    (call : checked.checkInst = some inst) :
    checked ∈ module.functionVariables coreCheckSet function := by
  rcases mem_moduleVariables.mp inModule with
    ⟨other, otherMember, defined, caller, callerMember, core⟩
  have callerId : caller.id = inst := by
    rw [checkInst_of_coreVariable? core] at call
    exact Option.some.inj call
  have inOther : inst ∈ other.instructions.map Inst.id :=
    List.mem_map.mpr ⟨caller, callerMember, callerId⟩
  rw [distinct.function_eq otherMember member inOther inside] at defined callerMember core
  exact mem_functionVariables.mpr ⟨defined, caller, callerMember, core⟩

end Place

/-- In isolation the same calls of a function are marked, except that the first check of
a key is never marked: in the module it is if it is a READ and the closest earlier check
of its key, in an earlier function, is a READ. -/
theorem mem_markedCalls_isolate (module : Module) (addresses : Addresses)
    (options : GroupingOptions) (coreCheckSet : List CoreCheckKey) (function : Function)
    (distinct : module.DistinctIds) (member : function ∈ module.functions) (inst : InstId)
    (inside : inst ∈ function.instructions.map Inst.id) :
    (inst ∈ (module.markRedundantChecks addresses options coreCheckSet).markedCalls ↔
      inst ∈ ((module.isolate function).markRedundantChecks addresses options
        coreCheckSet).markedCalls ∨
      module.FirstAfterRead options coreCheckSet function inst) ∧
    (module.FirstAfterRead options coreCheckSet function inst →
      inst ∉ ((module.isolate function).markRedundantChecks addresses options
        coreCheckSet).markedCalls) := by
  have defined : function.instructions ≠ [] := by
    intro empty
    rw [empty] at inside
    cases inside
  have isolated : inst ∈ ((module.isolate function).markRedundantChecks addresses options
      coreCheckSet).markedCalls ↔
        RedundantAmong options (module.functionVariables coreCheckSet function) inst := by
    rcases List.append_of_mem member with ⟨earlier, later, split⟩
    rw [mem_markRedundantChecks _ _ _ _ (distinctIds_isolate distinct function),
      isolate_moduleVariables distinct split defined, ← redundantAmong_unsized,
      unsized_functionVariables_isolate distinct member, redundantAmong_unsized]
  have numbered := numbered_moduleVariables distinct coreCheckSet
  rw [isolated, mem_markRedundantChecks _ _ _ _ distinct]
  refine ⟨⟨?_, ?_⟩, ?_⟩
  · intro redundant
    rcases redundant with ⟨before, checked, after, split, call, isRead, previous, last,
      previousRead⟩
    have inModule : checked ∈ module.moduleVariables coreCheckSet := by
      rw [split]
      simp
    have inFunction := mem_functionVariables_of_call distinct member inside inModule call
    rcases List.append_of_mem member with ⟨earlier, later, functions⟩
    rcases List.append_of_mem inFunction with ⟨front, back, functionSplit⟩
    have inModule := moduleVariables_of_split functions functionSplit
    have beforeEqual := (numbered.split_unique inModule split rfl).1
    rw [beforeEqual, closest_append] at last
    cases own : closest (makeVariableKey options) (makeVariableKey options checked) front with
    | some earlierOwn =>
        rw [own, Option.some_or, Option.some.injEq] at last
        rw [← last] at previousRead
        exact .inl ⟨front, checked, back, functionSplit, call, isRead, earlierOwn, own,
          previousRead⟩
    | none =>
        rw [own, Option.none_or] at last
        exact .inr ⟨earlier, later, front, checked, back, previous, functions, functionSplit,
          call, isRead, closest_eq_none.mp own, last, previousRead⟩
  · intro cases
    rcases cases with own | first
    · rcases own with ⟨before, checked, after, split, call, isRead, previous, last,
        previousRead⟩
      rcases List.append_of_mem member with ⟨earlier, later, functions⟩
      refine ⟨_, checked, _, moduleVariables_of_split functions split, call, isRead, previous,
        ?_, previousRead⟩
      rw [closest_append, last, Option.some_or]
    · rcases first with ⟨earlier, later, before, checked, after, previous, functions, split,
        call, isRead, none, last, previousRead⟩
      refine ⟨_, checked, _, moduleVariables_of_split functions split, call, isRead, previous,
        ?_, previousRead⟩
      rw [closest_append, closest_eq_none.mpr none, Option.none_or, last]
  · intro first own
    rcases first with ⟨earlier, later, before, checked, after, previous, functions, split,
      call, isRead, none, last, previousRead⟩
    rcases own with ⟨before', checked', after', split', call', -, previous', last', -⟩
    have sub : (module.functionVariables coreCheckSet function).Sublist
        (module.moduleVariables coreCheckSet) := by
      rw [moduleVariables_of_split functions split, split]
      exact ((List.sublist_append_right _ _).append
        ((List.sublist_append_left _ _).cons_cons _))
    have same := (numbered.sublist sub).split_unique split split' (call'.trans call.symm)
    rw [same.1, same.2, closest_eq_none.mpr none] at last'
    cases last'

/-- Two functions that each load the same global. -/
def loadGlobal (name : String) (load terminator : InstId) : Function where
  name := name
  blocks :=
    [{ id := 0, insts := [sampleCall load 0 2], terminator := ⟨terminator, .other 0, .ret none⟩ }]

def sharedGlobal : Module where
  functions := [loadGlobal "f" 0 1, loadGlobal "g" 2 3]
  values := sampleValues
  dataLayout := ⟨64, 8⟩

theorem sharedGlobal_firstAfterRead :
    sharedGlobal.FirstAfterRead {} [] (loadGlobal "g" 2 3) 2 := by
  have parts := mem_markedCalls_isolate sharedGlobal .byId {} [] (loadGlobal "g" 2 3)
    (by decide) (by decide) 2 (by decide)
  have marked : 2 ∈ (sharedGlobal.markRedundantChecks .byId {} []).markedCalls := by
    decide +kernel
  rcases parts.1.mp marked with isolated | first
  · have none : 2 ∉ ((sharedGlobal.isolate (loadGlobal "g" 2 3)).markRedundantChecks
        .byId {} []).markedCalls := by decide +kernel
    exact absurd isolated none
  · exact first

/-- The load in the second function is marked because of the load in the first. -/
theorem sharedGlobal_marks_differ :
    (sharedGlobal.markRedundantChecks .byId {} []).markedCalls = [2] ∧
      ((sharedGlobal.isolate (loadGlobal "g" 2 3)).markRedundantChecks
        .byId {} []).markedCalls = [] := by
  decide +kernel

end Module

end Desan
