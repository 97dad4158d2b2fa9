import Desan.CheckedVariableAnalyzer.Respelling
import Desan.CheckGraphBuilder.Graph
import Desan.RedundantCheckEliminator.Coverage

/-! # A module in another spelling

All of the pipeline reads callee names through the collector or undoes the spelling
itself, but one test: `isASanReportCall` asks for the plain name. -/

namespace Desan

/-! ## Modules -/

/-- A runtime function is declared under the name it is called by. -/
def Function.respell (function : Function) (respelling : Respelling) : Function :=
  if function.isDeclaration then { function with name := respelling.spell function.name }
  else function

theorem Function.blocks_respell (function : Function) (respelling : Respelling) :
    (function.respell respelling).blocks = function.blocks := by
  rw [Function.respell]
  split <;> rfl

theorem Function.instructions_respell (function : Function) (respelling : Respelling) :
    (function.respell respelling).instructions = function.instructions := by
  rw [Function.instructions, Function.instructions, blocks_respell]

theorem Function.isDeclaration_respell (function : Function) (respelling : Respelling) :
    (function.respell respelling).isDeclaration = function.isDeclaration := by
  rw [Function.isDeclaration, Function.isDeclaration, blocks_respell]

theorem Function.respell_of_body {function : Function} {respelling : Respelling}
    (body : function.isDeclaration = false) : function.respell respelling = function := by
  simp [Function.respell, body]

namespace Module

/-- The module with the names of runtime functions changed. -/
def respell (module : Module) (respelling : Respelling) : Module where
  functions := module.functions.map fun function => function.respell respelling
  values := module.values.respell respelling
  dataLayout := module.dataLayout

variable (module : Module) (respelling : Respelling)

theorem instructions_respell :
    (module.respell respelling).instructions = module.instructions := by
  simp only [instructions, respell, List.flatMap_map, Function.instructions_respell]

theorem inst?_respell : (module.respell respelling).inst? = module.inst? := by
  funext inst
  rw [inst?, inst?, instructions_respell]

theorem users_respell : (module.respell respelling).users = module.users := by
  funext value
  simp only [users, respell, List.flatMap_map, Function.users, Function.instructions_respell]

theorem functionOf?_respell : (module.respell respelling).functionOf? = module.functionOf? := by
  funext inst
  have asked : ((fun function => (Function.inst? function inst).isSome) ∘
      fun function => function.respell respelling) =
        fun function => (Function.inst? function inst).isSome := by
    funext function
    simp only [Function.comp_apply, Function.inst?, Function.instructions_respell]
  rw [functionOf?, functionOf?, respell, List.find?_map, asked]
  cases found : module.functions.find? fun function => (function.inst? inst).isSome with
  | none => rfl
  | some function =>
      have present := List.find?_some found
      have body : function.isDeclaration = false := by
        rw [← Bool.not_eq_true, Function.isDeclaration, List.isEmpty_iff]
        intro empty
        rw [Function.inst?, Function.instructions, empty] at present
        cases present
      rw [Option.map_some, Function.respell_of_body body]

theorem filter_respell :
    ((module.respell respelling).functions.filter fun function => !function.isDeclaration) =
      module.functions.filter fun function => !function.isDeclaration := by
  have asked : ((fun function => !Function.isDeclaration function) ∘
      fun function => function.respell respelling) =
        fun function => !Function.isDeclaration function := by
    funext function
    rw [Function.comp_apply, Function.isDeclaration_respell]
  rw [respell, List.filter_map, asked]
  have same : ∀ function ∈ module.functions.filter fun function => !function.isDeclaration,
      function.respell respelling = function := by
    intro function member
    apply Function.respell_of_body
    simpa using (List.mem_filter.mp member).2
  calc (module.functions.filter fun function => !function.isDeclaration).map
        (fun function => function.respell respelling)
      = (module.functions.filter fun function => !function.isDeclaration).map id :=
        List.map_congr_left same
    _ = _ := List.map_id _

theorem graph_respell :
    (module.respell respelling).graph = module.graph.respell respelling := by
  simp only [graph, inst?_respell, instructions_respell]
  rfl

theorem checkContext_respell (function : Function) (check : InstId) :
    (module.respell respelling).checkContext function check =
      (module.checkContext function check).respell respelling := by
  simp only [checkContext, graph_respell, users_respell]
  rfl

/-! ## Checks and groups -/

theorem collectModule_respell (collector : SanitizerCheckCollector) :
    collector.collectModule (module.respell respelling) = collector.collectModule module := by
  have classified : (module.respell respelling).values.classifyCheck =
      module.values.classifyCheck := by
    funext op
    exact module.values.classifyCheck_respell respelling op
  simp only [SanitizerCheckCollector.collectModule, filter_respell,
    SanitizerCheckCollector.collectChecks, classified]

theorem analyzeCheck_respell :
    (module.respell respelling).analyzeCheck = module.analyzeCheck := by
  funext function inst
  have classified : (module.respell respelling).values.classifyCheck inst.op =
      module.values.classifyCheck inst.op := module.values.classifyCheck_respell respelling inst.op
  rw [analyzeCheck, analyzeCheck, classified]
  simp only [checkContext_respell, CheckContext.analyzeCall_respell]

theorem coreVariable?_respell (coreCheckSet : List CoreCheckKey) :
    (module.respell respelling).coreVariable? coreCheckSet =
      module.coreVariable? coreCheckSet := by
  funext function inst
  have classified : (module.respell respelling).values.classifyCheck inst.op =
      module.values.classifyCheck inst.op := module.values.classifyCheck_respell respelling inst.op
  rw [coreVariable?, coreVariable?, classified, analyzeCheck_respell]

theorem functionVariables_respell (coreCheckSet : List CoreCheckKey) (function : Function) :
    (module.respell respelling).functionVariables coreCheckSet (function.respell respelling) =
      module.functionVariables coreCheckSet function := by
  rw [functionVariables, functionVariables, Function.isDeclaration_respell,
    coreVariable?_respell]
  cases body : function.isDeclaration with
  | true => rw [if_pos rfl, if_pos rfl]
  | false => rw [Function.respell_of_body body]

theorem moduleVariables_respell (coreCheckSet : List CoreCheckKey) :
    (module.respell respelling).moduleVariables coreCheckSet =
      module.moduleVariables coreCheckSet := by
  rw [moduleVariables, moduleVariables]
  have functions : (module.respell respelling).functions =
      module.functions.map fun function => function.respell respelling := rfl
  rw [functions, List.flatMap_map]
  simp only [functionVariables_respell]

theorem groupChecksByVariable_respell (addresses : Addresses) (options : GroupingOptions)
    (coreCheckSet : List CoreCheckKey) :
    (module.respell respelling).groupChecksByVariable addresses options coreCheckSet =
      module.groupChecksByVariable addresses options coreCheckSet := by
  rw [groupChecksByVariable, groupChecksByVariable, moduleVariables_respell]

theorem markForRemoval_respell :
    (module.respell respelling).markForRemoval = module.markForRemoval := by
  funext marks checked type
  simp only [markForRemoval, basicBlockName, functionOf?_respell]

theorem markGroup_respell (retention : ReadRetentionState) (group : List CheckedVariable)
    (marks : Marks) :
    (module.respell respelling).markGroup retention group marks =
      module.markGroup retention group marks := by
  induction group generalizing retention marks with
  | nil => rfl
  | cons head tail induction => simp only [markGroup, markForRemoval_respell, induction]

theorem markRedundantChecks_respell (addresses : Addresses) (options : GroupingOptions)
    (coreCheckSet : List CoreCheckKey) :
    (module.respell respelling).markRedundantChecks addresses options coreCheckSet =
      module.markRedundantChecks addresses options coreCheckSet := by
  simp only [markRedundantChecks, groupChecksByVariable_respell, markGroups,
    markGroup_respell]

end Module

/-! ## Anchors -/

namespace ValueTable

/-- A call that reports an ASan error by name, to a function that has got another
spelling. -/
def hidesReport (values : ValueTable) (respelling : Respelling) (site : CallSite) : Bool :=
  match values.calledFunction? site with
  | none => false
  | some (name, _) => values.isASanReportCall site && respelling.spell name != name

variable (values : ValueTable) (respelling : Respelling)

@[simp] theorem isMemSanReportCall_respell (site : CallSite) :
    (values.respell respelling).isMemSanReportCall site = values.isMemSanReportCall site := by
  rw [isMemSanReportCall, isMemSanReportCall, calledFunction?_respell]
  cases values.calledFunction? site with
  | none => rfl
  | some called => exact respelling.startsWith_msanName_spell_warning called.1

theorem isMemSanReportCall_of_isASanReportCall {site : CallSite}
    (report : values.isASanReportCall site = true) : values.isMemSanReportCall site = false := by
  rw [isASanReportCall] at report
  rw [isMemSanReportCall]
  cases called : values.calledFunction? site with
  | none => rfl
  | some function =>
      rw [called] at report
      rcases function with ⟨name, intrinsic⟩
      simp only [Bool.or_eq_true] at report
      have starts : startsWith name "__asan_" = true := by
        rcases report with (((load | store) | expLoad) | expStore) | error
        · exact Respelling.startsWith_of_longer (by decide +kernel) load
        · exact Respelling.startsWith_of_longer (by decide +kernel) store
        · exact Respelling.startsWith_of_longer (by decide +kernel) expLoad
        · exact Respelling.startsWith_of_longer (by decide +kernel) expStore
        · exact Respelling.startsWith_of_longer (by decide +kernel) error
      rcases List.isPrefixOf_iff_prefix.mp starts with ⟨rest, equal⟩
      have spelling := congrArg String.ofList equal
      rw [String.ofList_toList] at spelling
      rw [← spelling]
      simp [consumeFront, startsWith, List.isPrefixOf]

/-- No respelled name passes the test. -/
theorem isASanReportCall_respell (site : CallSite) :
    (values.respell respelling).isASanReportCall site =
      (values.isASanReportCall site && !values.hidesReport respelling site) := by
  cases called : values.calledFunction? site with
  | none => simp [isASanReportCall, hidesReport, called]
  | some function =>
      rcases function with ⟨name, intrinsic⟩
      rcases respelling.cases name with same | ⟨tool, isTool, rest, equal, spelled⟩
      · simp [isASanReportCall, hidesReport, called, same]
      · have changed : respelling.spell name ≠ name := by
          intro same
          rw [same, equal] at spelled
          simp only [toolNames, List.mem_cons, List.not_mem_nil, or_false] at isTool
          rcases isTool with rfl | rfl | rfl <;> simp at spelled
        have unseen : (values.respell respelling).isASanReportCall site = false := by
          rw [isASanReportCall, calledFunction?_respell, called, Option.map_some]
          rcases spelled with spelled | spelled
          · have spelling := congrArg String.ofList spelled
            rw [String.ofList_toList] at spelling
            rw [spelling]
            simp only [toolNames, List.mem_cons, List.not_mem_nil, or_false] at isTool
            rcases isTool with rfl | rfl | rfl <;> simp [startsWith, List.isPrefixOf]
          · have spelling := congrArg String.ofList spelled
            rw [String.ofList_toList] at spelling
            rw [spelling]
            simp [startsWith, List.isPrefixOf]
        rw [unseen, hidesReport, called]
        simp [changed]

end ValueTable

namespace Function

/-- The conditional branch through which alone control comes to the block of a call. -/
def guard? (function : Function) (check : InstId) : Option InstId :=
  match function.parent? check with
  | none => none
  | some report =>
      match function.predecessors report.id with
      | [pred] =>
          match (function.block? pred).map Block.terminator with
          | some ⟨branch, _, .condBr ..⟩ => some branch
          | _ => none
      | _ => none

theorem guardingBranch_some (function : Function) (report : BlockId) (check anchor : InstId)
    (preds : List BlockId) :
    function.guardingBranch report check (some anchor) preds =
      if preds = [] then anchor else check := by
  cases preds with
  | nil => rfl
  | cons pred rest =>
      rw [guardingBranch, if_neg (List.cons_ne_nil pred rest)]
      split
      · split
        · rfl
        · rfl
      · rfl

/-- The anchor of a report call is the branch that guards it. -/
theorem guardingBranch_eq {function : Function} (distinct : function.blockIds.Nodup)
    {check : InstId} {report : Block} (placed : function.parent? check = some report) :
    function.guardingBranch report.id check none (function.predecessors report.id) =
      (function.guard? check).getD check := by
  have edges : ∀ pred ∈ function.predecessors report.id, ∀ block,
      function.block? pred = some block → report.id ∈ block.successors := by
    intro pred member block found
    rcases edge_iff.mp (mem_predecessors.mp member) with ⟨source, sourceMember, equal, inside⟩
    have foundId : block.id = pred := by simpa using List.find?_some found
    have same : source = block :=
      List.inj_on_of_nodup_map distinct sourceMember (List.mem_of_find?_eq_some found)
        (equal.trans foundId.symm)
    rw [← same]
    exact inside
  simp only [guard?, placed]
  cases preds : function.predecessors report.id with
  | nil => rfl
  | cons pred rest =>
      rw [preds] at edges
      rw [guardingBranch]
      cases found : function.block? pred with
      | none => cases rest <;> simp [found]
      | some block =>
          have inside := edges pred (List.mem_cons_self ..) block found
          rw [Block.successors] at inside
          rcases ending : block.terminator with ⟨branch, ty, op⟩
          rw [ending] at inside
          cases op with
          | condBr condition ifTrue ifFalse =>
              have goes : ¬(ifTrue ≠ report.id ∧ ifFalse ≠ report.id) := by
                intro neither
                simp only [Op.successors, List.mem_cons, List.not_mem_nil, or_false] at inside
                rcases inside with equal | equal
                · exact neither.1 equal.symm
                · exact neither.2 equal.symm
              simp only [Option.map_some, ending, if_neg goes, Option.isSome_none,
                Bool.false_eq_true, if_false, guardingBranch_some]
              cases rest <;> simp [found, ending]
          | _ => cases rest <;> simp [found, ending]

theorem findCheckAnchor_eq {function : Function} (distinct : function.blockIds.Nodup)
    (values : ValueTable) {check : InstId} {inst : Inst} {site : CallSite}
    (found : function.inst? check = some inst) (call : inst.op.callSite? = some site) :
    function.findCheckAnchor values check =
      if values.isASanReportCall site || values.isMemSanReportCall site then
        (function.guard? check).getD check
      else check := by
  simp only [findCheckAnchor, found, Option.bind_some, call]
  cases asan : values.isASanReportCall site <;> cases memSan : values.isMemSanReportCall site
  · rfl
  all_goals
    simp only [Bool.not_true, Bool.not_false, Bool.and_false, Bool.and_true,
      Bool.false_eq_true, if_false, Bool.or_true, Bool.true_or, if_true]
    cases placed : function.parent? check with
    | none => simp [guard?, placed]
    | some report => exact guardingBranch_eq distinct placed

end Function

/-! ## The pipeline -/

namespace Module

/-- The pipeline answers the same for a module in another spelling. -/
structure SameUnder (module : Module) (respelling : Respelling) : Prop where
  classified : ∀ op, (module.respell respelling).values.classifyCheck op =
    module.values.classifyCheck op
  collected : ∀ collector : SanitizerCheckCollector,
    collector.collectModule (module.respell respelling) = collector.collectModule module
  groups : ∀ addresses options coreCheckSet,
    (module.respell respelling).groupChecksByVariable addresses options coreCheckSet =
      module.groupChecksByVariable addresses options coreCheckSet
  marks : ∀ addresses options coreCheckSet,
    (module.respell respelling).markRedundantChecks addresses options coreCheckSet =
      module.markRedundantChecks addresses options coreCheckSet
  anchors : ∀ function ∈ module.functions, ∀ inst ∈ function.instructions,
    module.values.isCheck inst.op = true →
      (function.respell respelling).findCheckAnchor (module.respell respelling).values inst.id =
        function.findCheckAnchor module.values inst.id
  graphs : ∀ addresses options coreCheckSet trees var,
    (module.respell respelling).buildGraphForVariable addresses options coreCheckSet trees var =
      module.buildGraphForVariable addresses options coreCheckSet trees var

/-- No branch guards a check that reports an ASan error under a changed name. -/
def HiddenReportsUnguarded (module : Module) (respelling : Respelling) : Prop :=
  ∀ function ∈ module.functions, ∀ inst ∈ function.instructions,
    module.values.isCheck inst.op = true → ∀ site ∈ inst.op.callSite?,
      module.values.hidesReport respelling site = true → function.guard? inst.id = none

instance (module : Module) (respelling : Respelling) :
    Decidable (module.HiddenReportsUnguarded respelling) :=
  inferInstanceAs (Decidable (∀ function ∈ module.functions, ∀ inst ∈ function.instructions,
    module.values.isCheck inst.op = true → ∀ site ∈ inst.op.callSite?,
      module.values.hidesReport respelling site = true → function.guard? inst.id = none))

variable {module : Module} {respelling : Respelling}

theorem inst?_of_mem (distinct : module.DistinctIds) {function : Function}
    (member : function ∈ module.functions) {inst : Inst}
    (inside : inst ∈ function.instructions) : function.inst? inst.id = some inst := by
  have isSome : (function.inst? inst.id).isSome := by
    rw [Function.inst?, List.find?_isSome]
    exact ⟨inst, inside, by simp⟩
  rcases Option.isSome_iff_exists.mp isSome with ⟨found, equal⟩
  rcases Function.mem_of_inst? equal with ⟨foundInside, sameId⟩
  rw [equal, List.inj_on_of_nodup_map (distinct.nodup_function member) foundInside inside sameId]

/-- The branch that guards a call is not the call. -/
theorem guard?_ne {function : Function} (distinct : module.DistinctIds)
    (member : function ∈ module.functions) {inst : Inst} {site : CallSite}
    (inside : inst ∈ function.instructions) (call : inst.op.callSite? = some site)
    {branch : InstId} (guarded : function.guard? inst.id = some branch) :
    branch ≠ inst.id := by
  intro equal
  rw [Function.guard?] at guarded
  split at guarded
  · cases guarded
  · split at guarded
    · split at guarded
      · rename_i found
        rcases Option.map_eq_some_iff.mp found with ⟨block, blockFound, ending⟩
        cases guarded
        have blockMember := List.mem_of_find?_eq_some blockFound
        have present : block.terminator ∈ function.instructions :=
          Function.mem_instructions.mpr ⟨block, blockMember, block.terminator_mem⟩
        have same : block.terminator = inst :=
          List.inj_on_of_nodup_map (distinct.nodup_function member) present inside
            (by rw [ending]; exact equal)
        rw [← same, ending] at call
        cases call
      · cases guarded
    · cases guarded

theorem findCheckAnchor_respell_iff (distinct : module.DistinctIds) {function : Function}
    (member : function ∈ module.functions) {inst : Inst}
    (inside : inst ∈ function.instructions) :
    (function.respell respelling).findCheckAnchor (module.respell respelling).values inst.id =
        function.findCheckAnchor module.values inst.id ↔
      ∀ site ∈ inst.op.callSite?, module.values.hidesReport respelling site = true →
        function.guard? inst.id = none := by
  have body : function.isDeclaration = false := by
    rw [← Bool.not_eq_true, Function.isDeclaration, List.isEmpty_iff]
    intro empty
    rw [Function.instructions, empty] at inside
    cases inside
  have found := inst?_of_mem distinct member inside
  rw [Function.respell_of_body body]
  cases call : inst.op.callSite? with
  | none => simp [Function.findCheckAnchor, found, call]
  | some site =>
      have spelled : (module.respell respelling).values = module.values.respell respelling := rfl
      rw [Function.findCheckAnchor_eq (distinct.blocks function member) _ found call,
        Function.findCheckAnchor_eq (distinct.blocks function member) _ found call, spelled,
        ValueTable.isASanReportCall_respell, ValueTable.isMemSanReportCall_respell]
      cases hides : module.values.hidesReport respelling site with
      | false => simp [hides]
      | true =>
          have report : module.values.isASanReportCall site = true := by
            rw [ValueTable.hidesReport] at hides
            split at hides
            · cases hides
            · exact (Bool.and_eq_true_iff.mp hides).1
          have other := module.values.isMemSanReportCall_of_isASanReportCall report
          simp only [report, other, Bool.not_true, Bool.and_false, Bool.or_false,
            Bool.false_eq_true, if_false, if_true]
          cases guarded : function.guard? inst.id with
          | none => simp
          | some branch =>
              have different := guard?_ne distinct member inside call guarded
              simp [hides, Ne.symm different]

/-- With the same anchors the graphs are the same. -/
theorem buildGraphForVariable_respell (distinct : module.DistinctIds)
    (anchors : ∀ function ∈ module.functions, ∀ inst ∈ function.instructions,
      module.values.isCheck inst.op = true →
        (function.respell respelling).findCheckAnchor (module.respell respelling).values
          inst.id = function.findCheckAnchor module.values inst.id)
    (addresses : Addresses) (options : GroupingOptions) (coreCheckSet : List CoreCheckKey)
    (trees : DominatorTrees) (var : CheckedVariable) :
    (module.respell respelling).buildGraphForVariable addresses options coreCheckSet trees var =
      module.buildGraphForVariable addresses options coreCheckSet trees var := by
  have parents : (module.respell respelling).parentId? = module.parentId? := by
    funext inst
    simp only [parentId?, functionOf?_respell]
  have reachable : (module.respell respelling).isReachable = module.isReachable := by
    funext source target
    simp only [isReachable, functionOf?_respell]
  have dominators : (module.respell respelling).isDominator trees = module.isDominator trees := by
    funext dominator node
    simp only [isDominator, functionOf?_respell]
  have nodes : ∀ id, ∀ checked ∈ module.moduleVariables coreCheckSet,
      (module.respell respelling).makeNode id checked = module.makeNode id checked := by
    intro id checked member
    rcases mem_moduleVariables.mp member with ⟨function, inModule, body, inst, inside, core⟩
    rcases (coreVariable?_eq_some.mp core).1 with ⟨check, classified, -⟩
    have isCheck : module.values.isCheck inst.op = true := by
      rw [ValueTable.isCheck, classified]
      rfl
    have anchored := anchors function inModule inst inside isCheck
    rw [Function.respell_of_body body] at anchored
    have owner : module.functionOf? inst.id = some function :=
      distinct.functionOf?_eq inModule (List.mem_map_of_mem inside)
    simp only [makeNode, checkInst_of_coreVariable? core, functionOf?_respell, owner, parents,
      Option.map_some, anchored]
  rw [buildGraphForVariable, buildGraphForVariable, groupChecksByVariable_respell]
  cases found : (module.groupChecksByVariable addresses options coreCheckSet).find? fun entry =>
      !addresses.variableKeyLess entry.1 (makeVariableKey options var) &&
        !addresses.variableKeyLess (makeVariableKey options var) entry.1 with
  | none => rfl
  | some entry =>
      rcases entry with ⟨key, group⟩
      have grouped := grouped_groupBy addresses.rankedBy_variableKeyLess (makeVariableKey options)
        (module.moduleVariables coreCheckSet)
      have inGroup : ∀ checked ∈ group, checked ∈ module.moduleVariables coreCheckSet := by
        intro checked member
        have equal : group = _ := grouped.group_eq _ (List.mem_of_find?_eq_some found)
        rw [equal] at member
        exact (List.mem_filter.mp member).1
      have made : (module.respell respelling).makeNodes group = module.makeNodes group := by
        rw [makeNodes, makeNodes, List.mapIdx_eq_mapIdx_iff]
        intro index bound
        exact nodes index group[index] (inGroup _ (List.getElem_mem bound))
      simp only [made, computeDominance, computeReachability, reachable, dominators]

/-- Spelling matters for the reports that branches guard, and for nothing else. -/
theorem sameUnder_iff_unguarded (module : Module) (distinct : module.DistinctIds)
    (respelling : Respelling) :
    module.SameUnder respelling ↔ module.HiddenReportsUnguarded respelling := by
  have anchors : (∀ function ∈ module.functions, ∀ inst ∈ function.instructions,
      module.values.isCheck inst.op = true →
        (function.respell respelling).findCheckAnchor (module.respell respelling).values
          inst.id = function.findCheckAnchor module.values inst.id) ↔
      module.HiddenReportsUnguarded respelling := by
    constructor
    · intro same function member inst inside check
      exact (findCheckAnchor_respell_iff distinct member inside).mp
        (same function member inst inside check)
    · intro unguarded function member inst inside check
      exact (findCheckAnchor_respell_iff distinct member inside).mpr
        (unguarded function member inst inside check)
  rw [← anchors]
  constructor
  · intro same
    exact same.anchors
  · intro same
    exact
      { classified := fun op => module.values.classifyCheck_respell respelling op
        collected := module.collectModule_respell respelling
        groups := module.groupChecksByVariable_respell respelling
        marks := module.markRedundantChecks_respell respelling
        anchors := same
        graphs := buildGraphForVariable_respell distinct same }

/-! ### A report behind a branch -/

/-- A check of a load of four bytes, reached through the given terminator of the entry. -/
def reporting (entry : Op) : Function where
  name := "reporting"
  blocks :=
    [{ id := 0, insts := [], terminator := ⟨0, .other 0, entry⟩ },
     { id := 1
       insts := [⟨1, .other 0, .call { calledOperand := .other 1, args := [.other 0] }⟩]
       terminator := ⟨2, .other 0, .unreachable⟩ },
     { id := 2, insts := [], terminator := ⟨3, .other 0, .ret none⟩ }]

def reportingModule (entry : Op) : Module where
  functions := [reporting entry]
  values :=
    { value
        | 0 => ⟨.argument, .integer 64⟩
        | _ => ⟨.constant (.function "__asan_report_load4" .notIntrinsic), .pointer⟩
      count := 2 }
  dataLayout := ⟨64, 8⟩

def machOReport : Respelling where
  spell name := if name = "__asan_report_load4" then "___asan_report_load4" else name
  spells := by
    intro name
    by_cases report : name = "__asan_report_load4"
    · rw [if_pos report, report]
      right
      exact ⟨by decide +kernel, .inl (by decide +kernel)⟩
    · rw [if_neg report]
      exact .inl rfl

theorem guarded_report_not_sameUnder :
    ¬(reportingModule (.condBr (.other 0) 1 2)).SameUnder machOReport := by
  intro same
  have anchors := same.anchors (reporting (.condBr (.other 0) 1 2)) (by decide +kernel)
    ⟨1, .other 0, .call { calledOperand := .other 1, args := [.other 0] }⟩ (by decide +kernel)
    (by decide +kernel)
  revert anchors
  decide +kernel

theorem unguarded_report_sameUnder : (reportingModule (.br 1)).SameUnder machOReport :=
  (sameUnder_iff_unguarded (reportingModule (.br 1)) (by decide +kernel) machOReport).mpr
    (by decide +kernel)

end Module

end Desan
