import Desan.CheckGraphBuilder.Links
import Desan.DESANPass.AssistedAnalysis
import Desan.RedundantCheckEliminator.Policy

/-! # Which queries a run asks

A run without a limit asks what there is to ask about the module, in order. A run with a
limit asks the same up to the limit, with the same answers. -/

namespace Desan

namespace DESANPass

open LLMAssistedAnalyzer

namespace AssistedAnalysis

variable {State : Type*} {analysis : AssistedAnalysis State}

/-! ## What every query keeps -/

theorem spent_eq_false {assisted : Assisted State} :
    analysis.spent assisted = false ↔ analysis.canIssue assisted = true := by
  rw [spent, Bool.not_eq_false']

section Induction

variable {property : Assisted State → Prop}
  (ask : ∀ assisted query, analysis.canIssue assisted = true → property assisted →
    property (analysis.ask assisted query))
  (remember : ∀ assisted checked, property assisted → property (assisted.remember checked))

include ask remember in
theorem visitInstruction_induction {function : Function} {inst : Inst}
    {assisted : Assisted State} (room : analysis.canIssue assisted = true)
    (start : property assisted) : property (analysis.visitInstruction function assisted inst) := by
  rw [visitInstruction]
  split
  · exact start
  · rename_i checked _
    apply remember
    have first : property (analysis.askIfCheckIsReadOrWrite checked inst.id assisted) := by
      rw [askIfCheckIsReadOrWrite]
      split
      · exact ask _ _ room start
      · exact start
    rw [askIfSameCheckedVariable]
    split
    · exact first
    · split
      · rename_i guard
        exact ask _ _ (Bool.and_eq_true_iff.mp guard).1 first
      · exact first

include ask in
theorem askIfSafeToRemove_induction {node : CheckNode} {assisted : Assisted State}
    (room : analysis.canIssue assisted = true) (start : property assisted) :
    property (analysis.askIfSafeToRemove assisted node) := by
  rw [askIfSafeToRemove]
  split
  · exact start
  · split
    · exact start
    · simp only
      split
      · exact start
      · exact ask _ _ room start

include ask remember in
/-- What a query within the limit keeps, and what the window of recent variables does not
touch, both loops keep. -/
theorem visitModule_induction {assisted : Assisted State} (start : property assisted) :
    property (analysis.visitModule assisted) := by
  have first : property (untilSpent analysis.spent analysis.visitFunction assisted
      analysis.module.functions) := by
    apply untilSpent_induction start
    intro assisted function _ _ holds
    rw [visitFunction]
    split
    · exact holds
    · apply untilSpent_induction holds
      intro assisted inst _ room holds
      exact visitInstruction_induction ask remember (spent_eq_false.mp room) holds
  rw [visitModule]
  split
  · apply untilSpent_induction first
    intro assisted group _ _ holds
    rw [visitGroup]
    split
    · exact holds
    · apply untilSpent_induction holds
      intro assisted node _ room holds
      exact askIfSafeToRemove_induction ask (spent_eq_false.mp room) holds
  · exact first

end Induction

theorem askIfSafeToRemove_eq (assisted : Assisted State) (node : CheckNode) :
    analysis.askIfSafeToRemove assisted node =
      if analysis.askedAbout node then
        analysis.ask assisted (.safeToRemove node (node.type = .READ))
      else assisted := by
  rw [askIfSafeToRemove, askedAbout]
  cases node.checkInst with
  | none => rfl
  | some check =>
      cases isType : node.type with
      | WRITE => simp
      | UNKNOWN => simp
      | READ =>
          cases only : analysis.options.llmOnlyUncertain with
          | false => simp
          | true =>
              cases ambiguous : hasAmbiguousValue analysis.module.graph node.var with
              | false => simp
              | true => simp

/-! ## The limit -/

def unlimited (analysis : AssistedAnalysis State) : AssistedAnalysis State :=
  { analysis with options := { analysis.options with llmMaxQueries := 0 } }

theorem canIssue_unlimited (assisted : Assisted State) :
    analysis.unlimited.canIssue assisted = true := rfl

theorem spent_unlimited (assisted : Assisted State) :
    analysis.unlimited.spent assisted = false := rfl

/-- A run under the limit next to the run without one. -/
abbrev Limited (analysis : AssistedAnalysis State) : Assisted State → Assisted State → Prop :=
  Cut Assisted.answers analysis.options.llmMaxQueries

section Limit

variable (limit : analysis.options.llmMaxQueries ≠ 0)

include limit in
theorem canIssue_iff {assisted : Assisted State} :
    analysis.canIssue assisted = true ↔
      assisted.answers.length < analysis.options.llmMaxQueries := by
  simp [canIssue, LLMOptions.canIssueLLMQuery, limit]

include limit in
theorem spent_iff (assisted : Assisted State) :
    analysis.spent assisted = true ↔
      analysis.options.llmMaxQueries ≤ assisted.answers.length := by
  rw [spent, Bool.not_eq_true', ← Bool.not_eq_true, canIssue_iff limit, Nat.not_lt]

theorem limited_ask {assisted : Assisted State} (query : Query)
    (room : assisted.answers.length < analysis.options.llmMaxQueries) :
    analysis.Limited (analysis.ask assisted query) (analysis.unlimited.ask assisted query) := by
  apply Cut.self
  show (assisted.answers ++ [_]).length ≤ _
  rw [List.length_append]
  exact room

theorem prefix_ask (assisted : Assisted State) (query : Query) :
    assisted.answers <+: (analysis.ask assisted query).answers :=
  List.prefix_append _ _

theorem limited_askIfCheckIsReadOrWrite {assisted : Assisted State} (checked : CheckedVariable)
    (check : InstId) (room : assisted.answers.length < analysis.options.llmMaxQueries) :
    analysis.Limited (analysis.askIfCheckIsReadOrWrite checked check assisted)
      (analysis.unlimited.askIfCheckIsReadOrWrite checked check assisted) := by
  rw [askIfCheckIsReadOrWrite, askIfCheckIsReadOrWrite]
  by_cases asks : analysis.shouldAskLLMAboutVariable checked = true
  · have asksToo : analysis.unlimited.shouldAskLLMAboutVariable checked = true := asks
    rw [if_pos asks, if_pos asksToo]
    exact limited_ask _ room
  · have asksNeither : ¬analysis.unlimited.shouldAskLLMAboutVariable checked = true := asks
    rw [if_neg asks, if_neg asksNeither]
    exact .within room

theorem prefix_askIfCheckIsReadOrWrite (assisted : Assisted State) (checked : CheckedVariable)
    (check : InstId) :
    assisted.answers <+: (analysis.askIfCheckIsReadOrWrite checked check assisted).answers := by
  rw [askIfCheckIsReadOrWrite]
  split
  · exact prefix_ask _ _
  · exact List.prefix_refl _

theorem prefix_askIfSameCheckedVariable (assisted : Assisted State) (checked : CheckedVariable) :
    assisted.answers <+: (analysis.askIfSameCheckedVariable checked assisted).answers := by
  rw [askIfSameCheckedVariable]
  split
  · exact List.prefix_refl _
  · split
    · exact prefix_ask _ _
    · exact List.prefix_refl _

include limit in
theorem askIfSameCheckedVariable_spent {assisted : Assisted State} (checked : CheckedVariable)
    (spent : analysis.options.llmMaxQueries ≤ assisted.answers.length) :
    analysis.askIfSameCheckedVariable checked assisted = assisted := by
  have never : analysis.canIssue assisted = false := by
    rw [← Bool.not_eq_true, canIssue_iff limit, Nat.not_lt]
    exact spent
  rw [askIfSameCheckedVariable]
  split
  · rfl
  · rw [never, Bool.false_and, if_neg Bool.false_ne_true]

include limit in
theorem limited_askIfSameCheckedVariable {assisted : Assisted State} (checked : CheckedVariable)
    (room : assisted.answers.length < analysis.options.llmMaxQueries) :
    analysis.Limited (analysis.askIfSameCheckedVariable checked assisted)
      (analysis.unlimited.askIfSameCheckedVariable checked assisted) := by
  rw [askIfSameCheckedVariable, askIfSameCheckedVariable]
  cases assisted.recentVariables.getLast? with
  | none => exact .within room
  | some recent =>
      simp only [(canIssue_iff limit).mpr room, canIssue_unlimited, Bool.true_and]
      by_cases asks : (analysis.shouldAskLLMAboutVariable checked ||
          analysis.shouldAskLLMAboutVariable recent) = true
      · have asksToo : (analysis.unlimited.shouldAskLLMAboutVariable checked ||
            analysis.unlimited.shouldAskLLMAboutVariable recent) = true := asks
        rw [if_pos asks, if_pos asksToo]
        exact limited_ask _ room
      · have asksNeither : ¬(analysis.unlimited.shouldAskLLMAboutVariable checked ||
            analysis.unlimited.shouldAskLLMAboutVariable recent) = true := asks
        rw [if_neg asks, if_neg asksNeither]
        exact .within room

theorem limited_remember {assisted free : Assisted State} (checked : CheckedVariable)
    (cut : analysis.Limited assisted free) :
    analysis.Limited (assisted.remember checked) (free.remember checked) := by
  cases cut with
  | within room => exact .within room
  | spent spent cut => exact .spent spent cut

include limit in
theorem limited_visitInstruction (function : Function) (assisted : Assisted State) (inst : Inst)
    (room : assisted.answers.length < analysis.options.llmMaxQueries) :
    analysis.Limited (analysis.visitInstruction function assisted inst)
      (analysis.unlimited.visitInstruction function assisted inst) := by
  rw [visitInstruction, visitInstruction]
  have same : analysis.unlimited.module.coreVariable? analysis.unlimited.coreCheckSet function
      inst = analysis.module.coreVariable? analysis.coreCheckSet function inst := rfl
  rw [same]
  cases analysis.module.coreVariable? analysis.coreCheckSet function inst with
  | none => exact .within room
  | some checked =>
      apply limited_remember
      apply Cut.step (limited_askIfCheckIsReadOrWrite checked inst.id room)
      · intro assisted room
        exact limited_askIfSameCheckedVariable limit checked room
      · intro assisted spent
        rw [askIfSameCheckedVariable_spent limit checked spent]
      · intro assisted
        exact prefix_askIfSameCheckedVariable assisted checked

theorem prefix_visitInstruction (function : Function) (assisted : Assisted State) (inst : Inst) :
    assisted.answers <+: (analysis.visitInstruction function assisted inst).answers := by
  rw [visitInstruction]
  split
  · exact List.prefix_refl _
  · exact (prefix_askIfCheckIsReadOrWrite _ _ _).trans (prefix_askIfSameCheckedVariable _ _)

theorem visitFunction_unlimited (assisted : Assisted State) (function : Function) :
    analysis.unlimited.visitFunction assisted function =
      if function.isDeclaration then assisted
      else function.instructions.foldl (analysis.unlimited.visitInstruction function)
        assisted := by
  rw [visitFunction, untilSpent_of_never spent_unlimited]

include limit in
theorem limited_visitFunction (assisted : Assisted State) (function : Function)
    (room : assisted.answers.length < analysis.options.llmMaxQueries) :
    analysis.Limited (analysis.visitFunction assisted function)
      (analysis.unlimited.visitFunction assisted function) := by
  rw [visitFunction_unlimited, visitFunction]
  split
  · exact .within room
  · exact Cut.untilSpent (spent_iff limit) (limited_visitInstruction limit function)
      (prefix_visitInstruction function) _ (.within room)

theorem prefix_visitFunction (assisted : Assisted State) (function : Function) :
    assisted.answers <+: (analysis.unlimited.visitFunction assisted function).answers := by
  rw [visitFunction_unlimited]
  split
  · exact List.prefix_refl _
  · exact isPrefix_foldl (prefix_visitInstruction function) _ _

/-- The second loop asks about a node, or it does nothing. -/
theorem askIfSafeToRemove_cases (node : CheckNode) :
    (∃ query, ∀ assisted, analysis.askIfSafeToRemove assisted node =
        analysis.ask assisted query ∧
      analysis.unlimited.askIfSafeToRemove assisted node =
        analysis.unlimited.ask assisted query) ∨
    ∀ assisted, analysis.askIfSafeToRemove assisted node = assisted ∧
      analysis.unlimited.askIfSafeToRemove assisted node = assisted := by
  by_cases asked : analysis.askedAbout node = true
  · left
    refine ⟨.safeToRemove node (node.type = .READ), ?_⟩
    intro assisted
    have askedToo : analysis.unlimited.askedAbout node = true := asked
    rw [askIfSafeToRemove_eq, askIfSafeToRemove_eq, if_pos asked, if_pos askedToo]
    exact ⟨rfl, rfl⟩
  · right
    intro assisted
    have askedNeither : ¬analysis.unlimited.askedAbout node = true := asked
    rw [askIfSafeToRemove_eq, askIfSafeToRemove_eq, if_neg asked, if_neg askedNeither]
    exact ⟨rfl, rfl⟩

theorem limited_askIfSafeToRemove (assisted : Assisted State) (node : CheckNode)
    (room : assisted.answers.length < analysis.options.llmMaxQueries) :
    analysis.Limited (analysis.askIfSafeToRemove assisted node)
      (analysis.unlimited.askIfSafeToRemove assisted node) := by
  rcases @askIfSafeToRemove_cases _ analysis node with ⟨query, asks⟩ | nothing
  · rw [(asks assisted).1, (asks assisted).2]
    exact limited_ask query room
  · rw [(nothing assisted).1, (nothing assisted).2]
    exact .within room

theorem prefix_askIfSafeToRemove (assisted : Assisted State) (node : CheckNode) :
    assisted.answers <+: (analysis.askIfSafeToRemove assisted node).answers := by
  rw [askIfSafeToRemove_eq]
  split
  · exact prefix_ask _ _
  · exact List.prefix_refl _

theorem visitGroup_unlimited (assisted : Assisted State)
    (group : VariableKey × List CheckedVariable) :
    analysis.unlimited.visitGroup assisted group =
      (group.2.head?.toList.flatMap analysis.nodesFor).foldl
        analysis.unlimited.askIfSafeToRemove assisted := by
  rw [visitGroup]
  split
  · rename_i empty
    rw [empty]
    rfl
  · rename_i first rest isGroup
    rw [untilSpent_of_never spent_unlimited, isGroup, List.head?_cons, Option.toList_some,
      List.flatMap_singleton]
    rfl

include limit in
theorem limited_visitGroup (assisted : Assisted State)
    (group : VariableKey × List CheckedVariable)
    (room : assisted.answers.length < analysis.options.llmMaxQueries) :
    analysis.Limited (analysis.visitGroup assisted group)
      (analysis.unlimited.visitGroup assisted group) := by
  rw [visitGroup_unlimited, visitGroup]
  split
  · rename_i empty
    rw [empty]
    exact .within room
  · rename_i first rest isGroup
    rw [isGroup, List.head?_cons, Option.toList_some, List.flatMap_singleton]
    exact Cut.untilSpent (spent_iff limit) limited_askIfSafeToRemove prefix_askIfSafeToRemove _
      (.within room)

theorem prefix_visitGroup (assisted : Assisted State)
    (group : VariableKey × List CheckedVariable) :
    assisted.answers <+: (analysis.unlimited.visitGroup assisted group).answers := by
  rw [visitGroup_unlimited]
  exact isPrefix_foldl prefix_askIfSafeToRemove _ _

theorem visitModule_unlimited (assisted : Assisted State) :
    analysis.unlimited.visitModule assisted =
      analysis.groups.foldl analysis.unlimited.visitGroup
        (analysis.module.functions.foldl analysis.unlimited.visitFunction assisted) := by
  rw [visitModule, untilSpent_of_never spent_unlimited, canIssue_unlimited, if_pos rfl,
    untilSpent_of_never spent_unlimited]
  rfl

include limit in
theorem limited_visitModule {assisted : Assisted State}
    (room : assisted.answers.length < analysis.options.llmMaxQueries) :
    analysis.Limited (analysis.visitModule assisted) (analysis.unlimited.visitModule assisted) := by
  have first : analysis.Limited
      (untilSpent analysis.spent analysis.visitFunction assisted analysis.module.functions)
      (analysis.module.functions.foldl analysis.unlimited.visitFunction assisted) :=
    Cut.untilSpent (spent_iff limit) (limited_visitFunction limit) prefix_visitFunction _
      (.within room)
  have second := Cut.untilSpent (spent_iff limit) (limited_visitGroup limit) prefix_visitGroup
    analysis.groups first
  rw [visitModule_unlimited, visitModule]
  split
  · exact second
  · -- Without room the second loop stops before its first group.
    rename_i full
    have isSpent : analysis.spent (untilSpent analysis.spent analysis.visitFunction assisted
        analysis.module.functions) = true := by
      rw [spent, Bool.not_eq_true', ← Bool.not_eq_true]
      exact full
    rw [untilSpent_of_spent isSpent] at second
    exact second

end Limit

/-! ## Without a limit -/

/-- The last four variables. -/
def recentOf (seen : List CheckedVariable) : List CheckedVariable := seen.drop (seen.length - 4)

theorem length_recentOf (seen : List CheckedVariable) :
    (recentOf seen).length = min seen.length 4 := by
  rw [recentOf, List.length_drop]
  omega

theorem recentOf_append (seen : List CheckedVariable) (checked : CheckedVariable) :
    recentOf (seen ++ [checked]) =
      if 4 < (recentOf seen ++ [checked]).length then (recentOf seen ++ [checked]).tail
      else recentOf seen ++ [checked] := by
  have long : (recentOf seen ++ [checked]).length = min seen.length 4 + 1 := by
    rw [List.length_append, length_recentOf]
    rfl
  have append : ∀ count ≤ seen.length,
      (seen ++ [checked]).drop count = seen.drop count ++ [checked] :=
    fun count fits => List.drop_append_of_le_length fits
  rw [long, recentOf, List.length_append, List.length_singleton]
  by_cases many : 4 ≤ seen.length
  · have later : seen.length + 1 - 4 = seen.length - 4 + 1 := by omega
    rw [if_pos (by omega), later, recentOf, ← append _ (by omega), List.tail_drop]
  · have none : seen.length - 4 = 0 := by omega
    have still : seen.length + 1 - 4 = 0 := by omega
    rw [if_neg (by omega), still, recentOf, none]
    rfl

theorem getLast?_recentOf (seen : List CheckedVariable) :
    (recentOf seen).getLast? = seen.getLast? := by
  rw [recentOf, List.getLast?_drop]
  split
  · rename_i short
    have empty : seen = [] := List.eq_nil_of_length_eq_zero (by omega)
    rw [empty]
    rfl
  · rfl

theorem runQueries_append_single (previous : Option CheckedVariable)
    (seen : List CheckedVariable) (checked : CheckedVariable) :
    analysis.runQueries previous (seen ++ [checked]) =
      analysis.runQueries previous seen ++
        analysis.variableQueries (seen.getLast?.or previous) checked := by
  induction seen generalizing previous with
  | nil =>
      rw [List.nil_append, runQueries, runQueries, runQueries, List.append_nil]
      rfl
  | cons head tail induction =>
      rw [List.cons_append, runQueries, runQueries, induction, List.append_assoc,
        List.getLast?_cons]
      cases tail.getLast? with
      | none => rfl
      | some last => rfl

/-- In the first loop a run without a limit has asked what there is to ask about the
checks seen so far, of which it has the last four at hand. -/
structure Follows (analysis : AssistedAnalysis State) (seen : List CheckedVariable)
    (assisted : Assisted State) : Prop where
  recent : assisted.recentVariables = recentOf seen
  asked : assisted.answers.map Prod.fst = analysis.runQueries none seen

theorem asked_ask (assisted : Assisted State) (query : Query) :
    (analysis.ask assisted query).answers.map Prod.fst =
      assisted.answers.map Prod.fst ++ [query] := by
  show (assisted.answers ++ [_]).map Prod.fst = _
  rw [List.map_append]
  rfl

theorem asked_askIfCheckIsReadOrWrite (checked : CheckedVariable) (check : InstId)
    (assisted : Assisted State) :
    (analysis.askIfCheckIsReadOrWrite checked check assisted).answers.map Prod.fst =
      assisted.answers.map Prod.fst ++
        if analysis.shouldAskLLMAboutVariable checked then [.checkIsReadOrWrite check] else [] := by
  rw [askIfCheckIsReadOrWrite]
  split
  · exact asked_ask _ _
  · exact (List.append_nil _).symm

theorem recent_askIfCheckIsReadOrWrite (checked : CheckedVariable) (check : InstId)
    (assisted : Assisted State) :
    (analysis.askIfCheckIsReadOrWrite checked check assisted).recentVariables =
      assisted.recentVariables := by
  rw [askIfCheckIsReadOrWrite]
  split
  · rfl
  · rfl

theorem asked_askIfSameCheckedVariable (checked : CheckedVariable) (assisted : Assisted State) :
    (analysis.unlimited.askIfSameCheckedVariable checked assisted).answers.map Prod.fst =
      assisted.answers.map Prod.fst ++
        (assisted.recentVariables.getLast?.toList.filter fun recent =>
          analysis.shouldAskLLMAboutVariable checked ||
            analysis.shouldAskLLMAboutVariable recent).map fun recent =>
              .sameCheckedVariable recent checked := by
  rw [askIfSameCheckedVariable]
  cases assisted.recentVariables.getLast? with
  | none => exact (List.append_nil _).symm
  | some recent =>
      simp only [canIssue_unlimited, Bool.true_and]
      by_cases asks : (analysis.shouldAskLLMAboutVariable checked ||
          analysis.shouldAskLLMAboutVariable recent) = true
      · have asksToo : (analysis.unlimited.shouldAskLLMAboutVariable checked ||
            analysis.unlimited.shouldAskLLMAboutVariable recent) = true := asks
        rw [if_pos asksToo, asked_ask]
        simp only [Option.toList_some, List.filter_cons, asks, if_true, List.filter_nil,
          List.map_cons, List.map_nil]
      · have asksNeither : ¬(analysis.unlimited.shouldAskLLMAboutVariable checked ||
            analysis.unlimited.shouldAskLLMAboutVariable recent) = true := asks
        rw [if_neg asksNeither]
        simp only [Option.toList_some, List.filter_cons, asks, Bool.false_eq_true, if_false,
          List.filter_nil, List.map_nil, List.append_nil]

theorem recent_askIfSameCheckedVariable (checked : CheckedVariable) (assisted : Assisted State) :
    (analysis.askIfSameCheckedVariable checked assisted).recentVariables =
      assisted.recentVariables := by
  rw [askIfSameCheckedVariable]
  split
  · rfl
  · split
    · rfl
    · rfl

/-- One instruction: a core check is asked about and remembered. -/
theorem Follows.visitInstruction {seen : List CheckedVariable} {assisted : Assisted State}
    (follows : analysis.Follows seen assisted) (function : Function) (inst : Inst) :
    analysis.Follows (seen ++
        (analysis.module.coreVariable? analysis.coreCheckSet function inst).toList)
      (analysis.unlimited.visitInstruction function assisted inst) := by
  rw [AssistedAnalysis.visitInstruction]
  have same : analysis.unlimited.module.coreVariable? analysis.unlimited.coreCheckSet function
      inst = analysis.module.coreVariable? analysis.coreCheckSet function inst := rfl
  rw [same]
  cases core : analysis.module.coreVariable? analysis.coreCheckSet function inst with
  | none =>
      rw [Option.toList_none, List.append_nil]
      exact follows
  | some checked =>
      have call : checked.checkInst = some inst.id := Module.checkInst_of_coreVariable? core
      constructor
      · show (if 4 < (List.length (_ ++ [checked])) then _ else _) = _
        rw [Option.toList_some, recentOf_append, recent_askIfSameCheckedVariable,
          recent_askIfCheckIsReadOrWrite, follows.recent]
      · show List.map Prod.fst (Assisted.answers (askIfSameCheckedVariable _ _ _)) = _
        rw [Option.toList_some, runQueries_append_single, variableQueries,
          asked_askIfSameCheckedVariable, recent_askIfCheckIsReadOrWrite,
          asked_askIfCheckIsReadOrWrite, follows.asked, follows.recent, getLast?_recentOf,
          List.append_assoc, call, Option.or_none]
        rfl

theorem Follows.visitInstructions {function : Function} (insts : List Inst)
    {seen : List CheckedVariable} {assisted : Assisted State}
    (follows : analysis.Follows seen assisted) :
    analysis.Follows (seen ++
        insts.filterMap (analysis.module.coreVariable? analysis.coreCheckSet function))
      (insts.foldl (analysis.unlimited.visitInstruction function) assisted) := by
  induction insts generalizing seen assisted with
  | nil =>
      rw [List.filterMap_nil, List.append_nil]
      exact follows
  | cons inst rest induction =>
      have further := induction (follows.visitInstruction function inst)
      rw [List.append_assoc] at further
      have joined : (analysis.module.coreVariable? analysis.coreCheckSet function inst).toList ++
          rest.filterMap (analysis.module.coreVariable? analysis.coreCheckSet function) =
            (inst :: rest).filterMap
              (analysis.module.coreVariable? analysis.coreCheckSet function) := by
        rw [List.filterMap_cons]
        cases analysis.module.coreVariable? analysis.coreCheckSet function inst with
        | none => rfl
        | some checked => rfl
      rw [joined] at further
      exact further

theorem Follows.visitFunctions (functions : List Function) {seen : List CheckedVariable}
    {assisted : Assisted State} (follows : analysis.Follows seen assisted) :
    analysis.Follows (seen ++
        functions.flatMap (analysis.module.functionVariables analysis.coreCheckSet))
      (functions.foldl analysis.unlimited.visitFunction assisted) := by
  induction functions generalizing seen assisted with
  | nil =>
      rw [List.flatMap_nil, List.append_nil]
      exact follows
  | cons function rest induction =>
      have visited : analysis.Follows
          (seen ++ analysis.module.functionVariables analysis.coreCheckSet function)
          (analysis.unlimited.visitFunction assisted function) := by
        rw [visitFunction_unlimited, Module.functionVariables]
        split
        · rw [List.append_nil]
          exact follows
        · exact follows.visitInstructions function.instructions
      have further := induction visited
      rw [List.append_assoc, ← List.flatMap_cons] at further
      exact further

theorem asked_visitNodes (nodes : List CheckNode) (assisted : Assisted State) :
    (nodes.foldl analysis.unlimited.askIfSafeToRemove assisted).answers.map Prod.fst =
      assisted.answers.map Prod.fst ++ analysis.nodeQueries nodes := by
  induction nodes generalizing assisted with
  | nil => exact (List.append_nil _).symm
  | cons node rest induction =>
      rw [List.foldl_cons, induction, askIfSafeToRemove_eq, nodeQueries, nodeQueries]
      by_cases asked : analysis.askedAbout node = true
      · have askedToo : analysis.unlimited.askedAbout node = true := asked
        rw [if_pos askedToo, asked_ask, List.filter_cons_of_pos asked, List.map_cons,
          List.append_assoc]
        rfl
      · have askedNeither : ¬analysis.unlimited.askedAbout node = true := asked
        rw [if_neg askedNeither, List.filter_cons_of_neg asked]

theorem asked_visitGroups (groups : List (VariableKey × List CheckedVariable))
    (assisted : Assisted State) :
    (groups.foldl analysis.unlimited.visitGroup assisted).answers.map Prod.fst =
      assisted.answers.map Prod.fst ++ groups.flatMap analysis.groupQueries := by
  induction groups generalizing assisted with
  | nil => exact (List.append_nil _).symm
  | cons group rest induction =>
      rw [List.foldl_cons, induction, visitGroup_unlimited, asked_visitNodes, List.flatMap_cons,
        List.append_assoc]
      rfl

theorem asked_unlimited (hostState : State) :
    (analysis.unlimited.runLLMAssistedAnalysis hostState).answers.map Prod.fst =
      analysis.queries := by
  have start : analysis.Follows [] { hostState, log := analysis.unlimited.header } := ⟨rfl, rfl⟩
  have visited := start.visitFunctions analysis.module.functions
  show (analysis.unlimited.visitModule _).answers.map Prod.fst = _
  rw [visitModule_unlimited, asked_visitGroups, visited.asked]
  rfl

end AssistedAnalysis

/-- So much of a list as the limit on the queries leaves. -/
def LLMOptions.withinLimit {α : Type*} (options : LLMOptions) (items : List α) : List α :=
  if options.llmMaxQueries = 0 then items else items.take options.llmMaxQueries

/-- The queries of a run are what there is to ask about the module, in order and up to the
limit. The limit changes no answer: they are those that the run without a limit gets. -/
theorem asked_runLLMAssistedAnalysis {State : Type*} (analysis : AssistedAnalysis State)
    (hostState : State) :
    (analysis.runLLMAssistedAnalysis hostState).answers.map Prod.fst =
        analysis.options.withinLimit analysis.queries ∧
      (analysis.runLLMAssistedAnalysis hostState).answers =
        analysis.options.withinLimit
          (analysis.unlimited.runLLMAssistedAnalysis hostState).answers := by
  have answers : (analysis.runLLMAssistedAnalysis hostState).answers =
      analysis.options.withinLimit
        (analysis.unlimited.runLLMAssistedAnalysis hostState).answers := by
    rw [LLMOptions.withinLimit]
    split
    · rename_i none
      have same : analysis.unlimited = analysis := by
        rw [AssistedAnalysis.unlimited, ← none]
      rw [same]
    · rename_i limit
      let start : Assisted State := { hostState, log := analysis.header }
      have room : start.answers.length < analysis.options.llmMaxQueries :=
        Nat.pos_of_ne_zero limit
      exact (AssistedAnalysis.limited_visitModule limit room).log_eq
  refine ⟨?_, answers⟩
  rw [answers, ← AssistedAnalysis.asked_unlimited hostState, LLMOptions.withinLimit,
    LLMOptions.withinLimit]
  split
  · rfl
  · exact List.map_take

end DESANPass

end Desan
