import Desan.DESANPass.QueriesAsked

/-! # What a run does to its host

The analysis asks its questions one after the other, so what one run of the command leaves
behind adds up. -/

namespace Desan

namespace DESANPass

open LLMAssistedAnalyzer

variable {State : Type*}

/-- The state without the books of the host. -/
def Assisted.view (assisted : Assisted (State × Books)) : Assisted State where
  answers := assisted.answers
  recentVariables := assisted.recentVariables
  hostState := assisted.hostState.1
  log := assisted.log

namespace AssistedAnalysis

variable (analysis : AssistedAnalysis State)

/-- The analysis on a host with books. -/
def withBooks : AssistedAnalysis (State × Books) where
  module := analysis.module
  coreCheckSet := analysis.coreCheckSet
  addresses := analysis.addresses
  grouping := analysis.grouping
  trees := analysis.trees
  printer := analysis.printer
  host := analysis.host.withBooks
  options := analysis.options

variable {analysis}

/-! ## The books change nothing -/

theorem view_ask (assisted : Assisted (State × Books)) (query : Query) :
    (analysis.withBooks.ask assisted query).view = analysis.ask assisted.view query := by
  have same : Prod.map id Prod.fst
      (runPrompt analysis.host.withBooks analysis.options.llmCommand
        (prompt analysis.module analysis.printer analysis.options.llmMaxSliceInstructions query)
        assisted.hostState) =
      runPrompt analysis.host analysis.options.llmCommand
        (prompt analysis.module analysis.printer analysis.options.llmMaxSliceInstructions query)
        assisted.hostState.1 := view_runPrompt _ _ _ _
  rw [ask, ask]
  simp only [Assisted.view]
  rw [← same]
  rfl

theorem view_askIfCheckIsReadOrWrite (checked : CheckedVariable) (check : InstId)
    (assisted : Assisted (State × Books)) :
    (analysis.withBooks.askIfCheckIsReadOrWrite checked check assisted).view =
      analysis.askIfCheckIsReadOrWrite checked check assisted.view := by
  rw [askIfCheckIsReadOrWrite, askIfCheckIsReadOrWrite]
  by_cases asks : analysis.shouldAskLLMAboutVariable checked = true
  · have asksToo : analysis.withBooks.shouldAskLLMAboutVariable checked = true := asks
    rw [if_pos asks, if_pos asksToo, view_ask]
  · have asksNeither : ¬analysis.withBooks.shouldAskLLMAboutVariable checked = true := asks
    rw [if_neg asks, if_neg asksNeither]

theorem view_askIfSameCheckedVariable (checked : CheckedVariable)
    (assisted : Assisted (State × Books)) :
    (analysis.withBooks.askIfSameCheckedVariable checked assisted).view =
      analysis.askIfSameCheckedVariable checked assisted.view := by
  have recent : assisted.view.recentVariables = assisted.recentVariables := rfl
  rw [askIfSameCheckedVariable, askIfSameCheckedVariable, recent]
  cases assisted.recentVariables.getLast? with
  | none => rfl
  | some recent =>
      by_cases asks : (analysis.canIssue assisted.view &&
          (analysis.shouldAskLLMAboutVariable checked ||
            analysis.shouldAskLLMAboutVariable recent)) = true
      · have asksToo : (analysis.withBooks.canIssue assisted &&
            (analysis.withBooks.shouldAskLLMAboutVariable checked ||
              analysis.withBooks.shouldAskLLMAboutVariable recent)) = true := asks
        simp only [if_pos asks, if_pos asksToo, view_ask]
      · have asksNeither : ¬(analysis.withBooks.canIssue assisted &&
            (analysis.withBooks.shouldAskLLMAboutVariable checked ||
              analysis.withBooks.shouldAskLLMAboutVariable recent)) = true := asks
        simp only [if_neg asks, if_neg asksNeither]

theorem view_spent (assisted : Assisted (State × Books)) :
    analysis.withBooks.spent assisted = analysis.spent assisted.view := rfl

theorem view_loop {ι : Type*} {step : Assisted (State × Books) → ι → Assisted (State × Books)}
    {viewStep : Assisted State → ι → Assisted State}
    (sameStep : ∀ assisted item, (step assisted item).view = viewStep assisted.view item)
    (assisted : Assisted (State × Books)) (items : List ι) :
    (untilSpent analysis.withBooks.spent step assisted items).view =
      untilSpent analysis.spent viewStep assisted.view items :=
  view_untilSpent Assisted.view view_spent sameStep _ _

theorem view_visitInstruction (function : Function) (assisted : Assisted (State × Books))
    (inst : Inst) :
    (analysis.withBooks.visitInstruction function assisted inst).view =
      analysis.visitInstruction function assisted.view inst := by
  rw [visitInstruction, visitInstruction]
  have same : analysis.withBooks.module.coreVariable? analysis.withBooks.coreCheckSet function
      inst = analysis.module.coreVariable? analysis.coreCheckSet function inst := rfl
  rw [same]
  cases analysis.module.coreVariable? analysis.coreCheckSet function inst with
  | none => rfl
  | some checked =>
      simp only
      rw [← view_askIfCheckIsReadOrWrite, ← view_askIfSameCheckedVariable]
      rfl

theorem view_visitFunction (assisted : Assisted (State × Books)) (function : Function) :
    (analysis.withBooks.visitFunction assisted function).view =
      analysis.visitFunction assisted.view function := by
  rw [visitFunction, visitFunction]
  split
  · rfl
  · exact view_loop (view_visitInstruction function) _ _

theorem view_askIfSafeToRemove (assisted : Assisted (State × Books)) (node : CheckNode) :
    (analysis.withBooks.askIfSafeToRemove assisted node).view =
      analysis.askIfSafeToRemove assisted.view node := by
  rw [askIfSafeToRemove_eq, askIfSafeToRemove_eq]
  by_cases asked : analysis.askedAbout node = true
  · have askedToo : analysis.withBooks.askedAbout node = true := asked
    rw [if_pos asked, if_pos askedToo, view_ask]
  · have askedNeither : ¬analysis.withBooks.askedAbout node = true := asked
    rw [if_neg asked, if_neg askedNeither]

theorem view_visitGroup (assisted : Assisted (State × Books))
    (group : VariableKey × List CheckedVariable) :
    (analysis.withBooks.visitGroup assisted group).view =
      analysis.visitGroup assisted.view group := by
  rw [visitGroup, visitGroup]
  split
  · rfl
  · exact view_loop view_askIfSafeToRemove _ _

theorem view_visitModule (assisted : Assisted (State × Books)) :
    (analysis.withBooks.visitModule assisted).view = analysis.visitModule assisted.view := by
  let after := untilSpent analysis.withBooks.spent analysis.withBooks.visitFunction assisted
    analysis.module.functions
  have first : after.view = untilSpent analysis.spent analysis.visitFunction assisted.view
      analysis.module.functions :=
    view_loop view_visitFunction _ _
  have whole : analysis.withBooks.visitModule assisted =
      if analysis.withBooks.canIssue after then
        untilSpent analysis.withBooks.spent analysis.withBooks.visitGroup after analysis.groups
      else after := rfl
  rw [whole, visitModule, ← first]
  by_cases room : analysis.canIssue after.view = true
  · have roomToo : analysis.withBooks.canIssue after = true := room
    rw [if_pos room, if_pos roomToo]
    exact view_loop view_visitGroup _ _
  · have full : ¬analysis.withBooks.canIssue after = true := room
    rw [if_neg room, if_neg full]

theorem view_runLLMAssistedAnalysis (hostState : State) :
    (analysis.withBooks.runLLMAssistedAnalysis (hostState, {})).view =
      analysis.runLLMAssistedAnalysis hostState := by
  have visited := @view_visitModule _ analysis
    { hostState := (hostState, {}), log := analysis.header }
  -- The number of answers in the last line is that of the view.
  exact congrArg (fun assisted : Assisted State =>
    { assisted with log := assisted.log ++ footer assisted.answers.length }) visited

/-! ## What a run adds up to -/

/-- The text that a query and its result leave in the log. -/
def answerText (analysis : AssistedAnalysis State) (answer : Query × LLMQueryResult) : String :=
  dumpResult answer.1.title answer.2 analysis.options.llmDumpPrompts

/-- What holds before and behind every query. -/
structure Accounted (analysis : AssistedAnalysis State) (hostState : State)
    (assisted : Assisted (State × Books)) : Prop where
  files : assisted.hostState.2.temporaryFiles = []
  commands : assisted.hostState.2.commands.length =
    (assisted.answers.filter fun answer => answer.2.invoked).length
  outcomes : ∀ answer ∈ assisted.answers, Outcome analysis.options.llmCommand
    (prompt analysis.module analysis.printer analysis.options.llmMaxSliceInstructions answer.1)
    answer.2
  log : assisted.log = analysis.header ++ String.join (assisted.answers.map analysis.answerText)
  untouched : analysis.options.llmCommand = "" → assisted.hostState = (hostState, {})

theorem Accounted.ask {hostState : State} {assisted : Assisted (State × Books)}
    (accounted : analysis.Accounted hostState assisted) (query : Query) :
    analysis.Accounted hostState (analysis.withBooks.ask assisted query) := by
  let text := prompt analysis.module analysis.printer analysis.options.llmMaxSliceInstructions query
  rcases assisted with ⟨answers, recent, ⟨state, ⟨commands, files⟩⟩, log⟩
  have noFiles : files = [] := accounted.files
  subst noFiles
  let run := runPrompt analysis.host.withBooks analysis.options.llmCommand text
    (state, ⟨commands, []⟩)
  have outcome : Outcome analysis.options.llmCommand text run.1 := outcome_runPrompt _ _ _
  have counted : commands.length =
      (answers.filter fun answer => answer.2.invoked).length := accounted.commands
  have logged : log = analysis.header ++ String.join (answers.map analysis.answerText) :=
    accounted.log
  rcases @books_runPrompt _ analysis.host analysis.options.llmCommand text state commands with
    ⟨lines, books, count⟩
  constructor
  · show run.2.2.temporaryFiles = []
    rw [books]
  · show run.2.2.commands.length =
      ((answers ++ [(query, run.1)]).filter fun answer => answer.2.invoked).length
    rw [books, List.filter_append, List.length_append, List.length_append, counted, count]
    cases invoked : run.1.invoked with
    | true => simp [run, invoked]
    | false => simp [run, invoked]
  · intro answer member
    rcases List.mem_append.mp member with earlier | last
    · exact accounted.outcomes answer earlier
    · rw [List.mem_singleton.mp last]
      exact outcome
  · show log ++ dumpResult query.title run.1 analysis.options.llmDumpPrompts =
      analysis.header ++ String.join ((answers ++ [(query, run.1)]).map analysis.answerText)
    rw [logged, List.map_append, String.join_append, String.append_assoc, List.map_singleton,
      String.join_cons, String.join_nil, String.append_empty]
    rfl
  · intro empty
    have still : run.2 = (state, ⟨commands, []⟩) := by
      show (runPrompt _ _ _ _).2 = _
      rw [runPrompt, empty]
      rfl
    exact still.trans (accounted.untouched empty)

theorem accounted_visitModule (hostState : State) :
    analysis.Accounted hostState
      (analysis.withBooks.visitModule
        { hostState := (hostState, {}), log := analysis.header }) := by
  apply visitModule_induction
  · intro assisted query _ accounted
    exact accounted.ask query
  · intro assisted checked accounted
    exact ⟨accounted.files, accounted.commands, accounted.outcomes, accounted.log,
      accounted.untouched⟩
  · exact ⟨rfl, rfl, fun _ member => absurd member List.not_mem_nil, (String.append_empty).symm,
      fun _ => rfl⟩

/-- A run leaves no temporary file behind, hands over one command line for each result
that says so, and none without a command, when it does not touch its host. Every result is
one that `runPrompt` can have for the prompt of its query, and the log is these results in
order. -/
theorem effects_runLLMAssistedAnalysis {State : Type*} (analysis : AssistedAnalysis State)
    (hostState : State) :
    let run := analysis.runLLMAssistedAnalysis hostState
    let kept := analysis.withBooks.runLLMAssistedAnalysis (hostState, {})
    kept.view = run ∧
      kept.hostState.2.temporaryFiles = [] ∧
      kept.hostState.2.commands.length =
        (run.answers.filter fun answer => answer.2.invoked).length ∧
      (analysis.options.llmCommand = "" →
        run.hostState = hostState ∧ kept.hostState.2.commands = []) ∧
      (∀ answer ∈ run.answers, Outcome analysis.options.llmCommand
        (prompt analysis.module analysis.printer analysis.options.llmMaxSliceInstructions
          answer.1) answer.2) ∧
      run.log = analysis.header ++ String.join (run.answers.map analysis.answerText) ++
        footer run.answers.length := by
  intro run kept
  have view : kept.view = run := view_runLLMAssistedAnalysis hostState
  have accounted := @accounted_visitModule _ analysis hostState
  have answers : run.answers = kept.answers := by rw [← view]; rfl
  refine ⟨view, accounted.files, ?_, ?_, ?_, ?_⟩
  · rw [answers]
    exact accounted.commands
  · intro empty
    have still : kept.hostState = (hostState, {}) := accounted.untouched empty
    refine ⟨?_, by rw [still]⟩
    rw [← view]
    exact congrArg Prod.fst still
  · rw [answers]
    exact accounted.outcomes
  · rw [← view]
    exact congrArg (· ++ footer kept.answers.length) accounted.log

end AssistedAnalysis

end DESANPass

end Desan
