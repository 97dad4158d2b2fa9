import Desan.CheckGraphBuilder.Dominance
import Desan.CheckGraphBuilder.DynamicKeys
import Desan.CheckGraphBuilder.Graph
import Desan.CheckGraphBuilder.Links
import Desan.CheckGraphBuilder.Reachability
import Desan.CheckGraphBuilder.Spellings
import Desan.CheckSliceRemover.Bypass
import Desan.CheckSliceRemover.BypassedRuns
import Desan.CheckSliceRemover.ErasedRuns
import Desan.CheckSliceRemover.FormKept
import Desan.CheckSliceRemover.LeastErasure
import Desan.CheckSliceRemover.PathSplice
import Desan.CheckSliceRemover.Removal
import Desan.CheckSliceRemover.ReportsKept
import Desan.CheckSliceRemover.RunsKept
import Desan.CheckSliceRemover.Slice
import Desan.CheckSliceRemover.SliceErasure
import Desan.CheckSliceRemover.SliceExtent
import Desan.CheckSliceRemover.Spared
import Desan.CheckSliceRemover.Splice
import Desan.CheckSliceRemover.Survival
import Desan.CheckSliceRemover.WellFormedRemoval
import Desan.CheckedVariableAnalyzer.AccessSearch
import Desan.CheckedVariableAnalyzer.Forgotten
import Desan.CheckedVariableAnalyzer.NearestAccess
import Desan.CheckedVariableAnalyzer.Normalization
import Desan.CheckedVariableAnalyzer.Respelling
import Desan.CheckedVariableAnalyzer.StaticOffset
import Desan.CheckedVariableAnalyzer.TracersAgree
import Desan.CheckedVariableAnalyzer.TrivialJoins
import Desan.CheckedVariableAnalyzer.UseWalk
import Desan.DESANPass
import Desan.DESANPass.AssistedAnalysis
import Desan.DESANPass.Explanations
import Desan.DESANPass.HostEffects
import Desan.DESANPass.QueriesAsked
import Desan.DESANPass.Recount
import Desan.Foundation.Budget
import Desan.Foundation.BudgetScan
import Desan.Foundation.Descent
import Desan.Foundation.JoinGraph
import Desan.Foundation.JoinWalk
import Desan.Foundation.Layout
import Desan.Foundation.Levels
import Desan.Foundation.PathWalk
import Desan.Foundation.Pattern
import Desan.Foundation.PatternSearch
import Desan.Foundation.Ranking
import Desan.Foundation.Search
import Desan.Foundation.ShellWords
import Desan.Foundation.Simulation
import Desan.IR.Carry
import Desan.IR.Edit
import Desan.IR.Execution
import Desan.IR.FoldedRuns
import Desan.IR.Machine
import Desan.IR.Needs
import Desan.IR.Reports
import Desan.IR.Rewrite
import Desan.IR.RunAgreement
import Desan.IR.WellFormed
import Desan.LLMAssistedAnalyzer
import Desan.LLMAssistedAnalyzer.Answers
import Desan.LLMAssistedAnalyzer.Queries
import Desan.LLMAssistedAnalyzer.RunPrompt
import Desan.RedundantCheckEliminator.Atomicity
import Desan.RedundantCheckEliminator.Barriers
import Desan.RedundantCheckEliminator.Candidates
import Desan.RedundantCheckEliminator.CleanUp
import Desan.RedundantCheckEliminator.Coverage
import Desan.RedundantCheckEliminator.Erasure
import Desan.RedundantCheckEliminator.ErasureRun
import Desan.RedundantCheckEliminator.ErrorsKept
import Desan.RedundantCheckEliminator.FirstReport
import Desan.RedundantCheckEliminator.LiveLooks
import Desan.RedundantCheckEliminator.Locality
import Desan.RedundantCheckEliminator.MarkedOnly
import Desan.RedundantCheckEliminator.Marking
import Desan.RedundantCheckEliminator.Order
import Desan.RedundantCheckEliminator.Policy
import Desan.RedundantCheckEliminator.Refusals
import Desan.RedundantCheckEliminator.SecondRun
import Desan.RedundantCheckEliminator.WholeErasure
import Desan.SanitizerCheckCollector.CoreChecks
import Desan.SanitizerCheckCollector.Profile
import Desan.SanitizerCheckCollector.Spelling
import Desan.Scripts.CompileRecords
import Desan.Scripts.CountSanitizerChecks
import Desan.Scripts.DelimitedText
import Desan.Scripts.PrintedIR
import Desan.Scripts.RemovedAccessPerFunction
import Desan.Scripts.SanrazorRemovedAccessSummary
import Desan.Scripts.SpecAsanSummary
