import Desan.DESANPass.AssistedAnalysis
import Desan.RedundantCheckEliminator.Refusals
import Desan.SanitizerCheckCollector.Profile

/-! # The pass

The module goes through collection, the advisory analysis and the elimination. What the
pass prints of its stages is left out, but for the log of the advisory analysis. -/

namespace Desan

namespace DESANPass

/-- The command line options of the pass. -/
structure PassOptions where
  coreTopN : Nat := 4
  coreMinRatio : ℚ := 5
  profileFile : String := ""
  eliminateRedundantReads : Bool := true
  enableLLMAssist : Bool := false
  grouping : GroupingOptions := {}
  llm : LLMOptions := {}

/-- What a run meets outside the program: files, the memory it is loaded to, LLVM and the
host of the prompts. -/
structure Surroundings (State : Type*) where
  doubles : Doubles ℚ
  getFile : String → Except String String
  addresses : Addresses
  trees : Module.DominatorTrees
  printer : IRPrinter
  host : LLMAssistedAnalyzer.PromptHost State
  utilities : CleanupUtilities
  /-- The order in which a pointer set lists its members. -/
  listed : List InstId → List InstId
  perm_listed : ∀ ids, (listed ids).Perm ids

inductive PreservedAnalyses where
  | all | none
deriving DecidableEq, Repr

def preservedAnalyses (removedCount : Nat) : PreservedAnalyses :=
  if removedCount = 0 then .all else .none

theorem preservedAnalyses_eq_all {removedCount : Nat} :
    preservedAnalyses removedCount = .all ↔ removedCount = 0 := by
  rw [preservedAnalyses]
  split
  · rename_i zero
    exact ⟨fun _ => zero, fun _ => rfl⟩
  · rename_i counted
    exact ⟨fun same => PreservedAnalyses.noConfusion same, fun zero => absurd zero counted⟩

structure PassResult (State : Type*) where
  collector : SanitizerCheckCollector
  coreChecks : List CheckStat
  assisted : Option (Assisted State)
  functions : List Function
  removedCount : Nat
  preserved : PreservedAnalyses

variable {State : Type*}

/-- The collector when the statistics are dumped. -/
def collected (surroundings : Surroundings State) (options : PassOptions) (module : Module) :
    SanitizerCheckCollector :=
  let collector : SanitizerCheckCollector := {}
  let collector :=
    if options.profileFile.isEmpty then collector
    else collector.withProfile
      (loadProfile surroundings.doubles surroundings.getFile options.profileFile).1
  collector.collectModule module

/-- `RedundantCheckEliminator::eliminateRedundantChecks`. -/
def eliminateRedundantChecks (surroundings : Surroundings State) (grouping : GroupingOptions)
    (module : Module) (coreCheckSet : List CoreCheckKey) : Erasure :=
  module.eraseMarkedChecks surroundings.utilities
    (surroundings.listed
      (module.markRedundantChecks surroundings.addresses grouping coreCheckSet).markedCalls)

def run (surroundings : Surroundings State) (options : PassOptions) (module : Module)
    (hostState : State) : PassResult State :=
  let collector := collected surroundings options module
  let coreChecks := collector.identifyCoreChecks options.coreTopN options.coreMinRatio
  let coreCheckSet := coreCheckKeys coreChecks
  let assisted :=
    if options.enableLLMAssist then
      some (AssistedAnalysis.runLLMAssistedAnalysis
        { module
          coreCheckSet
          addresses := surroundings.addresses
          grouping := options.grouping
          trees := surroundings.trees
          printer := surroundings.printer
          host := surroundings.host
          options := options.llm } hostState)
    else none
  let erasure :=
    if options.eliminateRedundantReads then
      eliminateRedundantChecks surroundings options.grouping module coreCheckSet
    else module.erasure
  { collector
    coreChecks
    assisted
    functions := erasure.functions
    removedCount := erasure.removed
    preserved := preservedAnalyses erasure.removed }

/-! ## What the report of preserved analyses says -/

/-- The core checks of a run, as the eliminator knows them. -/
def coreCheckSet (surroundings : Surroundings State) (options : PassOptions)
    (module : Module) : List CoreCheckKey :=
  coreCheckKeys ((collected surroundings options module).identifyCoreChecks options.coreTopN
    options.coreMinRatio)

/-- The calls that a run sets out to erase. -/
def marked (surroundings : Surroundings State) (options : PassOptions) (module : Module) :
    List InstId :=
  if options.eliminateRedundantReads then
    (module.markRedundantChecks surroundings.addresses options.grouping
      (coreCheckSet surroundings options module)).markedCalls
  else []

/-- What a run does to the module: an erasure of the marked calls, or nothing. -/
theorem run_cases (surroundings : Surroundings State) (options : PassOptions)
    (module : Module) (hostState : State) :
    ∃ erasure : Erasure,
      (run surroundings options module hostState).functions = erasure.functions ∧
      ((run surroundings options module hostState).preserved = .all ↔ erasure.removed = 0) ∧
      ((marked surroundings options module = [] ∧ erasure = module.erasure) ∨
        erasure = module.eraseMarkedChecks surroundings.utilities
          (surroundings.listed (marked surroundings options module))) := by
  refine ⟨_, rfl, preservedAnalyses_eq_all, ?_⟩
  cases eliminates : options.eliminateRedundantReads with
  | false => exact .inl ⟨by rw [marked, eliminates, if_neg Bool.false_ne_true], rfl⟩
  | true =>
      right
      rw [marked, if_pos eliminates]
      rfl

/-- A run that reports all analyses preserved has erased no call: it has cleaned up the
functions that hold a marked call, and left the others alone. One that reports none
preserved has erased a marked call. -/
theorem run_reports (surroundings : Surroundings State) (options : PassOptions)
    (module : Module) (hostState : State) (keep : surroundings.utilities.KeepCalls)
    (shaped : module.erasure.Shaped) :
    ((run surroundings options module hostState).preserved = .all →
      (run surroundings options module hostState).functions =
        module.functions.map fun function =>
          if ∃ check ∈ marked surroundings options module, check ∈ function.ids then
            surroundings.utilities.tidy function
          else function) ∧
      ((run surroundings options module hostState).preserved = .none →
        ∃ check ∈ marked surroundings options module, module.erasure.isLive check = true ∧
          ∀ function ∈ (run surroundings options module hostState).functions,
            check ∉ function.ids) := by
  rcases run_cases surroundings options module hostState with
    ⟨erasure, functions, preserved, nothing | erased⟩
  · rw [functions, nothing.2, nothing.1]
    constructor
    · intro _
      simp [Module.erasure]
    · intro none
      have zero : erasure.removed = 0 := by
        rw [nothing.2]
        rfl
      rw [preserved.mpr zero] at none
      cases none
  · have listed := surroundings.perm_listed (marked surroundings options module)
    rw [functions, erased]
    constructor
    · intro all
      have zero := preserved.mp all
      rw [erased] at zero
      rw [module.functions_eraseMarkedChecks_of_uncounted shaped zero]
      simp only [listed.mem_iff]
    · intro none
      have counted : erasure.removed ≠ 0 := by
        intro zero
        rw [preserved.mpr zero] at none
        cases none
      rw [erased] at counted
      rcases module.exists_erased_of_counted keep shaped counted with
        ⟨check, member, live, gone⟩
      refine ⟨check, listed.mem_iff.mp member, live, ?_⟩
      intro function inside held
      rw [Erasure.isLive_iff.mpr ⟨function, inside, held⟩] at gone
      cases gone

/-- Nothing to clean up, no profile, and a host that is not asked. -/
def bare : Surroundings Unit where
  doubles := ⟨0, (· + ·), (· < 0), fun _ => none⟩
  getFile _ := .error "no such file"
  addresses := .byId
  trees := Function.instructionComesBefore
  printer := ⟨fun _ => "call", fun _ => "value", Function.predecessors, fun _ _ => .refl _⟩
  host := LLMAssistedAnalyzer.quotedDirectory
  utilities := .inert
  listed := id
  perm_listed := .refl

theorem sample_run_reports :
    (run bare {} Module.sample ()).preserved = .none ∧
      ∃ check ∈ marked bare {} Module.sample, Module.sample.erasure.isLive check = true ∧
        ∀ function ∈ (run bare {} Module.sample ()).functions, check ∉ function.ids := by
  have none : (run bare {} Module.sample ()).preserved = .none := by decide +kernel
  exact ⟨none, (run_reports bare {} Module.sample () CleanupUtilities.keepCalls_inert
    (by decide)).2 none⟩

end DESANPass

end Desan
