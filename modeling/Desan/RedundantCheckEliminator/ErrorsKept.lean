import Desan.CheckSliceRemover.ReportsKept
import Desan.RedundantCheckEliminator.WholeErasure

/-! # Errors the erasure keeps

The checks a run reports at are kept, so it is kept with its report. What a careful removal
takes beside its own call does not report. -/

namespace Desan

variable {World Datum : Type} {machine : Machine World Datum} {values : ValueTable}

namespace Function

section Hushes

variable {function : Function} {check : InstId} {world : World}
  (wellFormed : function.WellFormed) (honest : machine.Honest values)
  (mute : machine.Mute values) (own : ¬function.ReportsAt machine world check)
include wellFormed honest mute own

/-- Of a report block, only the check itself may report. -/
theorem silent_of_bypassable {report : Block}
    (bypassable : function.Bypassable values check report) :
    function.Silent machine world fun id => id ∈ report.definitions := by
  intro id inside reports
  rcases reports.cases wellFormed with ⟨block, member, -, either⟩
  have atReport : id ∈ block.definitions → block = report := fun defined =>
    wellFormed.shaped.block_of_definition member bypassable.report_mem.1 defined inside
  rcases either with ⟨inst, inBody, rfl, loud⟩ | ⟨point, terminator⟩
  · have instInside : inst ∈ block.instructions :=
      Block.mem_instructions.mpr (.inl (List.mem_filter.mp inBody).1)
    rw [atReport (List.mem_map_of_mem instInside)] at instInside
    have parts := Bool.and_eq_true_iff.mp
      (List.all_eq_true.mp bypassable.sanitizerOnly inst instInside)
    cases isCheck : values.isCheck inst.op with
    | true =>
        have same : inst.id = check := by simpa [isCheck] using parts.1
        exact own (same ▸ reports)
    | false => exact loud (honest.reportless_of_sanitizerOnly mute isCheck parts.2)
  · have isReport := atReport (terminator.1 ▸ block.terminator_mem_definitions)
    rcases terminator with ⟨-, still, reported⟩
    have branch := bypassable.terminator
    rw [← isReport] at branch
    rw [leftOf, Machine.leave, still] at reported
    cases kind : block.terminator.op with
    | br destination =>
        rw [kind] at reported
        exact absurd (still.symm.trans reported) (by simp)
    | unreachable =>
        rw [kind] at reported
        simp [RunState.stop] at reported
    | _ =>
        rw [kind] at branch
        cases branch

/-- Of what a direct erasure takes, only the check itself may report. -/
theorem silent_of_erasesDirectly (direct : function.ErasesDirectly values check)
    (spares : function.SparesChecks values check) :
    function.Silent machine world (function.ErasedWith values check) := by
  intro id erased reports
  rcases erased with rfl | erasable
  · exact own reports
  rcases erasable.exists_inst with ⟨original, originalMember, sameId, kind, -⟩
  rw [eraseInst_eq_eraseInsts] at originalMember
  have originalInside := (instructions_eraseInsts [check]).subset originalMember
  rcases reports.cases wellFormed with ⟨block, member, reachable, either⟩
  rcases either with ⟨inst, inBody, isId, loud⟩ | ⟨point, terminator⟩
  · have instInside : inst ∈ block.instructions :=
      Block.mem_instructions.mpr (.inl (List.mem_filter.mp inBody).1)
    have same : original = inst := wellFormed.shaped.inst_eq originalInside
      (mem_instructions.mpr ⟨block, member, instInside⟩) (sameId.trans isId.symm)
    subst same
    cases isCheck : values.isCheck original.op with
    | true =>
        have effect : original.op.mayHaveSideEffects = true := by
          rw [Machine.Reportless] at loud
          push Not at loud
          rcases loud with ⟨env, world, loud⟩
          exact honest.mayHaveSideEffects_of_reports loud
        have holds : function.HoldsCheck values id :=
          ⟨block, member, reachable, original, instInside, isId, isCheck, effect⟩
        by_cases different : id = check
        · exact own (different ▸ reports)
        · exact spares direct id holds different erasable
    | false => exact loud (honest.reportless_of_isErasableKind mute isCheck kind)
  · exact wellFormed.shaped.terminator_ne originalInside (body_of_isErasableKind kind) block
      member (terminator.1.trans sameId.symm)

theorem hushes_of_careful (spares : function.SparesChecks values check) :
    function.Hushes machine values check world where
  bypassed := fun _ => silent_of_bypassable wellFormed honest mute own
  direct := fun direct => silent_of_erasesDirectly wellFormed honest mute own direct spares

end Hushes

end Function

namespace Erasure

variable {erasure : Erasure} {utilities : CleanupUtilities} {world : World}

/-- The function the current one has become. -/
def Becomes (machine : Machine World Datum) (world : World) (current : Function)
    (erasure : Erasure) : Prop :=
  ∃ after ∈ erasure.functions, after.name = current.name ∧ after.WellFormed ∧
    current.RunsAlike after machine world ∧
      ∀ id, after.ReportsAt machine world id → current.ReportsAt machine world id

theorem Becomes.of_relates {current : Function} {after : Erasure}
    (member : current ∈ erasure.functions) (wellFormed : current.WellFormed)
    (defined : current.Defined machine world)
    (relates : Relates (fun before after => before.Shaped → after.name = before.name ∧
      (before = current → before.KeepsDefinedRun after machine world)) erasure after) :
    Becomes machine world current after := by
  rcases relates with ⟨transform, equal, related⟩
  rcases related current member wellFormed.shaped with ⟨name, keeps⟩
  rcases keeps rfl wellFormed defined with ⟨form, alike, reports⟩
  exact ⟨transform current, equal ▸ List.mem_map_of_mem member, name, form, alike, reports⟩

/-- A removal of a check that does not report keeps the run. -/
theorem becomes_removeCheckSlice {current : Function} {check : InstId} {rest : List InstId}
    (keepCalls : utilities.KeepCalls) (keepRuns : utilities.KeepDefinedRuns machine world)
    (honest : machine.Honest values) (mute : machine.Mute values)
    (pending : erasure.Pending values (check :: rest))
    (member : current ∈ erasure.functions) (wellFormed : current.WellFormed)
    (defined : current.Defined machine world)
    (own : ¬current.ReportsAt machine world check)
    (careful : EveryStep utilities values (Careful values) erasure (check :: rest))
    (unseen : erasure.functionOf? check = some current →
      current.Unseen machine values check world) :
    Becomes machine world current (erasure.removeCheckSlice utilities values check) := by
  apply Becomes.of_relates member wellFormed defined
  apply relates_removeCheckSlice
  · exact fun function _ => ⟨rfl, fun _ => .refl _ _ _⟩
  · exact keepCalls
  · exact pending.shaped
  · intro function own
    exact ⟨(CleanupUtilities.keepsCalls_tidy keepCalls function).name, fun _ =>
      CleanupUtilities.keepsDefinedRun_tidy keepRuns function⟩
  · intro function found shaped
    refine ⟨(Function.old_removeCheckSlice values keepCalls shaped check).1, ?_⟩
    rintro rfl
    have isCheck := (pending.everyStep keepCalls careful).1 function found
    exact Function.keepsDefinedRun_removeCheckSlice keepRuns honest isCheck (unseen found)
      (Function.hushes_of_careful wellFormed honest mute own (careful.1 function found).2)

/-- A run of removals, none of which takes the check that reports. -/
theorem becomes_eraseCalls {current : Function} {calls : List InstId}
    (keepCalls : utilities.KeepCalls) (keepRuns : utilities.KeepDefinedRuns machine world)
    (honest : machine.Honest values) (mute : machine.Mute values)
    (pending : erasure.Pending values calls)
    (member : current ∈ erasure.functions) (wellFormed : current.WellFormed)
    (defined : current.Defined machine world)
    (silent : ∀ check ∈ calls, ¬current.ReportsAt machine world check)
    (steps : EveryStep utilities values (fun candidate check => Careful values candidate check ∧
      (candidate.name = current.name → candidate.Unseen machine values check world)) erasure
        calls) :
    Becomes machine world current (erasure.eraseCalls utilities values calls) := by
  induction calls generalizing erasure current with
  | nil => exact ⟨current, member, rfl, wellFormed, .refl _ _, fun _ reports => reports⟩
  | cons check rest induction =>
      have careful := steps.mono fun _ _ => And.left
      have step := becomes_removeCheckSlice keepCalls keepRuns honest mute pending member
        wellFormed defined (silent check (List.mem_cons_self ..)) careful
        fun found => (steps.1 current found).2 rfl
      rcases step with ⟨next, nextMember, name, nextForm, alike, reports⟩
      have later := induction (pending.step keepCalls careful.1) nextMember nextForm
        (defined.of_runsAlike alike)
        (fun other inRest isReport =>
          silent other (List.mem_cons_of_mem _ inRest) (reports other isReport))
        (by
          rw [name]
          exact steps.2)
      rcases later with ⟨last, lastMember, lastName, lastForm, lastAlike, lastReports⟩
      exact ⟨last, lastMember, lastName.trans name, lastForm, alike.trans lastAlike,
        fun id isReport => reports id (lastReports id isReport)⟩

end Erasure

namespace Module

variable {module : Module} {utilities : CleanupUtilities} {world : World}

theorem becomes_eraseMarkedChecks {function : Function} {calls : List InstId}
    (keepCalls : utilities.KeepCalls) (keepRuns : utilities.KeepDefinedRuns machine world)
    (honest : machine.Honest module.values) (mute : machine.Mute module.values)
    (pending : module.erasure.Pending module.values calls)
    (member : function ∈ module.functions) (wellFormed : function.WellFormed)
    (defined : function.Defined machine world)
    (silent : ∀ check ∈ calls, ¬function.ReportsAt machine world check)
    (steps : Erasure.EveryStep utilities module.values (fun candidate check =>
      Erasure.Careful module.values candidate check ∧
        (candidate.name = function.name →
          candidate.Unseen machine module.values check world)) module.erasure calls) :
    Erasure.Becomes machine world function (module.eraseMarkedChecks utilities calls) := by
  rcases Erasure.becomes_eraseCalls keepCalls keepRuns honest mute pending member wellFormed
    defined silent steps with ⟨last, lastMember, name, form, alike, reports⟩
  have tidied : Erasure.Becomes machine world last (module.eraseMarkedChecks utilities calls) := by
    apply Erasure.Becomes.of_relates lastMember form (defined.of_runsAlike alike)
    apply Erasure.relates_tidy
    · exact fun candidate _ => ⟨rfl, fun _ => .refl _ _ _⟩
    · intro candidate own
      exact ⟨(CleanupUtilities.keepsCalls_tidy keepCalls candidate).name, fun _ =>
        CleanupUtilities.keepsDefinedRun_tidy keepRuns candidate⟩
  rcases tidied with ⟨after, afterMember, afterName, afterForm, afterAlike, afterReports⟩
  exact ⟨after, afterMember, afterName.trans name, afterForm, alike.trans afterAlike,
    fun id isReport => reports id (afterReports id isReport)⟩

end Module

end Desan
