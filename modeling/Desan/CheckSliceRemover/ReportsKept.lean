import Desan.CheckSliceRemover.RunsKept

/-! # What a removal does to the runs that report

A removal keeps every defined run in which nothing reports of what it takes. The run ends
as before, and if it ends with a report, the report has been made before at the same
instruction. -/

namespace Desan

variable {World Datum : Type} {machine : Machine World Datum} {values : ValueTable}

namespace Machine

/-- A call of the runtime that is no recognised check does not report. -/
def Mute (machine : Machine World Datum) (values : ValueTable) : Prop :=
  ∀ op env world, values.isDirectMemSanRuntimeCall op = true → values.isCheck op = false →
    machine.effect op.shape (machine.operands op env) world ≠ .reports

def Reportless (machine : Machine World Datum) (op : Op) : Prop :=
  ∀ env world, machine.effect op.shape (machine.operands op env) world ≠ .reports

/-- What reports, reports by its effect. -/
theorem effect_of_reported {state : RunState World Datum} {inst : Inst}
    (running : state.ending = none)
    (reported : (machine.exec state inst).ending = some .reported) :
    machine.effect inst.op.shape (machine.operands inst.op state.env) state.world =
      .reports := by
  have isExec : machine.exec state inst = _ := exec.eq_1 machine state inst
  rw [running] at isExec
  simp only [Option.isSome_none, Bool.false_eq_true, if_false] at isExec
  cases effect : machine.effect inst.op.shape (machine.operands inst.op state.env)
      state.world with
  | reports => rfl
  | quiet =>
      simp only [effect] at isExec
      rw [isExec] at reported
      exact absurd (running.symm.trans reported) (by simp)
  | acts logged after =>
      simp only [effect] at isExec
      rw [isExec] at reported
      cases logged <;> cases after <;>
        simp [RunState.assign, RunState.stop, RunState.record, RunState.move, running]
          at reported

section Reportless

variable (honest : machine.Honest values) (mute : machine.Mute values) {op : Op}
  (notCheck : values.isCheck op = false)
include honest

theorem Honest.mayHaveSideEffects_of_reports {env : InstId → Datum} {world : World}
    (reports : machine.effect op.shape (machine.operands op env) world = .reports) :
    op.mayHaveSideEffects = true := by
  by_contra pure
  have quiet := honest.pure op.shape (machine.operands op env) world (by
    rw [Op.mayHaveSideEffects_shape]
    exact Bool.not_eq_true _ ▸ pure)
  rw [quiet] at reports
  cases reports

include mute notCheck

theorem Honest.reportless_of_call (own : values.isCheck op = true ∨
    values.isDirectMemSanRuntimeCall op = true ∨ values.isEmptyInlineAsmCall op = true ∨
      values.isNoopIntrinsic op = true) : machine.Reportless op := by
  intro env world reports
  rcases own with check | runtime | asm | noop
  · rw [check] at notCheck
    cases notCheck
  · exact mute op env world runtime notCheck reports
  · rw [honest.noop op env world (.inr asm)] at reports
    cases reports
  · rw [honest.noop op env world (.inl noop)] at reports
    cases reports

theorem Honest.reportless_of_sanitizerOnly
    (own : values.isSanitizerOnlyInstruction op = true) : machine.Reportless op := by
  intro env world reports
  have effect := honest.mayHaveSideEffects_of_reports reports
  cases op with
  | call site | invoke site _ _ =>
      simp only [ValueTable.isSanitizerOnlyInstruction, Bool.or_eq_true] at own
      apply honest.reportless_of_call mute notCheck _ env world reports
      rcases own with ((check | runtime) | asm) | noop
      · exact .inl check
      · exact .inr (.inl runtime)
      · exact .inr (.inr (.inl asm))
      · exact .inr (.inr (.inr noop))
  | load pointer isVolatile ordering =>
      simp only [ValueTable.isSanitizerOnlyInstruction, Bool.and_eq_true,
        Bool.not_eq_true', beq_iff_eq] at own
      rw [Op.mayHaveSideEffects, own.1, own.2] at effect
      cases effect
  | store _ _ | alloca _ | atomic _ _ | other _ _ _ | ret _ | otherTerminator _ _ _ _ =>
      cases own
  | _ => cases effect

theorem Honest.reportless_of_isErasableKind (kind : values.isErasableKind op = true) :
    machine.Reportless op := by
  unfold ValueTable.isErasableKind at kind
  rw [Bool.and_eq_true] at kind
  have own := kind.2
  cases op with
  | call site | invoke site _ _ =>
      simp only [Bool.or_eq_true] at own
      apply honest.reportless_of_call mute notCheck
      rcases own with (check | runtime) | noop
      · exact .inl check
      · exact .inr (.inl runtime)
      · exact .inr (.inr (.inr noop))
  | load pointer isVolatile ordering =>
      exact honest.reportless_of_sanitizerOnly mute notCheck own
  | _ => exact honest.reportless_of_sanitizerOnly mute notCheck (Bool.and_eq_true_iff.mp own).1

end Reportless

end Machine

namespace Function

/-- A defined run of a well-formed function is kept, and reports where it has reported. -/
def KeepsDefinedRun (before after : Function) (machine : Machine World Datum)
    (world : World) : Prop :=
  before.WellFormed → before.Defined machine world →
    after.WellFormed ∧ before.RunsAlike after machine world ∧
      ∀ id, after.ReportsAt machine world id → before.ReportsAt machine world id

theorem KeepsDefinedRun.refl (function : Function) (machine : Machine World Datum)
    (world : World) : function.KeepsDefinedRun function machine world :=
  fun wellFormed _ => ⟨wellFormed, .refl _ _, fun _ reports => reports⟩

theorem KeepsDefinedRun.trans {first second third : Function} {world : World}
    (left : first.KeepsDefinedRun second machine world)
    (right : second.KeepsDefinedRun third machine world) :
    first.KeepsDefinedRun third machine world := by
  intro wellFormed defined
  rcases left wellFormed defined with ⟨middle, alike, reports⟩
  rcases right middle (defined.of_runsAlike alike) with ⟨last, alikeToo, reportsToo⟩
  exact ⟨last, alike.trans alikeToo, fun id isReport => reports id (reportsToo id isReport)⟩

end Function

/-- What LLVM promises of its clean-up utilities: they leave valid functions that behave as
before, also when a check reports. -/
structure CleanupUtilities.KeepDefinedRuns (utilities : CleanupUtilities)
    (machine : Machine World Datum) (world : World) : Prop where
  deleteTriviallyDead : ∀ function : Function, function.KeepsDefinedRun
    (utilities.deleteTriviallyDead function.deadInsts function) machine world
  eliminateUnreachableBlocks : ∀ function : Function, function.KeepsDefinedRun
    (utilities.eliminateUnreachableBlocks function) machine world
  mergeBlockIntoPredecessor : ∀ (function merged : Function),
    ∀ block ∈ function.blockIds.tail,
      utilities.mergeBlockIntoPredecessor block function = some merged →
        function.KeepsDefinedRun merged machine world

namespace CleanupUtilities

theorem keepDefinedRuns_inert (machine : Machine World Datum) (world : World) :
    inert.KeepDefinedRuns machine world where
  deleteTriviallyDead := fun function => .refl function machine world
  eliminateUnreachableBlocks := fun function => .refl function machine world
  mergeBlockIntoPredecessor := by
    intro function merged block _ isMerged
    cases isMerged

theorem keepsDefinedRun_tidy {utilities : CleanupUtilities} {world : World}
    (keep : utilities.KeepDefinedRuns machine world) (function : Function) :
    function.KeepsDefinedRun (utilities.tidy function) machine world := by
  apply @tidy_of_steps utilities fun before after => before.KeepsDefinedRun after machine world
  · exact fun function => .refl function machine world
  · exact fun left right => left.trans right
  · exact keep.deleteTriviallyDead
  · exact keep.eliminateUnreachableBlocks
  · exact keep.mergeBlockIntoPredecessor

end CleanupUtilities

namespace Function

variable {function : Function} {check : InstId} {world : World}

/-- What a removal takes, in either way. -/
structure Hushes (function : Function) (machine : Machine World Datum) (values : ValueTable)
    (check : InstId) (world : World) : Prop where
  bypassed : ∀ report, function.Bypassable values check report →
    function.Silent machine world fun id => id ∈ report.definitions
  direct : function.ErasesDirectly values check →
    function.Silent machine world (function.ErasedWith values check)

/-- A removal keeps the defined runs in which nothing of what goes is missed or reports. -/
theorem keepsDefinedRun_removeCheckSlice {utilities : CleanupUtilities}
    (keep : utilities.KeepDefinedRuns machine world) (honest : machine.Honest values)
    (isCheck : ∃ call, function.inst? check = some call ∧ values.isCheck call.op = true)
    (unseen : function.Unseen machine values check world)
    (hushes : function.Hushes machine values check world) :
    function.KeepsDefinedRun (function.removeCheckSlice utilities values check).function
      machine world := by
  have erased : function.KeepsDefinedRun (function.eraseCheckSlice values check).function
      machine world := by
    intro wellFormed defined
    have shaped := wellFormed.shaped
    have wells : ∀ report, function.Bypassable values check report →
        function.SplicesWell report.id := fun report bypassable =>
      (unseen.bypassed report bypassable).1
    refine ⟨(keepsForm_eraseCheckSlice wells wellFormed).1, ?_⟩
    rcases eraseCheckSlice_cases shaped with bypass | direct | refused
    · rcases bypass with ⟨report, bypassable, equal⟩
      rcases unseen.bypassed report bypassable with ⟨well, clear⟩
      rw [equal]
      exact bypassable.runsAlike_of_silent wellFormed well honest defined
        (hushes.bypassed report bypassable) clear _
    · rcases isCheck with ⟨call, found, isCheck⟩
      rw [direct.2]
      exact direct.1.runsAlike_of_silent shaped honest found isCheck defined
        (hushes.direct direct.1) (unseen.direct direct.1)
    · rw [refused.2.2]
      exact ⟨.refl _ _, fun _ reports => reports⟩
  rw [removeCheckSlice]
  split
  · exact erased.trans (CleanupUtilities.keepsDefinedRun_tidy keep _)
  · exact erased

/-- Where the run reports, control has come, and the instruction there reports by its
effect, unless it is the terminator. -/
theorem ReportsAt.cases {id : InstId} (wellFormed : function.WellFormed)
    (reports : function.ReportsAt machine world id) :
    ∃ block ∈ function.blocks, function.Reachable block.id ∧
      ((∃ inst ∈ block.body, inst.id = id ∧ ¬machine.Reportless inst.op) ∨
        ∃ point, TerminatorReports machine block point id) := by
  rcases reports with ⟨count, point, at_, running, block, found, either⟩
  rcases mem_of_block? found with ⟨member, address⟩
  have path := path_run machine wellFormed.entry world count
  rw [at_, ← address] at path
  refine ⟨block, member, ⟨_, path⟩, either.imp ?_ fun terminator => ⟨point, terminator⟩⟩
  intro body
  rcases body with ⟨front, inst, rest, split, isId, still, reported⟩
  rw [reached_append] at reported
  refine ⟨inst, split ▸ List.mem_append_right _ (List.mem_cons_self ..), isId, ?_⟩
  exact fun reportless => reportless _ _ (Machine.effect_of_reported still reported)

end Function

end Desan
