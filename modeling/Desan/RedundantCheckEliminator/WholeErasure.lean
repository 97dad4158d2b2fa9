import Desan.CheckSliceRemover.RunsKept
import Desan.RedundantCheckEliminator.MarkedOnly
import Desan.RedundantCheckEliminator.Order

/-! # What the whole erasure keeps

A removal changes the function of its call and cleans up the others. So what removals and
clean-ups keep of a function, the erasure of all marked calls keeps of every function. -/

namespace Desan

namespace Function

variable {function : Function} {utilities : CleanupUtilities} {values : ValueTable}
  {check : InstId}

theorem keepsForm_removeCheckSlice (keep : utilities.KeepForm)
    (wells : ∀ report, function.Bypassable values check report →
      function.SplicesWell report.id) :
    function.KeepsForm (function.removeCheckSlice utilities values check).function := by
  have erased := keepsForm_eraseCheckSlice wells
  rw [removeCheckSlice]
  split
  · exact erased.trans (CleanupUtilities.keepsForm_tidy keep _)
  · exact erased

section Runs

variable {World Datum : Type} {machine : Machine World Datum} {world : World}

theorem keepsRun_eraseCheckSlice (honest : machine.Honest values)
    (isCheck : ∃ call, function.inst? check = some call ∧ values.isCheck call.op = true)
    (unseen : function.Unseen machine values check world) :
    function.KeepsRun (function.eraseCheckSlice values check).function machine world := by
  intro wellFormed faultless
  have shaped := wellFormed.shaped
  have wells : ∀ report, function.Bypassable values check report →
      function.SplicesWell report.id := fun report bypassable =>
    (unseen.bypassed report bypassable).1
  refine ⟨(keepsForm_eraseCheckSlice wells wellFormed).1, ?_⟩
  rcases eraseCheckSlice_cases shaped with bypass | direct | refused
  · rcases bypass with ⟨report, bypassable, equal⟩
    rcases unseen.bypassed report bypassable with ⟨well, clear⟩
    rw [equal]
    exact bypassable.runsAlike wellFormed well honest faultless clear _
  · rcases isCheck with ⟨call, found, isCheck⟩
    rw [direct.2]
    exact direct.1.runsAlike shaped honest found isCheck faultless (unseen.direct direct.1)
  · rw [refused.2.2]
    exact .refl _ _

theorem keepsRun_removeCheckSlice (keep : utilities.KeepRuns machine world)
    (honest : machine.Honest values)
    (isCheck : ∃ call, function.inst? check = some call ∧ values.isCheck call.op = true)
    (unseen : function.Unseen machine values check world) :
    function.KeepsRun (function.removeCheckSlice utilities values check).function machine
      world := by
  have erased := keepsRun_eraseCheckSlice honest isCheck unseen
  rw [removeCheckSlice]
  split
  · exact erased.trans (CleanupUtilities.keepsRun_tidy keep _)
  · exact erased

end Runs

/-- The call a reachable block holds is the one its pointer leads to. -/
theorem HoldsCheck.exists_inst (holds : function.HoldsCheck values check)
    (shaped : function.Shaped) :
    ∃ call, function.inst? check = some call ∧ values.isCheck call.op = true := by
  rcases Option.isSome_iff_exists.mp (isSome_inst?_of_holdsCheck holds) with ⟨call, found⟩
  rcases holds with ⟨block, member, -, inst, inside, address, isCheck, -⟩
  rcases mem_of_inst? found with ⟨callMember, callAddress⟩
  have same := shaped.inst_eq callMember (mem_instructions.mpr ⟨block, member, inside⟩)
    (callAddress.trans address.symm)
  exact ⟨call, found, same ▸ isCheck⟩

end Function

namespace Erasure

variable {erasure : Erasure} {utilities : CleanupUtilities} {values : ValueTable}

/-! ## The rule for runs -/

theorem EveryStep.mono {first second : Function → InstId → Prop} {calls : List InstId}
    (steps : EveryStep utilities values first erasure calls)
    (weaker : ∀ function check, first function check → second function check) :
    EveryStep utilities values second erasure calls := by
  induction calls generalizing erasure with
  | nil => trivial
  | cons check rest induction =>
      exact ⟨fun function found => weaker function check (steps.1 function found),
        induction steps.2⟩

theorem EveryStep.of_all {condition : Function → InstId → Prop}
    (holds : ∀ function check, condition function check) (calls : List InstId) :
    EveryStep utilities values condition erasure calls := by
  induction calls generalizing erasure with
  | nil => trivial
  | cons check rest induction => exact ⟨fun function _ => holds function check, induction⟩

theorem EveryStep.and {first second : Function → InstId → Prop} {calls : List InstId}
    (left : EveryStep utilities values first erasure calls)
    (right : EveryStep utilities values second erasure calls) :
    EveryStep utilities values (fun function check => first function check ∧
      second function check) erasure calls := by
  induction calls generalizing erasure with
  | nil => trivial
  | cons check rest induction =>
      exact ⟨fun function found => ⟨left.1 function found, right.1 function found⟩,
        induction left.2 right.2⟩

/-- The functions are those of before, in their order, and each is related to what it
was. -/
def Relates (relation : Function → Function → Prop) (before after : Erasure) : Prop :=
  ∃ transform : Function → Function, after.functions = before.functions.map transform ∧
    ∀ function ∈ before.functions, relation function (transform function)

section Relates

variable {relation : Function → Function → Prop}
  (reflexive : ∀ function, relation function function)
  (transitive : ∀ {first second third}, relation first second → relation second third →
    relation first third)

include transitive in
theorem Relates.trans {first second third : Erasure} (left : Relates relation first second)
    (right : Relates relation second third) : Relates relation first third := by
  rcases left with ⟨early, earlyEqual, earlyRelated⟩
  rcases right with ⟨late, lateEqual, lateRelated⟩
  refine ⟨late ∘ early, ?_, ?_⟩
  · rw [lateEqual, earlyEqual, List.map_map]
  · intro function member
    have inside : early function ∈ second.functions :=
      earlyEqual ▸ List.mem_map_of_mem member
    exact transitive (earlyRelated function member) (lateRelated _ inside)

include reflexive in
theorem Relates.of_functions {before after : Erasure}
    (same : after.functions = before.functions) : Relates relation before after :=
  ⟨id, by rw [List.map_id, same], fun function _ => reflexive function⟩

include reflexive in
theorem relates_tidy (tidies : ∀ function, relation function (utilities.tidy function))
    (erasure : Erasure) : Relates relation erasure (erasure.tidy utilities) := by
  refine ⟨_, rfl, ?_⟩
  intro function _
  split
  · exact tidies function
  · exact reflexive function

include reflexive in
theorem relates_removeCheckSlice {check : InstId} (keep : utilities.KeepCalls)
    (shaped : erasure.Shaped)
    (tidies : ∀ function, relation function (utilities.tidy function))
    (removes : ∀ function, erasure.functionOf? check = some function →
      relation function (function.removeCheckSlice utilities values check).function) :
    Relates relation erasure (erasure.removeCheckSlice utilities values check) := by
  cases found : erasure.functionOf? check with
  | none =>
      apply Relates.of_functions reflexive
      simp only [removeCheckSlice, found]
  | some function =>
      rcases mem_of_functionOf? found with ⟨member, -⟩
      have old := Function.old_removeCheckSlice values keep
        (shaped.functions function member) check
      rcases functions_removeCheckSlice found old.1 with ⟨cleans, equal⟩
      refine ⟨_, equal, ?_⟩
      intro candidate candidateMember
      split
      · rename_i same
        rw [shaped.function_eq candidateMember member same]
        exact removes function found
      · split
        · exact tidies candidate
        · exact reflexive candidate

/-- No removal and no clean-up makes an instruction or renames a function. -/
theorem relates_old (values : ValueTable) (keep : utilities.KeepCalls)
    (shaped : erasure.Shaped) (check : InstId) :
    Relates (fun before after => before.Shaped → after.name = before.name ∧
      after.Shaped ∧ ∀ id ∈ after.ids, id ∈ before.ids) erasure
        (erasure.removeCheckSlice utilities values check) := by
  apply relates_removeCheckSlice _ keep shaped
  · intro function own
    have tidied := CleanupUtilities.keepsCalls_tidy keep function
    exact ⟨tidied.name, tidied.shaped own, tidied.old⟩
  · exact fun function _ own => Function.old_removeCheckSlice values keep own check
  · exact fun function own => ⟨rfl, own, fun _ inside => inside⟩

theorem shaped_of_removal (values : ValueTable) (keep : utilities.KeepCalls)
    (shaped : erasure.Shaped) (check : InstId) :
    (erasure.removeCheckSlice utilities values check).Shaped := by
  rcases relates_old values keep shaped check with ⟨transform, equal, related⟩
  exact shaped.map equal fun function member =>
    related function member (shaped.functions function member)

theorem isLive_of_removal {check other : InstId} (keep : utilities.KeepCalls)
    (shaped : erasure.Shaped)
    (live : (erasure.removeCheckSlice utilities values check).isLive other = true) :
    erasure.isLive other = true := by
  rcases relates_old values keep shaped check with ⟨transform, equal, related⟩
  rcases isLive_iff.mp live with ⟨after, member, inside⟩
  rw [equal] at member
  rcases List.mem_map.mp member with ⟨function, functionMember, rfl⟩
  have old := (related function functionMember (shaped.functions function functionMember)).2.2
  exact isLive_iff.mpr ⟨function, functionMember, old other inside⟩

include reflexive transitive in
/-- What every removal and every clean-up keeps, the run keeps. -/
theorem relates_eraseCalls {calls : List InstId} (keep : utilities.KeepCalls)
    (shaped : erasure.Shaped)
    (tidies : ∀ function, relation function (utilities.tidy function))
    (steps : EveryStep utilities values (fun function check =>
      relation function (function.removeCheckSlice utilities values check).function) erasure
        calls) :
    Relates relation erasure (erasure.eraseCalls utilities values calls) := by
  induction calls generalizing erasure with
  | nil => exact Relates.of_functions reflexive rfl
  | cons check rest induction =>
      have step := relates_removeCheckSlice reflexive keep shaped tidies steps.1
      have later := induction (shaped_of_removal values keep shaped check) steps.2
      exact @Relates.trans relation transitive _ _ _ step later

end Relates

/-- When its turn has come, every pending call is a check that control can reach. -/
theorem Pending.everyStep {calls : List InstId} (pending : erasure.Pending values calls)
    (keep : utilities.KeepCalls)
    (careful : EveryStep utilities values (Careful values) erasure calls) :
    EveryStep utilities values (fun function check =>
      ∃ call, function.inst? check = some call ∧ values.isCheck call.op = true) erasure
        calls := by
  induction calls generalizing erasure with
  | nil => trivial
  | cons check rest induction =>
      refine ⟨?_, induction (pending.step keep careful.1) careful.2⟩
      intro function found
      rcases mem_of_functionOf? found with ⟨member, -⟩
      rcases pending.held check (List.mem_cons_self ..) with ⟨other, otherMember, holds⟩
      have inside : check ∈ other.ids :=
        Function.inst?_isSome.mp (Function.isSome_inst?_of_holdsCheck holds)
      have name := (mem_ids_iff_of_functionOf? pending.shaped found otherMember).mp inside
      have same := pending.shaped.function_eq otherMember member name
      rw [same] at holds
      exact holds.exists_inst (pending.shaped.functions function member)

end Erasure

namespace Module

variable {World Datum : Type}

/-! ## The erasure of all marked calls -/

theorem relates_eraseMarkedChecks {relation : Function → Function → Prop}
    (reflexive : ∀ function, relation function function)
    (transitive : ∀ {first second third}, relation first second → relation second third →
      relation first third)
    (module : Module) {utilities : CleanupUtilities} {calls : List InstId}
    (keep : utilities.KeepCalls) (shaped : module.erasure.Shaped)
    (tidies : ∀ function, relation function (utilities.tidy function))
    (steps : Erasure.EveryStep utilities module.values (fun function check =>
      relation function (function.removeCheckSlice utilities module.values check).function)
        module.erasure calls) :
    Erasure.Relates relation module.erasure (module.eraseMarkedChecks utilities calls) := by
  have run := Erasure.relates_eraseCalls reflexive transitive keep shaped tidies steps
  have last := Erasure.relates_tidy reflexive tidies
    (module.erasure.eraseCalls utilities module.values calls)
  exact @Erasure.Relates.trans relation transitive _ _ _ run last

/-- The erasure of the marked calls leaves every well-formed function well formed, under
its name and with its entry block, if the report blocks it bypasses can be spliced out. -/
theorem wellFormed_eraseMarkedChecks (module : Module) (utilities : CleanupUtilities)
    (calls : List InstId) (keepCalls : utilities.KeepCalls) (keepForm : utilities.KeepForm)
    (shaped : module.erasure.Shaped)
    (wells : Erasure.EveryStep utilities module.values (fun function check =>
      ∀ report, function.Bypassable module.values check report →
        function.SplicesWell report.id) module.erasure calls) :
    ∃ transform : Function → Function,
      (module.eraseMarkedChecks utilities calls).functions = module.functions.map transform ∧
        ∀ function ∈ module.functions, (transform function).name = function.name ∧
          (function.WellFormed → (transform function).WellFormed ∧
            Function.entry? (transform function) = function.entry?) := by
  have names : Erasure.Relates (fun before after => before.Shaped → after.Shaped ∧
      after.name = before.name ∧ (before.WellFormed → after.WellFormed ∧
        Function.entry? after = before.entry?)) module.erasure
          (module.eraseMarkedChecks utilities calls) := by
    apply relates_eraseMarkedChecks
    · exact fun function own => ⟨own, rfl, fun wellFormed => ⟨wellFormed, rfl⟩⟩
    · intro first second third left right own
      rcases left own with ⟨middle, leftName, leftForm⟩
      rcases right middle with ⟨last, rightName, rightForm⟩
      refine ⟨last, rightName.trans leftName, fun wellFormed => ?_⟩
      have before := leftForm wellFormed
      have after := rightForm before.1
      exact ⟨after.1, after.2.trans before.2⟩
    · exact keepCalls
    · exact shaped
    · intro function own
      have tidied := CleanupUtilities.keepsCalls_tidy keepCalls function
      exact ⟨tidied.shaped own, tidied.name, CleanupUtilities.keepsForm_tidy keepForm function⟩
    · apply wells.mono
      intro function check well own
      have old := Function.old_removeCheckSlice module.values keepCalls own check
      exact ⟨old.2.1, old.1, Function.keepsForm_removeCheckSlice keepForm well⟩
  rcases names with ⟨transform, equal, related⟩
  exact ⟨transform, equal, fun function member =>
    (related function member (shaped.functions function member)).2⟩

/-- The erasure of the marked calls keeps the faultless run of a function, if each removal
takes no other check with it and nothing that goes out of the function is missed. -/
theorem runsAlike_eraseMarkedChecks (module : Module) (utilities : CleanupUtilities)
    (calls : List InstId) (function : Function) (machine : Machine World Datum)
    (world : World) (keepCalls : utilities.KeepCalls)
    (keepRuns : utilities.KeepRuns machine world) (honest : machine.Honest module.values)
    (pending : module.erasure.Pending module.values calls)
    (member : function ∈ module.functions) (wellFormed : function.WellFormed)
    (faultless : function.Faultless machine world)
    (steps : Erasure.EveryStep utilities module.values (fun candidate check =>
      Erasure.Careful module.values candidate check ∧
        (candidate.name = function.name →
          candidate.Unseen machine module.values check world)) module.erasure calls) :
    ∃ after ∈ (module.eraseMarkedChecks utilities calls).functions,
      after.name = function.name ∧ after.WellFormed ∧
        function.RunsAlike after machine world := by
  have checks := pending.everyStep keepCalls (steps.mono fun _ _ => And.left)
  have kept : Erasure.Relates (fun before after => before.Shaped → after.Shaped ∧
      after.name = before.name ∧ (before.name = function.name →
        before.KeepsRun after machine world)) module.erasure
          (module.eraseMarkedChecks utilities calls) := by
    apply relates_eraseMarkedChecks
    · exact fun candidate own => ⟨own, rfl, fun _ => .refl _ _ _⟩
    · intro first second third left right own
      rcases left own with ⟨middle, leftName, leftRun⟩
      rcases right middle with ⟨last, rightName, rightRun⟩
      refine ⟨last, rightName.trans leftName, fun isOwn => ?_⟩
      exact (leftRun isOwn).trans (rightRun (leftName.trans isOwn))
    · exact keepCalls
    · exact pending.shaped
    · intro candidate own
      have tidied := CleanupUtilities.keepsCalls_tidy keepCalls candidate
      exact ⟨tidied.shaped own, tidied.name, fun _ =>
        CleanupUtilities.keepsRun_tidy keepRuns candidate⟩
    · apply (steps.and checks).mono
      intro candidate check step own
      have old := Function.old_removeCheckSlice module.values keepCalls own check
      exact ⟨old.2.1, old.1, fun isOwn =>
        Function.keepsRun_removeCheckSlice keepRuns honest step.2 (step.1.2 isOwn)⟩
  rcases kept with ⟨transform, equal, related⟩
  rcases related function member wellFormed.shaped with ⟨-, name, run⟩
  refine ⟨transform function, ?_, name, run rfl wellFormed faultless⟩
  rw [equal]
  exact List.mem_map_of_mem member

/-! ## A sample

One function loads a global twice and stores to it, the other one loads it in a block of
its own. -/

def readersValues : ValueTable where
  value
    | 0 => ⟨.constant (.function "__asan_load4" .notIntrinsic), .pointer⟩
    | 1 => ⟨.constant .globalVariable, .pointer⟩
    | _ => ⟨.argument, .integer 1⟩
  count := 4

def twiceReader : Function where
  name := "g"
  blocks :=
    [{ id := 0
       insts := [sampleCall 20 0 1, sampleCall 21 0 1,
         ⟨22, .other 0, .store (.other 3) (.other 1)⟩]
       terminator := ⟨23, .other 0, .ret none⟩ }]

def readers : Module where
  functions := [twiceReader, Function.guardedStore]
  values := readersValues
  dataLayout := ⟨64, 8⟩

theorem twiceReader_notBypassable (check : InstId) (inside : check ∈ twiceReader.ids) :
    ¬∃ report, twiceReader.Bypassable readersValues check report := by
  intro bypass
  rcases bypass with ⟨report, bypassable⟩
  have parents : ∀ id ∈ twiceReader.ids, ∀ block ∈ twiceReader.parent? id,
      isReportBlockTerminator block.terminator.op = false := by decide
  have parent := parents check inside report (Option.mem_def.mpr bypassable.parent)
  rw [bypassable.terminator] at parent
  cases parent

theorem guardedStore_parent {report : Block}
    (bypassable : Function.guardedStore.Bypassable readersValues 0 report) :
    report = { id := 1, insts := [Function.readCheck], terminator := ⟨11, .other 0, .br 2⟩ } := by
  have parent : Function.guardedStore.parent? 0 = some
      { id := 1, insts := [Function.readCheck], terminator := ⟨11, .other 0, .br 2⟩ } := by
    decide
  rw [bypassable.parent] at parent
  exact Option.some.inj parent

/-- First the second load of the one function goes, then the load of the other one. -/
theorem readers_everyStep {condition : Function → InstId → Prop}
    (first : condition twiceReader 21) (second : condition Function.guardedStore 0) :
    Erasure.EveryStep .inert readers.values condition readers.erasure [21, 0] := by
  refine ⟨?_, ?_, trivial⟩
  · intro function found
    have known : readers.erasure.functionOf? 21 = some twiceReader := by decide
    rw [known] at found
    exact Option.some.inj found ▸ first
  · intro function found
    have known : (readers.erasure.removeCheckSlice .inert readers.values 21).functionOf? 0 =
        some Function.guardedStore := by decide +kernel
    rw [known] at found
    exact Option.some.inj found ▸ second

theorem readers_wellFormed :
    (readers.markRedundantChecks .byId {} []).markedCalls = [21, 0] ∧
      ∀ after ∈ (readers.eraseMarkedChecks .inert [21, 0]).functions, after.WellFormed := by
  refine ⟨by decide +kernel, ?_⟩
  have whole : ∀ function ∈ readers.functions, function.WellFormed := by
    intro function member
    rcases List.mem_pair.mp member with rfl | rfl
    · exact Function.wellFormed_of_constants (by decide) rfl (by decide) (by decide) (by decide)
    · exact Function.wellFormed_of_constants (by decide) rfl (by decide) (by decide) (by decide)
  have wells := @readers_everyStep (fun function check =>
      ∀ report, function.Bypassable readersValues check report →
        function.SplicesWell report.id)
    (fun report bypassable =>
      absurd ⟨report, bypassable⟩ (twiceReader_notBypassable 21 (by decide)))
    (by
      intro report bypassable
      rw [guardedStore_parent bypassable]
      exact Function.splicesWell_of_covered (by decide) (by decide))
  rcases wellFormed_eraseMarkedChecks readers .inert [21, 0] CleanupUtilities.keepCalls_inert
    CleanupUtilities.keepForm_inert (by decide) wells with ⟨transform, equal, kept⟩
  intro after member
  rw [equal] at member
  rcases List.mem_map.mp member with ⟨function, functionMember, rfl⟩
  exact ((kept function functionMember).2 (whole function functionMember)).1

theorem readers_careful :
    Erasure.Careful readersValues twiceReader 21 ∧
      Erasure.Careful readersValues Function.guardedStore 0 := by
  refine ⟨⟨?_, ?_⟩, ?_, ?_⟩
  · exact fun report bypassable =>
      absurd ⟨report, bypassable⟩ (twiceReader_notBypassable 21 (by decide))
  · intro _ other _ different erasable
    have slice : twiceReader.collectCheckSlice readersValues 21 = ⟨[21], []⟩ := by
      decide +kernel
    cases erasable with
    | intro member inSlice kind users =>
        rw [slice] at inSlice
        exact different (List.mem_singleton.mp inSlice)
  · intro report bypassable
    rw [guardedStore_parent bypassable]
    decide
  · intro direct
    have bypassable : Function.guardedStore.Bypassable readersValues 0
        { id := 1, insts := [Function.readCheck], terminator := ⟨11, .other 0, .br 2⟩ } := by
      decide +kernel
    exact absurd ⟨_, bypassable⟩ direct.notBypassed

theorem readers_pending : readers.erasure.Pending readers.values [21, 0] where
  shaped := by decide
  nodup := by decide
  held := by
    have isLoad : readersValues.isCheck
        (.call { calledOperand := .other 0, args := [.other 1] }) = true := by decide +kernel
    intro check member
    rcases List.mem_pair.mp member with rfl | rfl
    · exact ⟨twiceReader, by decide, _, List.mem_singleton_self _, ⟨[], .start rfl⟩,
        sampleCall 21 0 1, by decide, rfl, isLoad, rfl⟩
    · refine ⟨Function.guardedStore, by decide, _,
        List.mem_cons_of_mem _ (List.mem_cons_of_mem _ (List.mem_cons_self ..)), ⟨[0, 4], ?_⟩,
        Function.readCheck, by decide, rfl, isLoad, rfl⟩
      exact .step (.step (.start rfl) (by decide)) (by decide)

theorem readers_runsAlike :
    ∃ after ∈ (readers.eraseMarkedChecks .inert [21, 0]).functions, after.name = "g" ∧
      after.WellFormed ∧ twiceReader.RunsAlike after Machine.storing () := by
  have ending : (twiceReader.execution Machine.storing).ending
      ((twiceReader.execution Machine.storing).run (twiceReader.start Machine.storing ()) 1) =
        some (.returned none) := by decide
  have ended := Option.isSome_of_eq_some ending
  apply runsAlike_eraseMarkedChecks readers .inert [21, 0] twiceReader Machine.storing ()
    CleanupUtilities.keepCalls_inert (CleanupUtilities.keepRuns_inert _ _)
    (Machine.honest_storing _) readers_pending (by decide)
    (Function.wellFormed_of_constants (by decide) rfl (by decide) (by decide) (by decide))
  · constructor
    · rw [LoggedSystem.ends_iff_of_ended _ ended, ending]
      intro same
      cases same
    · rw [LoggedSystem.ends_iff_of_ended _ ended, ending]
      intro same
      cases same
  · apply readers_everyStep
    · refine ⟨readers_careful.1, fun _ => ⟨?_, fun _ => ?_⟩⟩
      · exact fun report bypassable =>
          absurd ⟨report, bypassable⟩ (twiceReader_notBypassable 21 (by decide))
      · exact Function.calm_of_noRuntime (by decide) _ ()
    · exact ⟨readers_careful.2, fun same => absurd same (by decide)⟩

end Module

end Desan
