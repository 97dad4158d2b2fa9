import Desan.CheckSliceRemover.BypassedRuns
import Desan.CheckSliceRemover.LeastErasure
import Desan.CheckSliceRemover.WellFormedRemoval

/-! # What a removal does to the runs of a function

A direct erasure keeps the runs in which the erased calls of the runtime change nothing. A
bypass keeps the runs in which the report block is not missed. -/

namespace Desan

variable {World Datum : Type} {machine : Machine World Datum} {values : ValueTable}

namespace Function

/-- What a direct erasure takes: the call, and the dead part of its slice. -/
def ErasedWith (function : Function) (values : ValueTable) (check id : InstId) : Prop :=
  id = check ∨ Erasable (function.eraseInst check) values
    (function.collectCheckSlice values check) id

theorem CalmAt.mono {function : Function} {first second : InstId → Prop}
    {point : RunPoint World Datum} (calm : function.CalmAt machine values second point)
    (subset : ∀ id, first id → second id) : function.CalmAt machine values first point :=
  fun block found before inst after split lost runtime =>
    calm block found before inst after split (subset inst.id lost) runtime

section Direct

variable {function : Function} {check : InstId}

/-- The call and the dead part of its slice are unused by what stays. -/
theorem ErasesDirectly.exists_unused (direct : function.ErasesDirectly values check)
    (shaped : function.Shaped) :
    ∃ erased, ((function.eraseInst check).eraseDeadSliceInstructions values
        (function.collectCheckSlice values check)).function = function.eraseInsts erased ∧
      (∀ id ∈ erased, function.ErasedWith values check id) ∧ function.ErasesUnused erased := by
  rcases Option.isSome_iff_exists.mp direct.erased with ⟨without, isWithout⟩
  rcases eraseDirectCheckCall_eq_some isWithout with ⟨-, unused, inst, site, found, kind⟩
  rcases mem_of_inst? found with ⟨member, rfl⟩
  have stillShaped := shaped_eraseInst shaped inst.id
  rcases exists_erased_iff values stillShaped (function.collectCheckSlice values inst.id) with
    ⟨erased, whole, iff⟩
  refine ⟨[inst.id] ++ erased, ?_, ?_, ?_, ?_⟩
  · rw [whole, eraseInst_eq_eraseInsts, eraseInsts_eraseInsts]
  · intro id inside
    rcases List.mem_append.mp inside with first | later
    · exact .inl (List.mem_singleton.mp first)
    · exact .inr ((iff id).mp later)
  · intro user userMember kept id inside operand
    have parts := not_or.mp fun either => kept (List.mem_append.mpr either)
    rcases List.mem_append.mp inside with first | later
    · rw [List.mem_singleton.mp first] at operand
      exact useEmpty_iff.mp unused user userMember operand
    · rcases ((iff id).mp later).exists_inst with ⟨-, -, -, -, users⟩
      have stays : user ∈ (function.eraseInst inst.id).instructions := by
        rw [eraseInst_eq_eraseInsts]
        exact mem_instructions_eraseInsts userMember parts.1
      exact parts.2 ((iff user.id).mpr (users user.id
        (mem_users.mpr ⟨user, stays, rfl, operand⟩)))
  · intro block blockMember inside
    rcases List.mem_append.mp inside with first | later
    · exact shaped.terminator_ne member (by rw [kind]; rfl) block blockMember
        (List.mem_singleton.mp first)
    · rcases ((iff _).mp later).exists_inst with ⟨other, otherMember, sameId, otherKind, -⟩
      rw [eraseInst_eq_eraseInsts] at otherMember
      exact shaped.terminator_ne ((instructions_eraseInsts [inst.id]).subset otherMember)
        (body_of_isErasableKind otherKind) block blockMember sameId.symm

/-- No act of the program is erased. -/
theorem noAct_of_erasedWith (shaped : function.Shaped) (honest : machine.Honest values)
    {call : Inst} (found : function.inst? check = some call)
    (isCheck : values.isCheck call.op = true) {inst : Inst}
    (member : inst ∈ function.instructions)
    (erased : function.ErasedWith values check inst.id) : machine.NoAct values inst.op := by
  rcases erased with same | erasable
  · rcases mem_of_inst? found with ⟨callMember, address⟩
    rw [shaped.inst_eq member callMember (same.trans address.symm)]
    exact honest.noAct_of_call (.inl isCheck)
  · rcases erasable.exists_inst with ⟨other, otherMember, sameId, kind, -⟩
    rw [eraseInst_eq_eraseInsts] at otherMember
    rw [← shaped.inst_eq ((instructions_eraseInsts [check]).subset otherMember) member sameId]
    exact honest.noAct_of_isErasableKind kind

section Runs

variable (direct : function.ErasesDirectly values check) (shaped : function.Shaped)
  (honest : machine.Honest values) {call : Inst} (found : function.inst? check = some call)
  (isCheck : values.isCheck call.op = true) {world : World}
include direct shaped honest found isCheck

theorem ErasesDirectly.runsAlike_of_silent (defined : function.Defined machine world)
    (silent : function.Silent machine world (function.ErasedWith values check))
    (calm : function.Calm machine values (function.ErasedWith values check) world) :
    function.RunsAlike ((function.eraseInst check).eraseDeadSliceInstructions values
        (function.collectCheckSlice values check)).function machine world ∧
      ∀ id, ((function.eraseInst check).eraseDeadSliceInstructions values
        (function.collectCheckSlice values check)).function.ReportsAt machine world id →
          function.ReportsAt machine world id := by
  rcases direct.exists_unused shaped with ⟨erased, whole, takes, unused⟩
  rw [whole]
  have noAct : ∀ inst ∈ function.instructions, inst.id ∈ erased →
      machine.NoAct values inst.op := fun inst member inside =>
    noAct_of_erasedWith shaped honest found isCheck member (takes inst.id inside)
  have omits : function.Omits machine values erased world :=
    ⟨shaped, unused, noAct, defined, silent.mono takes, fun count => (calm count).mono takes⟩
  exact ⟨omits.runsAlike, fun id => omits.reportsAt⟩

theorem ErasesDirectly.runsAlike (faultless : function.Faultless machine world)
    (calm : function.Calm machine values (function.ErasedWith values check) world) :
    function.RunsAlike ((function.eraseInst check).eraseDeadSliceInstructions values
      (function.collectCheckSlice values check)).function machine world :=
  (direct.runsAlike_of_silent shaped honest found isCheck faultless.defined
    (faultless.silent _) calm).1

end Runs

end Direct

/-- A faultless run of a well-formed function is kept. -/
def KeepsRun (before after : Function) (machine : Machine World Datum) (world : World) :
    Prop :=
  before.WellFormed → before.Faultless machine world →
    after.WellFormed ∧ before.RunsAlike after machine world

theorem KeepsRun.refl (function : Function) (machine : Machine World Datum) (world : World) :
    function.KeepsRun function machine world :=
  fun wellFormed _ => ⟨wellFormed, .refl _ _⟩

theorem KeepsRun.trans {first second third : Function} {world : World}
    (left : first.KeepsRun second machine world)
    (right : second.KeepsRun third machine world) : first.KeepsRun third machine world := by
  intro wellFormed faultless
  have middle := left wellFormed faultless
  have last := right middle.1 (faultless.of_runsAlike middle.2)
  exact ⟨last.1, middle.2.trans last.2⟩

end Function

/-- What LLVM promises of its clean-up utilities: they leave valid functions that behave as
before. -/
structure CleanupUtilities.KeepRuns (utilities : CleanupUtilities)
    (machine : Machine World Datum) (world : World) : Prop where
  deleteTriviallyDead : ∀ function : Function, function.KeepsRun
    (utilities.deleteTriviallyDead function.deadInsts function) machine world
  eliminateUnreachableBlocks : ∀ function : Function, function.KeepsRun
    (utilities.eliminateUnreachableBlocks function) machine world
  mergeBlockIntoPredecessor : ∀ (function merged : Function),
    ∀ block ∈ function.blockIds.tail,
      utilities.mergeBlockIntoPredecessor block function = some merged →
        function.KeepsRun merged machine world

namespace CleanupUtilities

theorem keepRuns_inert (machine : Machine World Datum) (world : World) :
    inert.KeepRuns machine world where
  deleteTriviallyDead := fun function => .refl function machine world
  eliminateUnreachableBlocks := fun function => .refl function machine world
  mergeBlockIntoPredecessor := by
    intro function merged block _ isMerged
    cases isMerged

theorem keepsRun_tidy {utilities : CleanupUtilities} {world : World}
    (keep : utilities.KeepRuns machine world) (function : Function) :
    function.KeepsRun (utilities.tidy function) machine world := by
  apply @tidy_of_steps utilities fun before after => before.KeepsRun after machine world
  · exact fun function => .refl function machine world
  · exact fun left right => left.trans right
  · exact keep.deleteTriviallyDead
  · exact keep.eliminateUnreachableBlocks
  · exact keep.mergeBlockIntoPredecessor

end CleanupUtilities

namespace Function

/-- What a removal may do without being seen in the run for the given world. -/
structure Unseen (function : Function) (machine : Machine World Datum) (values : ValueTable)
    (check : InstId) (world : World) : Prop where
  bypassed : ∀ report, function.Bypassable values check report →
    function.SplicesWell report.id ∧ function.ClearRun machine values report world
  direct : function.ErasesDirectly values check →
    function.Calm machine values (function.ErasedWith values check) world

/-- A removal keeps the faultless runs in which nothing of what goes is missed. -/
theorem runsAlike_removeCheckSlice (utilities : CleanupUtilities) (function : Function)
    (values : ValueTable) (check : InstId) (machine : Machine World Datum) (world : World)
    (keep : utilities.KeepRuns machine world) (honest : machine.Honest values)
    (wellFormed : function.WellFormed)
    (isCheck : ∃ call, function.inst? check = some call ∧ values.isCheck call.op = true)
    (faultless : function.Faultless machine world)
    (unseen : function.Unseen machine values check world) :
    function.RunsAlike (function.removeCheckSlice utilities values check).function machine
      world := by
  have shaped := wellFormed.shaped
  have erased : function.KeepsRun (function.eraseCheckSlice values check).function machine
      world := by
    intro _ _
    have wells : ∀ report, function.Bypassable values check report →
        function.SplicesWell report.id := fun report bypassable =>
      (unseen.bypassed report bypassable).1
    refine ⟨(keepsForm_eraseCheckSlice wells wellFormed).1, ?_⟩
    rcases eraseCheckSlice_cases shaped with bypass | direct | refused
    · rcases bypass with ⟨report, bypassable, equal⟩
      rcases unseen.bypassed report bypassable with ⟨well, clear⟩
      rw [equal]
      exact bypassable.runsAlike wellFormed well honest faultless clear _
    · rcases isCheck with ⟨call, found, isCheck⟩
      rw [direct.2]
      exact direct.1.runsAlike shaped honest found isCheck faultless (unseen.direct direct.1)
    · rw [refused.2.2]
      exact .refl _ _
  rw [removeCheckSlice]
  split
  · exact (erased.trans (CleanupUtilities.keepsRun_tidy keep _) wellFormed faultless).2
  · exact (erased wellFormed faultless).2

end Function

/-! ## Samples

A machine on which loads and calls answer the same number and stores are logged. -/

def Machine.storing : Machine Unit (Option Nat) where
  other id := some id
  poison := none
  eval _ _ _ _ := some 100
  effect op _ _ :=
    match op with
    | .store _ _ => .acts true (some ())
    | _ => .quiet
  isTrue datum := datum == some 2
  choose _ _ _ := 0

theorem Machine.honest_storing (values : ValueTable) : Machine.storing.Honest values := by
  have quiet : ∀ op data world, (∀ value pointer, op ≠ .store value pointer) →
      Machine.storing.effect op data world = .quiet := by
    intro op data world notStore
    cases op with
    | store value pointer => exact absurd rfl (notStore value pointer)
    | _ => rfl
  have call : ∀ op : Op, op.callSite?.isSome = true →
      ∀ value pointer, op.shape ≠ .store value pointer := by
    intro op isCall value pointer same
    cases op with
    | call _ | invoke _ _ _ => cases same
    | _ => cases isCall
  have callee : ∀ op : Op, op.callSite? = none → values.isCheck op = false ∧
      values.isNoopIntrinsic op = false ∧ values.isEmptyInlineAsmCall op = false ∧
        values.isDirectMemSanRuntimeCall op = false := by
    intro op none
    simp [ValueTable.isCheck, ValueTable.classifyCheck, ValueTable.isNoopIntrinsic,
      ValueTable.intrinsicID, ValueTable.isEmptyInlineAsmCall,
      ValueTable.isDirectMemSanRuntimeCall, none]
  have own : ∀ op env world, values.isCheck op = true ∨ values.isNoopIntrinsic op = true ∨
      values.isEmptyInlineAsmCall op = true ∨ values.isDirectMemSanRuntimeCall op = true →
        Machine.storing.effect op.shape (Machine.storing.operands op env) world = .quiet := by
    intro op env world either
    apply quiet
    apply call
    cases found : op.callSite? with
    | some site => rfl
    | none =>
        have parts := callee op found
        simp [parts] at either
  exact
    { pure := by
        intro op data world pure
        apply quiet
        intro value pointer same
        rw [same] at pure
        cases pure
      check := fun op env world check => .inl (own op env world (.inl check))
      noop := by
        intro op env world either
        rcases either with noop | asm
        · exact own op env world (.inr (.inl noop))
        · exact own op env world (.inr (.inr (.inl asm)))
      runtime := fun op env world runtime =>
        .inl (own op env world (.inr (.inr (.inr runtime)))) }

namespace Function

/-- A checked read in a block of its own, and the value is stored behind it. -/
def lostRead : Function where
  name := "f"
  blocks :=
    [{ id := 0, insts := [], terminator := ⟨10, .other 0, .br 1⟩ },
     { id := 1
       insts := [readCheck, ⟨1, .integer 32, .load (.other 1) false .notAtomic⟩]
       terminator := ⟨11, .other 0, .br 2⟩ },
     { id := 2
       insts := [⟨2, .other 0, .store (.inst 1) (.other 1)⟩]
       terminator := ⟨12, .other 0, .ret none⟩ }]

theorem lostRead_wellFormed : lostRead.WellFormed := by
  apply wellFormed_of_noPhi (by decide) rfl (by decide) (by decide)
  intro user member id operand block blockMember inst inside isUser done path
  -- Only the store uses an instruction, and control comes to it from the read.
  have store : ∀ user ∈ lostRead.instructions, ∀ value ∈ user.op.operands,
      value.asInst = none ∨ user.id = 2 ∧ value = .inst 1 := by decide
  rcases store user member (.inst id) operand with constant | reads
  · cases constant
  · have atLast : ∀ block ∈ lostRead.blocks, ∀ inst ∈ block.instructions, inst.id = 2 →
        block.id = 2 := by decide
    have isLast := atLast block blockMember inst inside (isUser.trans reads.1)
    have isRead : id = 1 := Value.inst.inj reads.2
    have only : lostRead.predecessors 2 = [1] := by decide
    right
    rw [isLast] at path ⊢
    rw [isRead]
    cases path with
    | start atEntry => exact absurd atEntry (by decide)
    | step arrived edge =>
        have isPred := mem_predecessors.mpr edge
        rw [only] at isPred
        rw [List.mem_singleton.mp isPred]
        refine ⟨_, List.mem_cons_of_mem _ (List.mem_cons_self ..), by decide,
          List.mem_cons_self .., ?_⟩
        intro site normal unwind _ kind
        cases kind

/-- What is left of it: the read has gone with its check. -/
def poisonStore : Function where
  name := "f"
  blocks :=
    [{ id := 0, insts := [], terminator := ⟨10, .other 0, .br 2⟩ },
     { id := 2
       insts := [⟨2, .other 0, .store .poison (.other 1)⟩]
       terminator := ⟨12, .other 0, .ret none⟩ }]

/-- The first function stores what it reads, the second one stores poison. -/
theorem lostRead_not_runsAlike :
    CleanupUtilities.inert.KeepRuns Machine.storing () ∧
      Machine.storing.Honest readValues ∧ lostRead.WellFormed ∧
        (∃ call, lostRead.inst? 0 = some call ∧ readValues.isCheck call.op = true) ∧
          (lostRead.removeCheckSlice .inert readValues 0).removed = true ∧
            lostRead.Faultless Machine.storing () ∧
              ¬lostRead.RunsAlike (lostRead.removeCheckSlice .inert readValues 0).function
                Machine.storing () := by
  have ending : (lostRead.execution Machine.storing).ending
      ((lostRead.execution Machine.storing).run (lostRead.start Machine.storing ()) 3) =
        some (.returned none) := by decide
  have ended := Option.isSome_of_eq_some ending
  have left : (lostRead.removeCheckSlice .inert readValues 0).function = poisonStore := by
    decide +kernel
  have leftEnded : ((poisonStore.execution Machine.storing).ending
      ((poisonStore.execution Machine.storing).run
        (poisonStore.start Machine.storing ()) 2)).isSome = true := by decide
  refine ⟨CleanupUtilities.keepRuns_inert _ _, Machine.honest_storing _, lostRead_wellFormed,
    ⟨readCheck, by decide, by decide⟩, by decide +kernel, ⟨?_, ?_⟩, ?_⟩
  · rw [LoggedSystem.ends_iff_of_ended _ ended, ending]
    intro same
    cases same
  · rw [LoggedSystem.ends_iff_of_ended _ ended, ending]
    intro same
    cases same
  · rw [left]
    intro same
    have emits := (same.emits [(.store .poison .poison, [some 100, some 1])]).mp
      ⟨3, by decide⟩
    rw [LoggedSystem.emits_iff_of_ended _ leftEnded] at emits
    exact absurd emits (by decide)

/-- A checked block on one side of a branch, and a store behind both, to which another
branch leads too. -/
def guardedStore : Function where
  name := "f"
  blocks :=
    [{ id := 4, insts := [], terminator := ⟨14, .other 0, .condBr (.other 2) 0 3⟩ },
     { id := 0, insts := [], terminator := ⟨10, .other 0, .condBr (.other 2) 1 2⟩ },
     { id := 1, insts := [readCheck], terminator := ⟨11, .other 0, .br 2⟩ },
     { id := 3, insts := [], terminator := ⟨13, .other 0, .br 2⟩ },
     { id := 2
       insts := [⟨2, .other 0, .store (.other 3) (.other 1)⟩]
       terminator := ⟨12, .other 0, .ret none⟩ }]

theorem guardedStore_runsAlike :
    guardedStore.RunsAlike (guardedStore.removeCheckSlice .inert readValues 0).function
      Machine.storing () := by
  have noPhi : ∀ inst ∈ guardedStore.instructions, inst.op.isPhi = false := by decide
  have constants : ∀ inst ∈ guardedStore.instructions, ∀ value ∈ inst.op.operands,
      value.asInst = none := by decide
  have ending : (guardedStore.execution Machine.storing).ending
      ((guardedStore.execution Machine.storing).run (guardedStore.start Machine.storing ()) 4) =
        some (.returned none) := by decide
  have ended := Option.isSome_of_eq_some ending
  have calm : ∀ lost, guardedStore.Calm Machine.storing readValues lost () := fun lost =>
    calm_of_noRuntime (by decide) lost ()
  apply runsAlike_removeCheckSlice .inert guardedStore readValues 0 Machine.storing ()
    (CleanupUtilities.keepRuns_inert _ _) (Machine.honest_storing _)
    (wellFormed_of_constants (by decide) rfl (by decide) noPhi constants)
    ⟨readCheck, by decide, by decide⟩
  · constructor
    · rw [LoggedSystem.ends_iff_of_ended _ ended, ending]
      intro same
      cases same
    · rw [LoggedSystem.ends_iff_of_ended _ ended, ending]
      intro same
      cases same
  · refine ⟨?_, fun _ => calm _⟩
    intro report bypassable
    have parent : guardedStore.parent? 0 = some
        { id := 1, insts := [readCheck], terminator := ⟨11, .other 0, .br 2⟩ } := by decide
    rw [bypassable.parent] at parent
    rw [Option.some.inj parent]
    refine ⟨splicesWell_of_covered (by decide) (by decide), ?_, calm _⟩
    intro count point _ _ block found _
    have member := (mem_of_block? found).1
    have ofPhi : ∀ phi ∈ block.insts, phi.op.isPhi = false := fun phi inside =>
      noPhi phi (mem_instructions.mpr ⟨block, member, Block.mem_instructions.mpr (.inl inside)⟩)
    constructor
    · intro user inside _
      right
      intro id _ operand
      cases constants user (mem_instructions.mpr ⟨block, member, inside⟩) (.inst id) operand
    · intro phi inside entries isPhi
      have notPhi := ofPhi phi inside
      rw [isPhi] at notPhi
      cases notPhi
    · intro phi inside isPhi
      rw [ofPhi phi inside] at isPhi
      cases isPhi

end Function

end Desan
