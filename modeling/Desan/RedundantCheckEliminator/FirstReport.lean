import Desan.RedundantCheckEliminator.Coverage
import Desan.RedundantCheckEliminator.ErrorsKept
import Desan.RedundantCheckEliminator.Locality

/-! # The check that reports

A run stops at its first report. Where the key of a check decides whether it reports, that
check is not marked: the READ kept for a marked one has been passed before, and would have
reported. -/

namespace Desan

variable {World Datum : Type} {machine : Machine World Datum} {values : ValueTable}

/-- What a run executes of a block once the phis have their values. -/
def Block.executed (block : Block) : List Inst := block.body ++ [block.terminator]

theorem Block.executed_eq {block : Block} (terminator : block.terminator.op.isPhi = false) :
    block.executed = block.instructions.filter fun inst => !inst.op.isPhi := by
  rw [executed, instructions, List.filter_append, body]
  congr 1
  rw [List.filter_cons_of_pos (by simp [terminator]), List.filter_nil]

namespace Machine

/-- The instruction reports in the state. -/
def ReportsOn (machine : Machine World Datum) (inst : Inst) (state : RunState World Datum) :
    Prop :=
  machine.effect inst.op.shape (machine.operands inst.op state.env) state.world = .reports

theorem exec_of_reportsOn {inst : Inst} {state : RunState World Datum}
    (reports : machine.ReportsOn inst state) (running : state.ending = none) :
    (machine.exec state inst).ending = some .reported := by
  rw [ReportsOn] at reports
  rw [exec, running]
  simp only [Option.isSome_none, Bool.false_eq_true, if_false, reports]
  rfl

/-- A state that still runs was running before. -/
theorem running_of_foldl {insts : List Inst} {state : RunState World Datum}
    (running : (insts.foldl machine.exec state).ending = none) : state.ending = none := by
  cases ended : state.ending with
  | none => rfl
  | some ending =>
      rw [foldl_exec_of_ended (Option.isSome_of_eq_some ended), ended] at running
      cases running

/-- A terminator that reports ends the run. -/
theorem leave_of_reportsOn (honest : machine.Honest values) {terminator : Inst}
    {state : RunState World Datum} (isTerminator : terminator.op.isTerminator = true)
    (reports : machine.ReportsOn terminator state) :
    (machine.leave terminator state).2 = none := by
  have effect := honest.mayHaveSideEffects_of_reports reports
  cases running : state.ending with
  | some ending => rw [leave, running]; rfl
  | none =>
      have ended := Option.isSome_of_eq_some (exec_of_reportsOn reports running)
      have isLeave : machine.leave terminator state = _ := leave.eq_1 machine terminator state
      rw [running] at isLeave
      simp only [Option.isSome_none, Bool.false_eq_true, if_false] at isLeave
      cases kind : terminator.op with
      | invoke _ _ _ | otherTerminator _ _ _ _ =>
          rw [kind] at isLeave
          simp only [ended, if_true] at isLeave
          rw [isLeave]
      | br _ | condBr _ _ _ | unreachable | ret _ =>
          rw [kind] at effect
          cases effect
      | _ =>
          rw [kind] at isTerminator
          cases isTerminator

theorem reportsOn_of_leave {terminator : Inst} {state : RunState World Datum}
    (running : state.ending = none)
    (reported : (machine.leave terminator state).1.ending = some .reported) :
    machine.ReportsOn terminator state := by
  apply effect_of_reported running
  have isLeave : machine.leave terminator state = _ := leave.eq_1 machine terminator state
  rw [running] at isLeave
  simp only [Option.isSome_none, Bool.false_eq_true, if_false] at isLeave
  cases kind : terminator.op with
  | br _ | condBr _ _ _ =>
      rw [kind] at isLeave
      rw [isLeave, running] at reported
      cases reported
  | unreachable | ret _ =>
      rw [kind] at isLeave
      rw [isLeave] at reported
      cases reported
  | _ =>
      rw [kind] at isLeave
      simp only at isLeave
      split at isLeave
      · rw [isLeave] at reported
        exact reported
      · split at isLeave
        · rw [isLeave] at reported
          exact reported
        · rw [isLeave] at reported
          cases reported

end Machine

namespace Function

variable {function : Function} {world : World} {point : RunPoint World Datum} {block : Block}

/-! ## What a run comes to -/

/-- The run comes to the instruction in the state. -/
def Visits (function : Function) (machine : Machine World Datum) (world : World) (inst : Inst)
    (state : RunState World Datum) : Prop :=
  ∃ count point, (function.execution machine).run (function.start machine world) count =
    point ∧ point.state.ending = none ∧ ∃ block, function.block? point.block = some block ∧
      ∃ front rest, block.executed = front ++ inst :: rest ∧
        reached machine block point front = state ∧ state.ending = none

/-- The run passes the instruction without a report. -/
def Passes (function : Function) (machine : Machine World Datum) (world : World)
    (inst : Inst) : Prop :=
  ∃ state, function.Visits machine world inst state ∧ ¬machine.ReportsOn inst state

section Passes

variable {count : Nat}
  (at_ : (function.execution machine).run (function.start machine world) count = point)
  (running : point.state.ending = none) (found : function.block? point.block = some block)
include at_ running found

/-- An instruction behind which the run goes on. -/
theorem passes_of_running {front rest : List Inst} {inst other : Inst}
    (split : block.executed = front ++ other :: rest) (inFront : inst ∈ front)
    (still : (reached machine block point front).ending = none) :
    function.Passes machine world inst := by
  rcases List.append_of_mem inFront with ⟨early, late, rfl⟩
  have whole : early ++ inst :: late = (early ++ [inst]) ++ late := by simp
  rw [whole, reached_append] at still
  have behind := Machine.running_of_foldl still
  rw [reached_append] at behind
  have before := Machine.running_of_foldl behind
  refine ⟨reached machine block point early, ⟨count, point, at_, running, block, found, early,
    late ++ other :: rest, by rw [split]; simp, rfl, before⟩, ?_⟩
  intro reports
  have ended := Machine.exec_of_reportsOn reports before
  exact absurd (behind.symm.trans ended) (by simp)

/-- All of a block that the run has left. -/
theorem passes_of_left (honest : machine.Honest values) (shaped : function.Shaped)
    {next : BlockId} (goesOn : (leftOf machine block point).2 = some next) {inst : Inst}
    (inside : inst ∈ block.executed) : function.Passes machine world inst := by
  have still : (reached machine block point block.body).ending = none := by
    cases ended : (machine.execBlock block point.done.head? point.state).ending with
    | none => exact ended
    | some ending =>
        rw [leftOf, Machine.leave_of_ended (Option.isSome_of_eq_some ended)] at goesOn
        cases goesOn
  rcases List.mem_append.mp inside with inBody | last
  · exact passes_of_running at_ running found rfl inBody still
  · rw [List.mem_singleton.mp last]
    refine ⟨_, ⟨count, point, at_, running, block, found, block.body, [], rfl, rfl, still⟩, ?_⟩
    intro reports
    have isTerminator := shaped.terminators block (mem_of_block? found).1
    have ends := Machine.leave_of_reportsOn honest isTerminator reports
    exact absurd (goesOn.symm.trans ends) (by simp)

end Passes

/-- A block on the way was found, and left. -/
theorem exists_left (count : Nat) {id : BlockId}
    (done : id ∈ ((function.execution machine).run (function.start machine world) count).done) :
    ∃ early point, (function.execution machine).run (function.start machine world) early =
      point ∧ point.state.ending = none ∧ ∃ block, function.block? point.block = some block ∧
        block.id = id ∧ ∃ next, (leftOf machine block point).2 = some next := by
  induction count with
  | zero => cases done
  | succ count induction =>
      rw [LoggedSystem.run_succ] at done
      generalize at_ : (function.execution machine).run (function.start machine world) count =
        point at done induction
      have same : (function.execution machine).step point = function.step machine point := rfl
      rw [same] at done
      cases running : point.state.ending with
      | some ending =>
          rw [step_of_ended (by rw [running]; rfl)] at done
          exact induction done
      | none =>
          cases found : function.block? point.block with
          | none =>
              rw [step, running, found] at done
              exact induction done
          | some block =>
              rcases step_cases machine running found with goesOn | ended
              · rcases goesOn with ⟨next, -, isNext, isStep⟩
                rw [isStep] at done
                rcases List.mem_cons.mp done with rfl | earlier
                · exact ⟨count, point, at_, running, block, found, rfl, next, isNext⟩
                · exact induction earlier
              · rw [ended.2.2] at done
                exact induction done

/-- A report is one of an instruction the run comes to. -/
theorem ReportsAt.exists_visit {id : InstId}
    (reports : function.ReportsAt machine world id) :
    ∃ count point, (function.execution machine).run (function.start machine world) count =
      point ∧ point.state.ending = none ∧ ∃ block, function.block? point.block = some block ∧
        ∃ front inst rest, block.executed = front ++ inst :: rest ∧ inst.id = id ∧
          (reached machine block point front).ending = none ∧
            machine.ReportsOn inst (reached machine block point front) := by
  rcases reports with ⟨count, point, at_, running, block, found, either⟩
  refine ⟨count, point, at_, running, block, found, ?_⟩
  rcases either with ⟨front, inst, rest, split, isId, still, reported⟩ | terminator
  · refine ⟨front, inst, rest ++ [block.terminator], ?_, isId, still, ?_⟩
    · rw [Block.executed, split]
      simp
    · rw [reached_append] at reported
      exact Machine.effect_of_reported still reported
  · rcases terminator with ⟨isId, still, reported⟩
    exact ⟨block.body, block.terminator, [], rfl, isId, still,
      Machine.reportsOn_of_leave still reported⟩

/-! ## What stands earlier in the layout -/

/-- Of two instructions in layout order, control comes to the second one behind the first
one, or past it by a jump over its block. -/
theorem behind_or_jumps (blocks : function.blockIds.Nodup)
    (insts : (function.instructions.map Inst.id).Nodup) {first second : InstId}
    (ordered : [first, second].Sublist (function.instructions.map Inst.id)) {home : Block}
    (homeMember : home ∈ function.blocks) (inHome : first ∈ home.definitions)
    (member : block ∈ function.blocks) (inBlock : second ∈ block.definitions)
    {done : List BlockId} (path : function.Path done block.id) :
    (home = block ∧ [first, second].Sublist block.definitions) ∨ home.id ∈ done ∨
      function.JumpsOver (block.id :: done) home.id := by
  rw [map_id_instructions] at insts ordered
  rcases sublist_pair_flatMap ordered with one | two
  · rcases one with ⟨shared, sharedMember, pair⟩
    have atBlock : shared = block :=
      eq_of_nodup_flatMap insts sharedMember member (pair.subset (by simp)) inBlock
    have atHome : shared = home :=
      eq_of_nodup_flatMap insts sharedMember homeMember (pair.subset (by simp)) inHome
    exact .inl ⟨atHome.symm.trans atBlock, atBlock ▸ pair⟩
  · rcases two with ⟨left, right, pair, inLeft, inRight⟩
    rw [eq_of_nodup_flatMap insts (pair.subset (by simp)) homeMember inLeft inHome,
      eq_of_nodup_flatMap insts (pair.subset (by simp)) member inRight inBlock] at pair
    have less : function.position home.id < function.position block.id :=
      idxOf_lt_of_sublist_pair blocks (pair.map Block.id)
    have starts : ∀ root, function.IsEntry root →
        function.position root ≤ function.position home.id := by
      intro root entry
      rw [position_entry entry]
      exact Nat.zero_le _
    right
    rcases Walk.crosses path starts less with visited | jumped
    · rcases visited with ⟨middle, middleMember, position⟩
      have homeKnown : home.id ∈ function.blockIds := List.mem_map_of_mem homeMember
      exact .inl ((List.idxOf_inj homeKnown).mp position.symm ▸ middleMember)
    · rcases jumped with ⟨newer, source, target, older, trail, edge, below, above⟩
      exact .inr ⟨newer, source, target, older, trail, edge, below, above⟩

/-- In one block, what comes first is executed first. -/
theorem mem_front_of_ordered (shaped : function.Shaped) (member : block ∈ function.blocks)
    {front rest : List Inst} {inst other : Inst}
    (split : block.executed = front ++ other :: rest) (inside : inst ∈ block.instructions)
    (notPhi : inst.op.isPhi = false)
    (ordered : [inst.id, other.id].Sublist block.definitions) : inst ∈ front := by
  have terminator := Op.isPhi_of_isTerminator (shaped.terminators block member)
  have nodup := Block.nodup_definitions shaped member
  have parts := Block.executed_eq terminator
  have otherMember : other ∈ block.instructions.filter fun inst => !inst.op.isPhi := by
    rw [← parts, split]
    exact List.mem_append_right _ (List.mem_cons_self ..)
  have otherParts := List.mem_filter.mp otherMember
  have pair : [inst, other].Sublist block.instructions := by
    rcases List.sublist_map_iff.mp ordered with ⟨chosen, chosenSub, ids⟩
    rcases List.map_eq_cons_iff.mp ids.symm with ⟨first, others, rfl, firstId, isOthers⟩
    rcases List.map_eq_cons_iff.mp isOthers with ⟨second, none, rfl, secondId, isNone⟩
    rw [List.map_eq_nil_iff.mp isNone] at chosenSub
    have firstIs := List.inj_on_of_nodup_map nodup (chosenSub.subset (by simp)) inside firstId
    have secondIs := List.inj_on_of_nodup_map nodup (chosenSub.subset (by simp)) otherParts.1
      secondId
    exact firstIs ▸ secondIs ▸ chosenSub
  have kept := pair.filter fun inst => !inst.op.isPhi
  have both : [inst, other].filter (fun inst => !inst.op.isPhi) = [inst, other] := by
    simpa [notPhi] using otherParts.2
  rw [← parts, split, both] at kept
  apply mem_of_sublist_pair _ kept
  rw [← split, parts]
  exact (List.Nodup.of_map _ nodup).filter _

/-- On its way to an instruction the run has passed what stands earlier in the layout, or
has jumped over its block. -/
theorem passes_or_jumps (wellFormed : function.WellFormed) (honest : machine.Honest values)
    {count : Nat}
    (at_ : (function.execution machine).run (function.start machine world) count = point)
    (running : point.state.ending = none) (found : function.block? point.block = some block)
    {front rest : List Inst} {inst other : Inst}
    (split : block.executed = front ++ other :: rest)
    (still : (reached machine block point front).ending = none) {home : Block}
    (homeMember : home ∈ function.blocks) (inHome : inst ∈ home.instructions)
    (notPhi : inst.op.isPhi = false)
    (ordered : [inst.id, other.id].Sublist (function.instructions.map Inst.id)) :
    function.Passes machine world inst ∨
      function.JumpsOver (block.id :: point.done) home.id := by
  have shaped := wellFormed.shaped
  rcases mem_of_block? found with ⟨member, address⟩
  have path := path_run machine wellFormed.entry world count
  rw [at_, ← address] at path
  have terminator := Op.isPhi_of_isTerminator (shaped.terminators block member)
  have inBlock : other ∈ block.instructions := by
    have inExecuted : other ∈ block.executed :=
      split ▸ List.mem_append_right _ (List.mem_cons_self ..)
    rw [Block.executed_eq terminator] at inExecuted
    exact (List.mem_filter.mp inExecuted).1
  rcases behind_or_jumps shaped.blocks shaped.insts ordered homeMember
    (List.mem_map_of_mem inHome) member (List.mem_map_of_mem inBlock) path with
      here | before | jumps
  · rcases here with ⟨rfl, pair⟩
    exact .inl (passes_of_running at_ running found split
      (mem_front_of_ordered shaped member split inHome notPhi pair) still)
  · left
    rw [← at_] at before
    rcases exists_left count before with
      ⟨early, earlyPoint, earlyAt, earlyRunning, left, leftFound, sameId, next, goesOn⟩
    have atHome := shaped.block_eq (mem_of_block? leftFound).1 homeMember sameId
    rw [atHome] at leftFound goesOn
    apply passes_of_left earlyAt earlyRunning leftFound honest shaped goesOn
    rw [Block.executed_eq (Op.isPhi_of_isTerminator (shaped.terminators home homeMember))]
    exact List.mem_filter.mpr ⟨inHome, by simp [notPhi]⟩
  · exact .inr jumps

end Function

namespace Module

variable {module : Module} {addresses : Addresses} {options : GroupingOptions}
  {coreCheckSet : List CoreCheckKey} {function : Function} {checked : CheckedVariable}

/-- What makes a check redundant in a run: its key decides whether it reports, and the run
does not jump over the block of an unmarked READ with its key. -/
structure RedundantInRun (module : Module) (addresses : Addresses) (options : GroupingOptions)
    (coreCheckSet : List CoreCheckKey) (function : Function) (machine : Machine World Datum)
    (world : World) (checked : CheckedVariable) : Prop where
  decided : ∀ other ∈ module.functionVariables coreCheckSet function,
    makeVariableKey options other = makeVariableKey options checked →
      ∀ first second firstState secondState, other.checkInst = some first.id →
        checked.checkInst = some second.id →
          function.Visits machine world first firstState →
            function.Visits machine world second secondState →
              (machine.ReportsOn first firstState ↔ machine.ReportsOn second secondState)
  notJumped : ∀ reader ∈ module.functionVariables coreCheckSet function,
    reader.type = .READ → makeVariableKey options reader = makeVariableKey options checked →
      (module.markRedundantChecks addresses options coreCheckSet).unmarked reader = true →
        ∀ inst, reader.checkInst = some inst → ∀ home ∈ function.blocks,
          inst ∈ home.definitions → ∀ count point,
            (function.execution machine).run (function.start machine world) count = point →
              ¬function.JumpsOver (point.block :: point.done) home.id

section Marked

variable (distinct : module.DistinctIds) (member : function ∈ module.functions)
  (within : module.GroupsWithin options coreCheckSet function)
  (inside : checked ∈ module.functionVariables coreCheckSet function)
  (marked : (module.markRedundantChecks addresses options coreCheckSet).unmarked checked =
    false)
include distinct member within inside marked

/-- Before a marked check, in its function, stands an unmarked READ with its key. -/
theorem exists_kept_reader {call : InstId} (isCall : checked.checkInst = some call) :
    ∃ reader ∈ module.functionVariables coreCheckSet function, reader.type = .READ ∧
      makeVariableKey options reader = makeVariableKey options checked ∧
        (module.markRedundantChecks addresses options coreCheckSet).unmarked reader = true ∧
          ∃ inst ∈ function.instructions, reader.checkInst = some inst.id ∧
            inst.op.isPhi = false ∧
              [inst.id, call].Sublist (function.instructions.map Inst.id) := by
  have inModule : checked ∈ module.moduleVariables coreCheckSet :=
    List.mem_flatMap.mpr ⟨function, member, inside⟩
  rcases List.append_of_mem inModule with ⟨earlier, later, split⟩
  rcases exists_reader (numbered_moduleVariables distinct coreCheckSet) split marked with
    ⟨front, reader, between, earlierSplit, isRead, sameKey, unmarked, -⟩
  have whole : module.moduleVariables coreCheckSet =
      front ++ reader :: between ++ checked :: later := by
    rw [split, earlierSplit]
  have readerInside : reader ∈ module.functionVariables coreCheckSet function := by
    apply within checked inside reader _ sameKey
    rw [whole]
    simp
  rcases mem_functionVariables.mp readerInside with ⟨-, readerCall, readerMember, readerCore⟩
  rcases mem_functionVariables.mp inside with ⟨-, checkedCall, checkedMember, checkedCore⟩
  have readerId := checkInst_of_coreVariable? readerCore
  have sameCall : checkedCall.id = call := by
    rw [checkInst_of_coreVariable? checkedCore] at isCall
    exact Option.some.inj isCall
  have notPhi : readerCall.op.isPhi = false := by
    cases kind : readerCall.op with
    | phi incoming =>
        rw [coreVariable?, kind] at readerCore
        cases readerCore
    | _ => rfl
  exact ⟨reader, readerInside, isRead, sameKey, unmarked, readerCall, readerMember, readerId,
    notPhi, sublist_pair_function distinct member readerId isCall
      (List.mem_map_of_mem readerMember) (sameCall ▸ List.mem_map_of_mem checkedMember)
      (sublist_pair_of_split whole)⟩

/-- A marked check that is redundant in a run does not report in it. -/
theorem not_reportsAt_of_marked {world : World} (wellFormed : function.WellFormed)
    (honest : machine.Honest values)
    (redundant : module.RedundantInRun addresses options coreCheckSet function machine world
      checked) {call : InstId} (isCall : checked.checkInst = some call) :
    ¬function.ReportsAt machine world call := by
  intro reports
  rcases exists_kept_reader distinct member within inside marked isCall with
    ⟨reader, readerInside, isRead, sameKey, unmarked, inst, instMember, readerId, notPhi,
      ordered⟩
  rcases Function.mem_instructions.mp instMember with ⟨home, homeMember, inHome⟩
  rcases reports.exists_visit with
    ⟨count, point, at_, running, block, found, front, other, rest, split, rfl, still, loud⟩
  have visits : function.Visits machine world other
      (Function.reached machine block point front) :=
    ⟨count, point, at_, running, block, found, front, rest, split, rfl, still⟩
  rcases Function.passes_or_jumps wellFormed honest at_ running found split still homeMember
    inHome notPhi ordered with passed | jumps
  · rcases passed with ⟨state, seen, quiet⟩
    exact quiet ((redundant.decided reader readerInside sameKey inst other state _ readerId
      isCall seen visits).mpr loud)
  · rw [(Function.mem_of_block? found).2] at jumps
    exact redundant.notJumped reader readerInside isRead sameKey unmarked inst.id readerId home
      homeMember (List.mem_map_of_mem inHome) count point at_ jumps

end Marked

/-- A marked call that reports is one of a check of the function. -/
theorem exists_variable_of_reportsAt (distinct : module.DistinctIds)
    (member : function ∈ module.functions) {world : World} {call : InstId}
    (reports : function.ReportsAt machine world call)
    (marked : call ∈ (module.markRedundantChecks addresses options coreCheckSet).markedCalls) :
    ∃ checked ∈ module.functionVariables coreCheckSet function,
      checked.checkInst = some call ∧
        (module.markRedundantChecks addresses options coreCheckSet).unmarked checked =
          false := by
  rcases reports.exists_visit with
    ⟨count, point, at_, running, block, found, front, inst, rest, split, rfl, -, -⟩
  have blockMember := (Function.mem_of_block? found).1
  have inside : inst.id ∈ function.instructions.map Inst.id := by
    have inExecuted : inst ∈ block.executed :=
      split ▸ List.mem_append_right _ (List.mem_cons_self ..)
    apply List.mem_map_of_mem
    refine Function.mem_instructions.mpr ⟨block, blockMember, Block.mem_instructions.mpr ?_⟩
    rcases List.mem_append.mp inExecuted with inBody | last
    · exact .inl (List.mem_filter.mp inBody).1
    · exact .inr (List.mem_singleton.mp last)
  rcases (mem_markRedundantChecks module addresses options coreCheckSet distinct inst.id).mp
    marked with ⟨before, checked, after, whole, isCall, -, -⟩
  have inModule : checked ∈ module.moduleVariables coreCheckSet :=
    whole ▸ List.mem_append_right _ (List.mem_cons_self ..)
  refine ⟨checked, mem_functionVariables_of_call distinct member inside inModule isCall, isCall,
    ?_⟩
  rw [← Bool.not_eq_true, Marks.unmarked_iff]
  exact fun unmarked => unmarked inst.id isCall marked

/-- No error is lost: where every marked check of a function is redundant in its run, the
run is kept, and if it ends with a report, the same check reports. -/
theorem runsAlike_eraseRedundantChecks (module : Module) (addresses : Addresses)
    (options : GroupingOptions) (coreCheckSet : List CoreCheckKey)
    (utilities : CleanupUtilities) (calls : List InstId) (function : Function)
    (machine : Machine World Datum) (world : World) (keepCalls : utilities.KeepCalls)
    (keepRuns : utilities.KeepDefinedRuns machine world)
    (honest : machine.Honest module.values) (mute : machine.Mute module.values)
    (distinct : module.DistinctIds)
    (pending : module.erasure.Pending module.values calls)
    (marked : ∀ check ∈ calls,
      check ∈ (module.markRedundantChecks addresses options coreCheckSet).markedCalls)
    (member : function ∈ module.functions) (wellFormed : function.WellFormed)
    (defined : function.Defined machine world)
    (within : module.GroupsWithin options coreCheckSet function)
    (redundant : ∀ checked ∈ module.functionVariables coreCheckSet function,
      (module.markRedundantChecks addresses options coreCheckSet).unmarked checked = false →
        module.RedundantInRun addresses options coreCheckSet function machine world checked)
    (steps : Erasure.EveryStep utilities module.values (fun candidate check =>
      Erasure.Careful module.values candidate check ∧
        (candidate.name = function.name →
          candidate.Unseen machine module.values check world)) module.erasure calls) :
    ∃ after ∈ (module.eraseMarkedChecks utilities calls).functions,
      after.name = function.name ∧ after.WellFormed ∧
        function.RunsAlike after machine world ∧
          ∀ id, after.ReportsAt machine world id ↔ function.ReportsAt machine world id := by
  have silent : ∀ check ∈ calls, ¬function.ReportsAt machine world check := by
    intro check inCalls reports
    rcases exists_variable_of_reportsAt distinct member reports (marked check inCalls) with
      ⟨checked, inside, isCall, isMarked⟩
    exact not_reportsAt_of_marked distinct member within inside isMarked wellFormed honest
      (redundant checked inside isMarked) isCall reports
  rcases becomes_eraseMarkedChecks keepCalls keepRuns honest mute pending member wellFormed
    defined silent steps with ⟨after, afterMember, name, form, alike, reports⟩
  exact ⟨after, afterMember, name, form, alike, Function.reportsAt_iff alike reports⟩

/-! ## A sample

A machine on which every check reports, and a function that loads a global twice. -/

end Module

def Machine.alarming : Machine Unit (Option Nat) where
  other id := some id
  poison := none
  eval _ _ _ _ := some 100
  effect op _ _ :=
    match op with
    | .call site => if site.removableIfUnused then .quiet else .reports
    | .store _ _ | .atomic _ _ => .acts true (some ())
    | _ => .quiet
  isTrue datum := datum == some 2
  choose _ _ _ := 0

namespace Module

theorem readersValues_function? (value : Value) :
    readersValues.function? value = none ∨
      readersValues.function? value = some ("__asan_load4", .notIntrinsic) := by
  cases value with
  | inst id => exact .inl rfl
  | poison => exact .inl rfl
  | other id =>
      cases id with
      | zero => exact .inr rfl
      | succ id => cases id <;> exact .inl rfl

theorem readersValues_calledFunction? (op : Op) :
    op.callSite?.bind readersValues.calledFunction? = none ∨
      op.callSite?.bind readersValues.calledFunction? =
        some ("__asan_load4", .notIntrinsic) := by
  cases op.callSite? with
  | none => exact .inl rfl
  | some site =>
      rw [Option.bind_some, ValueTable.calledFunction?]
      split
      · exact readersValues_function? site.calledOperand
      · exact .inl rfl

theorem readersValues_quiet (op : Op) :
    readersValues.isNoopIntrinsic op = false ∧ readersValues.isEmptyInlineAsmCall op = false ∧
      readersValues.isDirectMemSanRuntimeCall op = false := by
  have called := readersValues_calledFunction? op
  refine ⟨?_, ?_, ?_⟩
  · rw [ValueTable.isNoopIntrinsic, ValueTable.intrinsicID]
    rcases called with none | load
    · rw [none]
    · rw [load]
  · rw [ValueTable.isEmptyInlineAsmCall]
    cases op.callSite? with
    | none => rfl
    | some site =>
        rw [Option.bind_some]
        cases site.calledOperand with
        | inst id => rfl
        | poison => rfl
        | other id =>
            rcases id with _ | _ | id
            · rfl
            · rfl
            · rfl
  · rw [ValueTable.isDirectMemSanRuntimeCall]
    rcases called with none | load
    · rw [none]
    · rw [load]
      decide

theorem honest_alarming : Machine.alarming.Honest readersValues where
  pure := by
    intro op data world pure
    cases op with
    | call site =>
        have removable : site.removableIfUnused = true := by
          simpa [Op.mayHaveSideEffects] using pure
        simp [Machine.alarming, removable]
    | store _ _ | atomic _ _ => cases pure
    | _ => rfl
  check := by
    intro op env world isCheck
    cases op with
    | call site =>
        simp only [Machine.alarming, Op.shape, Op.mapOperands]
        split
        · exact .inl rfl
        · exact .inr rfl
    | store _ _ | atomic _ _ => cases isCheck
    | _ => exact .inl rfl
  noop := by
    intro op env world either
    have quiet := readersValues_quiet op
    rw [quiet.1, quiet.2.1] at either
    simp at either
  runtime := by
    intro op env world isRuntime
    rw [(readersValues_quiet op).2.2] at isRuntime
    cases isRuntime

theorem mute_alarming : Machine.alarming.Mute readersValues := by
  intro op env world isRuntime
  rw [(readersValues_quiet op).2.2] at isRuntime
  cases isRuntime

def twice : Module where
  functions := [twiceReader]
  values := readersValues
  dataLayout := ⟨64, 8⟩

/-- The calls of the checks report wherever the run comes to them. -/
theorem reportsOn_twiceReader {inst : Inst} {state : RunState Unit (Option Nat)}
    (visits : twiceReader.Visits Machine.alarming () inst state)
    (isCall : inst.id = 20 ∨ inst.id = 21) : Machine.alarming.ReportsOn inst state := by
  rcases visits with ⟨count, point, -, -, block, found, front, rest, split, -, -⟩
  have only := List.mem_singleton.mp (Function.mem_of_block? found).1
  have inside : inst ∈ block.executed := split ▸ List.mem_append_right _ (List.mem_cons_self ..)
  rw [only] at inside
  have loud : ∀ inst ∈ Block.executed
      { id := 0
        insts := [sampleCall 20 0 1, sampleCall 21 0 1,
          ⟨22, .other 0, .store (.other 3) (.other 1)⟩]
        terminator := ⟨23, .other 0, .ret none⟩ }, inst.id = 20 ∨ inst.id = 21 →
      inst = sampleCall 20 0 1 ∨ inst = sampleCall 21 0 1 := by decide
  rcases loud inst inside isCall with rfl | rfl
  · rfl
  · rfl

theorem twiceReader_redundant (checked : CheckedVariable)
    (inside : checked ∈ twice.functionVariables [] twiceReader) :
    twice.RedundantInRun .byId {} [] twiceReader Machine.alarming () checked := by
  have calls : ∀ checked ∈ twice.functionVariables [] twiceReader, ∀ id,
      checked.checkInst = some id → id = 20 ∨ id = 21 := by
    have known : (twice.functionVariables [] twiceReader).map CheckedVariable.checkInst =
        [some 20, some 21] := by decide +kernel
    intro checked member id isCall
    have listed := List.mem_map_of_mem (f := CheckedVariable.checkInst) member
    rw [known, isCall] at listed
    simpa using listed
  constructor
  · intro other otherInside _ first second firstState secondState firstCall secondCall
      firstVisit secondVisit
    exact iff_of_true (reportsOn_twiceReader firstVisit (calls other otherInside _ firstCall))
      (reportsOn_twiceReader secondVisit (calls checked inside _ secondCall))
  · intro reader _ _ _ _ inst _ home _ _ count point _ jumps
    rcases jumps with ⟨newer, source, target, older, -, edge, -, -⟩
    rcases Function.edge_iff.mp edge with ⟨block, member, -, successor⟩
    rw [List.mem_singleton.mp member] at successor
    cases successor

/-- The first of two loads reports, the second one is marked and erased. -/
theorem twice_reports :
    (twice.markRedundantChecks .byId {} []).markedCalls = [21] ∧
      ∃ after ∈ (twice.eraseMarkedChecks .inert [21]).functions, after.name = "g" ∧
        after.ReportsAt Machine.alarming () 20 := by
  have markedCalls : (twice.markRedundantChecks .byId {} []).markedCalls = [21] := by
    decide +kernel
  have wellFormed : twiceReader.WellFormed :=
    Function.wellFormed_of_constants (by decide) rfl (by decide) (by decide) (by decide)
  have ending : (twiceReader.execution Machine.alarming).ending
      ((twiceReader.execution Machine.alarming).run
        (twiceReader.start Machine.alarming ()) 1) = some .reported := by decide
  have defined : twiceReader.Defined Machine.alarming () := by
    rw [Function.Defined, LoggedSystem.ends_iff_of_ended _ (Option.isSome_of_eq_some ending),
      ending]
    intro same
    cases same
  have isLoad : readersValues.isCheck
      (.call { calledOperand := .other 0, args := [.other 1] }) = true := by decide +kernel
  have pending : twice.erasure.Pending twice.values [21] := by
    refine ⟨by decide, by decide, ?_⟩
    intro check member
    rw [List.mem_singleton.mp member]
    exact ⟨twiceReader, by decide, _, List.mem_singleton_self _, ⟨[], .start rfl⟩,
      sampleCall 21 0 1, by decide, rfl, isLoad, rfl⟩
  have steps : Erasure.EveryStep .inert twice.values (fun candidate check =>
      Erasure.Careful twice.values candidate check ∧ (candidate.name = twiceReader.name →
        candidate.Unseen Machine.alarming twice.values check ())) twice.erasure [21] := by
    refine ⟨?_, trivial⟩
    intro function found
    have known : twice.erasure.functionOf? 21 = some twiceReader := by decide
    rw [known] at found
    rw [← Option.some.inj found]
    refine ⟨readers_careful.1, fun _ => ⟨?_, fun _ => ?_⟩⟩
    · exact fun report bypassable =>
        absurd ⟨report, bypassable⟩ (twiceReader_notBypassable 21 (by decide))
    · exact Function.calm_of_noRuntime (by decide) _ ()
  refine ⟨markedCalls, ?_⟩
  rcases runsAlike_eraseRedundantChecks twice .byId {} [] .inert [21] twiceReader
    Machine.alarming () CleanupUtilities.keepCalls_inert
    (CleanupUtilities.keepDefinedRuns_inert _ _) honest_alarming mute_alarming (by decide)
    pending (by rw [markedCalls]; exact fun _ member => member) (by decide) wellFormed defined
    (by unfold GroupsWithin; decide +kernel)
    (fun checked inside _ => twiceReader_redundant checked inside) steps with
    ⟨after, member, name, -, -, reports⟩
  refine ⟨after, member, name, (reports 20).mpr ?_⟩
  exact ⟨0, _, rfl, rfl, _, rfl, .inl ⟨[], sampleCall 20 0 1, _, rfl, rfl, rfl, rfl⟩⟩

end Module

end Desan
