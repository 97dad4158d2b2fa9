import Desan.CheckSliceRemover.SliceErasure
import Desan.IR.Reports

/-! # Runs without the erased instructions

Erased instructions are the sanitizer's own, or have no side effects, and nothing that
stays uses their values. A run without them is the same run, unless one of them is a call
of the runtime that changes the world. -/

namespace Desan

variable {World Datum : Type} {machine : Machine World Datum} {values : ValueTable}

/-- The machine has no act of the program in the operation. -/
def Machine.NoAct (machine : Machine World Datum) (values : ValueTable) (op : Op) : Prop :=
  ∀ env world,
    machine.effect op.shape (machine.operands op env) world = .quiet ∨
      machine.effect op.shape (machine.operands op env) world = .reports ∨
        values.isDirectMemSanRuntimeCall op = true ∧ ∃ after,
          machine.effect op.shape (machine.operands op env) world = .acts false (some after)

namespace Machine.Honest

variable (honest : machine.Honest values) {op : Op}
include honest

theorem noAct_of_pure (pure : op.mayHaveSideEffects = false) : machine.NoAct values op := by
  intro env world
  left
  apply honest.pure
  rw [Op.mayHaveSideEffects_shape]
  exact pure

theorem noAct_of_call (own : values.isCheck op = true ∨
    values.isDirectMemSanRuntimeCall op = true ∨ values.isEmptyInlineAsmCall op = true ∨
      values.isNoopIntrinsic op = true) : machine.NoAct values op := by
  intro env world
  rcases own with check | runtime | asm | noop
  · rcases honest.check op env world check with quiet | reports
    · exact .inl quiet
    · exact .inr (.inl reports)
  · rcases honest.runtime op env world runtime with quiet | reports | acts
    · exact .inl quiet
    · exact .inr (.inl reports)
    · exact .inr (.inr ⟨runtime, acts⟩)
  · exact .inl (honest.noop op env world (.inr asm))
  · exact .inl (honest.noop op env world (.inl noop))

/-- Only the sanitizer is at work in an instruction of its own. -/
theorem noAct_of_sanitizerOnly (own : values.isSanitizerOnlyInstruction op = true) :
    machine.NoAct values op := by
  cases op with
  | call site | invoke site _ _ =>
      simp only [ValueTable.isSanitizerOnlyInstruction, Bool.or_eq_true] at own
      apply honest.noAct_of_call
      rcases own with ((check | runtime) | asm) | noop
      · exact .inl check
      · exact .inr (.inl runtime)
      · exact .inr (.inr (.inl asm))
      · exact .inr (.inr (.inr noop))
  | load pointer isVolatile ordering =>
      apply honest.noAct_of_pure
      simp only [ValueTable.isSanitizerOnlyInstruction, Bool.and_eq_true,
        Bool.not_eq_true', beq_iff_eq] at own
      rw [Op.mayHaveSideEffects, own.1, own.2]
      rfl
  | br _ | condBr _ _ _ | unreachable => exact honest.noAct_of_pure rfl
  | store _ _ | alloca _ | atomic _ _ | other _ _ _ | ret _ | otherTerminator _ _ _ _ =>
      cases own
  | _ => exact honest.noAct_of_pure rfl

theorem noAct_of_isErasableKind (kind : values.isErasableKind op = true) :
    machine.NoAct values op := by
  unfold ValueTable.isErasableKind at kind
  rw [Bool.and_eq_true] at kind
  have own := kind.2
  cases op with
  | call site | invoke site _ _ =>
      simp only [Bool.or_eq_true] at own
      apply honest.noAct_of_call
      rcases own with (check | runtime) | noop
      · exact .inl check
      · exact .inr (.inl runtime)
      · exact .inr (.inr (.inr noop))
  | load pointer isVolatile ordering => exact honest.noAct_of_sanitizerOnly own
  | _ => exact honest.noAct_of_sanitizerOnly (Bool.and_eq_true_iff.mp own).1

end Machine.Honest

namespace Machine

open RunState

/-- Without an act, an instruction changes its own value, or reports. -/
theorem NoAct.exec_agree {inst : Inst} (noAct : machine.NoAct values inst.op)
    {state : RunState World Datum}
    (calm : values.isDirectMemSanRuntimeCall inst.op = true →
      (machine.exec state inst).world = state.world) :
    (machine.exec state inst).ending = some .reported ∨
      Agree (fun id => id = inst.id) (machine.exec state inst) state := by
  have env : ∀ id, id ≠ inst.id → (machine.exec state inst).env id = state.env id :=
    fun id different => env_exec_of_ne state different
  cases running : state.ending with
  | some ending =>
      right
      rw [exec_of_ended (by rw [running]; rfl)]
      exact .refl state
  | none =>
      have isExec : machine.exec state inst = _ := exec.eq_1 machine state inst
      rw [running] at isExec
      simp only [Option.isSome_none, Bool.false_eq_true, if_false] at isExec
      rcases noAct state.env state.world with quiet | reports | acts
      · simp only [quiet] at isExec
        right
        rw [isExec] at env ⊢
        exact ⟨env, rfl, rfl, rfl⟩
      · simp only [reports] at isExec
        left
        rw [isExec]
        rfl
      · rcases acts with ⟨runtime, after, acts⟩
        simp only [acts] at isExec
        right
        have same := calm runtime
        rw [isExec] at env same ⊢
        exact ⟨env, same, rfl, rfl⟩

end Machine

namespace Function

/-- On its way through the block, the run finds no lost call of the runtime that changes
the world. -/
def CalmAt (function : Function) (machine : Machine World Datum) (values : ValueTable)
    (lost : InstId → Prop) (point : RunPoint World Datum) : Prop :=
  ∀ block, function.block? point.block = some block → ∀ before inst after,
    block.body = before ++ inst :: after → lost inst.id →
      values.isDirectMemSanRuntimeCall inst.op = true →
        (machine.exec (before.foldl machine.exec
          (machine.arrive block point.done.head? point.state)) inst).world =
            (before.foldl machine.exec
              (machine.arrive block point.done.head? point.state)).world

/-- The lost calls of the runtime change nothing in the whole run. -/
def Calm (function : Function) (machine : Machine World Datum) (values : ValueTable)
    (lost : InstId → Prop) (world : World) : Prop :=
  ∀ count, function.CalmAt machine values lost
    ((function.execution machine).run (function.start machine world) count)

/-- Nothing is lost of a function that does not call the runtime. -/
theorem calm_of_noRuntime {function : Function}
    (noRuntime : ∀ inst ∈ function.instructions,
      values.isDirectMemSanRuntimeCall inst.op = false) (lost : InstId → Prop) (world : World) :
    function.Calm machine values lost world := by
  intro count block found before inst after split _ runtime
  have inside : inst ∈ block.body := split ▸ List.mem_append_right _ (List.mem_cons_self ..)
  have member := mem_instructions.mpr ⟨block, (mem_of_block? found).1,
    Block.mem_instructions.mpr (.inl (List.mem_filter.mp inside).1)⟩
  exact absurd (noRuntime inst member) (ne_of_eq_of_ne runtime (by decide))

section Erased

variable {function : Function} {erased : List InstId}

/-- Nothing that stays uses what is erased, and no terminator is erased. -/
structure ErasesUnused (function : Function) (erased : List InstId) : Prop where
  operands : ∀ user ∈ function.instructions, user.id ∉ erased →
    ∀ id ∈ erased, .inst id ∉ user.op.operands
  terminators : ∀ block ∈ function.blocks, block.terminator.id ∉ erased

/-- The block without the erased instructions. -/
def withoutInsts (erased : List InstId) (block : Block) : Block :=
  { block with insts := block.insts.filter fun inst => inst.id ∉ erased }

variable {point twin : RunPoint World Datum}

theorem datum_of_kept (unused : function.ErasesUnused erased) {user : Inst}
    (member : user ∈ function.instructions) (kept : user.id ∉ erased)
    {first second : RunState World Datum}
    (agree : RunState.Agree (fun id => id ∈ erased) first second) {value : Value}
    (operand : value ∈ user.op.operands) :
    machine.datum first.env value = machine.datum second.env value := by
  apply agree.datum
  intro id same inside
  rw [same] at operand
  exact unused.operands user member kept id inside operand

theorem arrive_withoutInsts (shaped : function.Shaped)
    (unused : function.ErasesUnused erased) {block : Block} (member : block ∈ function.blocks)
    {pred : Option BlockId} {first second : RunState World Datum}
    (agree : RunState.Agree (fun id => id ∈ erased) first second) :
    RunState.Agree (fun id => id ∈ erased) (machine.arrive block pred first)
      (machine.arrive (withoutInsts erased block) pred second) where
  env := by
    intro id kept
    have nodup := Block.nodup_definitions shaped member
    have sublist : (withoutInsts erased block).definitions.Sublist block.definitions :=
      (List.filter_sublist.append (List.Sublist.refl _)).map Inst.id
    by_cases isPhi : ∃ phi ∈ block.insts, phi.op.isPhi = true ∧ phi.id = id
    · rcases isPhi with ⟨phi, inside, isPhi, rfl⟩
      have stays : phi ∈ (withoutInsts erased block).insts :=
        List.mem_filter.mpr ⟨inside, decide_eq_true kept⟩
      rw [Machine.env_arrive_of_phi nodup inside isPhi,
        Machine.env_arrive_of_phi (sublist.nodup nodup) stays isPhi]
      rcases Op.exists_of_isPhi isPhi with ⟨incoming, kind⟩
      rw [kind, Machine.incoming, Machine.incoming]
      cases found : incoming.find? fun entry => some entry.2 = pred with
      | none => rfl
      | some entry =>
          have operand : entry.1 ∈ phi.op.operands := by
            rw [kind]
            exact List.mem_map_of_mem (List.mem_of_find?_eq_some found)
          exact datum_of_kept unused (mem_instructions.mpr
            ⟨block, member, Block.mem_instructions.mpr (.inl inside)⟩) kept agree operand
    · have other : ∀ phi ∈ block.insts, phi.op.isPhi = true → phi.id ≠ id :=
        fun phi inside phi_ same => isPhi ⟨phi, inside, phi_, same⟩
      rw [Machine.env_arrive_of_other other, Machine.env_arrive_of_other fun phi inside =>
        other phi (List.mem_filter.mp inside).1]
      exact agree.env id kept
  world := agree.world
  log := agree.log
  ending := agree.ending

theorem body_withoutInsts (erased : List InstId) (block : Block) :
    (withoutInsts erased block).body =
      ((block.body.filter fun inst => inst.id ∉ erased).map
        (Inst.mapOperands fun value => value)) := by
  have same : (Inst.mapOperands fun value => value) = id := by
    funext inst
    exact congrArg (fun op => { inst with op }) inst.op.mapOperands_id
  rw [same, List.map_id, Block.body, Block.body, withoutInsts, List.filter_filter,
    List.filter_filter]
  congr 1
  funext inst
  exact Bool.and_comm _ _

/-- A defined run in which no erased instruction reports or changes anything. -/
structure Omits (function : Function) (machine : Machine World Datum) (values : ValueTable)
    (erased : List InstId) (world : World) : Prop where
  shaped : function.Shaped
  unused : function.ErasesUnused erased
  noAct : ∀ inst ∈ function.instructions, inst.id ∈ erased → machine.NoAct values inst.op
  defined : function.Defined machine world
  silent : function.Silent machine world fun id => id ∈ erased
  calm : function.Calm machine values (fun id => id ∈ erased) world

namespace Omits

variable {world : World} (omits : function.Omits machine values erased world) {count : Nat}
  (at_ : (function.execution machine).run (function.start machine world) count = point)
  (agree : point.Agree (fun id => id ∈ erased) twin)
include omits at_ agree

/-- Through a part of the body, without the erased instructions. -/
theorem reached_agree (running : point.state.ending = none) {block : Block}
    (found : function.block? point.block = some block) {front rest : List Inst}
    (whole : block.body = front ++ rest) :
    RunState.Agree (fun id => id ∈ erased) (reached machine block point front)
      (reached machine (withoutInsts erased block) twin
        ((front.filter fun inst => inst.id ∉ erased).map
          (Inst.mapOperands fun value => value))) := by
  have member := (mem_of_block? found).1
  have calm := omits.calm count
  rw [at_] at calm
  apply Machine.foldl_exec_related (RunState.Agree fun id => id ∈ erased)
  · rw [← agree.done]
    exact arrive_withoutInsts omits.shaped omits.unused member agree.state
  · intro before inst after split other agree
    have bodySplit : block.body = before ++ inst :: (after ++ rest) := by
      rw [whole, split, List.append_assoc, List.cons_append]
    have inBody : inst ∈ block.body := by
      rw [bodySplit]
      exact List.mem_append_right _ (List.mem_cons_self ..)
    have inside : inst ∈ function.instructions := mem_instructions.mpr
      ⟨block, member, Block.mem_instructions.mpr (.inl (List.mem_filter.mp inBody).1)⟩
    by_cases kept : inst.id ∈ erased
    · rw [if_neg (by simpa using kept)]
      have runtime := calm block found before inst _ bodySplit kept
      cases still : (reached machine block point before).ending with
      | some ending =>
          rw [reached] at still
          rw [Machine.exec_of_ended (Option.isSome_of_eq_some still)]
          exact agree
      | none =>
          have idle := ((omits.noAct inst inside kept).exec_agree runtime).resolve_left
            (omits.silent.reached_ne at_ running found bodySplit kept still)
          apply RunState.Agree.trans _ agree
          exact ⟨fun id lost => idle.env id fun same => lost (same ▸ kept), idle.world,
            idle.log, idle.ending⟩
    · rw [if_pos (by simpa using kept)]
      apply Machine.exec_agree agree
      · rfl
      · rfl
      · exact (Op.shape_mapOperands (fun value => value) inst.op).symm
      · exact (Machine.operands_mapOperands fun value operand =>
          datum_of_kept omits.unused inside kept agree operand).symm

/-- Through one block, without the erased instructions. -/
theorem execBlock_agree (running : point.state.ending = none) {block : Block}
    (found : function.block? point.block = some block) :
    RunState.Agree (fun id => id ∈ erased)
      (machine.execBlock block point.done.head? point.state)
      (machine.execBlock (withoutInsts erased block) twin.done.head? twin.state) := by
  have whole := omits.reached_agree at_ agree running found (List.append_nil _).symm
  rw [← body_withoutInsts] at whole
  exact whole

omit omits at_ in
theorem block?_twin {block : Block} (found : function.block? point.block = some block) :
    (function.eraseInsts erased).block? twin.block = some (withoutInsts erased block) := by
  rw [← agree.block]
  have mapped : (function.eraseInsts erased).block? point.block =
      (function.block? point.block).map (withoutInsts erased) :=
    @block?_mapBlocks function (withoutInsts erased) (fun _ => rfl) point.block
  rw [mapped, found]
  rfl

theorem step_agree :
    (function.step machine point).Agree (fun id => id ∈ erased)
      ((function.eraseInsts erased).step machine twin) := by
  cases running : point.state.ending with
  | some ending =>
      rw [step_of_ended (by rw [running]; rfl),
        step_of_ended (by rw [← agree.state.ending, running]; rfl)]
      exact agree
  | none =>
      rcases omits.defined.exists_block at_ running with ⟨block, found⟩
      have member := (mem_of_block? found).1
      have executed := omits.execBlock_agree at_ agree running found
      apply Function.step_agree agree running found (block?_twin agree found) rfl
      · have same : block.terminator.mapOperands (fun value => value) = block.terminator :=
          congrArg (fun op => { block.terminator with op }) block.terminator.op.mapOperands_id
        exact same.symm
      · exact executed
      · intro value operand
        exact datum_of_kept omits.unused (mem_instructions.mpr
          ⟨block, member, block.terminator_mem⟩)
          (omits.unused.terminators block member) executed operand

omit at_ agree in
theorem follows :
    LoggedSystem.Follows (function.execution machine)
      ((function.eraseInsts erased).execution machine)
      (function.Meets machine world (RunPoint.Agree fun id => id ∈ erased)) where
  log := fun _ _ meets => meets.2.state.log
  ending := fun _ _ meets => meets.2.state.ending
  again := by
    intro point twin meets
    rcases meets.1 with ⟨count, at_⟩
    exact ⟨0, meets.next (omits.step_agree at_ meets.2)⟩

omit at_ agree omits in
theorem start_agree (world : World) :
    (function.start machine world).Agree (fun id => id ∈ erased)
      ((function.eraseInsts erased).start machine world) := by
  refine ⟨.refl _, rfl, ?_⟩
  rw [start, start, entry?_eraseInsts]

omit at_ agree in
/-- The run is the same without the erased instructions. -/
theorem runsAlike : function.RunsAlike (function.eraseInsts erased) machine world :=
  omits.follows.simulates.sameRun (meets_start (start_agree world))

omit at_ agree in
/-- And reports where it has reported. -/
theorem reportsAt {id : InstId}
    (reports : (function.eraseInsts erased).ReportsAt machine world id) :
    function.ReportsAt machine world id := by
  apply reportsAt_of_follows omits.follows (start_agree world) _ reports
  intro point twin meets twinRunning twinBlock twinFound id either
  rcases meets with ⟨⟨count, at_⟩, agree⟩
  have running := agree.state.ending.trans twinRunning
  rcases omits.defined.exists_block at_ running with ⟨block, found⟩
  have same := (block?_twin agree found).symm.trans twinFound
  rw [← Option.some.inj same] at either twinFound
  refine ⟨running, block, found, either.imp ?_ ?_⟩
  · intro body
    exact body.of_agree (body_withoutInsts erased block)
      fun front rest whole => omits.reached_agree at_ agree running found whole
  · intro terminator
    exact terminator.of_agree rfl running found twinRunning twinFound
      (omits.execBlock_agree at_ agree running found).ending
      (omits.step_agree at_ agree).state.ending

end Omits

end Erased

end Function

end Desan
