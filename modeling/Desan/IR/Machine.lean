import Desan.CheckSliceRemover.Slice
import Desan.Foundation.Simulation
import Desan.IR.Carry

/-! # Running a function

A machine says what the operations of a function make of their operands and what they do
to the world: to memory, and to whatever calls reach. A run takes one block after the
other and logs the acts of the program. -/

namespace Desan

/-- An operation without its operands. -/
def Op.shape (op : Op) : Op := op.mapOperands fun _ => .poison

@[simp] theorem Op.shape_mapOperands (transform : Value → Value) (op : Op) :
    (op.mapOperands transform).shape = op.shape := by
  rw [Op.shape, Op.shape, Op.mapOperands_mapOperands]
  rfl

@[simp] theorem Op.mayHaveSideEffects_shape (op : Op) :
    op.shape.mayHaveSideEffects = op.mayHaveSideEffects :=
  op.mayHaveSideEffects_mapOperands _

/-- What an instruction does to the world. -/
inductive Effect (World : Type) where
  | quiet
  /-- A check reports an error. -/
  | reports
  /-- An act, logged if it is one of the program. Without a world after it, control does
  not come back. -/
  | acts (logged : Bool) (after : Option World)

structure Machine (World Datum : Type) where
  /-- What arguments, globals and constants stand for. -/
  other : Nat → Datum
  poison : Datum
  eval : Op → Ty → List Datum → World → Datum
  effect : Op → List Datum → World → Effect World
  isTrue : Datum → Bool
  /-- The successor an invoke or another terminator leads to. -/
  choose : Op → List Datum → World → Nat

inductive Ending (Datum : Type) where
  | returned (value : Option Datum)
  /-- An act of the program has not come back. -/
  | stopped
  | reported
  /-- Control has come to an `unreachable`, or to no block at all. -/
  | undefined
deriving DecidableEq, Repr

/-- An act of the program: what it does, and to which operands. -/
abbrev Act (Datum : Type) := Op × List Datum

structure RunState (World Datum : Type) where
  env : InstId → Datum
  world : World
  log : List (Act Datum) := []
  ending : Option (Ending Datum) := none

/-- A run between two blocks: the blocks it has left, latest first, and the next one. -/
structure RunPoint (World Datum : Type) where
  state : RunState World Datum
  done : List BlockId := []
  block : BlockId

variable {World Datum : Type}

namespace RunState

def assign (state : RunState World Datum) (inst : InstId) (datum : Datum) :
    RunState World Datum :=
  { state with env := fun id => if id = inst then datum else state.env id }

def stop (state : RunState World Datum) (ending : Ending Datum) : RunState World Datum :=
  { state with ending := some ending }

def record (state : RunState World Datum) (logged : Bool) (act : Act Datum) :
    RunState World Datum :=
  if logged then { state with log := state.log ++ [act] } else state

def move (state : RunState World Datum) (world : World) : RunState World Datum :=
  { state with world }

end RunState

/-- The instructions between the phis and the terminator. -/
def Block.body (block : Block) : List Inst := block.insts.filter fun inst => !inst.op.isPhi

namespace Machine

variable (machine : Machine World Datum)

def datum (env : InstId → Datum) : Value → Datum
  | .inst id => env id
  | .other id => machine.other id
  | .poison => machine.poison

def operands (op : Op) (env : InstId → Datum) : List Datum :=
  op.operands.map (machine.datum env)

/-- What a phi takes over from the block control comes from. -/
def incoming (op : Op) (pred : Option BlockId) (env : InstId → Datum) : Datum :=
  match op with
  | .phi incoming =>
      match incoming.find? fun entry => some entry.2 = pred with
      | some entry => machine.datum env entry.1
      | none => machine.poison
  | _ => machine.poison

/-- The phis of a block take their values at once. -/
def arrive (block : Block) (pred : Option BlockId) (state : RunState World Datum) :
    RunState World Datum :=
  { state with
    env := fun id =>
      match block.phis.find? fun phi => phi.id = id with
      | some phi => machine.incoming phi.op pred state.env
      | none => state.env id }

def exec (state : RunState World Datum) (inst : Inst) : RunState World Datum :=
  if state.ending.isSome then state
  else
    let data := machine.operands inst.op state.env
    let value := machine.eval inst.op.shape inst.ty data state.world
    match machine.effect inst.op.shape data state.world with
    | .quiet => state.assign inst.id value
    | .reports => state.stop .reported
    | .acts logged after =>
        let acted := state.record logged (inst.op.shape, data)
        match after with
        | some world => (acted.move world).assign inst.id value
        | none => acted.stop .stopped

/-- The phis and the body of a block. -/
def execBlock (block : Block) (pred : Option BlockId) (state : RunState World Datum) :
    RunState World Datum :=
  block.body.foldl machine.exec (machine.arrive block pred state)

/-- The terminator, and the block it leads to. -/
def leave (terminator : Inst) (state : RunState World Datum) :
    RunState World Datum × Option BlockId :=
  if state.ending.isSome then (state, none)
  else
    match terminator.op with
    | .br destination => (state, some destination)
    | .condBr condition ifTrue ifFalse =>
        (state, some
          (if machine.isTrue (machine.datum state.env condition) then ifTrue else ifFalse))
    | .unreachable => (state.stop .undefined, none)
    | .ret value => (state.stop (.returned (value.map (machine.datum state.env))), none)
    | op =>
        let left := machine.exec state terminator
        let next := machine.choose op.shape (machine.operands op state.env) state.world
        if left.ending.isSome then (left, none)
        else
          match op.successors[next]? with
          | some block => (left, some block)
          | none => (left.stop .stopped, none)

end Machine

namespace Function

variable (function : Function) (machine : Machine World Datum)

def step (point : RunPoint World Datum) : RunPoint World Datum :=
  if point.state.ending.isSome then point
  else
    match function.block? point.block with
    | none => { point with state := point.state.stop .undefined }
    | some block =>
        let left := machine.leave block.terminator
          (machine.execBlock block point.done.head? point.state)
        match left.2 with
        | some next => ⟨left.1, block.id :: point.done, next⟩
        | none => { point with state := left.1 }

/-- The arguments are the machine's. Nothing is defined yet. -/
def start (world : World) : RunPoint World Datum :=
  { state := { env := fun _ => machine.poison, world }
    block := (Function.entry? function).getD 0 }

end Function

/-! ## Logs grow, and ends stay -/

namespace Machine

variable {machine : Machine World Datum}

theorem exec_of_ended {state : RunState World Datum} (ended : state.ending.isSome = true)
    (inst : Inst) : machine.exec state inst = state := by
  rw [exec, if_pos ended]

theorem log_exec (state : RunState World Datum) (inst : Inst) :
    state.log <+: (machine.exec state inst).log := by
  rw [exec]
  split
  · exact List.prefix_refl _
  · simp only
    split
    · exact List.prefix_refl _
    · exact List.prefix_refl _
    · rename_i logged after _
      cases logged <;> cases after <;>
        simp [RunState.assign, RunState.stop, RunState.record, RunState.move]

theorem log_foldl_exec (insts : List Inst) (state : RunState World Datum) :
    state.log <+: (insts.foldl machine.exec state).log := by
  induction insts generalizing state with
  | nil => exact List.prefix_refl _
  | cons head tail induction => exact (log_exec state head).trans (induction _)

theorem log_leave (terminator : Inst) (state : RunState World Datum) :
    state.log <+: (machine.leave terminator state).1.log := by
  rw [leave]
  split
  · exact List.prefix_refl _
  · split
    · exact List.prefix_refl _
    · exact List.prefix_refl _
    · exact List.prefix_refl _
    · exact List.prefix_refl _
    · simp only
      split
      · exact log_exec state terminator
      · split
        · exact log_exec state terminator
        · exact log_exec state terminator

end Machine

namespace Function

/-- The function, run by the machine. -/
def execution (function : Function) (machine : Machine World Datum) :
    LoggedSystem (RunPoint World Datum) (Act Datum) (Ending Datum) where
  step := function.step machine
  log point := point.state.log
  ending point := point.state.ending
  log_step := by
    intro point
    rw [step]
    split
    · exact List.prefix_refl _
    · split
      · exact List.prefix_refl _
      · rename_i block _
        have executed : point.state.log <+:
            (machine.execBlock block point.done.head? point.state).log :=
          Machine.log_foldl_exec block.body (machine.arrive block point.done.head? point.state)
        have whole : point.state.log <+: (machine.leave block.terminator
            (machine.execBlock block point.done.head? point.state)).1.log :=
          executed.trans (Machine.log_leave block.terminator _)
        simp only
        split
        · exact whole
        · exact whole
  step_of_ended := by
    intro point ended
    rw [step, if_pos ended]

/-- The run for the given world reports no error and has no undefined end. -/
structure Faultless (function : Function) (machine : Machine World Datum) (world : World) :
    Prop where
  notReported : ¬(function.execution machine).Ends (function.start machine world) .reported
  notUndefined : ¬(function.execution machine).Ends (function.start machine world) .undefined

/-- Both functions, started in the given world, log the same acts and return the same. -/
abbrev RunsAlike (before after : Function) (machine : Machine World Datum) (world : World) :
    Prop :=
  LoggedSystem.SameRun (before.execution machine) (after.execution machine)
    (before.start machine world) (after.start machine world)

end Function

/-- What is known of the sanitizer's own instructions, and of those without side effects. -/
structure Machine.Honest (machine : Machine World Datum) (values : ValueTable) : Prop where
  pure : ∀ op data world, op.mayHaveSideEffects = false → machine.effect op data world = .quiet
  check : ∀ op env world, values.isCheck op = true →
    machine.effect op.shape (machine.operands op env) world = .quiet ∨
      machine.effect op.shape (machine.operands op env) world = .reports
  noop : ∀ op env world,
    values.isNoopIntrinsic op = true ∨ values.isEmptyInlineAsmCall op = true →
      machine.effect op.shape (machine.operands op env) world = .quiet
  /-- A call of the runtime is no act of the program, but it may change the world. -/
  runtime : ∀ op env world, values.isDirectMemSanRuntimeCall op = true →
    machine.effect op.shape (machine.operands op env) world = .quiet ∨
      machine.effect op.shape (machine.operands op env) world = .reports ∨
        ∃ after, machine.effect op.shape (machine.operands op env) world =
          .acts false (some after)

end Desan
