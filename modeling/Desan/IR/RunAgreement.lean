import Mathlib.Data.List.Induction
import Desan.IR.Execution
import Desan.IR.Machine

/-! # States that agree

Two runs agree as long as the instructions they execute find the same operands. What one
of them executes and the other does not may change lost values only. -/

namespace Desan

variable {World Datum : Type} {machine : Machine World Datum}

namespace RunState

/-- The states differ in lost values only. -/
structure Agree (lost : InstId → Prop) (first second : RunState World Datum) : Prop where
  env : ∀ id, ¬lost id → first.env id = second.env id
  world : first.world = second.world
  log : first.log = second.log
  ending : first.ending = second.ending

section Agree

variable {lost : InstId → Prop} {first second third : RunState World Datum}

theorem Agree.refl (state : RunState World Datum) : Agree lost state state :=
  ⟨fun _ _ => rfl, rfl, rfl, rfl⟩

theorem Agree.trans (left : Agree lost first second) (right : Agree lost second third) :
    Agree lost first third :=
  ⟨fun id kept => (left.env id kept).trans (right.env id kept),
    left.world.trans right.world, left.log.trans right.log, left.ending.trans right.ending⟩

theorem Agree.assign (agree : Agree lost first second) (inst : InstId) (datum : Datum) :
    Agree lost (first.assign inst datum) (second.assign inst datum) where
  env := by
    intro id kept
    simp only [RunState.assign]
    split
    · rfl
    · exact agree.env id kept
  world := agree.world
  log := agree.log
  ending := agree.ending

theorem Agree.stop (agree : Agree lost first second) (ending : Ending Datum) :
    Agree lost (first.stop ending) (second.stop ending) :=
  ⟨agree.env, agree.world, agree.log, rfl⟩

theorem Agree.record (agree : Agree lost first second) (logged : Bool) (act : Act Datum) :
    Agree lost (first.record logged act) (second.record logged act) := by
  cases logged with
  | false => exact agree
  | true => exact ⟨agree.env, agree.world, congrArg (· ++ [act]) agree.log, agree.ending⟩

theorem Agree.move (agree : Agree lost first second) (world : World) :
    Agree lost (first.move world) (second.move world) :=
  ⟨agree.env, rfl, agree.log, agree.ending⟩

theorem Agree.datum (agree : Agree lost first second) {value : Value}
    (kept : ∀ id, value = .inst id → ¬lost id) :
    machine.datum first.env value = machine.datum second.env value := by
  cases value with
  | inst id => exact agree.env id (kept id rfl)
  | other id => rfl
  | poison => rfl

end Agree

end RunState

namespace Machine

open RunState

section Exec

variable {lost : InstId → Prop} {first second : RunState World Datum}

/-- Mapped operands stand for the same data. -/
theorem operands_mapOperands {transform : Value → Value} {op : Op}
    {before after : InstId → Datum}
    (same : ∀ value ∈ op.operands,
      machine.datum before value = machine.datum after (transform value)) :
    machine.operands (op.mapOperands transform) after = machine.operands op before := by
  rw [operands, operands, Op.operands_mapOperands, List.map_map]
  apply List.map_congr_left
  intro value member
  exact (same value member).symm

/-- A phi with mapped operands takes over the same. -/
theorem incoming_mapOperands {transform : Value → Value} {entries : List (Value × BlockId)}
    {pred : Option BlockId} {before after : InstId → Datum}
    (same : ∀ entry ∈ entries, some entry.2 = pred →
      machine.datum before entry.1 = machine.datum after (transform entry.1)) :
    machine.incoming (.phi (entries.map fun entry => (transform entry.1, entry.2))) pred
      after = machine.incoming (.phi entries) pred before := by
  have mapped : (entries.map fun entry => (transform entry.1, entry.2)).find?
      (fun entry => some entry.2 = pred) =
        (entries.find? fun entry => some entry.2 = pred).map
          fun entry => (transform entry.1, entry.2) := by
    rw [List.find?_map]
    rfl
  simp only [incoming, mapped]
  cases found : entries.find? fun entry => some entry.2 = pred with
  | none => rfl
  | some entry =>
      exact (same entry (List.mem_of_find?_eq_some found)
        (by simpa using List.find?_some found)).symm

theorem exec_agree (agree : Agree lost first second) {left right : Inst}
    (id : left.id = right.id) (ty : left.ty = right.ty)
    (shape : left.op.shape = right.op.shape)
    (data : machine.operands left.op first.env = machine.operands right.op second.env) :
    Agree lost (machine.exec first left) (machine.exec second right) := by
  rw [exec, exec, agree.ending]
  split
  · exact agree
  · simp only [id, ty, shape, data, agree.world]
    split
    · exact agree.assign _ _
    · exact agree.stop _
    · have acted := agree.record
      split
      · exact ((acted _ _).move _).assign _ _
      · exact (acted _ _).stop _

/-- An instruction changes its own value only. -/
theorem env_exec_of_ne (state : RunState World Datum) {inst : Inst} {id : InstId}
    (different : id ≠ inst.id) : (machine.exec state inst).env id = state.env id := by
  rw [exec]
  split
  · rfl
  · simp only
    split
    · simp [RunState.assign, different]
    · rfl
    · rename_i logged after _
      cases logged <;> cases after <;>
        simp [RunState.assign, RunState.stop, RunState.record, RunState.move, different]

theorem env_foldl_exec_of_notMem {id : InstId} (insts : List Inst)
    (absent : ∀ inst ∈ insts, id ≠ inst.id) (state : RunState World Datum) :
    (insts.foldl machine.exec state).env id = state.env id := by
  induction insts generalizing state with
  | nil => rfl
  | cons head tail induction =>
      rw [List.foldl_cons, induction fun inst member =>
        absent inst (List.mem_cons_of_mem _ member)]
      exact env_exec_of_ne state (absent head (List.mem_cons_self ..))

/-- A run over some instructions, and one over those that are kept of them. -/
theorem foldl_exec_related (related : RunState World Datum → RunState World Datum → Prop)
    {kept : Inst → Bool} {transform : Value → Value} (start : related first second)
    (insts : List Inst)
    (stays : ∀ before inst after, insts = before ++ inst :: after → ∀ other,
      related (before.foldl machine.exec first) other →
        related (machine.exec (before.foldl machine.exec first) inst)
          (if kept inst then machine.exec other (inst.mapOperands transform) else other)) :
    related (insts.foldl machine.exec first)
      (((insts.filter kept).map (Inst.mapOperands transform)).foldl machine.exec second) := by
  induction insts using List.reverseRec with
  | nil => exact start
  | append_singleton before last induction =>
      have earlier := induction fun front inst rest split other holds =>
        stays front inst (rest ++ [last]) (by rw [split]; simp) other holds
      have turn := stays before last [] rfl _ earlier
      rw [List.foldl_append, List.filter_append, List.map_append, List.foldl_append,
        List.foldl_cons, List.foldl_nil]
      by_cases isKept : kept last = true
      · rw [if_pos isKept] at turn
        rw [List.filter_cons_of_pos isKept]
        exact turn
      · rw [if_neg isKept] at turn
        rw [List.filter_cons_of_neg isKept]
        exact turn

end Exec

/-! ## Arriving at a block -/

section Arrive

variable {block : Block} {pred : Option BlockId} {state : RunState World Datum}

theorem env_arrive_of_phi (nodup : block.definitions.Nodup) {phi : Inst}
    (member : phi ∈ block.insts) (isPhi : phi.op.isPhi = true) :
    (machine.arrive block pred state).env phi.id =
      machine.incoming phi.op pred state.env := by
  have inPhis : phi ∈ block.phis := List.mem_filter.mpr ⟨member, isPhi⟩
  cases found : block.phis.find? fun other => other.id = phi.id with
  | none => exact absurd (decide_eq_true rfl) (List.find?_eq_none.mp found phi inPhis)
  | some other =>
      have otherMember := (List.mem_filter.mp (List.mem_of_find?_eq_some found)).1
      have sameId : other.id = phi.id := by simpa using List.find?_some found
      have same : other = phi := List.inj_on_of_nodup_map nodup
        (Block.mem_instructions.mpr (.inl otherMember))
        (Block.mem_instructions.mpr (.inl member)) sameId
      simp only [arrive, found, same]

theorem env_arrive_of_other {id : InstId}
    (other : ∀ phi ∈ block.insts, phi.op.isPhi = true → phi.id ≠ id) :
    (machine.arrive block pred state).env id = state.env id := by
  cases found : block.phis.find? fun phi => phi.id = id with
  | none => simp only [arrive, found]
  | some phi =>
      have parts := List.mem_filter.mp (List.mem_of_find?_eq_some found)
      have sameId : phi.id = id := by simpa using List.find?_some found
      exact absurd sameId (other phi parts.1 parts.2)

/-- A block changes the values it defines only. -/
theorem env_execBlock_of_notMem {id : InstId} (absent : id ∉ block.definitions) :
    (machine.execBlock block pred state).env id = state.env id := by
  have others : ∀ inst ∈ block.insts, id ≠ inst.id := by
    intro inst member equal
    apply absent
    rw [equal]
    exact List.mem_map_of_mem (Block.mem_instructions.mpr (.inl member))
  rw [execBlock, env_foldl_exec_of_notMem block.body]
  · exact env_arrive_of_other fun phi member _ equal => others phi member equal.symm
  · exact fun inst member => others inst (List.mem_filter.mp member).1

end Arrive

/-! ## Leaving a block -/

theorem leave_agree {lost : InstId → Prop} {first second : RunState World Datum}
    (agree : Agree lost first second) {terminator : Inst} {transform : Value → Value}
    (same : ∀ value ∈ terminator.op.operands,
      machine.datum first.env value = machine.datum second.env (transform value)) :
    Agree lost (machine.leave terminator first).1
        (machine.leave (terminator.mapOperands transform) second).1 ∧
      (machine.leave (terminator.mapOperands transform) second).2 =
        (machine.leave terminator first).2 := by
  have data := operands_mapOperands same
  rw [leave, leave, agree.ending]
  split
  · exact ⟨agree, rfl⟩
  · have executed : Agree lost (machine.exec first terminator)
        (machine.exec second (terminator.mapOperands transform)) :=
      exec_agree agree rfl rfl (Op.shape_mapOperands transform terminator.op).symm data.symm
    cases kind : terminator.op with
    | br destination =>
        simp only [Inst.op_mapOperands, kind, Op.mapOperands]
        exact ⟨agree, trivial⟩
    | condBr condition ifTrue ifFalse =>
        have truth := same condition (by rw [kind]; exact List.mem_singleton_self _)
        simp only [Inst.op_mapOperands, kind, Op.mapOperands, truth]
        exact ⟨agree, trivial⟩
    | unreachable =>
        simp only [Inst.op_mapOperands, kind, Op.mapOperands]
        exact ⟨agree.stop _, trivial⟩
    | ret value =>
        have answer : value.map (machine.datum first.env) =
            (value.map transform).map (machine.datum second.env) := by
          cases value with
          | none => rfl
          | some value =>
              rw [Option.map_some, Option.map_some, Option.map_some,
                same value (by rw [kind]; exact List.mem_singleton_self _)]
        simp only [Inst.op_mapOperands, kind, Op.mapOperands, answer]
        exact ⟨agree.stop _, trivial⟩
    | _ =>
        rw [kind] at data
        have successors := Op.successors_mapOperands transform terminator.op
        have shape := Op.shape_mapOperands transform terminator.op
        rw [kind] at successors shape
        rw [Op.mapOperands] at data successors shape
        simp only [Inst.op_mapOperands, kind, Op.mapOperands, data, successors, shape,
          agree.world, executed.ending]
        split
        · exact ⟨executed, rfl⟩
        · split
          · exact ⟨executed, rfl⟩
          · exact ⟨executed.stop _, rfl⟩

theorem leave_of_ended {state : RunState World Datum} (ended : state.ending.isSome = true)
    (terminator : Inst) : machine.leave terminator state = (state, none) := by
  rw [leave, if_pos ended]

/-- Control is left to a successor, or the run has ended. -/
theorem leave_cases (machine : Machine World Datum) (terminator : Inst)
    (state : RunState World Datum) :
    (∃ next ∈ terminator.op.successors,
        (machine.leave terminator state).2 = some next) ∨
      (machine.leave terminator state).2 = none ∧
        (machine.leave terminator state).1.ending.isSome = true := by
  rw [leave]
  split
  · rename_i ended
    exact .inr ⟨rfl, ended⟩
  · cases kind : terminator.op with
    | br destination => exact .inl ⟨destination, List.mem_singleton_self _, rfl⟩
    | condBr condition ifTrue ifFalse =>
        refine .inl ⟨_, ?_, rfl⟩
        simp only [Op.successors]
        split
        · exact List.mem_cons_self ..
        · exact List.mem_cons_of_mem _ (List.mem_singleton_self _)
    | unreachable => exact .inr ⟨rfl, rfl⟩
    | ret value => exact .inr ⟨rfl, rfl⟩
    | _ =>
        simp only
        split
        · rename_i ended
          exact .inr ⟨rfl, ended⟩
        · split
          · rename_i next found
            exact .inl ⟨next, List.mem_of_getElem? found, rfl⟩
          · exact .inr ⟨rfl, rfl⟩

theorem env_leave_of_ne (state : RunState World Datum) {terminator : Inst} {id : InstId}
    (different : id ≠ terminator.id) :
    (machine.leave terminator state).1.env id = state.env id := by
  rw [leave]
  split
  · rfl
  · cases kind : terminator.op with
    | br _ | condBr _ _ _ | unreachable | ret _ => rfl
    | _ =>
        simp only
        split
        · exact env_exec_of_ne state different
        · split
          · exact env_exec_of_ne state different
          · exact env_exec_of_ne state different

end Machine

/-! ## One block of a run -/

namespace RunPoint

/-- The points differ in lost values only. -/
structure Agree (lost : InstId → Prop) (first second : RunPoint World Datum) : Prop where
  state : RunState.Agree lost first.state second.state
  done : first.done = second.done
  block : first.block = second.block

end RunPoint

namespace Function

variable {function : Function} {point : RunPoint World Datum}

theorem block?_mapBlocks {transform : Block → Block}
    (keeps : ∀ block, (transform block).id = block.id) (id : BlockId) :
    (function.mapBlocks transform).block? id = (function.block? id).map transform := by
  rw [block?, block?, blocks_mapBlocks, List.find?_map]
  congr 1
  simp only [Function.comp_def, keeps]

theorem step_of_ended (ended : point.state.ending.isSome = true) :
    function.step machine point = point := by
  rw [step, if_pos ended]

/-- What a step makes of the block it takes. -/
def leftOf (machine : Machine World Datum) (block : Block) (point : RunPoint World Datum) :
    RunState World Datum × Option BlockId :=
  machine.leave block.terminator (machine.execBlock block point.done.head? point.state)

theorem step_of_next {block : Block} {next : BlockId} (running : point.state.ending = none)
    (found : function.block? point.block = some block)
    (goesOn : (leftOf machine block point).2 = some next) :
    function.step machine point =
      ⟨(leftOf machine block point).1, block.id :: point.done, next⟩ := by
  rw [leftOf] at goesOn ⊢
  rw [step, running, found]
  simp only [Option.isSome_none, Bool.false_eq_true, if_false, goesOn]

theorem step_of_end {block : Block} (running : point.state.ending = none)
    (found : function.block? point.block = some block)
    (ends : (leftOf machine block point).2 = none) :
    function.step machine point = { point with state := (leftOf machine block point).1 } := by
  rw [leftOf] at ends ⊢
  rw [step, running, found]
  simp only [Option.isSome_none, Bool.false_eq_true, if_false, ends]

/-- A step takes a block and goes on to a successor, or the run ends. -/
theorem step_cases (machine : Machine World Datum) (running : point.state.ending = none)
    {block : Block}
    (found : function.block? point.block = some block) :
    (∃ next ∈ block.successors, (leftOf machine block point).2 = some next ∧
      function.step machine point =
        ⟨(leftOf machine block point).1, block.id :: point.done, next⟩) ∨
      (leftOf machine block point).2 = none ∧
        (leftOf machine block point).1.ending.isSome = true ∧
        function.step machine point =
          { point with state := (leftOf machine block point).1 } := by
  rcases Machine.leave_cases machine block.terminator
    (machine.execBlock block point.done.head? point.state) with goesOn | ended
  · rcases goesOn with ⟨next, member, isNext⟩
    exact .inl ⟨next, member, isNext, step_of_next running found isNext⟩
  · exact .inr ⟨ended.1, ended.2, step_of_end running found ended.1⟩

theorem step_agree {other : Function} {lost : InstId → Prop} {twin : RunPoint World Datum}
    {block mapped : Block} {transform : Value → Value} (agree : point.Agree lost twin)
    (running : point.state.ending = none)
    (found : function.block? point.block = some block)
    (twinFound : other.block? twin.block = some mapped) (sameId : mapped.id = block.id)
    (terminator : mapped.terminator = block.terminator.mapOperands transform)
    (executed : RunState.Agree lost (machine.execBlock block point.done.head? point.state)
      (machine.execBlock mapped twin.done.head? twin.state))
    (operands : ∀ value ∈ block.terminator.op.operands,
      machine.datum (machine.execBlock block point.done.head? point.state).env value =
        machine.datum (machine.execBlock mapped twin.done.head? twin.state).env
          (transform value)) :
    (function.step machine point).Agree lost (other.step machine twin) := by
  have left := Machine.leave_agree executed operands
  have twinRunning : twin.state.ending = none := by
    rw [← agree.state.ending]
    exact running
  rw [← terminator] at left
  have same : (leftOf machine mapped twin).2 = (leftOf machine block point).2 := left.2
  cases next : (leftOf machine block point).2 with
  | none =>
      rw [next] at same
      rw [step_of_end running found next, step_of_end twinRunning twinFound same]
      exact ⟨left.1, agree.done, agree.block⟩
  | some successor =>
      rw [next] at same
      rw [step_of_next running found next, step_of_next twinRunning twinFound same]
      exact ⟨left.1, by simp only [sameId, agree.done], rfl⟩

/-! ## Runs -/

/-- The points of a run stand on a path. -/
theorem path_run (machine : Machine World Datum) (entry : ∃ block, function.IsEntry block)
    (world : World) (count : Nat) :
    function.Path ((function.execution machine).run (function.start machine world) count).done
      ((function.execution machine).run (function.start machine world) count).block := by
  induction count with
  | zero =>
      rcases entry with ⟨block, isEntry⟩
      apply Walk.start
      rw [LoggedSystem.run_zero, start, isEntry]
      exact isEntry
  | succ count induction =>
      rw [LoggedSystem.run_succ]
      generalize (function.execution machine).run (function.start machine world) count =
        point at induction
      have same : (function.execution machine).step point = function.step machine point := rfl
      rw [same]
      cases running : point.state.ending with
      | some ending =>
          rw [step_of_ended (by rw [running]; rfl)]
          exact induction
      | none =>
          cases found : function.block? point.block with
          | none =>
              rw [step, running, found]
              exact induction
          | some block =>
              rcases mem_of_block? found with ⟨member, address⟩
              rcases step_cases machine running found with goesOn | ended
              · rcases goesOn with ⟨next, successor, -, isStep⟩
                rw [isStep]
                rw [← address] at induction
                exact .step induction (edge_iff.mpr ⟨block, member, rfl, successor⟩)
              · rw [ended.2.2]
                exact induction

end Function

end Desan
