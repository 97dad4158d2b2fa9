import Desan.CheckSliceRemover.ErasedRuns
import Desan.CheckSliceRemover.FormKept
import Desan.IR.FoldedRuns

/-! # Runs past the report block

A run of the spliced function leaves out the visits of the report block. It is the same
run as long as nothing outside reads a value of the report block, and the fall-through's
phis take from it what they take from the block before it. -/

namespace Desan

variable {World Datum : Type} {machine : Machine World Datum} {values : ValueTable}

namespace Function

/-- The block control has come from, the report block left out. -/
def comesFrom (report : BlockId) (done : List BlockId) : Option BlockId :=
  (done.filter fun block => block ≠ report).head?

/-- The values of the report block are not missed in the block the run has come to. -/
structure ClearAt (function : Function) (machine : Machine World Datum) (report : Block)
    (point : RunPoint World Datum) (block : Block) : Prop where
  /-- No instruction reads them. The branch of a predecessor goes anyway. -/
  operands : ∀ user ∈ block.instructions, user.op.isPhi = false →
    user = block.terminator ∧ block.id ∈ function.predecessors report.id ∨
      ∀ id ∈ report.definitions, .inst id ∉ user.op.operands
  /-- Nor does a phi take them over. -/
  entries : ∀ phi ∈ block.insts, ∀ entries, phi.op = .phi entries → ∀ entry ∈ entries,
    some entry.2 = comesFrom report.id point.done → ∀ id ∈ report.definitions,
      entry.1 ≠ .inst id
  /-- A phi takes over the same from the report block and from the block before it. -/
  joins : ∀ phi ∈ block.insts, phi.op.isPhi = true →
    machine.incoming phi.op point.done.head? point.state.env =
      machine.incoming phi.op (comesFrom report.id point.done) point.state.env

/-- In the whole run the values of the report block are not missed, and its calls of the
runtime change nothing. -/
structure ClearRun (function : Function) (machine : Machine World Datum)
    (values : ValueTable) (report : Block) (world : World) : Prop where
  clear : ∀ count point, (function.execution machine).run (function.start machine world)
    count = point → point.state.ending = none → ∀ block,
      function.block? point.block = some block → block.id ≠ report.id →
        function.ClearAt machine report point block
  calm : function.Calm machine values (fun id => id ∈ report.definitions) world

section Bury

variable {function : Function} {report block : Block} {transform : Value → Value}

theorem find?_removeIncomingValue {pred : Option BlockId} {report : BlockId}
    (different : pred ≠ some report) (entries : List (Value × BlockId)) :
    (removeIncomingValue report entries).find? (fun entry => some entry.2 = pred) =
      entries.find? fun entry => some entry.2 = pred := by
  rw [removeIncomingValue]
  induction entries with
  | nil => rfl
  | cons head tail induction =>
      by_cases atReport : head.2 = report
      · have notPred : ¬some head.2 = pred := fun same => different (same ▸ atReport ▸ rfl)
        have erased : (head :: tail).eraseP (fun entry => decide (entry.2 = report)) = tail := by
          simp [atReport]
        rw [erased, List.find?_cons_of_neg (by simpa using notPred)]
      · have kept : (head :: tail).eraseP (fun entry => decide (entry.2 = report)) =
            head :: tail.eraseP fun entry => decide (entry.2 = report) := by
          simp [atReport]
        rw [kept, List.find?_cons, List.find?_cons, induction]

theorem comesFrom_ne (report : BlockId) (done : List BlockId) :
    comesFrom report done ≠ some report := by
  intro same
  have member := List.mem_of_head? same
  exact of_decide_eq_true (List.mem_filter.mp member).2 rfl

theorem body_bury (function : Function) (report : Block) (transform : Value → Value)
    (block : Block) :
    (function.bury report transform block).body =
      block.body.map (Inst.mapOperands transform) := by
  have kept : (block.withoutEntry report).body = block.body := by
    rw [Block.withoutEntry]
    split
    · rw [Block.body, Block.body, Block.mapPhis, List.filter_map]
      have same : ((fun inst : Inst => !inst.op.isPhi) ∘ fun inst : Inst =>
          { inst with op := inst.op.mapIncoming (removeIncomingValue report.id) }) =
            fun inst : Inst => !inst.op.isPhi := by
        funext inst
        simp
      rw [same]
      have stays : ∀ inst ∈ block.insts.filter fun inst => !inst.op.isPhi,
          { inst with op := inst.op.mapIncoming (removeIncomingValue report.id) } = inst := by
        intro inst member
        have notPhi := (List.mem_filter.mp member).2
        have unchanged : inst.op.mapIncoming (removeIncomingValue report.id) = inst.op := by
          cases kind : inst.op with
          | phi incoming =>
              rw [kind] at notPhi
              cases notPhi
          | _ => rfl
        rw [unchanged]
      rw [List.map_congr_left stays, List.map_id']
    · rfl
  rw [Block.body, insts_bury, List.filter_map, ← kept, Block.body]
  congr 2
  funext inst
  simp

/-- The phis of a block that is left, without the entry of the report block. -/
theorem exists_bury_phi {phi : Inst} (member : phi ∈ block.insts)
    {entries : List (Value × BlockId)} (isPhi : phi.op = .phi entries) :
    ∃ buried ∈ (function.bury report transform block).insts, buried.id = phi.id ∧
      ∃ kept, buried.op = .phi (kept.map fun entry => (transform entry.1, entry.2)) ∧
        (kept = entries ∨ kept = removeIncomingValue report.id entries) := by
  rw [insts_bury, Block.withoutEntry]
  split
  · refine ⟨_, List.mem_map_of_mem (List.mem_map_of_mem member), rfl,
      removeIncomingValue report.id entries, ?_, .inr rfl⟩
    simp only [Inst.mapOperands, isPhi, Op.mapIncoming, Op.mapOperands]
  · refine ⟨_, List.mem_map_of_mem member, rfl, entries, ?_, .inl rfl⟩
    rw [Inst.op_mapOperands, isPhi, Op.mapOperands]

end Bury

section Bypass

variable {function : Function} {check : InstId} {report : Block} {transform : Value → Value}
  {lost : InstId → Prop} {point twin : RunPoint World Datum} {block : Block}

/-- A value that is not the report block's is itself. -/
theorem Buries.eq_self (buries : function.Buries report transform) {value : Value}
    (kept : ∀ id ∈ report.definitions, value ≠ .inst id) : transform value = value := by
  cases value with
  | inst id => exact buries.others id fun inside => kept id inside rfl
  | other id => exact buries.keeps (.other id) rfl
  | poison => exact buries.keeps .poison rfl

theorem Buries.datum_eq (buries : function.Buries report transform)
    {first second : RunState World Datum}
    (agree : RunState.Agree (fun id => id ∈ report.definitions) first second) {value : Value}
    (kept : ∀ id ∈ report.definitions, value ≠ .inst id) :
    machine.datum first.env value = machine.datum second.env (transform value) := by
  rw [buries.eq_self kept]
  apply agree.datum
  intro id same inside
  exact kept id inside same

/-- The points show the same. The second run has left the report block out. -/
structure Past (report : Block) (point twin : RunPoint World Datum) : Prop where
  block : twin.block = point.block
  outside : point.block ≠ report.id
  done : twin.done = point.done.filter fun block => block ≠ report.id
  state : RunState.Agree (fun id => id ∈ report.definitions) point.state twin.state

section Block

variable (buries : function.Buries report transform) (shaped : function.Shaped)
  (member : block ∈ function.blocks) (past : Past report point twin)
  (clear : function.ClearAt machine report point block)
include buries shaped member past clear

theorem arrive_bury :
    RunState.Agree (fun id => id ∈ report.definitions)
      (machine.arrive block point.done.head? point.state)
      (machine.arrive (function.bury report transform block) twin.done.head? twin.state) where
  env := by
    intro id kept
    have nodup := Block.nodup_definitions shaped member
    have buriedNodup : (function.bury report transform block).definitions.Nodup := by
      rw [definitions_bury]
      exact nodup
    have origin : twin.done.head? = comesFrom report.id point.done := by
      rw [past.done, comesFrom]
    by_cases isPhi : ∃ phi ∈ block.insts, phi.op.isPhi = true ∧ phi.id = id
    · rcases isPhi with ⟨phi, inside, isPhi, rfl⟩
      rcases Op.exists_of_isPhi isPhi with ⟨entries, kind⟩
      have buriedPhi : ∃ buried ∈ (function.bury report transform block).insts,
          buried.id = phi.id ∧ ∃ kept,
            buried.op = .phi (kept.map fun entry => (transform entry.1, entry.2)) ∧
              (kept = entries ∨ kept = removeIncomingValue report.id entries) :=
        exists_bury_phi inside kind
      rcases buriedPhi with ⟨buried, buriedInside, sameId, left, buriedKind, leftCases⟩
      have arrived : (machine.arrive (function.bury report transform block) twin.done.head?
          twin.state).env buried.id = _ :=
        Machine.env_arrive_of_phi buriedNodup buriedInside (by rw [buriedKind]; rfl)
      have sameEntries : machine.incoming (.phi left) (comesFrom report.id point.done)
          point.state.env = machine.incoming (.phi entries) (comesFrom report.id point.done)
            point.state.env := by
        rcases leftCases with rfl | rfl
        · rfl
        · simp only [Machine.incoming,
            find?_removeIncomingValue (comesFrom_ne report.id point.done)]
      have inEntries : ∀ entry ∈ left, entry ∈ entries := by
        intro entry entryMember
        rcases leftCases with rfl | rfl
        · exact entryMember
        · exact List.eraseP_subset entryMember
      rw [Machine.env_arrive_of_phi nodup inside isPhi, clear.joins phi inside isPhi, kind,
        ← sameId, arrived, buriedKind, origin, ← sameEntries]
      symm
      apply Machine.incoming_mapOperands
      intro entry entryMember from_
      exact buries.datum_eq past.state
        (clear.entries phi inside entries kind entry (inEntries entry entryMember) from_)
    · have other : ∀ phi ∈ block.insts, phi.op.isPhi = true → phi.id ≠ id :=
        fun phi inside phi_ same => isPhi ⟨phi, inside, phi_, same⟩
      rw [Machine.env_arrive_of_other other, Machine.env_arrive_of_other]
      · exact past.state.env id kept
      · intro buried inside isBuriedPhi
        rcases Op.exists_of_isPhi isBuriedPhi with ⟨incoming, kind⟩
        rcases exists_phi_of_bury inside kind with
          ⟨original, originalMember, sameId, entries, originalKind, -⟩
        rw [← sameId]
        exact other original originalMember (by rw [originalKind]; rfl)
  world := past.state.world
  log := past.state.log
  ending := past.state.ending

/-- Through a part of the body of a block other than the report block. -/
theorem reached_bury {front rest : List Inst} (whole : block.body = front ++ rest) :
    RunState.Agree (fun id => id ∈ report.definitions) (reached machine block point front)
      (reached machine (function.bury report transform block) twin
        ((front.filter fun _ => true).map (Inst.mapOperands transform))) := by
  apply Machine.foldl_exec_related (RunState.Agree fun id => id ∈ report.definitions)
    (arrive_bury buries shaped member past clear)
  intro before inst after split other agree
  have inBody : inst ∈ block.body := by
    rw [whole, split]
    exact List.mem_append_left _ (List.mem_append_right _ (List.mem_cons_self ..))
  have parts := List.mem_filter.mp inBody
  have notPhi : inst.op.isPhi = false := by simpa using parts.2
  have inside : inst ∈ block.instructions := Block.mem_instructions.mpr (.inl parts.1)
  have notTerminator : inst ≠ block.terminator := by
    intro same
    have nodup := Block.nodup_definitions shaped member
    rw [Block.definitions_eq] at nodup
    exact (List.nodup_append.mp nodup).2.2 inst.id (List.mem_map_of_mem parts.1)
      block.terminator.id (List.mem_singleton_self _) (congrArg Inst.id same)
  rw [if_pos rfl]
  apply Machine.exec_agree agree
  · rfl
  · rfl
  · exact (Op.shape_mapOperands transform inst.op).symm
  · apply (Machine.operands_mapOperands fun value operand => ?_).symm
    apply buries.datum_eq agree
    intro id defined same
    rcases clear.operands inst inside notPhi with branch | unread
    · exact notTerminator branch.1
    · exact unread id defined (same ▸ operand)

omit buries shaped member past clear in
theorem body_bury_filter (function : Function) (report : Block) (transform : Value → Value)
    (block : Block) :
    (function.bury report transform block).body =
      (block.body.filter fun _ => true).map (Inst.mapOperands transform) := by
  rw [body_bury, List.filter_eq_self.mpr fun _ _ => rfl]

/-- Through one block other than the report block. -/
theorem execBlock_bury :
    RunState.Agree (fun id => id ∈ report.definitions)
      (machine.execBlock block point.done.head? point.state)
      (machine.execBlock (function.bury report transform block) twin.done.head?
        twin.state) := by
  have whole := reached_bury buries shaped member past clear (List.append_nil _).symm
  rw [← body_bury_filter] at whole
  exact whole

end Block

/-- A silent block of the sanitizer's own leaves the state as it is, its own values
aside. -/
theorem execBlock_idle (honest : machine.Honest values)
    (own : ∀ inst ∈ block.insts, values.isSanitizerOnlyInstruction inst.op = true)
    (losesOwn : ∀ id ∈ block.definitions, lost id)
    {world : World} (silent : function.Silent machine world lost) {count : Nat}
    (at_ : (function.execution machine).run (function.start machine world) count = point)
    (running : point.state.ending = none)
    (found : function.block? point.block = some block)
    (calm : function.CalmAt machine values lost point) :
    RunState.Agree lost (machine.execBlock block point.done.head? point.state)
      point.state := by
  have arrived : RunState.Agree lost (machine.arrive block point.done.head? point.state)
      point.state := by
    refine ⟨?_, rfl, rfl, rfl⟩
    intro id kept
    apply Machine.env_arrive_of_other
    intro phi inside _ same
    apply kept
    apply losesOwn
    rw [← same]
    exact List.mem_map_of_mem (Block.mem_instructions.mpr (.inl inside))
  have none : ((block.body.filter fun _ => false).map
      (Inst.mapOperands fun value => value)).foldl machine.exec point.state = point.state := by
    rw [List.filter_false]
    rfl
  have whole : RunState.Agree lost (machine.execBlock block point.done.head? point.state)
      (((block.body.filter fun _ => false).map
        (Inst.mapOperands fun value => value)).foldl machine.exec point.state) := by
    apply Machine.foldl_exec_related (RunState.Agree lost) arrived
    intro before inst after split other agree
    have inBody : inst ∈ block.body := by
      rw [split]
      exact List.mem_append_right _ (List.mem_cons_self ..)
    have inside := (List.mem_filter.mp inBody).1
    have isLost : lost inst.id := losesOwn inst.id
      (List.mem_map_of_mem (Block.mem_instructions.mpr (.inl inside)))
    rw [if_neg Bool.false_ne_true]
    cases still : (reached machine block point before).ending with
    | some ending =>
        rw [reached] at still
        rw [Machine.exec_of_ended (Option.isSome_of_eq_some still)]
        exact agree
    | none =>
        have runtime := calm block found before inst after split isLost
        have idle := ((honest.noAct_of_sanitizerOnly (own inst inside)).exec_agree
          runtime).resolve_left (silent.reached_ne at_ running found split isLost still)
        apply RunState.Agree.trans _ agree
        exact ⟨fun id kept => idle.env id fun same => kept (same ▸ isLost), idle.world,
          idle.log, idle.ending⟩
  rw [none] at whole
  exact whole

section Step

variable (bypassable : function.Bypassable values check report) (shaped : function.Shaped)
  (buries : function.Buries report transform) (honest : machine.Honest values)
  {world : World} (defined : function.Defined machine world)
  (silent : function.Silent machine world fun id => id ∈ report.definitions) {count : Nat}
  (at_ : (function.execution machine).run (function.start machine world) count = point)
include bypassable shaped at_ defined silent honest

omit shaped in
/-- Control passes the report block without a trace. -/
theorem step_report (calm : function.CalmAt machine values (fun id => id ∈ report.definitions)
    point) (running : point.state.ending = none)
    (found : function.block? point.block = some report) :
    ∃ next, getReportBlockFallthrough report = some next ∧ ∃ state,
      RunState.Agree (fun id => id ∈ report.definitions) state point.state ∧
        function.step machine point = ⟨state, report.id :: point.done, next⟩ := by
  have own : ∀ inst ∈ report.instructions,
      values.isSanitizerOnlyInstruction inst.op = true := by
    intro inst inside
    have sanitizerOnly := bypassable.sanitizerOnly
    rw [ValueTable.isSanitizerOnlyBlock] at sanitizerOnly
    exact (Bool.and_eq_true_iff.mp (List.all_eq_true.mp sanitizerOnly inst inside)).2
  have idle := execBlock_idle honest
    (fun inst inside => own inst (Block.mem_instructions.mpr (.inl inside)))
    (fun id inside => inside) silent at_ running found calm
  have stillRuns := idle.ending.trans running
  have terminator := bypassable.terminator
  have notUndefined := defined.left_ne at_ running found
  cases kind : report.terminator.op with
  | br destination =>
      have goesOn : leftOf machine report point =
          (machine.execBlock report point.done.head? point.state, some destination) := by
        rw [leftOf, Machine.leave, stillRuns, kind]
        rfl
      refine ⟨destination, by rw [getReportBlockFallthrough, kind], _, idle, ?_⟩
      rw [step_of_next running found (by rw [goesOn]), goesOn]
  | unreachable =>
      exfalso
      apply notUndefined
      rw [leftOf, Machine.leave, stillRuns, kind]
      rfl
  | _ =>
      rw [kind] at terminator
      cases terminator

end Step

/-- A branch leads to a successor and does nothing else. -/
theorem leave_of_safe (machine : Machine World Datum) {state : RunState World Datum}
    {terminator : Inst} {report target : BlockId} {fallthrough : Option BlockId} (running : state.ending = none)
    (safe : safeSuccessor report fallthrough terminator.op = some target) :
    ∃ next ∈ terminator.op.successors, machine.leave terminator state = (state, some next) := by
  have isLeave : machine.leave terminator state = _ := Machine.leave.eq_1 machine terminator state
  rw [running] at isLeave
  simp only [Option.isSome_none, Bool.false_eq_true, if_false] at isLeave
  cases kind : terminator.op with
  | br destination =>
      rw [kind] at isLeave
      exact ⟨destination, List.mem_singleton_self _, isLeave⟩
  | condBr condition ifTrue ifFalse =>
      rw [kind] at isLeave
      refine ⟨_, ?_, isLeave⟩
      simp only [Op.successors]
      split
      · exact List.mem_cons_self ..
      · exact List.mem_cons_of_mem _ (List.mem_singleton_self _)
  | _ =>
      rw [kind] at safe
      cases safe

theorem terminator_bury_of_notPred (notPred : block.id ∉ function.predecessors report.id) :
    (function.bury report transform block).terminator =
      block.terminator.mapOperands transform := by
  have same : ((block.withoutEntry report).mapInsts (Inst.mapOperands transform)).terminator =
      (block.withoutEntry report).terminator.mapOperands transform := rfl
  rw [bury, Block.redirect, Block.id_withoutEntry, if_neg notPred, same,
    Block.terminator_withoutEntry]

section Steps

variable (bypassable : function.Bypassable values check report) (shaped : function.Shaped)
  (buries : function.Buries report transform) (past : Past report point twin)
  (running : point.state.ending = none)
  (found : function.block? point.block = some block)
  (clear : function.ClearAt machine report point block)
include bypassable shaped buries past running found clear

omit running clear in
theorem block?_buried : (function.buried report transform).block? twin.block =
    some (function.bury report transform block) := by
  rcases mem_of_block? found with ⟨member, address⟩
  have left : function.bury report transform block ∈
      (function.buried report transform).blocks :=
    mem_buried.mpr ⟨block, member, address ▸ past.outside, rfl⟩
  have whole := (bypassable.shaped_buried shaped buries.keeps).block?_eq left
  rw [id_bury, address, ← past.block] at whole
  exact whole

omit running found clear bypassable shaped buries in
/-- Both runs have taken the block and go on to the same one. -/
theorem Past.left {state twinState : RunState World Datum} {next : BlockId}
    (outside : block.id ≠ report.id) (onward : next ≠ report.id)
    (agree : RunState.Agree (fun id => id ∈ report.definitions) state twinState) :
    Past report ⟨state, block.id :: point.done, next⟩
      ⟨twinState, block.id :: twin.done, next⟩ := by
  refine ⟨rfl, onward, ?_, agree⟩
  simp only [past.done]
  rw [List.filter_cons_of_pos (by simpa using outside)]

omit running found clear bypassable shaped buries in
/-- The first run has gone over the report block. -/
theorem Past.over {state twinState : RunState World Datum} {next : BlockId}
    (outside : block.id ≠ report.id) (onward : next ≠ report.id)
    (agree : RunState.Agree (fun id => id ∈ report.definitions) state twinState) :
    Past report ⟨state, report.id :: block.id :: point.done, next⟩
      ⟨twinState, block.id :: twin.done, next⟩ := by
  refine ⟨rfl, onward, ?_, agree⟩
  simp only [past.done]
  rw [List.filter_cons_of_neg (by simp), List.filter_cons_of_pos (by simpa using outside)]

/-- A run that ends in the body of a block ends in both functions. -/
theorem past_of_stopped
    (stopped : (machine.execBlock block point.done.head? point.state).ending.isSome = true) :
    Past report (function.step machine point)
      ((function.buried report transform).step machine twin) := by
  have member := (mem_of_block? found).1
  have twinFound := block?_buried bypassable shaped buries past found
  have twinRuns : twin.state.ending = none := past.state.ending.symm.trans running
  have executed := execBlock_bury buries shaped member past clear
  have here : leftOf machine block point =
      (machine.execBlock block point.done.head? point.state, none) :=
    Machine.leave_of_ended stopped block.terminator
  have there : leftOf machine (function.bury report transform block) twin =
      (machine.execBlock (function.bury report transform block) twin.done.head?
        twin.state, none) :=
    Machine.leave_of_ended (executed.ending ▸ stopped) _
  rw [step_of_end running found (by rw [here]), here,
    step_of_end twinRuns twinFound (by rw [there]), there]
  exact ⟨past.block, past.outside, past.done, executed⟩

/-- A block that does not lead to the report block is left as before. -/
theorem past_of_notPred (notPred : block.id ∉ function.predecessors report.id) :
    Past report (function.step machine point)
      ((function.buried report transform).step machine twin) := by
  rcases mem_of_block? found with ⟨member, address⟩
  have twinFound := block?_buried bypassable shaped buries past found
  have twinRuns : twin.state.ending = none := past.state.ending.symm.trans running
  have notPhi := Op.isPhi_of_isTerminator (shaped.terminators block member)
  have executed := execBlock_bury buries shaped member past clear
  have operands : ∀ value ∈ block.terminator.op.operands,
      machine.datum (machine.execBlock block point.done.head? point.state).env value =
        machine.datum (machine.execBlock (function.bury report transform block)
          twin.done.head? twin.state).env (transform value) := by
    intro value operand
    apply buries.datum_eq executed
    intro id defined same
    rcases clear.operands block.terminator block.terminator_mem notPhi with branch | unread
    · exact notPred branch.2
    · exact unread id defined (same ▸ operand)
  have left := Machine.leave_agree executed operands
  rw [← terminator_bury_of_notPred notPred] at left
  have sameNext : (leftOf machine (function.bury report transform block) twin).2 =
      (leftOf machine block point).2 := left.2
  rcases step_cases machine running found with goesOn | ended
  · rcases goesOn with ⟨next, successor, isNext, isStep⟩
    rw [isNext] at sameNext
    rw [isStep, step_of_next twinRuns twinFound sameNext, id_bury]
    apply past.left (address ▸ past.outside) _ left.1
    intro same
    apply notPred
    rw [mem_predecessors, edge_iff]
    exact ⟨block, member, rfl, same ▸ successor⟩
  · rw [ended.1] at sameNext
    rw [ended.2.2, step_of_end twinRuns twinFound sameNext]
    exact ⟨past.block, past.outside, past.done, left.1⟩

/-- A predecessor of the report block leads to its safe successor, directly or over the
report block. -/
theorem past_of_pred (isPred : block.id ∈ function.predecessors report.id)
    (honest : machine.Honest values) {world : World}
    (defined : function.Defined machine world)
    (silent : function.Silent machine world fun id => id ∈ report.definitions) {count : Nat}
    (at_ : (function.execution machine).run (function.start machine world) count = point)
    (calm : function.Calm machine values (fun id => id ∈ report.definitions) world) :
    Past report (function.step machine point)
        ((function.buried report transform).step machine twin) ∨
      Past report (function.step machine (function.step machine point))
        ((function.buried report transform).step machine twin) := by
  rcases mem_of_block? found with ⟨member, address⟩
  have outside : block.id ≠ report.id := address ▸ past.outside
  have twinFound := block?_buried bypassable shaped buries past found
  have twinRuns : twin.state.ending = none := past.state.ending.symm.trans running
  have executed := execBlock_bury buries shaped member past clear
  rcases bypassable.exists_safe shaped member isPred with ⟨target, safe⟩
  have branch : (function.bury report transform block).terminator.op = .br target := by
    rw [terminator_op_bury, if_pos isPred, safe]
  cases stopped : (machine.execBlock block point.done.head? point.state).ending with
  | some ending =>
      exact .inl (past_of_stopped bypassable shaped buries past running found clear
        (Option.isSome_of_eq_some stopped))
  | none =>
      have there : leftOf machine (function.bury report transform block) twin =
          (machine.execBlock (function.bury report transform block) twin.done.head?
            twin.state, some target) := by
        rw [leftOf, Machine.leave, ← executed.ending, stopped, branch]
        rfl
      have onward : target ≠ report.id := (safeSuccessor_cases safe).1
      rcases leave_of_safe machine stopped safe with ⟨next, successor, leaves⟩
      have here : leftOf machine block point =
          (machine.execBlock block point.done.head? point.state, some next) := leaves
      have isStep : function.step machine point =
          ⟨machine.execBlock block point.done.head? point.state, block.id :: point.done,
            next⟩ := by
        rw [step_of_next running found (by rw [here]), here]
      have toReport : report.id ∈ block.terminator.op.successors := by
        rcases edge_iff.mp (mem_predecessors.mp isPred) with ⟨pred, predMember, same, leads⟩
        exact shaped.block_eq predMember member same ▸ leads
      rw [step_of_next twinRuns twinFound (by rw [there]), there, id_bury, isStep]
      rcases eq_or_eq_of_safe safe toReport successor with atReport | atTarget
      · right
        have next_ : (function.execution machine).run (function.start machine world)
            (count + 1) = ⟨machine.execBlock block point.done.head? point.state,
              block.id :: point.done, next⟩ := by
          rw [LoggedSystem.run_succ, at_, ← isStep]
          rfl
        have calmAt := calm (count + 1)
        rw [next_] at calmAt
        have reportFound : function.block? next = some report := by
          rw [atReport]
          exact shaped.block?_eq bypassable.report_mem.1
        rcases step_report bypassable honest defined silent next_ calmAt stopped
          reportFound with
          ⟨fallthrough, isFallthrough, state, agree, isNext⟩
        rw [isNext, eq_of_safe_fallthrough safe isFallthrough]
        exact past.over outside onward (agree.trans executed)
      · rw [atTarget]
        exact .inl (past.left outside onward executed)

end Steps

section Whole

variable (bypassable : function.Bypassable values check report) (shaped : function.Shaped)
  (buries : function.Buries report transform)
include bypassable shaped buries

theorem past_start (world : World) (notEntry : ¬function.IsEntry report.id) :
    Past report (function.start machine world)
      ((function.buried report transform).start machine world) := by
  have splices := bypassable.splices_buried shaped buries.keeps notEntry
  have entries : Function.entry? (function.buried report transform) = function.entry? :=
    Option.ext fun block => splices.start_iff block
  refine ⟨?_, ?_, rfl, .refl _⟩
  · rw [start, start, entries]
  · intro same
    cases found : function.blocks with
    | nil =>
        have inside := bypassable.report_mem.1
        rw [found] at inside
        cases inside
    | cons head tail =>
        have isHead : Function.entry? function = some head.id := by
          rw [ entry?, found]
          rfl
        apply notEntry
        rw [start, isHead] at same
        rw [IsEntry, isHead]
        exact congrArg some same

section Follows

variable (honest : machine.Honest values) {world : World}
  (defined : function.Defined machine world)
  (silent : function.Silent machine world fun id => id ∈ report.definitions)
  (clear : function.ClearRun machine values report world)
include honest defined silent clear

/-- One step of the second run is one of the first, or two over the report block. -/
theorem past_step {count : Nat}
    (at_ : (function.execution machine).run (function.start machine world) count = point)
    (past : Past report point twin) :
    Past report (function.step machine point)
        ((function.buried report transform).step machine twin) ∨
      Past report (function.step machine (function.step machine point))
        ((function.buried report transform).step machine twin) := by
  cases running : point.state.ending with
  | some ending =>
      left
      rw [step_of_ended (by rw [running]; rfl),
        step_of_ended (by rw [← past.state.ending, running]; rfl)]
      exact past
  | none =>
      rcases defined.exists_block at_ running with ⟨block, found⟩
      have clearAt := clear.clear count point at_ running block found
        ((mem_of_block? found).2 ▸ past.outside)
      by_cases isPred : block.id ∈ function.predecessors report.id
      · exact past_of_pred bypassable shaped buries past running found clearAt isPred honest
          defined silent at_ clear.calm
      · exact .inl (past_of_notPred bypassable shaped buries past running found clearAt isPred)

theorem past_follows :
    LoggedSystem.Follows (function.execution machine)
      ((function.buried report transform).execution machine)
      (function.Meets machine world (Past report)) where
  log := fun _ _ meets => meets.2.state.log
  ending := fun _ _ meets => meets.2.state.ending
  again := by
    intro point twin meets
    rcases meets.1 with ⟨count, at_⟩
    rcases past_step bypassable shaped buries honest defined silent clear at_ meets.2 with
      direct | through
    · exact ⟨0, meets.next direct⟩
    · exact ⟨1, meets.next through⟩

/-- A defined run is the same without the silent report block, if its values are not
missed. -/
theorem runsAlike_buried (notEntry : ¬function.IsEntry report.id) :
    function.RunsAlike (function.buried report transform) machine world :=
  (past_follows bypassable shaped buries honest defined silent clear).simulates.sameRun
    (meets_start (past_start bypassable shaped buries world notEntry))

/-- And reports where it has reported. -/
theorem reportsAt_buried (notEntry : ¬function.IsEntry report.id) {id : InstId}
    (reports : (function.buried report transform).ReportsAt machine world id) :
    function.ReportsAt machine world id := by
  apply reportsAt_of_follows (past_follows bypassable shaped buries honest defined silent clear)
    (past_start bypassable shaped buries world notEntry) _ reports
  intro point twin meets twinRunning twinBlock twinFound id either
  rcases meets with ⟨⟨count, at_⟩, past⟩
  have running := past.state.ending.trans twinRunning
  rcases defined.exists_block at_ running with ⟨block, found⟩
  have same := (block?_buried bypassable shaped buries past found).symm.trans twinFound
  rw [← Option.some.inj same] at either twinFound
  rcases mem_of_block? found with ⟨member, address⟩
  have clearAt := clear.clear count point at_ running block found (address ▸ past.outside)
  have executed := execBlock_bury buries shaped member past clearAt
  refine ⟨running, block, found, either.imp ?_ ?_⟩
  · intro body
    exact body.of_agree (body_bury_filter function report transform block)
      fun front rest whole => reached_bury buries shaped member past clearAt whole
  · intro terminator
    by_cases isPred : block.id ∈ function.predecessors report.id
    · -- The branch that has taken the place of the terminator does not report.
      exfalso
      rcases bypassable.exists_safe shaped member isPred with ⟨target, safe⟩
      have branch : (function.bury report transform block).terminator.op = .br target := by
        rw [terminator_op_bury, if_pos isPred, safe]
      rcases terminator with ⟨-, still, reported⟩
      rw [leftOf, Machine.leave, still, branch] at reported
      exact absurd (still.symm.trans reported) (by simp)
    · have stepped := past_of_notPred bypassable shaped buries past running found clearAt isPred
      have sameId : (function.bury report transform block).terminator.id =
          block.terminator.id := by
        rw [terminator_bury_of_notPred isPred, Inst.id_mapOperands]
      exact terminator.of_agree sameId running found twinRunning twinFound executed.ending
        stepped.state.ending

end Follows

end Whole

section Bypassed

variable (bypassable : function.Bypassable values check report)
  (wellFormed : function.WellFormed) (well : function.SplicesWell report.id)
  (honest : machine.Honest values) {world : World}
include bypassable wellFormed well honest

/-- A bypass keeps the defined runs in which the report block is silent and not missed. -/
theorem Bypassable.runsAlike_of_silent (defined : function.Defined machine world)
    (silent : function.Silent machine world fun id => id ∈ report.definitions)
    (clear : function.ClearRun machine values report world) (slice : CheckSlice) :
    function.RunsAlike (function.bypassReportBlock values slice check).function machine
        world ∧
      ∀ id, (function.bypassReportBlock values slice check).function.ReportsAt machine world
        id → function.ReportsAt machine world id := by
  rcases bypassable.folds_splice wellFormed.shaped slice with ⟨transform, buries, folds⟩
  rw [buried_eq] at folds
  have alike := runsAlike_buried bypassable wellFormed.shaped buries honest defined silent
    clear well.notEntry
  have folded := runsAlike_folds folds (well.wellFormed_buried wellFormed bypassable
    buries).1 (defined.of_runsAlike alike)
  exact ⟨alike.trans folded.1, fun id reports =>
    reportsAt_buried bypassable wellFormed.shaped buries honest defined silent clear
      well.notEntry (folded.2 id reports)⟩

/-- A bypass keeps the faultless runs in which the report block is not missed. -/
theorem Bypassable.runsAlike (faultless : function.Faultless machine world)
    (clear : function.ClearRun machine values report world) (slice : CheckSlice) :
    function.RunsAlike (function.bypassReportBlock values slice check).function machine
      world :=
  (bypassable.runsAlike_of_silent wellFormed well honest faultless.defined
    (faultless.silent _) clear slice).1

end Bypassed

end Bypass

end Function

end Desan
