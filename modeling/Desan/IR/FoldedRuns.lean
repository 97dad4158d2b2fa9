import Desan.IR.Reports
import Desan.IR.WellFormed

/-! # Runs without a folded phi

Wherever a phi of one value is used, the value is still the one the phi has taken over:
what the value is defined by is not executed again before the phi is. So a run with the
value in the place of the phi is the same run. -/

namespace Desan

variable {World Datum : Type} {machine : Machine World Datum}

namespace Function

/-- A phi into which one value comes, the phi itself aside. -/
structure OneValue (function : Function) (home : Block) (phi : Inst)
    (incoming : List (Value × BlockId)) (value : Value) : Prop where
  homeMember : home ∈ function.blocks
  member : phi ∈ home.insts
  isPhi : phi.op = .phi incoming
  other : value ≠ phi.value
  one : ∀ entry ∈ incoming, entry.1 = value ∨ entry.1 = phi.value
  source : value = .poison ∨ ∃ entry ∈ incoming, entry.1 = value

/-- The phi has the value's datum. -/
def Tied (machine : Machine World Datum) (phi : Inst) (value : Value)
    (state : RunState World Datum) : Prop :=
  state.env phi.id = machine.datum state.env value

/-- The block does not define the value. -/
def LeavesValue (value : Value) (block : Block) : Prop :=
  ∀ id, value = .inst id → id ∉ block.definitions

/-- As long as the value has not been defined anew since the latest visit of the phi's
block, the phi has its datum. -/
def TiedSince (function : Function) (machine : Machine World Datum) (home : BlockId)
    (phi : Inst) (value : Value) (point : RunPoint World Datum) : Prop :=
  ∀ recent earlier, point.done = recent ++ home :: earlier → home ∉ recent →
    (∀ block ∈ function.blocks, block.id ∈ recent → LeavesValue value block) →
      Tied machine phi value point.state

section OneValue

variable {function : Function} {home block : Block} {phi : Inst}
  {incoming : List (Value × BlockId)} {value : Value}

theorem datum_congr {first second : RunState World Datum}
    (same : ∀ id, value = .inst id → first.env id = second.env id) :
    machine.datum first.env value = machine.datum second.env value := by
  cases value with
  | inst id => exact same id rfl
  | other id => rfl
  | poison => rfl

/-- Neither the phi nor the value changes. -/
theorem Tied.congr {first second : RunState World Datum}
    (tied : Tied machine phi value first) (phi_ : second.env phi.id = first.env phi.id)
    (same : ∀ id, value = .inst id → second.env id = first.env id) :
    Tied machine phi value second := by
  rw [Tied, phi_, datum_congr same]
  exact tied

section Graph

variable (wellFormed : function.WellFormed) (oneValue : function.OneValue home phi incoming value)
include wellFormed oneValue

/-- Every path to the phi's block has left a block that defines the value. -/
theorem OneValue.exists_source {id : InstId} (isValue : value = .inst id)
    {done : List BlockId} (path : function.Path done home.id) :
    ∃ source ∈ function.blocks, id ∈ source.definitions ∧
      ∀ done, function.Path done home.id → source.id ∈ done := by
  have one := oneValue.one
  rw [isValue] at one
  have from_ : ∃ entry ∈ incoming, entry.1 = .inst id := by
    rcases oneValue.source with none | entry
    · rw [isValue] at none
      cases none
    · rw [isValue] at entry
      exact entry
  have executed : ∀ done, function.Path done home.id →
      function.ExecutedBefore id done home.id := fun done path =>
    wellFormed.executed_of_one oneValue.homeMember oneValue.member oneValue.isPhi one from_ path
  rcases executed done path with ⟨source, sourceMember, defined, -⟩
  refine ⟨source, sourceMember, defined, ?_⟩
  intro other otherPath
  rcases executed other otherPath with ⟨again, againMember, againDefined, passed, -⟩
  have same := wellFormed.shaped.block_of_definition againMember sourceMember againDefined
    defined
  exact same ▸ passed

/-- Where the phi's block has been left on every path, the value is not defined anew. -/
theorem OneValue.leavesValue {vertex : BlockId}
    (dominated : ∀ done, function.Path done vertex → home.id ∈ done)
    {recent earlier : List BlockId}
    (path : function.Path (recent ++ home.id :: earlier) vertex)
    (latest : home.id ∉ recent) :
    ∀ other ∈ function.blocks, other.id ∈ vertex :: recent → LeavesValue value other := by
  intro other otherMember inside id isValue defines
  rcases oneValue.exists_source wellFormed isValue path.prefix_of_append with
    ⟨source, sourceMember, defined, always⟩
  have apart := Walk.source_notMem_of_latest always dominated path latest
  rw [wellFormed.shaped.block_of_definition otherMember sourceMember defines defined] at inside
  rcases List.mem_cons.mp inside with same | isRecent
  · exact apart.2.1 same.symm
  · exact apart.1 isRecent

theorem OneValue.leavesValue_home {done : List BlockId} (path : function.Path done home.id) :
    LeavesValue value home := by
  intro id isValue inside
  rcases oneValue.exists_source wellFormed isValue path with
    ⟨source, sourceMember, defined, always⟩
  have same := wellFormed.shaped.block_of_definition sourceMember oneValue.homeMember defined
    inside
  rcases path.exists_first (List.mem_cons_self ..) with ⟨before, -, fresh, arrived⟩
  exact fresh (same ▸ always before arrived)

end Graph

theorem OneValue.defined (oneValue : function.OneValue home phi incoming value) :
    phi.id ∈ home.definitions :=
  List.mem_map_of_mem (Block.mem_instructions.mpr (.inl oneValue.member))

theorem OneValue.eq_home (oneValue : function.OneValue home phi incoming value)
    (shaped : function.Shaped) (member : block ∈ function.blocks)
    (inside : phi.id ∈ block.definitions) : block = home :=
  shaped.block_of_definition member oneValue.homeMember inside oneValue.defined

theorem OneValue.mem_of_executed (oneValue : function.OneValue home phi incoming value)
    (shaped : function.Shaped) {done : List BlockId} {vertex : BlockId}
    (executed : function.ExecutedBefore phi.id done vertex) : home.id ∈ done := by
  rcases executed with ⟨source, sourceMember, defined, passed, -⟩
  exact oneValue.eq_home shaped sourceMember defined ▸ passed

/-- The block is the phi's, or comes after it on every path. -/
def AfterHome (function : Function) (home block : Block) : Prop :=
  block = home ∨ ∀ done, function.Path done block.id → home.id ∈ done

section Ties

variable (wellFormed : function.WellFormed) (oneValue : function.OneValue home phi incoming value)
  {point : RunPoint World Datum}
  (since : function.TiedSince machine home.id phi value point)
include wellFormed oneValue since

theorem OneValue.tied_of_dominated
    (dominated : ∀ done, function.Path done block.id → home.id ∈ done)
    (member : block ∈ function.blocks) (path : function.Path point.done block.id) :
    Tied machine phi value point.state ∧ LeavesValue value block := by
  rcases List.eq_append_cons_of_mem (dominated _ path) with ⟨recent, earlier, split, latest⟩
  rw [split] at path
  have leaves := oneValue.leavesValue wellFormed dominated path latest
  exact ⟨since recent earlier split latest fun other otherMember isRecent =>
      leaves other otherMember (List.mem_cons_of_mem _ isRecent),
    leaves block member (List.mem_cons_self ..)⟩

/-- Where the phi is used on the edge from a predecessor, it is tied there. -/
theorem OneValue.tied_of_pred {pred : BlockId} {rest : List BlockId}
    (dominated : ∀ done, function.Path done pred → home.id ∈ pred :: done)
    (at_ : point.done = pred :: rest) (path : function.Path rest pred) :
    Tied machine phi value point.state := by
  by_cases same : pred = home.id
  · apply since [] rest
    · rw [at_, same]
      rfl
    · exact List.not_mem_nil
    · intro other _ isRecent
      cases isRecent
  · have before : ∀ done, function.Path done pred → home.id ∈ done := by
      intro done path
      rcases List.mem_cons.mp (dominated done path) with equal | inside
      · exact absurd equal.symm same
      · exact inside
    rcases List.eq_append_cons_of_mem (before rest path) with ⟨recent, earlier, split, latest⟩
    rw [split] at path
    apply since (pred :: recent) earlier
    · rw [at_, split]
      rfl
    · intro inside
      rcases List.mem_cons.mp inside with equal | isRecent
      · exact same equal.symm
      · exact latest isRecent
    · exact oneValue.leavesValue wellFormed before path latest

end Ties

/-! ## One block -/

/-- The block without the phi. -/
def foldBlock (phi : Inst) (value : Value) (block : Block) : Block :=
  (Block.erase phi.id ∘ Block.mapInsts (Inst.mapOperands (Value.replace phi.id value))) block

theorem datum_replace {phi : Inst} {value : Value} (other : value ≠ phi.value)
    {first second : RunState World Datum}
    (agree : RunState.Agree (fun id => id = phi.id) first second) {operand : Value}
    (tied : operand = phi.value → Tied machine phi value first) :
    machine.datum first.env operand =
      machine.datum second.env (Value.replace phi.id value operand) := by
  by_cases isPhi : operand = phi.value
  · have same : machine.datum first.env value = machine.datum second.env value := by
      apply agree.datum
      intro id isValue isPhiId
      rw [isPhiId] at isValue
      exact other isValue
    rw [isPhi, Inst.value, Value.replace_self, ← same]
    exact tied isPhi
  · rw [Value.replace_of_ne isPhi]
    apply agree.datum
    intro id isOperand isPhiId
    rw [isPhiId] at isOperand
    exact isPhi isOperand

section Block

variable (wellFormed : function.WellFormed) (oneValue : function.OneValue home phi incoming value)
  {point twin : RunPoint World Datum} (member : block ∈ function.blocks)
  (path : function.Path point.done block.id)
  (since : function.TiedSince machine home.id phi value point)
  (agree : point.Agree (fun id => id = phi.id) twin)
include wellFormed oneValue member path since agree

omit agree in
/-- Where a phi takes over the folded one, that one is tied. -/
theorem OneValue.tied_of_entry {other : Inst} (inside : other ∈ block.insts)
    {entries : List (Value × BlockId)} (kind : other.op = .phi entries)
    {entry : Value × BlockId} (entryMember : entry ∈ entries) (isOperand : entry.1 = phi.value)
    (fromPred : some entry.2 = point.done.head?) : Tied machine phi value point.state := by
  cases at_ : point.done with
  | nil =>
      rw [at_] at fromPred
      cases fromPred
  | cons pred rest =>
      rw [at_] at fromPred path
      have same : entry.2 = pred := Option.some.inj fromPred
      cases path with
      | step path edge =>
          apply oneValue.tied_of_pred wellFormed since _ at_ path
          intro done path
          have used : (.inst phi.id, pred) ∈ entries := by
            have isEntry : (phi.value, pred) = entry := by rw [← isOperand, ← same]
            exact isEntry ▸ entryMember
          exact oneValue.mem_of_executed wellFormed.shaped (wellFormed.incoming block member
            other inside entries kind phi.id pred used edge done path)

/-- What a phi takes over is what it takes over without the folded phi. -/
theorem OneValue.incoming_eq {other : Inst} (inside : other ∈ block.insts)
    (isPhi : other.op.isPhi = true) :
    machine.incoming (other.op.mapOperands (Value.replace phi.id value)) twin.done.head?
        twin.state.env =
      machine.incoming other.op point.done.head? point.state.env := by
  rcases Op.exists_of_isPhi isPhi with ⟨entries, kind⟩
  rw [kind, Op.mapOperands, ← agree.done]
  apply Machine.incoming_mapOperands
  intro entry entryMember fromPred
  apply datum_replace oneValue.other agree.state
  intro isOperand
  exact oneValue.tied_of_entry wellFormed member path since inside kind entryMember isOperand
    fromPred

theorem OneValue.arrive_agree :
    RunState.Agree (fun id => id = phi.id)
      (machine.arrive block point.done.head? point.state)
      (machine.arrive (foldBlock phi value block) twin.done.head? twin.state) where
  env := by
    intro id different
    have nodup := Block.nodup_definitions wellFormed.shaped member
    have sublist : (foldBlock phi value block).definitions.Sublist block.definitions := by
      have kept : ((block.insts.map (Inst.mapOperands (Value.replace phi.id value))).filter
          fun other => other.id ≠ phi.id).Sublist
            (block.insts.map (Inst.mapOperands (Value.replace phi.id value))) :=
        List.filter_sublist
      have ids := (kept.map Inst.id).append (List.Sublist.refl [block.terminator.id])
      rw [List.map_map] at ids
      rw [Block.definitions_eq, Block.definitions_eq]
      exact ids
    by_cases isPhi : ∃ other ∈ block.insts, other.op.isPhi = true ∧ other.id = id
    · rcases isPhi with ⟨other, inside, isPhi, rfl⟩
      have stays : other.mapOperands (Value.replace phi.id value) ∈
          (foldBlock phi value block).insts :=
        List.mem_filter.mpr ⟨List.mem_map_of_mem inside, decide_eq_true different⟩
      have mapped : (other.mapOperands (Value.replace phi.id value)).op.isPhi = true :=
        (other.op.isPhi_mapOperands _).trans isPhi
      have arrived : (machine.arrive (foldBlock phi value block) twin.done.head?
          twin.state).env (other.mapOperands (Value.replace phi.id value)).id = _ :=
        Machine.env_arrive_of_phi (sublist.nodup nodup) stays mapped
      rw [Inst.id_mapOperands] at arrived
      rw [arrived, Machine.env_arrive_of_phi nodup inside isPhi]
      exact (oneValue.incoming_eq wellFormed member path since agree inside isPhi).symm
    · have other : ∀ phi ∈ block.insts, phi.op.isPhi = true → phi.id ≠ id :=
        fun other inside phi_ same => isPhi ⟨other, inside, phi_, same⟩
      rw [Machine.env_arrive_of_other other, Machine.env_arrive_of_other]
      · exact agree.state.env id different
      · intro left inside isLeftPhi
        rcases List.mem_map.mp (List.mem_filter.mp inside).1 with ⟨original, originalMember, rfl⟩
        rw [Inst.op_mapOperands, Op.isPhi_mapOperands] at isLeftPhi
        exact other original originalMember isLeftPhi
  world := agree.state.world
  log := agree.state.log
  ending := agree.state.ending

omit member agree in
/-- The folded phi takes over its one value, from whatever block control comes. -/
theorem OneValue.incoming_home (atHome : block = home) :
    machine.incoming (.phi incoming) point.done.head? point.state.env =
      machine.datum point.state.env value := by
  subst atHome
  have whole := wellFormed.phis block oneValue.homeMember ⟨_, path⟩ phi oneValue.member
    incoming oneValue.isPhi
  rw [Machine.incoming]
  cases found : incoming.find? fun entry => some entry.2 = point.done.head? with
  | some entry =>
      have entryMember := List.mem_of_find?_eq_some found
      simp only
      rcases oneValue.one entry entryMember with isValue | self
      · rw [isValue]
      · rw [self]
        exact oneValue.tied_of_entry wellFormed oneValue.homeMember path since oneValue.member
          oneValue.isPhi entryMember self (by simpa using List.find?_some found)
  | none =>
      -- There is an entry for every edge, so control has just entered the function.
      cases at_ : point.done with
      | nil =>
          rw [at_] at path
          cases path with
          | start isEntry =>
              rw [wellFormed.entersOnce block.id isEntry] at whole
              have none : incoming = [] := List.map_eq_nil_iff.mp whole.eq_nil
              rcases oneValue.source with poison | ⟨entry, entryMember, -⟩
              · rw [poison]
                rfl
              · rw [none] at entryMember
                cases entryMember
      | cons pred rest =>
          rw [at_] at path found
          cases path with
          | step path edge =>
              have inPreds := whole.mem_iff.mpr (mem_predecessors.mpr edge)
              rcases List.mem_map.mp inPreds with ⟨entry, entryMember, isPred⟩
              exfalso
              apply List.find?_eq_none.mp found entry entryMember
              rw [isPred]
              exact decide_eq_true rfl

omit agree in
/-- At the phi's block and after it, the phi is tied to a value that stays. -/
theorem OneValue.tied_arrive (after : function.AfterHome home block) :
    Tied machine phi value (machine.arrive block point.done.head? point.state) ∧
      LeavesValue value block := by
  have stays : LeavesValue value block → ∀ id, value = .inst id →
      (machine.arrive block point.done.head? point.state).env id = point.state.env id := by
    intro leaves id isValue
    apply Machine.env_arrive_of_other
    intro other inside _ same
    apply leaves id isValue
    rw [← same]
    exact List.mem_map_of_mem (Block.mem_instructions.mpr (.inl inside))
  by_cases atHome : block = home
  · have taken := oneValue.incoming_home wellFormed path since atHome
    rw [atHome] at path stays ⊢
    have leaves := oneValue.leavesValue_home wellFormed path
    have nodup := Block.nodup_definitions wellFormed.shaped oneValue.homeMember
    have isPhi : phi.op.isPhi = true := by
      rw [oneValue.isPhi]
      rfl
    refine ⟨?_, leaves⟩
    rw [Tied, Machine.env_arrive_of_phi nodup oneValue.member isPhi, datum_congr (stays leaves),
      oneValue.isPhi, taken]
  · have dominated := after.resolve_left atHome
    rcases oneValue.tied_of_dominated wellFormed since dominated member path with ⟨tied, leaves⟩
    refine ⟨tied.congr ?_ (stays leaves), leaves⟩
    apply Machine.env_arrive_of_other
    intro other inside _ same
    apply atHome
    apply oneValue.eq_home wellFormed.shaped member
    rw [← same]
    exact List.mem_map_of_mem (Block.mem_instructions.mpr (.inl inside))

end Block

/-- The phi is used where its block has been taken. -/
theorem OneValue.after_of_operand (oneValue : function.OneValue home phi incoming value)
    (wellFormed : function.WellFormed) (member : block ∈ function.blocks) {user : Inst}
    (inside : user ∈ block.instructions) (notPhi : user.op.isPhi = false)
    (operand : phi.value ∈ user.op.operands) : function.AfterHome home block := by
  by_cases atHome : block = home
  · exact .inl atHome
  · right
    intro done path
    have dominates := wellFormed.operands user (mem_instructions.mpr ⟨block, member, inside⟩)
      notPhi phi.id operand
    rcases dominates block member user inside rfl done path with ordered | executed
    · exact absurd (oneValue.eq_home wellFormed.shaped member
        (ordered.2.subset (List.mem_cons_self ..))) atHome
    · exact oneValue.mem_of_executed wellFormed.shaped executed

theorem body_foldBlock (phi : Inst) (value : Value) (block : Block) :
    (foldBlock phi value block).body =
      (block.body.filter fun inst => inst.id ≠ phi.id).map
        (Inst.mapOperands (Value.replace phi.id value)) := by
  simp only [foldBlock, Function.comp_apply, Block.body, Block.erase, Block.mapInsts,
    List.filter_map, List.filter_filter]
  congr 2
  funext inst
  simp only [Inst.op_mapOperands, Op.isPhi_mapOperands, Inst.id_mapOperands]
  exact Bool.and_comm _ _

section Block

variable (wellFormed : function.WellFormed) (oneValue : function.OneValue home phi incoming value)
  {point twin : RunPoint World Datum} (member : block ∈ function.blocks)
  (path : function.Path point.done block.id)
  (since : function.TiedSince machine home.id phi value point)
include wellFormed oneValue member path since

/-- Through a part of the body, without the phi. -/
theorem OneValue.reached_agree (agree : point.Agree (fun id => id = phi.id) twin)
    {front rest : List Inst} (whole : block.body = front ++ rest) :
    RunState.Agree (fun id => id = phi.id) (reached machine block point front)
        (reached machine (foldBlock phi value block) twin
          ((front.filter fun inst => inst.id ≠ phi.id).map
            (Inst.mapOperands (Value.replace phi.id value)))) ∧
      (function.AfterHome home block → Tied machine phi value
        (reached machine block point front)) := by
  have tied := oneValue.tied_arrive wellFormed member path since
  apply Machine.foldl_exec_related fun first second =>
    RunState.Agree (fun id => id = phi.id) first second ∧
      (function.AfterHome home block → Tied machine phi value first)
  · exact ⟨oneValue.arrive_agree wellFormed member path since agree, fun after =>
      (tied after).1⟩
  · intro before inst after split other related
    have inBody : inst ∈ block.body := by
      rw [whole, split]
      exact List.mem_append_left _ (List.mem_append_right _ (List.mem_cons_self ..))
    have parts := List.mem_filter.mp inBody
    have inside : inst ∈ block.instructions := Block.mem_instructions.mpr (.inl parts.1)
    have notPhi : inst.op.isPhi = false := by simpa using parts.2
    have different : inst.id ≠ phi.id := by
      intro same
      have isPhi := wellFormed.shaped.inst_eq
        (mem_instructions.mpr ⟨block, member, inside⟩)
        (mem_instructions.mpr ⟨home, oneValue.homeMember,
          Block.mem_instructions.mpr (.inl oneValue.member)⟩) same
      rw [isPhi, oneValue.isPhi] at notPhi
      cases notPhi
    rw [if_pos (by simpa using different)]
    constructor
    · apply Machine.exec_agree related.1
      · rfl
      · rfl
      · exact (Op.shape_mapOperands (Value.replace phi.id value) inst.op).symm
      · apply (Machine.operands_mapOperands fun operand isOperand => ?_).symm
        apply datum_replace oneValue.other related.1
        intro isPhi
        exact related.2 (oneValue.after_of_operand wellFormed member inside notPhi
          (isPhi ▸ isOperand))
    · intro after
      apply (related.2 after).congr
      · exact Machine.env_exec_of_ne _ different.symm
      · intro id isValue
        apply Machine.env_exec_of_ne
        intro same
        apply (tied after).2 id isValue
        rw [same]
        exact List.mem_map_of_mem inside

/-- Through one block, without the phi. -/
theorem OneValue.execBlock_agree (agree : point.Agree (fun id => id = phi.id) twin) :
    RunState.Agree (fun id => id = phi.id)
        (machine.execBlock block point.done.head? point.state)
        (machine.execBlock (foldBlock phi value block) twin.done.head? twin.state) ∧
      (function.AfterHome home block →
        Tied machine phi value (machine.execBlock block point.done.head? point.state)) := by
  have whole := oneValue.reached_agree wellFormed member path since agree
    (List.append_nil _).symm
  rw [← body_foldBlock] at whole
  exact whole

end Block

section Step

variable (wellFormed : function.WellFormed) (oneValue : function.OneValue home phi incoming value)
  {point twin : RunPoint World Datum} (path : function.Path point.done point.block)
  (since : function.TiedSince machine home.id phi value point)
  (agree : point.Agree (fun id => id = phi.id) twin) (running : point.state.ending = none)
  (found : function.block? point.block = some block)
include wellFormed oneValue path since agree running found

omit wellFormed oneValue path since running in
theorem OneValue.block?_twin :
    (function.replaceInst phi.id value).block? twin.block =
      some (foldBlock phi value block) := by
  have whole : function.replaceInst phi.id value =
      function.mapBlocks (foldBlock phi value) := mapBlocks_mapBlocks function _ _
  have keeps : ∀ block, (foldBlock phi value block).id = block.id := fun _ => rfl
  rw [whole, ← agree.block, block?_mapBlocks keeps, found]
  rfl

theorem OneValue.step_agree :
    (function.step machine point).Agree (fun id => id = phi.id)
      ((function.replaceInst phi.id value).step machine twin) := by
  rcases mem_of_block? found with ⟨member, address⟩
  rw [← address] at path
  have executed := oneValue.execBlock_agree wellFormed member path since agree
  have twinFound : (function.replaceInst phi.id value).block? twin.block =
      some (foldBlock phi value block) := OneValue.block?_twin agree found
  apply Function.step_agree agree running found twinFound rfl rfl executed.1
  intro operand isOperand
  apply datum_replace oneValue.other executed.1
  intro isPhi
  apply executed.2
  have notPhi := Op.isPhi_of_isTerminator (wellFormed.shaped.terminators block member)
  exact oneValue.after_of_operand wellFormed member block.terminator_mem notPhi
    (isPhi ▸ isOperand)

omit agree in
theorem OneValue.since_step (goesOn : (function.step machine point).state.ending = none) :
    function.TiedSince machine home.id phi value (function.step machine point) := by
  rcases mem_of_block? found with ⟨member, address⟩
  rw [← address] at path
  rcases step_cases machine running found with next | ended
  · rcases next with ⟨next, -, -, isStep⟩
    rw [isStep]
    intro recent earlier split latest leaves
    simp only at split ⊢
    have left : ∀ id, id ≠ block.terminator.id →
        (leftOf machine block point).1.env id =
          (machine.execBlock block point.done.head? point.state).env id :=
      fun id different => Machine.env_leave_of_ne _ different
    have phiMember : phi ∈ function.instructions := mem_instructions.mpr
      ⟨home, oneValue.homeMember, Block.mem_instructions.mpr (.inl oneValue.member)⟩
    have notLast : phi.id ≠ block.terminator.id :=
      (wellFormed.shaped.terminator_ne phiMember (by rw [oneValue.isPhi]; rfl) block member).symm
    cases recent with
    | nil =>
        have atHome := wellFormed.shaped.block_eq member oneValue.homeMember
          (List.cons.inj split).1
        have tied := (oneValue.execBlock_agree wellFormed member path since
          ⟨.refl point.state, rfl, rfl⟩).2 (.inl atHome)
        have stays := (oneValue.tied_arrive wellFormed member path since (.inl atHome)).2
        apply tied.congr (left phi.id notLast)
        intro id isValue
        apply left
        intro same
        apply stays id isValue
        rw [same]
        exact block.terminator_mem_definitions
    | cons head tail =>
        have parts := List.cons.inj split
        have notHome : block ≠ home := by
          intro same
          apply latest
          rw [← parts.1, same]
          exact List.mem_cons_self ..
        have stays := leaves block member (parts.1 ▸ List.mem_cons_self ..)
        have tied := since tail earlier parts.2
          (fun inside => latest (List.mem_cons_of_mem _ inside))
          fun other otherMember inside => leaves other otherMember
            (List.mem_cons_of_mem _ inside)
        apply tied.congr
        · rw [left phi.id notLast]
          apply Machine.env_execBlock_of_notMem
          exact fun inside => notHome (oneValue.eq_home wellFormed.shaped member inside)
        · intro id isValue
          have absent := stays id isValue
          rw [left id fun same => absent (same ▸ block.terminator_mem_definitions)]
          exact Machine.env_execBlock_of_notMem absent
  · rw [ended.2.2] at goesOn
    have isEnd := ended.2.1
    rw [goesOn] at isEnd
    cases isEnd

end Step

theorem Faultless.of_runsAlike {before after : Function} {world : World}
    (faultless : before.Faultless machine world)
    (alike : before.RunsAlike after machine world) : after.Faultless machine world :=
  ⟨fun reported => faultless.notReported ((alike.ends _).mpr reported),
    fun undefined => faultless.notUndefined ((alike.ends _).mpr undefined)⟩

/-- Both runs have gone the same way, and the phi is tied in the first one. -/
def FoldsAt (function : Function) (machine : Machine World Datum) (home : Block) (phi : Inst)
    (value : Value) (point twin : RunPoint World Datum) : Prop :=
  point.Agree (fun id => id = phi.id) twin ∧
    (point.state.ending = none → function.TiedSince machine home.id phi value point)

section Follows

variable (oneValue : function.OneValue home phi incoming value)
  (wellFormed : function.WellFormed) {world : World} (defined : function.Defined machine world)
include oneValue wellFormed defined

theorem OneValue.follows :
    LoggedSystem.Follows (function.execution machine)
      ((function.replaceInst phi.id value).execution machine)
      (function.Meets machine world (function.FoldsAt machine home phi value)) where
  log := fun _ _ meets => meets.2.1.state.log
  ending := fun _ _ meets => meets.2.1.state.ending
  again := by
    intro point twin meets
    rcases meets with ⟨⟨count, at_⟩, agree, since⟩
    have path := path_run machine wellFormed.entry world count
    rw [at_] at path
    have steps : function.FoldsAt machine home phi value (function.step machine point)
        ((function.replaceInst phi.id value).step machine twin) := by
      cases running : point.state.ending with
      | some ending =>
          rw [step_of_ended (by rw [running]; rfl),
            step_of_ended (by rw [← agree.state.ending, running]; rfl)]
          exact ⟨agree, since⟩
      | none =>
          rcases defined.exists_block at_ running with ⟨block, found⟩
          exact ⟨oneValue.step_agree wellFormed path (since running) agree running found,
            oneValue.since_step wellFormed path (since running) running found⟩
    refine ⟨0, ⟨count + 1, ?_⟩, steps⟩
    rw [LoggedSystem.run_succ, at_]
    rfl

omit defined wellFormed oneValue in
theorem foldsAt_start (machine : Machine World Datum) (world : World) :
    function.FoldsAt machine home phi value (function.start machine world)
      ((function.replaceInst phi.id value).start machine world) := by
  refine ⟨⟨.refl _, rfl, ?_⟩, ?_⟩
  · have same : Function.entry? (function.replaceInst phi.id value) = function.entry? := by
      have whole : function.replaceInst phi.id value =
          function.rewrite (Value.replace phi.id value) phi.id :=
        mapBlocks_mapBlocks function _ _
      rw [whole, entry?_rewrite]
    rw [start, start, same]
  · intro _ recent earlier split
    cases recent <;> cases split

/-- A defined run is the same with a phi of one value folded. -/
theorem OneValue.runsAlike :
    function.RunsAlike (function.replaceInst phi.id value) machine world :=
  (oneValue.follows wellFormed defined).simulates.sameRun
    (meets_start (foldsAt_start machine world))

/-- And reports where it has reported. -/
theorem OneValue.reportsAt {id : InstId}
    (reports : (function.replaceInst phi.id value).ReportsAt machine world id) :
    function.ReportsAt machine world id := by
  apply reportsAt_of_follows (oneValue.follows wellFormed defined)
    (foldsAt_start machine world) _ reports
  intro point twin meets twinRunning twinBlock twinFound id either
  rcases meets with ⟨⟨count, at_⟩, agree, since⟩
  have running := agree.state.ending.trans twinRunning
  rcases defined.exists_block at_ running with ⟨block, found⟩
  have same := (OneValue.block?_twin agree found).symm.trans twinFound
  rw [← Option.some.inj same] at either twinFound
  have path := path_run machine wellFormed.entry world count
  rw [at_] at path
  have stepped := (oneValue.step_agree wellFormed path (since running) agree running
    found).state.ending
  rcases mem_of_block? found with ⟨member, address⟩
  rw [← address] at path
  refine ⟨running, block, found, either.imp ?_ ?_⟩
  · intro body
    exact body.of_agree (body_foldBlock phi value block) fun front rest whole =>
      (oneValue.reached_agree wellFormed member path (since running) agree whole).1
  · intro terminator
    exact terminator.of_agree rfl running found twinRunning twinFound
      (oneValue.execBlock_agree wellFormed member path (since running) agree).1.ending stepped

end Follows

/-- A defined run is the same with phis folded, and reports where it has reported. -/
theorem runsAlike_folds {folded : Function} (folds : function.Folds folded)
    (wellFormed : function.WellFormed) {world : World}
    (defined : function.Defined machine world) :
    function.RunsAlike folded machine world ∧
      ∀ id, folded.ReportsAt machine world id → function.ReportsAt machine world id := by
  induction folds with
  | refl => exact ⟨.refl _ _, fun _ reports => reports⟩
  | @step function folded phi incoming value member isPhi other one source _ induction =>
      rcases wellFormed.shaped.exists_home member (by rw [isPhi]; rfl) with
        ⟨home, homeMember, inside⟩
      have oneValue : function.OneValue home phi incoming value :=
        ⟨homeMember, inside, isPhi, other, one, source⟩
      have alike := oneValue.runsAlike wellFormed defined
      have later := induction (wellFormed.foldPhi member isPhi other one source)
        (defined.of_runsAlike alike)
      exact ⟨alike.trans later.1, fun id reports =>
        oneValue.reportsAt wellFormed defined (later.2 id reports)⟩

end OneValue

end Function

end Desan
