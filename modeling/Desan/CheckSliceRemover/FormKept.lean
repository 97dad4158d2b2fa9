import Desan.CheckSliceRemover.SliceErasure
import Desan.CheckSliceRemover.Splice
import Desan.IR.WellFormed

/-! # What a removal leaves is well formed

Erased instructions have no use. A spliced function is well formed if its fall-through has
phis for predecessors it had before only, and no phi of the report block is missed. -/

namespace Desan

theorem map_snd_removeIncomingValue (pred : BlockId) (incoming : List (Value × BlockId)) :
    (removeIncomingValue pred incoming).map Prod.snd = (incoming.map Prod.snd).erase pred := by
  rw [removeIncomingValue, List.erase_eq_eraseP, List.eraseP_map]
  congr 2
  funext entry
  rw [Bool.eq_iff_iff, Function.comp_apply, beq_iff_eq, decide_eq_true_eq]
  exact eq_comm

namespace Block

/-- The phis of the fall-through without the entry of the report block. -/
def withoutEntry (block report : Block) : Block :=
  if getReportBlockFallthrough report = some block.id then
    block.mapPhis (removeIncomingValue report.id)
  else block

@[simp] theorem id_withoutEntry (block report : Block) :
    (block.withoutEntry report).id = block.id := by
  rw [withoutEntry]
  split <;> rfl

theorem terminator_withoutEntry (block report : Block) :
    (block.withoutEntry report).terminator = block.terminator := by
  rw [withoutEntry]
  split <;> rfl

end Block

namespace Function

/-! ## Edges, counted -/

theorem count_predecessors (function : Function) (source target : BlockId) :
    (function.predecessors target).count source =
      (function.successors source).count target := by
  rw [predecessors, successors]
  induction function.blocks with
  | nil => rfl
  | cons head tail induction =>
      rw [List.flatMap_cons, List.count_append, induction, List.filter_cons]
      by_cases same : head.id = source
      · rw [if_pos (by simpa using same), List.flatMap_cons, List.count_append, same]
        congr 1
        rw [List.map_const', List.count_replicate_self, List.count, List.countP_eq_length_filter]
        congr 2
      · rw [if_neg (by simpa using same)]
        rw [List.map_const', List.count_replicate, if_neg (by simpa using same), Nat.zero_add]

/-! ## The other blocks -/

/-- What becomes of a block that is not the report block. -/
def bury (function : Function) (report : Block) (transform : Value → Value) (block : Block) :
    Block :=
  ((block.withoutEntry report).redirect report.id (getReportBlockFallthrough report)
    (function.predecessors report.id)).mapInsts (Inst.mapOperands transform)

/-- The function without the report block, its values buried. -/
def buried (function : Function) (report : Block) (transform : Value → Value) : Function :=
  (function.mapBlocks (function.bury report transform)).dropBlock report.id

theorem id_bury (function : Function) (report : Block) (transform : Value → Value)
    (block : Block) : (function.bury report transform block).id = block.id := by
  rw [bury, Block.id_mapInsts, Block.id_redirect, Block.id_withoutEntry]

section Bury

variable {function : Function} {report : Block} {transform : Value → Value}

theorem dropReportEntry_eq (function : Function) (report : Block) :
    function.dropReportEntry report =
      function.mapBlocks fun block => block.withoutEntry report := by
  rw [dropReportEntry]
  cases found : getReportBlockFallthrough report with
  | none =>
      have same : (fun block : Block => block.withoutEntry report) = id := by
        funext block
        have differs : ¬(none : Option BlockId) = some block.id := by
          intro same
          cases same
        rw [Block.withoutEntry, found, if_neg differs, id]
      rw [same, mapBlocks, List.map_id]
  | some fallthrough =>
      simp only [updateBlock, mapBlocks]
      congr 1
      apply List.map_congr_left
      intro block _
      simp only [Block.withoutEntry, found, Option.some.injEq, eq_comm]

theorem mapBlocks_dropBlock {change : Block → Block} (keeps : ∀ block, (change block).id = block.id)
    (function : Function) (block : BlockId) :
    (function.dropBlock block).mapBlocks change = (function.mapBlocks change).dropBlock block := by
  simp only [dropBlock, mapBlocks, List.filter_map]
  congr 3
  funext candidate
  rw [Function.comp_apply, keeps]

theorem buried_eq (function : Function) (report : Block) (transform : Value → Value) :
    (function.splice report).mapBlocks (Block.mapInsts (Inst.mapOperands transform)) =
      function.buried report transform := by
  rw [splice, detach, dropReportEntry_eq, mapBlocks_mapBlocks, mapBlocks_dropBlock,
    mapBlocks_mapBlocks, buried]
  · rfl
  · intro block
    rw [Function.comp_apply, Block.id_mapInsts, Block.id_redirect]

theorem mem_buried {left : Block} :
    left ∈ (function.buried report transform).blocks ↔
      ∃ block ∈ function.blocks, block.id ≠ report.id ∧
        function.bury report transform block = left := by
  rw [buried, mem_dropBlock, blocks_mapBlocks, List.mem_map]
  constructor
  · intro parts
    rcases parts with ⟨⟨block, member, rfl⟩, different⟩
    exact ⟨block, member, id_bury function report transform block ▸ different, rfl⟩
  · intro parts
    rcases parts with ⟨block, member, different, rfl⟩
    exact ⟨⟨block, member, rfl⟩, (id_bury function report transform block).symm ▸ different⟩

theorem definitions_bury (block : Block) :
    (function.bury report transform block).definitions = block.definitions := by
  rw [bury, Block.definitions_mapOperands, Block.definitions_redirect, Block.withoutEntry]
  split
  · simp [Block.mapPhis, Block.definitions, Block.instructions, Function.comp_def]
  · rfl

theorem insts_bury (block : Block) :
    (function.bury report transform block).insts =
      (block.withoutEntry report).insts.map (Inst.mapOperands transform) := by
  rw [bury, Block.redirect]
  split
  · split <;> rfl
  · rfl

theorem terminator_id_bury (block : Block) :
    (function.bury report transform block).terminator.id = block.terminator.id := by
  have same : (block.withoutEntry report).terminator.id = block.terminator.id := by
    rw [block.terminator_withoutEntry report]
  rw [bury, Block.redirect]
  split
  · split
    · exact same
    · exact same
  · exact same

theorem terminator_op_bury (block : Block) :
    (function.bury report transform block).terminator.op =
      if block.id ∈ function.predecessors report.id then
        match safeSuccessor report.id (getReportBlockFallthrough report)
            block.terminator.op with
        | some target => .br target
        | none => block.terminator.op.mapOperands transform
      else block.terminator.op.mapOperands transform := by
  have same : (block.withoutEntry report).terminator.op.mapOperands transform =
      block.terminator.op.mapOperands transform := by
    rw [block.terminator_withoutEntry report]
  rw [bury, Block.redirect, Block.id_withoutEntry, block.terminator_withoutEntry report]
  split
  · cases safeSuccessor report.id (getReportBlockFallthrough report) block.terminator.op with
    | none => exact same
    | some target => rfl
  · exact same

/-- A phi of a buried block has its entries, the one of the report block aside. -/
theorem exists_phi_of_bury {block : Block} {inst : Inst} {incoming : List (Value × BlockId)}
    (member : inst ∈ (function.bury report transform block).insts)
    (isPhi : inst.op = .phi incoming) :
    ∃ original ∈ block.insts, original.id = inst.id ∧ ∃ entries,
      original.op = .phi entries ∧
        incoming = (if getReportBlockFallthrough report = some block.id then
          removeIncomingValue report.id entries else entries).map
            fun entry => (transform entry.1, entry.2) := by
  rw [insts_bury] at member
  rcases List.mem_map.mp member with ⟨kept, keptMember, rfl⟩
  rcases exists_phi_of_mapOperands transform isPhi with ⟨entries, keptPhi, rfl⟩
  rw [Block.withoutEntry] at keptMember
  split at keptMember
  · rename_i isFallthrough
    rcases List.mem_map.mp keptMember with ⟨original, originalMember, rfl⟩
    have originalPhi : original.op.isPhi = true := by
      rw [← original.op.isPhi_mapIncoming (removeIncomingValue report.id)]
      exact congrArg Op.isPhi keptPhi
    rcases Op.exists_of_isPhi originalPhi with ⟨before, beforePhi⟩
    refine ⟨original, originalMember, rfl, before, beforePhi, ?_⟩
    rw [if_pos isFallthrough]
    simp only [beforePhi, Op.mapIncoming, Op.phi.injEq] at keptPhi
    rw [keptPhi]
  · rename_i notFallthrough
    refine ⟨kept, keptMember, rfl, entries, keptPhi, ?_⟩
    rw [if_neg notFallthrough]

/-- Any other instruction has its operands mapped, unless it is a branch that is now
taken always. -/
theorem exists_user_of_bury {block : Block}
    (isTerminator : block.terminator.op.isTerminator = true) {user : Inst}
    (member : user ∈ (function.bury report transform block).instructions)
    (notPhi : user.op.isPhi = false) :
    ∃ original ∈ block.instructions, original.id = user.id ∧ original.op.isPhi = false ∧
      (user.op = original.op.mapOperands transform ∨ user.op.operands = []) := by
  rcases Block.mem_instructions.mp member with body | last
  · rw [insts_bury] at body
    rcases List.mem_map.mp body with ⟨kept, keptMember, rfl⟩
    rw [Inst.op_mapOperands, Op.isPhi_mapOperands] at notPhi
    rw [Block.withoutEntry] at keptMember
    split at keptMember
    · rcases List.mem_map.mp keptMember with ⟨original, originalMember, rfl⟩
      rw [Op.isPhi_mapIncoming] at notPhi
      have same : original.op.mapIncoming (removeIncomingValue report.id) = original.op := by
        cases kind : original.op with
        | phi incoming =>
            rw [kind] at notPhi
            cases notPhi
        | _ => rfl
      refine ⟨original, Block.mem_instructions.mpr (.inl originalMember), rfl, notPhi,
        .inl ?_⟩
      rw [Inst.op_mapOperands, same]
    · exact ⟨kept, Block.mem_instructions.mpr (.inl keptMember), rfl, notPhi, .inl rfl⟩
  · refine ⟨block.terminator, block.terminator_mem, ?_,
      Op.isPhi_of_isTerminator isTerminator, ?_⟩
    · rw [last, terminator_id_bury]
    · rw [last, terminator_op_bury]
      split
      · cases safeSuccessor report.id (getReportBlockFallthrough report)
            block.terminator.op with
        | none => exact .inl rfl
        | some target => exact .inr rfl
      · exact .inl rfl

end Bury

section Bypass

variable {function : Function} {values : ValueTable} {check : InstId} {report : Block}
  {transform : Value → Value} (bypassable : function.Bypassable values check report)
  (shaped : function.Shaped)
include bypassable shaped

theorem Bypassable.exists_safe {block : Block} (member : block ∈ function.blocks)
    (isPred : block.id ∈ function.predecessors report.id) :
    ∃ target, safeSuccessor report.id (getReportBlockFallthrough report)
      block.terminator.op = some target :=
  (acceptsPredecessor_iff shaped member).mp (bypassable.preds block.id isPred)

theorem Bypassable.edits_bury (keeps : Value.KeepsConstants transform) :
    function.Edits
      (Redirected report.id (getReportBlockFallthrough report)
        (function.predecessors report.id))
      (function.mapBlocks (function.bury report transform)) := by
  refine ⟨_, rfl, ?_⟩
  intro block member
  constructor
  · apply Block.Carries.trans _ (Block.carries_mapOperands keeps _)
    have dropped : block.Carries (block.withoutEntry report) := by
      rw [Block.withoutEntry]
      split
      · exact Block.carries_mapPhis _ block
      · exact .refl block
    apply dropped.trans
    rw [Block.redirect]
    split
    · split
      · exact Block.carries_setTerminator rfl _
      · exact .refl _
    · exact .refl _
  · have terminator : (function.bury report transform block).terminator.op = _ :=
      terminator_op_bury block
    rw [Redirected]
    split
    · rename_i isPred
      rcases bypassable.exists_safe shaped member isPred with ⟨target, safe⟩
      rw [if_pos isPred, safe] at terminator
      exact ⟨target, safe, terminator⟩
    · rename_i notPred
      rw [if_neg notPred] at terminator
      exact ⟨transform, keeps, terminator⟩

theorem Bypassable.splices_buried (keeps : Value.KeepsConstants transform)
    (notEntry : ¬function.IsEntry report.id) :
    Walk.Splices report.id function.IsEntry function.Edge
      (function.buried report transform).IsEntry (function.buried report transform).Edge :=
  bypassable.splices shaped (bypassable.edits_bury shaped keeps) notEntry

theorem Bypassable.shaped_buried (keeps : Value.KeepsConstants transform) :
    (function.buried report transform).Shaped :=
  ((bypassable.edits_bury shaped keeps).shaped shaped).dropBlock report.id

/-- The other blocks are executed in the order they were executed in before. -/
theorem Bypassable.thins_buried (keeps : Value.KeepsConstants transform)
    (notEntry : ¬function.IsEntry report.id) :
    Thins (fun id => id ∉ report.definitions) (fun block => block ≠ report.id) function
      (function.buried report transform) where
  shaped := bypassable.shaped_buried shaped keeps
  path := by
    intro done block path
    rcases Walk.exists_of_splices (bypassable.splices_buried shaped keeps notEntry) path with
      ⟨different, old, oldPath, deleted⟩
    exact ⟨decide_eq_true different, old, oldPath, deleted⟩
  definition := by
    intro block member id inside kept
    have different : block.id ≠ report.id := by
      intro same
      exact kept (shaped.block_eq member bypassable.report_mem.1 same ▸ inside)
    refine ⟨decide_eq_true different, function.bury report transform block,
      mem_buried.mpr ⟨block, member, different, rfl⟩,
      id_bury function report transform block, ?_, terminator_id_bury block, ?_⟩
    · rw [definitions_bury]
      exact inside
    · intro site normal unwind kind
      rw [terminator_op_bury] at kind
      by_cases isPred : block.id ∈ function.predecessors report.id
      · rcases bypassable.exists_safe shaped member isPred with ⟨target, safe⟩
        rw [if_pos isPred, safe] at kind
        cases kind
      · rw [if_neg isPred] at kind
        rcases Op.exists_of_mapOperands_invoke kind with ⟨original, isInvoke⟩
        refine ⟨?_, original, isInvoke⟩
        apply decide_eq_true
        intro same
        apply isPred
        rw [mem_predecessors, edge_iff]
        refine ⟨block, member, rfl, ?_⟩
        rw [Block.successors, isInvoke, ← same]
        exact List.mem_cons_self ..
  user := by
    intro left member
    rcases mem_buried.mp member with ⟨block, blockMember, -, rfl⟩
    refine ⟨block, blockMember, (id_bury function report transform block).symm, ?_⟩
    intro user userMember
    have order : ∀ id, id ∉ report.definitions →
        [id, user.id].Sublist block.definitions →
          [id, user.id].Sublist (function.bury report transform block).definitions := by
      intro id _ ordered
      rw [definitions_bury]
      exact ordered
    cases isPhi : user.op.isPhi with
    | true =>
        rcases Op.exists_of_isPhi isPhi with ⟨incoming, kind⟩
        have inInsts : user ∈ (function.bury report transform block).insts := by
          refine (Block.mem_instructions.mp userMember).resolve_right ?_
          intro last
          have isTerminator := (bypassable.shaped_buried shaped keeps).terminators _ member
          rw [← last, kind] at isTerminator
          cases isTerminator
        rcases exists_phi_of_bury inInsts kind with
          ⟨original, originalMember, same, entries, originalPhi, -⟩
        exact ⟨original, Block.mem_instructions.mpr (.inl originalMember), same,
          congrArg Op.isPhi originalPhi, order⟩
    | false =>
        rcases exists_user_of_bury (shaped.terminators block blockMember) userMember isPhi with
          ⟨original, originalMember, same, notPhi, -⟩
        exact ⟨original, originalMember, same, notPhi, order⟩

/-- A block that is not the report block keeps its edges to the blocks it led to
before. -/
theorem Bypassable.count_successors_bury {source : Block} (member : source ∈ function.blocks)
    {target : BlockId} (different : target ≠ report.id)
    (direct : function.Edge source.id report.id →
      getReportBlockFallthrough report = some target → target ∈ source.successors) :
    (function.bury report transform source).successors.count target =
      source.successors.count target := by
  rw [Block.successors, terminator_op_bury]
  by_cases isPred : source.id ∈ function.predecessors report.id
  · rcases bypassable.exists_safe shaped member isPred with ⟨next, safe⟩
    have toReport : report.id ∈ source.successors := by
      rcases edge_iff.mp (mem_predecessors.mp isPred) with ⟨block, blockMember, same, inside⟩
      exact shaped.block_eq blockMember member same ▸ inside
    rw [if_pos isPred, safe]
    rcases safeSuccessor_cases safe with ⟨-, conditional | unconditional⟩
    · rcases conditional with ⟨condition, kind | kind, -⟩
      · simp [Block.successors, kind, Op.successors, List.count_cons, different.symm]
      · simp [Block.successors, kind, Op.successors, List.count_cons, different.symm]
    · rcases unconditional with ⟨⟨destination, kind⟩, isNext⟩
      have only : source.successors = [destination] := by rw [Block.successors, kind]; rfl
      rw [only] at toReport
      have same : report.id = destination := List.mem_singleton.mp toReport
      have notNext : next ≠ target := by
        intro equal
        have inside := direct (mem_predecessors.mp isPred) (equal ▸ isNext)
        rw [only, ← same] at inside
        exact different (List.mem_singleton.mp inside)
      rw [only, ← same]
      simp [Op.successors, different.symm, notNext]
  · rw [if_neg isPred, Op.successors_mapOperands]
    rfl

end Bypass

/-! ## When the result is well formed -/

/-- Control can take a way on which the instruction is used outside the block. -/
def UsedOutside (function : Function) (home : BlockId) (id : InstId) : Prop :=
  ∃ block ∈ function.blocks, block.id ≠ home ∧
    ((function.Reachable block.id ∧ ∃ user ∈ block.instructions,
        user.op.isPhi = false ∧ .inst id ∈ user.op.operands) ∨
      ∃ user ∈ block.insts, ∃ incoming pred, user.op = .phi incoming ∧
        (.inst id, pred) ∈ incoming ∧ pred ≠ home ∧ function.Edge pred block.id ∧
          function.Reachable pred)

/-- The predecessor leads to the block, but not to where the block leads. -/
def OnlyInto (function : Function) (home pred : BlockId) : Prop :=
  function.Edge pred home ∧ ∃ next, function.Edge home next ∧ ¬function.Edge pred next

/-- The report block can be taken out: it is not the entry, a new edge leads to a block
without phis, and no phi of the report block that may be folded to one of several values
is used elsewhere. -/
structure SplicesWell (function : Function) (report : BlockId) : Prop where
  notEntry : ¬function.IsEntry report
  joined : ∀ pred, function.OnlyInto report pred → ∀ next ∈ function.blocks,
    function.Edge report next.id → function.Reachable next.id →
      ∀ inst ∈ next.insts, inst.op.isPhi = false
  inside : ∀ pred, function.OnlyInto report pred → ∀ other, other ≠ pred →
    function.Edge other report → ∀ phi ∈ function.phisOf report,
      ¬function.UsedOutside report phi

section Condition

variable {function : Function} {values : ValueTable} {check id : InstId} {report : Block}

/-- A use outside comes after the block on every path. -/
theorem WellFormed.exists_after_of_usedOutside (wellFormed : function.WellFormed)
    (member : report ∈ function.blocks) (inside : id ∈ report.definitions)
    (used : function.UsedOutside report.id id) :
    ∃ block, block ≠ report.id ∧ function.Reachable block ∧
      ∀ done, function.Path done block → report.id ∈ done := by
  rcases used with ⟨block, blockMember, different, body | phi⟩
  · rcases body with ⟨reachable, user, userMember, notPhi, operand⟩
    refine ⟨block.id, different, reachable, ?_⟩
    intro done path
    have dominates := wellFormed.operands user
      (mem_instructions.mpr ⟨block, blockMember, userMember⟩) notPhi id operand
    rcases dominates block blockMember user userMember rfl done path with ordered | executed
    · have same := wellFormed.shaped.block_of_definition blockMember member
        (ordered.2.subset (List.mem_cons_self ..)) inside
      exact absurd (congrArg Block.id same) different
    · rcases executed with ⟨source, sourceMember, defined, passed, -⟩
      rw [wellFormed.shaped.block_of_definition sourceMember member defined inside] at passed
      exact passed
  · rcases phi with ⟨user, userMember, incoming, pred, isPhi, entry, notReport, edge, reachable⟩
    refine ⟨pred, notReport, reachable, ?_⟩
    intro done path
    rcases wellFormed.incoming block blockMember user userMember incoming isPhi id pred entry
      edge done path with ⟨source, sourceMember, defined, passed, -⟩
    rw [wellFormed.shaped.block_of_definition sourceMember member defined inside] at passed
    rcases List.mem_cons.mp passed with same | earlier
    · exact absurd same.symm notReport
    · exact earlier

/-- If every predecessor leads past the report block, so does a path to every block. -/
theorem Bypassable.exists_path_around (bypassable : function.Bypassable values check report)
    (shaped : function.Shaped) (notEntry : ¬function.IsEntry report.id)
    (covered : ∀ pred, ¬function.OnlyInto report.id pred) {block : BlockId}
    (different : block ≠ report.id) (reachable : function.Reachable block) :
    ∃ done, function.Path done block ∧ report.id ∉ done := by
  have keeps : Value.KeepsConstants fun value => value := fun _ _ => rfl
  have splices := bypassable.splices_buried shaped keeps notEntry
  rcases reachable with ⟨done, path⟩
  have around := (Walk.deleted_of_splices splices path).1 different
  refine ⟨_, around.mono (fun root => (splices.start_iff root).mp) ?_, ?_⟩
  · intro source target edge
    rcases (splices.edge_iff source target).mp edge with ⟨-, -, direct | through⟩
    · exact direct
    · by_contra missing
      exact covered source ⟨through.1, target, through.2, missing⟩
  · intro visited
    exact of_decide_eq_true (List.mem_filter.mp visited).2 rfl

theorem eq_singleton_of_nodup {block : BlockId} {blocks : List BlockId} (nodup : blocks.Nodup)
    (member : block ∈ blocks) (only : ∀ other ∈ blocks, other = block) : blocks = [block] := by
  cases blocks with
  | nil => cases member
  | cons head tail =>
      have isHead := only head (List.mem_cons_self ..)
      have parts := List.nodup_cons.mp nodup
      have none : tail = [] := by
        apply List.eq_nil_iff_forall_not_mem.mpr
        intro other inTail
        apply parts.1
        rw [isHead, ← only other (List.mem_cons_of_mem _ inTail)]
        exact inTail
      rw [isHead, none]

/-- The entries of all phis come from the only predecessor. -/
theorem WellFormed.losesPhis (wellFormed : function.WellFormed)
    (member : report ∈ function.blocks) (reachable : function.Reachable report.id)
    {pred : BlockId} (only : function.predecessors report.id = [pred]) :
    function.LosesPhis report := by
  refine ⟨pred, only, ?_⟩
  intro inst inside incoming isPhi
  have whole := wellFormed.phis report member reachable inst inside incoming isPhi
  rw [only, List.perm_singleton] at whole
  apply List.map_eq_nil_iff.mp
  rw [map_snd_removeIncomingValue, whole]
  exact List.erase_cons_head ..

/-- No phi of the report block that is folded to one of several values is missed. -/
theorem SplicesWell.not_usedOutside (well : function.SplicesWell report.id)
    (wellFormed : function.WellFormed) (bypassable : function.Bypassable values check report)
    (isPhi : id ∈ function.phisOf report.id) (several : ¬function.LosesPhis report) :
    ¬function.UsedOutside report.id id := by
  intro used
  have member := bypassable.report_mem.1
  have defined := bypassable.phisOf_subset_definitions wellFormed.shaped isPhi
  rcases wellFormed.exists_after_of_usedOutside member defined used with
    ⟨block, different, reachable, after⟩
  by_cases covered : ∀ pred, ¬function.OnlyInto report.id pred
  · rcases bypassable.exists_path_around wellFormed.shaped well.notEntry covered different
      reachable with ⟨done, path, around⟩
    exact around (after done path)
  · rw [not_forall] at covered
    rcases covered with ⟨pred, notCovered⟩
    have onlyInto := not_not.mp notCovered
    by_cases alone : ∀ other, function.Edge other report.id → other = pred
    · apply several
      have reached : function.Reachable report.id := by
        rcases reachable with ⟨done, path⟩
        rcases path.exists_prefix (after done path) with ⟨-, before, -, arrived⟩
        exact ⟨before, arrived⟩
      apply wellFormed.losesPhis member reached
      apply eq_singleton_of_nodup (nodup_predecessors wellFormed.shaped bypassable.preds)
        (mem_predecessors.mpr onlyInto.1)
      exact fun other inside => alone other (mem_predecessors.mp inside)
    · rw [not_forall] at alone
      rcases alone with ⟨other, other_⟩
      rw [Classical.not_imp] at other_
      exact well.inside pred onlyInto other other_.2 other_.1 id isPhi used

/-- A predecessor of the report block leads to the phis behind it by itself. -/
theorem SplicesWell.edge_past (well : function.SplicesWell report.id) {source : BlockId}
    {block : Block} (member : block ∈ function.blocks) (reachable : function.Reachable block.id)
    (hasPhi : ∃ inst ∈ block.insts, inst.op.isPhi = true)
    (toReport : function.Edge source report.id) (toBlock : function.Edge report.id block.id) :
    function.Edge source block.id := by
  by_contra missing
  rcases hasPhi with ⟨inst, inside, isPhi⟩
  rw [well.joined source ⟨toReport, block.id, toBlock, missing⟩ block member toBlock reachable
    inst inside] at isPhi
  cases isPhi

theorem mem_blockIds_buried {transform : Value → Value} {block : BlockId} :
    block ∈ (function.buried report transform).blockIds ↔
      block ∈ function.blockIds ∧ block ≠ report.id := by
  constructor
  · intro inside
    rcases List.mem_map.mp inside with ⟨left, leftMember, address⟩
    rcases mem_buried.mp leftMember with ⟨original, originalMember, different, rfl⟩
    rw [id_bury] at address
    exact ⟨address ▸ List.mem_map_of_mem originalMember, address ▸ different⟩
  · intro parts
    rcases List.mem_map.mp parts.1 with ⟨original, originalMember, rfl⟩
    exact List.mem_map.mpr ⟨_, mem_buried.mpr ⟨original, originalMember, parts.2, rfl⟩,
      id_bury function report transform original⟩

/-- The edges into a block that has phis, the one from the report block aside, are as
they were. -/
theorem SplicesWell.perm_predecessors (well : function.SplicesWell report.id)
    (shaped : function.Shaped) (bypassable : function.Bypassable values check report)
    {transform : Value → Value} (keeps : Value.KeepsConstants transform) {block : Block}
    (member : block ∈ function.blocks) (different : block.id ≠ report.id)
    (reachable : function.Reachable block.id)
    (hasPhi : ∃ inst ∈ block.insts, inst.op.isPhi = true) :
    (function.predecessors block.id).Perm
      (if getReportBlockFallthrough report = some block.id then
        report.id :: (function.buried report transform).predecessors block.id
      else (function.buried report transform).predecessors block.id) := by
  have reportMember := bypassable.report_mem.1
  have leads := successors_of_isReportBlockTerminator bypassable.terminator
  have gone : (function.buried report transform).successors report.id = [] :=
    successors_eq_nil fun inside => (mem_blockIds_buried.mp inside).2 rfl
  have direct : ∀ source ∈ function.blocks, function.Edge source.id report.id →
      getReportBlockFallthrough report = some block.id → block.id ∈ source.successors := by
    intro source sourceMember edge isFallthrough
    have past := well.edge_past member reachable hasPhi edge
      ((bypassable.edge_report_iff shaped).mpr isFallthrough)
    rcases edge_iff.mp past with ⟨other, otherMember, same, inside⟩
    exact shaped.block_eq otherMember sourceMember same ▸ inside
  rw [List.perm_iff_count]
  intro source
  rw [count_predecessors]
  by_cases atReport : source = report.id
  · rw [atReport, shaped.successors_eq reportMember, leads]
    split
    · rename_i isFallthrough
      rw [isFallthrough, Option.toList_some, List.count_singleton_self, List.count_cons_self,
        count_predecessors, gone, List.count_nil]
    · rename_i notFallthrough
      rw [count_predecessors, gone, List.count_nil]
      apply List.count_eq_zero.mpr
      intro inside
      exact notFallthrough (Option.mem_toList.mp inside)
  · have others : (if getReportBlockFallthrough report = some block.id then
        report.id :: (function.buried report transform).predecessors block.id
      else (function.buried report transform).predecessors block.id).count source =
        ((function.buried report transform).predecessors block.id).count source := by
      split
      · exact List.count_cons_of_ne (Ne.symm atReport)
      · rfl
    rw [others, count_predecessors]
    by_cases isBlock : source ∈ function.blockIds
    · rcases List.mem_map.mp isBlock with ⟨home, homeMember, rfl⟩
      have left : function.bury report transform home ∈
          (function.buried report transform).blocks :=
        mem_buried.mpr ⟨home, homeMember, atReport, rfl⟩
      have after := (bypassable.shaped_buried shaped keeps).successors_eq left
      rw [id_bury] at after
      rw [shaped.successors_eq homeMember, after]
      exact (bypassable.count_successors_bury shaped homeMember different
        (direct home homeMember)).symm
    · rw [successors_eq_nil isBlock, successors_eq_nil]
      exact fun inside => isBlock (mem_blockIds_buried.mp inside).1

/-- A value that is still an instruction is one of another block. -/
theorem Buries.eq_of_inst {transform : Value → Value} (buries : function.Buries report transform)
    {value : Value} (equal : transform value = .inst id) :
    value = .inst id ∧ id ∉ report.definitions ∨
      ∃ phi ∈ function.phisOf report.id, value = .inst phi ∧ ¬function.LosesPhis report := by
  cases value with
  | inst original =>
      by_cases inside : original ∈ report.definitions
      · right
        refine ⟨original, ?_, rfl, ?_⟩
        · by_contra notPhi
          rw [buries.values original inside notPhi] at equal
          cases equal
        · intro loses
          rw [buries.phis loses original inside] at equal
          cases equal
      · left
        rw [buries.others original inside] at equal
        exact ⟨equal, Value.inst.inj equal ▸ inside⟩
  | other other =>
      rw [buries.keeps (.other other) rfl] at equal
      cases equal
  | poison =>
      rw [buries.keeps .poison rfl] at equal
      cases equal

section Buried

variable {transform : Value → Value} (well : function.SplicesWell report.id)
  (wellFormed : function.WellFormed) (bypassable : function.Bypassable values check report)
  (buries : function.Buries report transform)
include well wellFormed bypassable buries

theorem reachable_of_buried {block : BlockId}
    (reached : (function.buried report transform).Reachable block) :
    function.Reachable block := by
  have splices := bypassable.splices_buried wellFormed.shaped buries.keeps well.notEntry
  rcases reached with ⟨done, path⟩
  rcases Walk.exists_of_splices splices path with ⟨-, old, oldPath, -⟩
  exact ⟨old, oldPath⟩

theorem entersOnce_buried : (function.buried report transform).EntersOnce := by
  have splices := bypassable.splices_buried wellFormed.shaped buries.keeps well.notEntry
  intro entry isEntry
  have none := wellFormed.entersOnce entry ((splices.start_iff entry).mp isEntry)
  have closed : ∀ source, ¬function.Edge source entry := by
    intro source edge
    have inside := mem_predecessors.mpr edge
    rw [none] at inside
    cases inside
  apply List.eq_nil_iff_forall_not_mem.mpr
  intro source inside
  rcases (splices.edge_iff source entry).mp (mem_predecessors.mp inside) with
    ⟨-, -, edge | through⟩
  · exact closed source edge
  · exact closed report.id through.2

variable {left : Block} (member : left ∈ (function.buried report transform).blocks)
include member

/-- Every phi has an entry for every edge: where the report block led, its entry goes. -/
theorem phis_buried (reached : (function.buried report transform).Reachable left.id)
    {inst : Inst} (inside : inst ∈ left.insts) {incoming : List (Value × BlockId)}
    (isPhi : inst.op = .phi incoming) :
    (incoming.map Prod.snd).Perm
      ((function.buried report transform).predecessors left.id) := by
  rcases mem_buried.mp member with ⟨block, blockMember, different, rfl⟩
  rcases exists_phi_of_bury inside isPhi with
    ⟨original, originalMember, -, entries, originalPhi, rfl⟩
  have reachable := reachable_of_buried well wellFormed bypassable buries reached
  rw [id_bury] at reachable ⊢
  have whole := wellFormed.phis block blockMember reachable original originalMember entries
    originalPhi
  have edges := whole.trans (well.perm_predecessors wellFormed.shaped bypassable buries.keeps
    blockMember different reachable ⟨original, originalMember, congrArg Op.isPhi originalPhi⟩)
  have keys : ∀ list : List (Value × BlockId),
      (list.map fun entry => (transform entry.1, entry.2)).map Prod.snd =
        list.map Prod.snd := by
    intro list
    rw [List.map_map]
    rfl
  rw [keys]
  split
  · rename_i isFallthrough
    rw [if_pos isFallthrough] at edges
    have erased := edges.erase report.id
    rw [List.erase_cons_head] at erased
    rw [map_snd_removeIncomingValue]
    exact erased
  · rename_i notFallthrough
    rw [if_neg notFallthrough] at edges
    exact edges

/-- What an instruction still reads was not defined in the report block, and dominates it. -/
theorem operands_buried (reached : (function.buried report transform).Reachable left.id)
    {user : Inst} (userMember : user ∈ left.instructions) (notPhi : user.op.isPhi = false)
    {operand : InstId} (inside : .inst operand ∈ user.op.operands) :
    operand ∉ report.definitions ∧ function.Dominates operand user.id := by
  rcases mem_buried.mp member with ⟨block, blockMember, different, rfl⟩
  have reachable := reachable_of_buried well wellFormed bypassable buries reached
  rw [id_bury] at reachable
  rcases exists_user_of_bury (wellFormed.shaped.terminators block blockMember) userMember
    notPhi with ⟨original, originalMember, sameId, originalNotPhi, mapped | none⟩
  · rw [mapped, Op.operands_mapOperands] at inside
    rcases List.mem_map.mp inside with ⟨value, valueMember, equal⟩
    rcases buries.eq_of_inst equal with stays | missed
    · refine ⟨stays.2, ?_⟩
      rw [← sameId]
      exact wellFormed.operands original
        (mem_instructions.mpr ⟨block, blockMember, originalMember⟩) originalNotPhi operand
        (stays.1 ▸ valueMember)
    · rcases missed with ⟨phi, isPhi, rfl, several⟩
      exact absurd ⟨block, blockMember, different, .inl ⟨reachable, original,
        originalMember, originalNotPhi, valueMember⟩⟩
        (well.not_usedOutside wellFormed bypassable isPhi several)
  · rw [none] at inside
    cases inside

/-- What a phi still takes over was not defined in the report block, and was executed before
over the same edge. -/
theorem incoming_buried {inst : Inst} (inside : inst ∈ left.insts)
    {incoming : List (Value × BlockId)} (isPhi : inst.op = .phi incoming) {operand : InstId}
    {pred : BlockId} (entryMember : (.inst operand, pred) ∈ incoming)
    (edge : (function.buried report transform).Edge pred left.id)
    (reached : (function.buried report transform).Reachable pred) :
    operand ∉ report.definitions ∧ ∀ done, function.Path done pred →
      function.ExecutedBefore operand (pred :: done) left.id := by
  have splices := bypassable.splices_buried wellFormed.shaped buries.keeps well.notEntry
  have reachable := reachable_of_buried well wellFormed bypassable buries reached
  rcases mem_buried.mp member with ⟨block, blockMember, different, rfl⟩
  rcases exists_phi_of_bury inside isPhi with
    ⟨original, originalMember, -, entries, originalPhi, rfl⟩
  rcases List.mem_map.mp entryMember with ⟨entry, keptMember, equal⟩
  have inEntries : entry ∈ entries := by
    split at keptMember
    · exact List.eraseP_subset keptMember
    · exact keptMember
  have samePred : entry.2 = pred := congrArg Prod.snd equal
  have value : transform entry.1 = .inst operand := congrArg Prod.fst equal
  rw [id_bury] at edge ⊢
  rcases (splices.edge_iff pred block.id).mp edge with ⟨predNot, -, ways⟩
  have old : function.Edge pred block.id := by
    rcases ways with direct | through
    · exact direct
    · have blockReached : function.Reachable block.id := by
        rcases reachable with ⟨done, path⟩
        exact ⟨_, .step (.step path through.1) through.2⟩
      exact well.edge_past blockMember blockReached
        ⟨original, originalMember, congrArg Op.isPhi originalPhi⟩ through.1 through.2
  rcases buries.eq_of_inst value with stays | missed
  · refine ⟨stays.2, ?_⟩
    have used : (.inst operand, pred) ∈ entries := by
      rw [← stays.1, ← samePred]
      exact inEntries
    exact wellFormed.incoming block blockMember original originalMember entries originalPhi
      operand pred used old
  · rcases missed with ⟨phi, isReportPhi, same, several⟩
    have used : (.inst phi, pred) ∈ entries := by
      rw [← same, ← samePred]
      exact inEntries
    exact absurd ⟨block, blockMember, different, .inr ⟨original, originalMember, entries,
      pred, originalPhi, used, predNot, old, reachable⟩⟩
      (well.not_usedOutside wellFormed bypassable isReportPhi several)

end Buried

/-- Without the report block the function is well formed. -/
theorem SplicesWell.wellFormed_buried (well : function.SplicesWell report.id)
    (wellFormed : function.WellFormed) (bypassable : function.Bypassable values check report)
    {transform : Value → Value} (buries : function.Buries report transform) :
    (function.buried report transform).WellFormed ∧
      ∀ block, (function.buried report transform).IsEntry block ↔ function.IsEntry block := by
  have shaped := wellFormed.shaped
  have splices := bypassable.splices_buried shaped buries.keeps well.notEntry
  refine ⟨?_, splices.start_iff⟩
  apply (bypassable.thins_buried shaped buries.keeps well.notEntry).wellFormed
  · rcases wellFormed.entry with ⟨block, isEntry⟩
    exact ⟨block, (splices.start_iff block).mpr isEntry⟩
  · exact entersOnce_buried well wellFormed bypassable buries
  · intro left member reached inst inside incoming isPhi
    exact phis_buried well wellFormed bypassable buries member reached inside isPhi
  · intro left member reached user userMember notPhi operand inside
    exact operands_buried well wellFormed bypassable buries member reached userMember notPhi
      inside
  · intro left member inst inside incoming isPhi operand pred entryMember edge reached
    exact incoming_buried well wellFormed bypassable buries member inside isPhi entryMember edge
      reached

end Condition

end Function

end Desan
