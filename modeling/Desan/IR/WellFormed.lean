import Desan.IR.Execution
import Desan.IR.Rewrite

/-! # Well-formed functions

What the verifier asks of a function: an entry block without predecessors, an entry of
every phi for every edge into its block, and operands that are defined on every path to
their use. -/

namespace Desan

namespace Function

/-- A phi uses its operands at the end of the predecessors they come from. -/
structure WellFormed (function : Function) : Prop where
  shaped : function.Shaped
  entry : ∃ block, function.IsEntry block
  entersOnce : function.EntersOnce
  phis : ∀ block ∈ function.blocks, function.Reachable block.id → ∀ inst ∈ block.insts,
    ∀ incoming, inst.op = .phi incoming →
      (incoming.map Prod.snd).Perm (function.predecessors block.id)
  operands : ∀ user ∈ function.instructions, user.op.isPhi = false →
    ∀ id, .inst id ∈ user.op.operands → function.Dominates id user.id
  incoming : ∀ block ∈ function.blocks, ∀ inst ∈ block.insts, ∀ incoming,
    inst.op = .phi incoming → ∀ id pred, (.inst id, pred) ∈ incoming →
      function.Edge pred block.id → ∀ done, function.Path done pred →
        function.ExecutedBefore id (pred :: done) block.id

/-! ## Edits that leave the order -/

/-- Some instructions and blocks of a function are gone. What is left is executed in
the order it was executed in before. -/
structure Thins (keptInst : InstId → Prop) (keptBlock : BlockId → Bool)
    (before after : Function) : Prop where
  shaped : after.Shaped
  path : ∀ {done block}, after.Path done block → keptBlock block = true ∧
    ∃ old, before.Path old block ∧ old.filter keptBlock = done
  definition : ∀ block ∈ before.blocks, ∀ id ∈ block.definitions, keptInst id →
    keptBlock block.id = true ∧ ∃ left ∈ after.blocks, left.id = block.id ∧
      id ∈ left.definitions ∧ left.terminator.id = block.terminator.id ∧
        ∀ site normal unwind, left.terminator.op = .invoke site normal unwind →
          keptBlock normal = true ∧
            ∃ original, block.terminator.op = .invoke original normal unwind
  user : ∀ left ∈ after.blocks, ∃ block ∈ before.blocks, block.id = left.id ∧
    ∀ user ∈ left.instructions, ∃ original ∈ block.instructions, original.id = user.id ∧
      original.op.isPhi = user.op.isPhi ∧ ∀ id, keptInst id →
        [id, user.id].Sublist block.definitions → [id, user.id].Sublist left.definitions

section Thins

variable {keptInst : InstId → Prop} {keptBlock : BlockId → Bool} {before after : Function}
  (thins : Thins keptInst keptBlock before after)
include thins

theorem Thins.executed {id : InstId} {done : List BlockId} {block : BlockId}
    (kept : keptInst id) (stays : keptBlock block = true)
    (executed : before.ExecutedBefore id done block) :
    after.ExecutedBefore id (done.filter keptBlock) block := by
  rcases executed with ⟨source, member, inside, passed, onward⟩
  rcases thins.definition source member id inside kept with
    ⟨sourceStays, left, leftMember, sameId, leftInside, sameTerminator, invoke⟩
  refine ⟨left, leftMember, leftInside, ?_, ?_⟩
  · rw [sameId]
    exact List.mem_filter.mpr ⟨passed, sourceStays⟩
  · intro site normal unwind isTerminator kind
    rcases invoke site normal unwind kind with ⟨normalStays, original, old⟩
    have adjacent := onward original normal unwind (sameTerminator.symm.trans isTerminator) old
    have filtered := adjacent.filter keptBlock
    rw [List.filter_cons_of_pos normalStays, List.filter_cons_of_pos sourceStays,
      List.filter_nil, List.filter_cons_of_pos stays] at filtered
    rw [sameId]
    exact filtered

theorem Thins.dominates {id user : InstId} (kept : keptInst id)
    (dominates : before.Dominates id user) : after.Dominates id user := by
  intro left leftMember inst inside isUser done path
  rcases thins.path path with ⟨stays, old, oldPath, deleted⟩
  rcases thins.user left leftMember with ⟨block, blockMember, address, users⟩
  rcases users inst inside with ⟨original, originalInside, sameId, samePhi, order⟩
  rw [← address] at oldPath
  rcases dominates block blockMember original originalInside (sameId.trans isUser) old
    oldPath with ordered | executed
  · left
    refine ⟨samePhi.symm.trans ordered.1, ?_⟩
    rw [← isUser]
    apply order id kept
    rw [isUser]
    exact ordered.2
  · right
    rw [← deleted]
    rw [address] at executed
    exact thins.executed kept stays executed

/-- What is left is well formed if its operands are. -/
theorem Thins.wellFormed (entry : ∃ block, after.IsEntry block)
    (entersOnce : after.EntersOnce)
    (phis : ∀ left ∈ after.blocks, after.Reachable left.id → ∀ inst ∈ left.insts,
      ∀ incoming, inst.op = .phi incoming →
        (incoming.map Prod.snd).Perm (after.predecessors left.id))
    (operands : ∀ left ∈ after.blocks, after.Reachable left.id →
      ∀ user ∈ left.instructions, user.op.isPhi = false →
        ∀ id, .inst id ∈ user.op.operands → keptInst id ∧ before.Dominates id user.id)
    (incoming : ∀ left ∈ after.blocks, ∀ inst ∈ left.insts, ∀ incoming,
      inst.op = .phi incoming → ∀ id pred, (.inst id, pred) ∈ incoming →
        after.Edge pred left.id → after.Reachable pred →
          keptInst id ∧ ∀ done, before.Path done pred →
            before.ExecutedBefore id (pred :: done) left.id) :
    after.WellFormed where
  shaped := thins.shaped
  entry := entry
  entersOnce := entersOnce
  phis := phis
  operands := by
    intro user member notPhi id operand left leftMember inst inside isUser done path
    have same : inst = user := thins.shaped.inst_eq
      (mem_instructions.mpr ⟨left, leftMember, inside⟩) member isUser
    rw [← same] at notPhi operand
    rcases operands left leftMember ⟨done, path⟩ inst inside notPhi id operand with
      ⟨kept, dominates⟩
    exact thins.dominates kept (isUser ▸ dominates) left leftMember inst inside isUser done path
  incoming := by
    intro left leftMember inst inside entries isPhi id pred entryMember edge done path
    rcases incoming left leftMember inst inside entries isPhi id pred entryMember edge
      ⟨done, path⟩ with ⟨kept, executed⟩
    have arrives : after.Path (pred :: done) left.id := .step path edge
    rcases thins.path path with ⟨predStays, old, oldPath, deleted⟩
    have carried := thins.executed kept (thins.path arrives).1 (executed old oldPath)
    rw [List.filter_cons_of_pos predStays, deleted] at carried
    exact carried

end Thins

/-! ## One instruction less -/

theorem mapBlocks_mapBlocks (function : Function) (first second : Block → Block) :
    (function.mapBlocks first).mapBlocks second = function.mapBlocks (second ∘ first) := by
  rw [mapBlocks, mapBlocks, List.map_map]
  rfl

section Rewrite

variable {function : Function} (transform : Value → Value) (gone : InstId)

/-- Operands are mapped, and one instruction goes. -/
def rewrite (function : Function) (transform : Value → Value) (gone : InstId) : Function :=
  function.mapBlocks (Block.erase gone ∘ Block.mapInsts (Inst.mapOperands transform))

theorem keeps_rewrite (block : Block) :
    ((Block.erase gone ∘ Block.mapInsts (Inst.mapOperands transform)) block).id = block.id ∧
      ((Block.erase gone ∘ Block.mapInsts (Inst.mapOperands transform)) block).successors =
        block.successors := by
  rw [Function.comp_apply, Block.successors_erase, Block.successors_mapOperands]
  exact ⟨rfl, rfl⟩

theorem definitions_rewrite {block : Block} (notTerminator : block.terminator.id ≠ gone) :
    ((Block.erase gone ∘ Block.mapInsts (Inst.mapOperands transform)) block).definitions =
      block.definitions.filter fun id => id ≠ gone := by
  rw [Block.definitions_eq, Block.definitions_eq, List.filter_append, List.filter_map,
    List.filter_cons_of_pos (by simpa using notTerminator), List.filter_nil]
  simp only [Function.comp_apply, Block.erase, Block.mapInsts, List.filter_map, List.map_map]
  rfl

theorem mem_rewrite {block : Block} {user : Inst}
    (member : user ∈ ((Block.erase gone ∘ Block.mapInsts (Inst.mapOperands transform))
      block).instructions) :
    ∃ original ∈ block.instructions, user = original.mapOperands transform := by
  rcases Block.mem_instructions.mp member with body | last
  · rcases List.mem_map.mp (List.mem_filter.mp body).1 with ⟨original, inside, rfl⟩
    exact ⟨original, Block.mem_instructions.mpr (.inl inside), rfl⟩
  · exact ⟨block.terminator, block.terminator_mem, last⟩

variable {transform gone}

theorem entry?_rewrite : Function.entry? (function.rewrite transform gone) = function.entry? := by
  rw [ entry?, entry?, rewrite, blocks_mapBlocks, List.head?_map, Option.map_map]
  rfl

theorem shaped_rewrite (shaped : function.Shaped)
    (notTerminator : ∀ block ∈ function.blocks, block.terminator.id ≠ gone) :
    (function.rewrite transform gone).Shaped where
  blocks := by
    have same : (function.rewrite transform gone).blockIds = function.blockIds := by
      rw [blockIds, blockIds, rewrite, blocks_mapBlocks, List.map_map]
      rfl
    exact same ▸ shaped.blocks
  insts := by
    have sublist : ((function.rewrite transform gone).instructions.map Inst.id).Sublist
        (function.instructions.map Inst.id) := by
      simp only [instructions, rewrite, blocks_mapBlocks, List.flatMap_map, List.map_flatMap]
      apply List.Sublist.flatMap_right
      intro block member
      have same := definitions_rewrite transform gone (notTerminator block member)
      rw [Block.definitions] at same
      rw [same]
      exact List.filter_sublist
    exact sublist.nodup shaped.insts
  terminators := by
    intro left member
    rcases List.mem_map.mp member with ⟨block, inside, rfl⟩
    exact (block.terminator.op.isTerminator_mapOperands transform).trans
      (shaped.terminators block inside)

theorem thins_rewrite (shaped : function.Shaped)
    (notTerminator : ∀ block ∈ function.blocks, block.terminator.id ≠ gone) :
    Thins (fun id => id ≠ gone) (fun _ => true) function
      (function.rewrite transform gone) where
  shaped := shaped_rewrite shaped notTerminator
  path := by
    intro done block path
    refine ⟨rfl, done, (path_mapBlocks fun block _ => keeps_rewrite transform gone block).mp
      path, ?_⟩
    exact List.filter_eq_self.mpr fun _ _ => rfl
  definition := by
    intro block member id inside kept
    refine ⟨rfl, _, List.mem_map_of_mem member, rfl, ?_, rfl, ?_⟩
    · rw [definitions_rewrite transform gone (notTerminator block member)]
      exact List.mem_filter.mpr ⟨inside, decide_eq_true kept⟩
    · intro site normal unwind kind
      exact ⟨rfl, Op.exists_of_mapOperands_invoke kind⟩
  user := by
    intro left member
    rcases List.mem_map.mp member with ⟨block, inside, rfl⟩
    refine ⟨block, inside, rfl, ?_⟩
    intro user userMember
    have notGone : user.id ≠ gone := by
      have defined : user.id ∈ ((Block.erase gone ∘
          Block.mapInsts (Inst.mapOperands transform)) block).definitions :=
        List.mem_map_of_mem userMember
      rw [definitions_rewrite transform gone (notTerminator block inside)] at defined
      exact of_decide_eq_true (List.mem_filter.mp defined).2
    rcases mem_rewrite transform gone userMember with ⟨original, originalMember, rfl⟩
    refine ⟨original, originalMember, rfl, (original.op.isPhi_mapOperands transform).symm, ?_⟩
    intro id kept ordered
    rw [definitions_rewrite transform gone (notTerminator block inside)]
    have both : [id, original.id].filter (fun other => other ≠ gone) = [id, original.id] := by
      apply List.filter_eq_self.mpr
      intro other otherMember
      rcases List.mem_pair.mp otherMember with rfl | rfl
      · exact decide_eq_true kept
      · exact decide_eq_true notGone
    have filtered := ordered.filter fun other => other ≠ gone
    rw [Inst.id_mapOperands, both] at filtered
    exact filtered

/-- Whatever the operands are mapped to is defined where they are used. -/
theorem WellFormed.rewrite (wellFormed : function.WellFormed)
    (notTerminator : ∀ block ∈ function.blocks, block.terminator.id ≠ gone)
    (operands : ∀ user ∈ function.instructions, user.op.isPhi = false →
      ∀ value ∈ user.op.operands, ∀ id, transform value = .inst id →
        id ≠ gone ∧ function.Dominates id user.id)
    (incoming : ∀ block ∈ function.blocks, ∀ inst ∈ block.insts, ∀ incoming,
      inst.op = .phi incoming → ∀ entry ∈ incoming, ∀ id, transform entry.1 = .inst id →
        function.Edge entry.2 block.id → function.Reachable entry.2 →
          id ≠ gone ∧ ∀ done, function.Path done entry.2 →
            function.ExecutedBefore id (entry.2 :: done) block.id) :
    (function.rewrite transform gone).WellFormed := by
  have keeps : ∀ block ∈ function.blocks,
      ((Block.erase gone ∘ Block.mapInsts (Inst.mapOperands transform)) block).id = block.id ∧
        ((Block.erase gone ∘ Block.mapInsts (Inst.mapOperands transform)) block).successors =
          block.successors := fun block _ => keeps_rewrite transform gone block
  apply (thins_rewrite wellFormed.shaped notTerminator).wellFormed
  · rcases wellFormed.entry with ⟨block, isEntry⟩
    exact ⟨block, (isEntry_mapBlocks keeps).mpr isEntry⟩
  · exact entersOnce_mapBlocks keeps wellFormed.entersOnce
  · intro left member reachable inst inside entries isPhi
    rcases List.mem_map.mp member with ⟨block, blockMember, rfl⟩
    rcases List.mem_map.mp (List.mem_filter.mp inside).1 with ⟨original, originalMember, rfl⟩
    rcases exists_phi_of_mapOperands transform isPhi with ⟨before, originalPhi, rfl⟩
    have whole := wellFormed.phis block blockMember ((reachable_mapBlocks keeps).mp reachable)
      original originalMember before originalPhi
    rw [List.map_map]
    refine List.Perm.trans ?_ (whole.trans ?_)
    · exact .refl _
    · rw [Function.rewrite, predecessors_mapBlocks keeps]
      exact .refl _
  · intro left member _ user userMember notPhi id operand
    rcases List.mem_map.mp member with ⟨block, blockMember, rfl⟩
    rcases mem_rewrite transform gone userMember with ⟨original, originalMember, rfl⟩
    rw [Inst.op_mapOperands, Op.isPhi_mapOperands] at notPhi
    rw [Inst.op_mapOperands, Op.operands_mapOperands] at operand
    rcases List.mem_map.mp operand with ⟨value, valueMember, mapped⟩
    exact operands original (mem_instructions.mpr ⟨block, blockMember, originalMember⟩) notPhi
      value valueMember id mapped
  · intro left member inst inside entries isPhi id pred entryMember edge reachable
    rcases List.mem_map.mp member with ⟨block, blockMember, rfl⟩
    rcases List.mem_map.mp (List.mem_filter.mp inside).1 with ⟨original, originalMember, rfl⟩
    rcases exists_phi_of_mapOperands transform isPhi with ⟨before, originalPhi, rfl⟩
    rcases List.mem_map.mp entryMember with ⟨entry, entryInside, mapped⟩
    have same := congrArg Prod.snd mapped
    have mappedValue := congrArg Prod.fst mapped
    simp only at same mappedValue
    rw [← same] at edge reachable ⊢
    exact incoming block blockMember original originalMember before originalPhi entry
      entryInside id mappedValue ((edge_mapBlocks keeps).mp edge)
      ((reachable_mapBlocks keeps).mp reachable)

end Rewrite

/-! ## Erasing an unused instruction -/

theorem eraseInst_eq_rewrite (function : Function) (inst : InstId) :
    function.eraseInst inst = function.rewrite (fun value => value) inst := by
  have same : (Block.erase inst ∘ Block.mapInsts (Inst.mapOperands fun value => value)) =
      Block.erase inst := by
    funext block
    rw [Function.comp_apply, block.mapOperands_id]
  rw [rewrite, same, eraseInst]

theorem WellFormed.eraseInst {function : Function} {inst : Inst}
    (wellFormed : function.WellFormed) (member : inst ∈ function.instructions)
    (body : inst.op.isTerminator = false) (unused : function.useEmpty inst.id = true) :
    (function.eraseInst inst.id).WellFormed := by
  rw [useEmpty_iff] at unused
  rw [eraseInst_eq_rewrite]
  apply wellFormed.rewrite (wellFormed.shaped.terminator_ne member body)
  · intro user userMember notPhi value operand id equal
    rw [equal] at operand
    refine ⟨?_, wellFormed.operands user userMember notPhi id operand⟩
    intro same
    exact unused user userMember (same ▸ operand)
  · intro block blockMember phi phiMember incoming isPhi entry entryMember id equal edge _
    constructor
    · intro same
      have user : phi ∈ function.instructions := mem_instructions.mpr
        ⟨block, blockMember, Block.mem_instructions.mpr (.inl phiMember)⟩
      apply unused phi user
      rw [isPhi, ← same, ← equal]
      exact List.mem_map_of_mem entryMember
    · have used : (.inst id, entry.2) ∈ incoming := equal ▸ entryMember
      exact wellFormed.incoming block blockMember phi phiMember incoming isPhi id entry.2
        used edge

/-! ## Folding a phi -/

section Fold

variable {function : Function} {home : Block} {phi : Inst} {id : InstId}
  {incoming : List (Value × BlockId)}

/-- Where a phi of one value has been executed, so has what the value is. -/
theorem WellFormed.executed_of_one (wellFormed : function.WellFormed)
    (homeMember : home ∈ function.blocks) (member : phi ∈ home.insts)
    (isPhi : phi.op = .phi incoming)
    (one : ∀ entry ∈ incoming, entry.1 = .inst id ∨ entry.1 = phi.value)
    (source : ∃ entry ∈ incoming, entry.1 = .inst id) {done : List BlockId}
    (path : function.Path done home.id) : function.ExecutedBefore id done home.id := by
  have defined : phi.id ∈ home.definitions :=
    List.mem_map_of_mem (Block.mem_instructions.mpr (.inl member))
  -- The first arrival does not bring the phi itself, and every later one follows it.
  induction size : done.length using Nat.strong_induction_on generalizing done with
  | h size' induction =>
      by_cases again : home.id ∈ done
      · rcases path.exists_prefix again with ⟨after, before, split, arrived⟩
        have shorter : before.length < size' := by
          rw [← size, split]
          simp only [List.length_append, List.length_cons]
          omega
        exact (induction before.length shorter arrived rfl).later split
      · have whole := wellFormed.phis home homeMember ⟨done, path⟩ phi member incoming isPhi
        cases path with
        | start isEntry =>
            rw [wellFormed.entersOnce home.id isEntry] at whole
            have none : incoming = [] := List.map_eq_nil_iff.mp whole.eq_nil
            rcases source with ⟨entry, entryMember, -⟩
            rw [none] at entryMember
            cases entryMember
        | @step before pred _ path edge =>
            have inPreds := whole.mem_iff.mpr (mem_predecessors.mpr edge)
            rcases List.mem_map.mp inPreds with ⟨entry, entryMember, rfl⟩
            rcases one entry entryMember with same | self
            · have used : (.inst id, entry.2) ∈ incoming := same ▸ entryMember
              exact wellFormed.incoming home homeMember phi member incoming isPhi id entry.2
                used edge before path
            · have used : (phi.value, entry.2) ∈ incoming := self ▸ entryMember
              rcases wellFormed.incoming home homeMember phi member incoming isPhi phi.id
                entry.2 used edge before path with ⟨block, blockMember, inside, passed, -⟩
              have same := wellFormed.shaped.block_of_definition blockMember homeMember inside
                defined
              exact absurd (same ▸ passed) again

theorem WellFormed.executed_of_executed_phi (wellFormed : function.WellFormed)
    (homeMember : home ∈ function.blocks) (member : phi ∈ home.insts)
    (isPhi : phi.op = .phi incoming)
    (one : ∀ entry ∈ incoming, entry.1 = .inst id ∨ entry.1 = phi.value)
    (source : ∃ entry ∈ incoming, entry.1 = .inst id) {done : List BlockId} {block : BlockId}
    (path : function.Path done block) (executed : function.ExecutedBefore phi.id done block) :
    function.ExecutedBefore id done block := by
  rcases executed with ⟨other, otherMember, inside, passed, -⟩
  have same := wellFormed.shaped.block_of_definition otherMember homeMember inside
    (List.mem_map_of_mem (Block.mem_instructions.mpr (.inl member)))
  rcases path.exists_prefix (same ▸ passed) with ⟨after, before, split, arrived⟩
  exact (wellFormed.executed_of_one homeMember member isPhi one source arrived).later split

theorem WellFormed.dominates_of_dominates_phi (wellFormed : function.WellFormed)
    (homeMember : home ∈ function.blocks) (member : phi ∈ home.insts)
    (isPhi : phi.op = .phi incoming)
    (one : ∀ entry ∈ incoming, entry.1 = .inst id ∨ entry.1 = phi.value)
    (source : ∃ entry ∈ incoming, entry.1 = .inst id) {user : InstId}
    (dominates : function.Dominates phi.id user) : function.Dominates id user := by
  intro block blockMember inst inside isUser done path
  right
  rcases dominates block blockMember inst inside isUser done path with ordered | executed
  · have same := wellFormed.shaped.block_of_definition blockMember homeMember
      (ordered.2.subset (List.mem_cons_self ..))
      (List.mem_map_of_mem (Block.mem_instructions.mpr (.inl member)))
    rw [same] at path ⊢
    exact wellFormed.executed_of_one homeMember member isPhi one source path
  · exact wellFormed.executed_of_executed_phi homeMember member isPhi one source path executed

/-- A phi of one value goes, and its uses become uses of this value. -/
theorem WellFormed.foldPhi {value : Value} (wellFormed : function.WellFormed)
    (member : phi ∈ function.instructions) (isPhi : phi.op = .phi incoming)
    (other : value ≠ phi.value)
    (one : ∀ entry ∈ incoming, entry.1 = value ∨ entry.1 = phi.value)
    (source : value = .poison ∨ ∃ entry ∈ incoming, entry.1 = value) :
    (function.replaceInst phi.id value).WellFormed := by
  have whole : function.replaceInst phi.id value =
      function.rewrite (Value.replace phi.id value) phi.id :=
    mapBlocks_mapBlocks function _ _
  have body : phi.op.isTerminator = false := by
    rw [isPhi]
    rfl
  rcases wellFormed.shaped.exists_home member body with ⟨home, homeMember, inHome⟩
  -- A mapped operand is the phi's value or has stayed.
  have mapped : ∀ operand id, Value.replace phi.id value operand = .inst id →
      id ≠ phi.id ∧ (operand = phi.value ∧ value = .inst id ∨ operand = .inst id) := by
    intro operand id equal
    by_cases isOperand : operand = .inst phi.id
    · rw [isOperand, Value.replace_self] at equal
      refine ⟨?_, .inl ⟨isOperand, equal⟩⟩
      intro same
      rw [same] at equal
      exact other equal
    · rw [Value.replace_of_ne isOperand] at equal
      refine ⟨?_, .inr equal⟩
      intro same
      rw [same] at equal
      exact isOperand equal
  have fromEntry : ∀ id, value = .inst id → ∃ entry ∈ incoming, entry.1 = .inst id := by
    intro id equal
    rcases source with none | entry
    · rw [none] at equal
      cases equal
    · rw [equal] at entry
      exact entry
  rw [whole]
  apply wellFormed.rewrite (wellFormed.shaped.terminator_ne member body)
  · intro user userMember notPhi operand operandMember id equal
    rcases mapped operand id equal with ⟨different, replaced | same⟩
    · refine ⟨different, ?_⟩
      rw [replaced.2] at one
      have used : phi.value ∈ user.op.operands := replaced.1 ▸ operandMember
      exact wellFormed.dominates_of_dominates_phi homeMember inHome isPhi one
        (fromEntry id replaced.2) (wellFormed.operands user userMember notPhi phi.id used)
    · rw [same] at operandMember
      exact ⟨different, wellFormed.operands user userMember notPhi id operandMember⟩
  · intro block blockMember user userMember entries isUserPhi entry entryMember id equal edge _
    rcases mapped entry.1 id equal with ⟨different, replaced | same⟩
    · refine ⟨different, fun done path => ?_⟩
      rw [replaced.2] at one
      have used : (.inst phi.id, entry.2) ∈ entries := by
        have isEntry : (phi.value, entry.2) = entry := by rw [← replaced.1]
        exact isEntry ▸ entryMember
      have executed := wellFormed.incoming block blockMember user userMember entries isUserPhi
        phi.id entry.2 used edge done path
      exact wellFormed.executed_of_executed_phi homeMember inHome isPhi one
        (fromEntry id replaced.2) (.step path edge) executed
    · have used : (.inst id, entry.2) ∈ entries := same ▸ entryMember
      exact ⟨different, wellFormed.incoming block blockMember user userMember entries
        isUserPhi id entry.2 used edge⟩

end Fold

theorem WellFormed.folds {function folded : Function} (wellFormed : function.WellFormed)
    (folds : function.Folds folded) :
    folded.WellFormed ∧ folded.entry? = function.entry? := by
  induction folds with
  | refl => exact ⟨wellFormed, rfl⟩
  | @step function folded phi incoming value member isPhi other one source _ induction =>
      rcases induction (wellFormed.foldPhi member isPhi other one source) with ⟨whole, entry⟩
      refine ⟨whole, entry.trans ?_⟩
      have same : function.replaceInst phi.id value =
          function.rewrite (Value.replace phi.id value) phi.id :=
        mapBlocks_mapBlocks function _ _
      rw [same, entry?_rewrite]
end Function

end Desan
