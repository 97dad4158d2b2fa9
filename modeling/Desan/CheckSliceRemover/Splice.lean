import Desan.CheckSliceRemover.PathSplice
import Desan.IR.Execution
import Desan.IR.Rewrite

/-! # A bypass in one step

The rewriting loop and the deletion of the report block touch phis of the report
block, branches, phis of the fall-through and every use of a value the report block
defined. All of it comes to one rewriting of the other blocks, to operands that have
lost their instruction, and to folding phis that are left with one value. -/

namespace Desan

namespace Block

/-- A rewritten predecessor. -/
def redirect (report : BlockId) (fallthrough : Option BlockId) (preds : List BlockId)
    (block : Block) : Block :=
  if block.id ∈ preds then
    match safeSuccessor report fallthrough block.terminator.op with
    | some target => block.setTerminator (.br target)
    | none => block
  else block

@[simp] theorem id_redirect (report : BlockId) (fallthrough : Option BlockId)
    (preds : List BlockId) (block : Block) :
    (block.redirect report fallthrough preds).id = block.id := by
  rw [redirect]
  split
  · split <;> rfl
  · rfl

@[simp] theorem id_mapPhis (change : List (Value × BlockId) → List (Value × BlockId))
    (block : Block) : (block.mapPhis change).id = block.id := rfl

@[simp] theorem id_setTerminator (op : Op) (block : Block) :
    (block.setTerminator op).id = block.id := rfl

theorem redirect_mapOperands (report : BlockId) (fallthrough : Option BlockId)
    (preds : List BlockId) (transform : Value → Value) (block : Block) :
    (block.mapInsts (Inst.mapOperands transform)).redirect report fallthrough preds =
      (block.redirect report fallthrough preds).mapInsts (Inst.mapOperands transform) := by
  have safe : safeSuccessor report fallthrough
      (block.terminator.op.mapOperands transform) =
        safeSuccessor report fallthrough block.terminator.op := by
    cases block.terminator.op <;> rfl
  rw [redirect, redirect]
  by_cases isPred : block.id ∈ preds
  · have same : (block.mapInsts (Inst.mapOperands transform)).id ∈ preds := isPred
    have moved : safeSuccessor report fallthrough
        (block.mapInsts (Inst.mapOperands transform)).terminator.op =
          safeSuccessor report fallthrough block.terminator.op := safe
    rw [if_pos isPred, if_pos same, moved]
    cases safeSuccessor report fallthrough block.terminator.op <;> rfl
  · have same : (block.mapInsts (Inst.mapOperands transform)).id ∉ preds := isPred
    rw [if_neg isPred, if_neg same]

theorem definitions_redirect (report : BlockId) (fallthrough : Option BlockId)
    (preds : List BlockId) (block : Block) :
    (block.redirect report fallthrough preds).definitions = block.definitions := by
  rw [redirect]
  split
  · split
    · simp [definitions, instructions, setTerminator]
    · rfl
  · rfl

end Block

theorem removeIncomingValue_map (pred : BlockId) (transform : Value → Value)
    (incoming : List (Value × BlockId)) :
    removeIncomingValue pred (incoming.map fun entry => (transform entry.1, entry.2)) =
      (removeIncomingValue pred incoming).map fun entry => (transform entry.1, entry.2) := by
  rw [removeIncomingValue, removeIncomingValue, List.eraseP_map]
  rfl

theorem mapIncoming_mapOperands (pred : BlockId) (transform : Value → Value) (op : Op) :
    (op.mapOperands transform).mapIncoming (removeIncomingValue pred) =
      (op.mapIncoming (removeIncomingValue pred)).mapOperands transform := by
  cases op with
  | phi incoming =>
      simp only [Op.mapOperands, Op.mapIncoming, removeIncomingValue_map]
  | _ => rfl

namespace Function

/-! ## The other blocks -/

/-- The fall-through's phis have lost the entry of the report block. -/
def dropReportEntry (function : Function) (report : Block) : Function :=
  match getReportBlockFallthrough report with
  | some fallthrough =>
      function.updateBlock fallthrough (Block.mapPhis (removeIncomingValue report.id))
  | none => function

/-- The other blocks, as they are when the report block is gone. -/
def detach (function : Function) (report : Block) : Function :=
  (function.dropReportEntry report).dropBlock report.id

/-- The function without the report block: its predecessors branch past it. -/
def splice (function : Function) (report : Block) : Function :=
  (function.detach report).mapBlocks
    (Block.redirect report.id (getReportBlockFallthrough report)
      (function.predecessors report.id))

/-- An edit of every block that leaves the edges of phis alone. -/
structure KeepsIncoming (transform : Block → Block) : Prop where
  id : ∀ block, (transform block).id = block.id
  mapPhis : ∀ pred block, (transform block).mapPhis (removeIncomingValue pred) =
    transform (block.mapPhis (removeIncomingValue pred))

section Detach

variable {function : Function} {report : Block}

theorem detach_mapBlocks {transform : Block → Block} (keeps : KeepsIncoming transform) :
    (function.mapBlocks transform).detach report =
      (function.detach report).mapBlocks transform := by
  have commute : (function.mapBlocks transform).dropReportEntry report =
      (function.dropReportEntry report).mapBlocks transform := by
    rw [dropReportEntry, dropReportEntry]
    split
    · simp only [updateBlock, mapBlocks, List.map_map]
      congr 1
      apply List.map_congr_left
      intro block _
      simp only [Function.comp_apply, keeps.id]
      split
      · exact keeps.mapPhis _ block
      · rfl
    · rfl
  rw [detach, commute, detach, dropBlock, dropBlock, mapBlocks, mapBlocks, List.filter_map]
  congr 3
  funext block
  simp [keeps.id]

theorem keepsIncoming_mapOperands (transform : Value → Value) :
    KeepsIncoming (Block.mapInsts (Inst.mapOperands transform)) where
  id := fun _ => rfl
  mapPhis := by
    intro pred block
    simp [Block.mapPhis, Block.mapInsts, Inst.mapOperands, Function.comp_def,
      mapIncoming_mapOperands]

theorem keepsIncoming_erase (inst : InstId) : KeepsIncoming (Block.erase inst) where
  id := fun _ => rfl
  mapPhis := by
    intro pred block
    simp [Block.mapPhis, Block.erase, List.filter_map, Function.comp_def]

theorem keepsIncoming_branch (pred target : BlockId) :
    KeepsIncoming fun block =>
      if block.id = pred then block.setTerminator (.br target) else block where
  id := by
    intro block
    split <;> rfl
  mapPhis := by
    intro other block
    by_cases chosen : block.id = pred
    · have same : (block.mapPhis (removeIncomingValue other)).id = pred := chosen
      rw [if_pos chosen, if_pos same]
      rfl
    · have same : (block.mapPhis (removeIncomingValue other)).id ≠ pred := chosen
      rw [if_neg chosen, if_neg same]

theorem detach_branchTo (pred target : BlockId) :
    (function.branchTo pred target).detach report =
      (function.detach report).mapBlocks fun block =>
        if block.id = pred then block.setTerminator (.br target) else block :=
  detach_mapBlocks (keepsIncoming_branch pred target)

theorem detach_replaceInst (inst : InstId) (new : Value) :
    (function.replaceInst inst new).detach report =
      (function.detach report).replaceInst inst new := by
  rw [replaceInst, eraseInst, detach_mapBlocks (keepsIncoming_erase inst),
    replaceAllUsesWith, detach_mapBlocks (keepsIncoming_mapOperands _)]
  rfl

/-- What happens in the report block does not show outside. -/
theorem detach_updateBlock {transform : Block → Block}
    (keepsId : ∀ block, (transform block).id = block.id) :
    (function.updateBlock report.id transform).detach report = function.detach report := by
  rw [detach, detach, dropReportEntry, dropReportEntry]
  have same : ∀ change : Block → Block, (∀ block, (change block).id = block.id) →
      ((function.updateBlock report.id transform).mapBlocks change).dropBlock report.id =
        (function.mapBlocks change).dropBlock report.id := by
    intro change keepsId'
    simp only [dropBlock, updateBlock, mapBlocks, List.map_map]
    congr 1
    generalize function.blocks = blocks
    induction blocks with
    | nil => rfl
    | cons head tail induction =>
        rw [List.map_cons, List.map_cons, List.filter_cons, List.filter_cons, induction]
        by_cases atReport : head.id = report.id
        · simp [atReport, keepsId, keepsId']
        · simp [atReport, keepsId']
  split
  · apply same
    intro block
    split <;> rfl
  · have plain := same id fun _ => rfl
    simpa [mapBlocks] using plain

theorem mem_dropReportEntry {block : Block}
    (member : block ∈ (function.dropReportEntry report).blocks) :
    ∃ original ∈ function.blocks, original.id = block.id ∧
      block.terminator = original.terminator ∧ block.definitions = original.definitions := by
  rw [dropReportEntry] at member
  split at member
  · rcases List.mem_map.mp member with ⟨original, originalMember, rfl⟩
    refine ⟨original, originalMember, ?_, ?_, ?_⟩
    · split <;> rfl
    · split <;> rfl
    · split
      · simp [Block.mapPhis, Block.definitions, Block.instructions, Function.comp_def]
      · rfl
  · exact ⟨block, member, rfl, rfl, rfl⟩

theorem mem_detach {block : Block} (member : block ∈ (function.detach report).blocks) :
    block.id ≠ report.id ∧ ∃ original ∈ function.blocks, original.id = block.id ∧
      block.terminator = original.terminator ∧ block.definitions = original.definitions := by
  rcases mem_dropBlock.mp member with ⟨inside, different⟩
  exact ⟨different, mem_dropReportEntry inside⟩

/-- What the report block defines is no instruction of the other blocks. -/
theorem notMem_ids_detach (shaped : function.Shaped) {home : Block}
    (member : home ∈ function.blocks) (atReport : home.id = report.id) {id : InstId}
    (inside : id ∈ home.definitions) : id ∉ (function.detach report).ids := by
  intro present
  rcases List.mem_map.mp present with ⟨inst, instMember, rfl⟩
  rcases mem_instructions.mp instMember with ⟨block, blockMember, instInside⟩
  rcases mem_detach blockMember with ⟨different, original, originalMember, sameId, -, defined⟩
  have inOriginal : inst.id ∈ original.definitions := by
    rw [← defined]
    exact List.mem_map_of_mem instInside
  have same := shaped.block_of_definition originalMember member inOriginal inside
  exact different (sameId.symm.trans ((congrArg Block.id same).trans atReport))

/-! ## The rewriting loop -/

/-- A phi of the report block is replaced in the operands of the other blocks. -/
theorem detach_replacePhi {phi : InstId} (absent : phi ∉ (function.detach report).ids)
    (value : Value) :
    (function.replaceInst phi value).detach report = (function.detach report).mapBlocks
      (Block.mapInsts (Inst.mapOperands (Value.replace phi value))) := by
  rw [detach_replaceInst, replaceInst, replaceAllUsesWith]
  simp only [eraseInst, mapBlocks, List.map_map]
  congr 1
  apply List.map_congr_left
  intro block blockMember
  rw [Function.comp_apply, Block.erase_mapOperands]
  have kept : (block.insts.filter fun other => other.id ≠ phi) = block.insts := by
    apply List.filter_eq_self.mpr
    intro inst instMember
    apply decide_eq_true
    intro equal
    apply absent
    rw [← equal]
    exact List.mem_map_of_mem (mem_instructions.mpr
      ⟨block, blockMember, Block.mem_instructions.mpr (.inl instMember)⟩)
  rw [Block.erase, kept]

variable {replaced : List InstId}

theorem rewords_foldPhi {phi : InstId} (absent : phi ∉ (function.detach report).ids)
    (member : phi ∈ replaced) :
    (function.detach report).Rewords replaced ((function.foldPhi phi).detach report) := by
  rw [foldPhi]
  split
  · split
    · rename_i value _
      refine ⟨_, Value.keepsConstants_replace phi value, ?_, detach_replacePhi absent value⟩
      intro id kept
      apply Value.replace_of_ne
      intro equal
      cases equal
      exact kept member
    · exact .refl _ _
  · exact .refl _ _

theorem rewords_foldPhis {phis : List InstId}
    (absent : ∀ phi ∈ phis, phi ∉ (function.detach report).ids)
    (members : ∀ phi ∈ phis, phi ∈ replaced) :
    (function.detach report).Rewords replaced
      ((phis.foldl foldPhi function).detach report) := by
  induction phis generalizing function with
  | nil => exact .refl _ _
  | cons head tail induction =>
      have first := rewords_foldPhi (absent head (List.mem_cons_self ..))
        (members head (List.mem_cons_self ..))
      rw [List.foldl_cons]
      apply first.trans
      apply induction
      · intro phi member
        rw [first.ids_eq]
        exact absent phi (List.mem_cons_of_mem _ member)
      · exact fun phi member => members phi (List.mem_cons_of_mem _ member)

theorem mem_phisOf {block : BlockId} {phi : InstId} (member : phi ∈ function.phisOf block) :
    ∃ home ∈ function.blocks, home.id = block ∧
      ∃ inst ∈ home.insts, inst.id = phi ∧ inst.op.isPhi = true := by
  rw [phisOf] at member
  cases found : function.block? block with
  | none =>
      rw [found] at member
      cases member
  | some home =>
      rw [found] at member
      rcases List.mem_map.mp member with ⟨inst, inside, rfl⟩
      exact ⟨home, List.mem_of_find?_eq_some found, by simpa using List.find?_some found,
        inst, (List.mem_filter.mp inside).1, rfl, (List.mem_filter.mp inside).2⟩

theorem mem_definitions_of_mem_phisOf {block : BlockId} {phi : InstId}
    (member : phi ∈ function.phisOf block) :
    ∃ home ∈ function.blocks, home.id = block ∧ phi ∈ home.definitions := by
  rcases mem_phisOf member with ⟨home, homeMember, address, inst, inside, rfl, -⟩
  exact ⟨home, homeMember, address,
    List.mem_map_of_mem (Block.mem_instructions.mpr (.inl inside))⟩

/-- An edit makes no phi. -/
theorem phisOf_subset {relation : Block → Block → Prop} {edited : Function}
    (shaped : function.Shaped) (edits : function.Edits relation edited) (block : BlockId) :
    edited.phisOf block ⊆ function.phisOf block := by
  intro phi member
  rcases mem_phisOf member with ⟨after, afterMember, address, inst, inside, rfl, isPhi⟩
  rcases edits.exists_before afterMember with ⟨before, beforeMember, carries, -⟩
  rcases carries.phis inst inside isPhi with ⟨original, originalMember, sameId, originalPhi⟩
  rw [phisOf, ← address, carries.id, shaped.block?_eq beforeMember, Option.map_some,
    Option.getD_some, ← sameId]
  exact List.mem_map_of_mem (List.mem_filter.mpr ⟨originalMember, originalPhi⟩)

theorem edits_dropEntries (block pred : BlockId) :
    function.Edits (fun _ _ => True)
      (function.updateBlock block (Block.mapPhis (removeIncomingValue pred))) := by
  refine ⟨_, rfl, ?_⟩
  intro candidate _
  split
  · exact ⟨Block.carries_mapPhis _ candidate, trivial⟩
  · exact ⟨.refl candidate, trivial⟩

/-- A predecessor of the report block drops out, and the other blocks have phis of the
report block replaced. -/
theorem rewords_removePredecessor (shaped : function.Shaped) (pred : BlockId)
    (known : function.phisOf report.id ⊆ replaced) :
    (function.detach report).Rewords replaced
      ((function.removePredecessor report.id pred).detach report) := by
  have dropped : function.Edits (fun _ _ => True)
      (function.updateBlock report.id (Block.mapPhis (removeIncomingValue pred))) :=
    edits_dropEntries report.id pred
  have same : (function.updateBlock report.id
      (Block.mapPhis (removeIncomingValue pred))).detach report = function.detach report :=
    detach_updateBlock fun _ => rfl
  rw [removePredecessor, ← same]
  apply rewords_foldPhis
  · intro phi member
    rcases mem_definitions_of_mem_phisOf member with ⟨home, homeMember, atReport, inside⟩
    exact notMem_ids_detach (dropped.shaped shaped) homeMember atReport inside
  · exact fun phi member => known (phisOf_subset shaped dropped report.id member)

/-- One turn of the rewriting loop redirects one branch. -/
theorem detach_bypassPredecessor (values : ValueTable) {fallthrough : Option BlockId}
    (shaped : function.Shaped) (slice : CheckSlice) {head : BlockId} {tail : List BlockId}
    (fresh : head ∉ tail)
    (accepted : function.acceptsPredecessor report.id fallthrough head = true)
    {change : Value → Value}
    (removed : (function.removePredecessor report.id head).detach report =
      (function.detach report).mapBlocks (Block.mapInsts (Inst.mapOperands change))) :
    ((bypassPredecessor values report.id fallthrough (function, slice) head).1.detach
        report).mapBlocks (Block.redirect report.id fallthrough tail) =
      ((function.detach report).mapBlocks
        (Block.redirect report.id fallthrough (head :: tail))).mapBlocks
          (Block.mapInsts (Inst.mapOperands change)) := by
  rw [acceptsPredecessor] at accepted
  cases found : function.block? head with
  | none =>
      rw [found] at accepted
      cases accepted
  | some block =>
      rw [found] at accepted
      rcases Option.isSome_iff_exists.mp accepted with ⟨target, safe⟩
      rcases mem_of_block? found with ⟨blockMember, address⟩
      simp only [bypassPredecessor, found, bypassSuccessor_of_safe safe]
      rw [detach_branchTo, removed]
      simp only [mapBlocks, List.map_map]
      congr 1
      apply List.map_congr_left
      intro candidate member
      rcases mem_detach member with ⟨-, before, beforeMember, sameId, last, -⟩
      simp only [Function.comp_apply]
      rw [← Block.redirect_mapOperands]
      by_cases chosen : candidate.id = head
      · have same : before = block := shaped.block_eq beforeMember blockMember
          (sameId.trans (chosen.trans address.symm))
        have moved : safeSuccessor report.id fallthrough
            (candidate.mapInsts (Inst.mapOperands change)).terminator.op = some target := by
          have kept : safeSuccessor report.id fallthrough
              (candidate.terminator.op.mapOperands change) =
                safeSuccessor report.id fallthrough candidate.terminator.op := by
            cases candidate.terminator.op <;> rfl
          rw [← same, ← last] at safe
          exact kept.trans safe
        have isHead : (candidate.mapInsts (Inst.mapOperands change)).id = head := chosen
        have notTail : ((candidate.mapInsts (Inst.mapOperands change)).setTerminator
            (.br target)).id ∉ tail := by
          rw [Block.id_setTerminator, isHead]
          exact fresh
        rw [if_pos isHead, Block.redirect, Block.redirect, if_neg notTail,
          if_pos (List.mem_cons.mpr (.inl isHead)), moved]
      · have notHead : (candidate.mapInsts (Inst.mapOperands change)).id ≠ head := chosen
        rw [if_neg notHead, Block.redirect, Block.redirect]
        simp only [List.mem_cons, notHead, false_or]

/-- The rewriting loop redirects the branches of the other blocks. -/
theorem rewords_bypassPredecessors (values : ValueTable) {fallthrough : Option BlockId}
    (shaped : function.Shaped) {slice : CheckSlice} {preds : List BlockId}
    (nodup : preds.Nodup)
    (accepted : ∀ pred ∈ preds,
      function.acceptsPredecessor report.id fallthrough pred = true)
    (known : function.phisOf report.id ⊆ replaced) :
    ((function.detach report).mapBlocks
      (Block.redirect report.id fallthrough preds)).Rewords replaced
        ((preds.foldl (bypassPredecessor values report.id fallthrough)
          (function, slice)).1.detach report) := by
  induction preds generalizing function slice with
  | nil =>
      have same : Block.redirect report.id fallthrough [] = id := by
        funext block
        rw [Block.redirect, if_neg List.not_mem_nil, id]
      rw [same, mapBlocks, List.map_id]
      exact .refl _ _
  | cons head tail induction =>
      have parts := List.nodup_cons.mp nodup
      have headAccepted := accepted head (List.mem_cons_self ..)
      have first : function.Edits (Redirected report.id fallthrough [head])
          (bypassPredecessor values report.id fallthrough (function, slice) head).1 :=
        edits_bypassPredecessor shaped headAccepted
      have still : ∀ pred ∈ tail, (bypassPredecessor values report.id fallthrough
          (function, slice) head).1.acceptsPredecessor report.id fallthrough pred = true := by
        intro pred member
        exact acceptsPredecessor_of_redirected shaped first
          (fun inHead => parts.1 (List.mem_singleton.mp inHead ▸ member))
          (accepted pred (List.mem_cons_of_mem _ member))
      have stillKnown : (bypassPredecessor values report.id fallthrough
          (function, slice) head).1.phisOf report.id ⊆ replaced :=
        fun _ member => known (phisOf_subset shaped first report.id member)
      have rest : (((bypassPredecessor values report.id fallthrough (function, slice)
          head).1.detach report).mapBlocks
            (Block.redirect report.id fallthrough tail)).Rewords replaced
          ((tail.foldl (bypassPredecessor values report.id fallthrough)
            (bypassPredecessor values report.id fallthrough (function, slice)
              head)).1.detach report) :=
        induction (first.shaped shaped) parts.2 still stillKnown
      rcases rewords_removePredecessor shaped head known with ⟨change, keeps, fixes, removed⟩
      rw [List.foldl_cons]
      apply Rewords.trans _ rest
      exact ⟨change, keeps, fixes,
        detach_bypassPredecessor values shaped slice parts.1 headAccepted removed⟩

end Detach

/-! ## The bypass -/

theorem definedIn_dropReportEntry (function : Function) (report : Block) :
    (function.dropReportEntry report).definedIn report.id = function.definedIn report.id := by
  have one : ∀ (block : Block) (pred : BlockId),
      (block.mapPhis (removeIncomingValue pred)).definitions = block.definitions := by
    intro block pred
    simp [Block.mapPhis, Block.definitions, Block.instructions, Function.comp_def]
  rw [dropReportEntry]
  split
  · rename_i fallthrough _
    rw [definedIn, definedIn, updateBlock, blocks_mapBlocks, List.filter_map,
      List.flatMap_map]
    have same : ((fun candidate : Block => decide (candidate.id = report.id)) ∘
        fun candidate : Block => if candidate.id = fallthrough then
          candidate.mapPhis (removeIncomingValue report.id) else candidate) =
            fun candidate : Block => decide (candidate.id = report.id) := by
      funext candidate
      rw [Function.comp_apply]
      split <;> rfl
    rw [same]
    apply List.flatMap_congr
    intro candidate _
    split
    · exact one candidate report.id
    · rfl
  · rfl

/-- Erasing the report block makes poison of what it defined. -/
theorem eraseBlock_dropReportEntry (function : Function) (report : Block) :
    (function.dropReportEntry report).eraseBlock report.id = (function.detach report).mapBlocks
      (Block.mapInsts (Inst.mapOperands
        (Value.poisonWhere (function.definedIn report.id)))) := by
  rw [eraseBlock, definedIn_dropReportEntry]
  simp only [detach, dropBlock, mapBlocks, List.filter_map]
  rfl

/-! ### The only predecessor -/

theorem foldPhi_empty {function : Function} {phi : Inst} (shaped : function.Shaped)
    (member : phi ∈ function.instructions) (empty : phi.op = .phi []) :
    function.foldPhi phi.id = function.replaceInst phi.id .poison := by
  rw [foldPhi, shaped.inst?_eq member, Option.map_some, empty]
  rfl

/-- Phis without an entry are poison. -/
theorem detach_foldPhis_empty {function : Function} {report : Block} {phis : List InstId}
    (shaped : function.Shaped) (nodup : phis.Nodup)
    (absent : ∀ phi ∈ phis, phi ∉ (function.detach report).ids)
    (empty : ∀ phi ∈ phis, ∃ inst ∈ function.instructions, inst.id = phi ∧
      inst.op = .phi []) :
    (phis.foldl foldPhi function).detach report = (function.detach report).mapBlocks
      (Block.mapInsts (Inst.mapOperands (Value.poisonWhere phis))) := by
  induction phis generalizing function with
  | nil =>
      have same : Value.poisonWhere [] = fun value => value := by
        funext value
        cases value <;> rfl
      rw [List.foldl_nil, same, mapOperands_id]
  | cons head tail induction =>
      have parts := List.nodup_cons.mp nodup
      rcases empty head (List.mem_cons_self ..) with ⟨inst, member, rfl, isPhi⟩
      have folded := foldPhi_empty shaped member isPhi
      have first := detach_replacePhi (absent inst.id (List.mem_cons_self ..)) .poison
      have edits := edits_foldPhi shaped inst.id
      rw [folded] at edits
      rw [List.foldl_cons, folded, induction (edits.shaped shaped) parts.2, first,
        mapOperands_mapOperands]
      · congr 3
        funext value
        cases value with
        | inst id =>
            rw [Function.comp_apply, Value.replace]
            by_cases same : id = inst.id
            · rw [if_pos (congrArg Value.inst same), same]
              exact (if_pos (List.mem_cons_self ..)).symm
            · rw [if_neg fun equal => same (Value.inst.inj equal)]
              simp only [Value.poisonWhere, List.mem_cons, same, false_or]
        | other id => rfl
        | poison => rfl
      · intro phi inTail
        rw [first, ids_mapOperands]
        exact absent phi (List.mem_cons_of_mem _ inTail)
      · intro phi inTail
        rcases empty phi (List.mem_cons_of_mem _ inTail) with ⟨other, otherMember, rfl, none⟩
        refine ⟨other.mapOperands (Value.replace inst.id .poison),
          (mem_instructions_replaceInst shaped member isPhi).mpr
            ⟨other, otherMember, ?_, rfl⟩, rfl, ?_⟩
        · intro equal
          exact parts.1 (equal ▸ inTail)
        · rw [Inst.op_mapOperands, none]
          rfl

/-- The only predecessor of the report block brings all that its phis have. -/
def LosesPhis (function : Function) (report : Block) : Prop :=
  ∃ pred, function.predecessors report.id = [pred] ∧ ∀ inst ∈ report.insts, ∀ incoming,
    inst.op = .phi incoming → removeIncomingValue pred incoming = []

/-- What the operands of the other blocks stand for once the report block is gone. A phi
of it may have been folded before. -/
structure Buries (function : Function) (report : Block) (transform : Value → Value) :
    Prop where
  keeps : Value.KeepsConstants transform
  others : ∀ id, id ∉ report.definitions → transform (.inst id) = .inst id
  values : ∀ id ∈ report.definitions, id ∉ function.phisOf report.id →
    transform (.inst id) = .poison
  phis : function.LosesPhis report → ∀ id ∈ report.definitions,
    transform (.inst id) = .poison

section Bypass

variable {function : Function} {values : ValueTable} {check : InstId} {report : Block}
  (bypassable : function.Bypassable values check report) (shaped : function.Shaped)
  (slice : CheckSlice)
include bypassable shaped

theorem Bypassable.phisOf_subset_definitions :
    function.phisOf report.id ⊆ report.definitions := by
  intro phi member
  rcases mem_definitions_of_mem_phisOf member with ⟨home, homeMember, address, inside⟩
  exact shaped.block_eq homeMember bypassable.report_mem.1 address ▸ inside

/-- All phis of the report block are poison after its only predecessor is gone. -/
theorem Bypassable.detach_removePredecessor {pred : BlockId}
    (empty : ∀ inst ∈ report.insts, ∀ incoming, inst.op = .phi incoming →
      removeIncomingValue pred incoming = []) :
    (function.removePredecessor report.id pred).detach report =
      (function.detach report).mapBlocks (Block.mapInsts (Inst.mapOperands
        (Value.poisonWhere (function.phisOf report.id)))) := by
  have dropped : function.Edits (fun _ _ => True)
      (function.updateBlock report.id (Block.mapPhis (removeIncomingValue pred))) :=
    edits_dropEntries report.id pred
  have same : (function.updateBlock report.id
      (Block.mapPhis (removeIncomingValue pred))).detach report = function.detach report :=
    detach_updateBlock fun _ => rfl
  have reportMember := bypassable.report_mem.1
  have phisAfter : (function.updateBlock report.id
      (Block.mapPhis (removeIncomingValue pred))).phisOf report.id =
        function.phisOf report.id := by
    have member : report.mapPhis (removeIncomingValue pred) ∈ (function.updateBlock report.id
        (Block.mapPhis (removeIncomingValue pred))).blocks :=
      List.mem_map.mpr ⟨report, reportMember, if_pos rfl⟩
    have found := (dropped.shaped shaped).block?_eq member
    rw [Block.id_mapPhis] at found
    rw [phisOf, phisOf, found, shaped.block?_eq reportMember, Option.map_some,
      Option.map_some, Option.getD_some, Option.getD_some, Block.phis, Block.phis,
      Block.mapPhis, List.filter_map, List.map_map]
    have kinds : ((fun inst : Inst => inst.op.isPhi) ∘ fun inst : Inst =>
        { inst with op := inst.op.mapIncoming (removeIncomingValue pred) }) =
          fun inst : Inst => inst.op.isPhi := by
      funext inst
      exact inst.op.isPhi_mapIncoming (removeIncomingValue pred)
    rw [kinds]
    rfl
  rw [removePredecessor, ← same, ← phisAfter]
  apply detach_foldPhis_empty (dropped.shaped shaped)
  · rw [phisAfter, phisOf, shaped.block?_eq reportMember, Option.map_some, Option.getD_some]
    have nodup := Block.nodup_definitions shaped reportMember
    rw [Block.definitions_eq] at nodup
    exact (List.filter_sublist.map Inst.id).nodup (List.nodup_append.mp nodup).1
  · intro phi member
    rcases mem_definitions_of_mem_phisOf member with ⟨home, homeMember, atReport, inside⟩
    exact notMem_ids_detach (dropped.shaped shaped) homeMember atReport inside
  · intro phi member
    rcases mem_phisOf member with ⟨home, homeMember, atReport, inst, inside, rfl, isPhi⟩
    refine ⟨inst, mem_instructions.mpr
      ⟨home, homeMember, Block.mem_instructions.mpr (.inl inside)⟩, rfl, ?_⟩
    rcases List.mem_map.mp homeMember with ⟨original, originalMember, rfl⟩
    by_cases isReport : original.id = report.id
    · rw [if_pos isReport] at inside
      rw [shaped.block_eq originalMember reportMember isReport] at inside
      rcases List.mem_map.mp inside with ⟨before, beforeMember, rfl⟩
      have beforePhi : before.op.isPhi = true :=
        (before.op.isPhi_mapIncoming (removeIncomingValue pred)).symm.trans isPhi
      rcases Op.exists_of_isPhi beforePhi with ⟨incoming, kind⟩
      simp only [kind, Op.mapIncoming]
      rw [empty before beforeMember incoming kind]
    · rw [if_neg isReport] at atReport
      exact absurd atReport isReport

/-- The rewriting loop redirects branches and buries phis. -/
theorem Bypassable.exists_detach_rewritten :
    ∃ transform, Value.KeepsConstants transform ∧
      (∀ id, id ∉ function.phisOf report.id → transform (.inst id) = .inst id) ∧
        (function.LosesPhis report → ∀ id ∈ function.phisOf report.id,
          transform (.inst id) = .poison) ∧
          (function.rewritten values slice report).1.detach report =
            (function.splice report).mapBlocks
              (Block.mapInsts (Inst.mapOperands transform)) := by
  by_cases single : function.LosesPhis report
  · rcases single with ⟨pred, only, empty⟩
    have accepted := bypassable.preds pred (only ▸ List.mem_singleton_self pred)
    have removed := bypassable.detach_removePredecessor shaped empty
    have turn := detach_bypassPredecessor values shaped slice List.not_mem_nil accepted removed
    have same : Block.redirect report.id (getReportBlockFallthrough report) [] = id := by
      funext block
      rw [Block.redirect, if_neg List.not_mem_nil, id]
    rw [same, mapBlocks, List.map_id] at turn
    refine ⟨_, Value.keepsConstants_poisonWhere (function.phisOf report.id), ?_, ?_, ?_⟩
    · exact fun id kept => if_neg kept
    · exact fun _ id member => if_pos member
    · rw [rewritten, splice, only]
      exact turn
  · have rewords : (function.splice report).Rewords (function.phisOf report.id)
        ((function.rewritten values slice report).1.detach report) :=
      rewords_bypassPredecessors values shaped (nodup_predecessors shaped bypassable.preds)
        bypassable.preds (List.Subset.refl _)
    rcases rewords with ⟨transform, keeps, fixes, equal⟩
    exact ⟨transform, keeps, fixes, fun loses => absurd loses single, equal⟩

theorem Bypassable.mem_definedIn_rewritten {id : InstId}
    (member : id ∈ report.definitions) (notPhi : id ∉ function.phisOf report.id) :
    id ∈ (function.rewritten values slice report).1.definedIn report.id := by
  rcases (bypassable.edits_rewritten shaped).exists_after bypassable.report_mem.1 with
    ⟨after, afterMember, carries, -⟩
  refine mem_definedIn.mpr ⟨after, afterMember, carries.id, ?_⟩
  rcases List.mem_map.mp member with ⟨inst, inside, rfl⟩
  rcases Block.mem_instructions.mp inside with body | last
  · have isBody : inst.op.isPhi = false := by
      apply Bool.eq_false_iff.mpr
      intro isPhi
      apply notPhi
      rw [phisOf, shaped.block?_eq bypassable.report_mem.1, Option.map_some,
        Option.getD_some]
      exact List.mem_map_of_mem (List.mem_filter.mpr ⟨body, isPhi⟩)
    rcases carries.kept inst body isBody with ⟨edited, editedMember, sameId, -⟩
    rw [← sameId]
    exact List.mem_map_of_mem (Block.mem_instructions.mpr (.inl editedMember))
  · rw [last, ← carries.terminator]
    exact after.terminator_mem_definitions

theorem Bypassable.definedIn_rewritten_subset :
    (function.rewritten values slice report).1.definedIn report.id ⊆ report.definitions := by
  intro id member
  rcases mem_definedIn.mp member with ⟨after, afterMember, address, inside⟩
  rcases (bypassable.edits_rewritten shaped).exists_before afterMember with
    ⟨before, beforeMember, carries, -⟩
  have same := shaped.block_eq beforeMember bypassable.report_mem.1
    (carries.id.symm.trans address)
  exact same ▸ carries.instructions.subset inside

theorem Bypassable.exists_buries :
    ∃ transform, function.Buries report transform ∧
      ((function.rewritten values slice report).1.dropReportEntry report).eraseBlock report.id =
        (function.splice report).mapBlocks (Block.mapInsts (Inst.mapOperands transform)) := by
  rcases bypassable.exists_detach_rewritten shaped slice with
    ⟨change, keeps, fixes, poisons, equal⟩
  have inside := bypassable.phisOf_subset_definitions shaped
  have dead := bypassable.definedIn_rewritten_subset shaped slice
  have poison : ∀ id ∈ report.definitions, id ∉ function.phisOf report.id →
      (Value.poisonWhere ((function.rewritten values slice report).1.definedIn report.id) ∘
        change) (.inst id) = .poison := by
    intro id member notPhi
    rw [Function.comp_apply, fixes id notPhi]
    exact if_pos (bypassable.mem_definedIn_rewritten shaped slice member notPhi)
  refine ⟨Value.poisonWhere
    ((function.rewritten values slice report).1.definedIn report.id) ∘ change, ?_, ?_⟩
  · constructor
    · intro value constant
      rw [Function.comp_apply, keeps value constant]
      exact Value.keepsConstants_poisonWhere _ value constant
    · intro id outside
      rw [Function.comp_apply, fixes id fun member => outside (inside member)]
      exact if_neg fun member => outside (dead member)
    · exact poison
    · intro loses id member
      by_cases isPhi : id ∈ function.phisOf report.id
      · rw [Function.comp_apply, poisons loses id isPhi]
        rfl
      · exact poison id member isPhi
  · rw [eraseBlock_dropReportEntry, equal, mapOperands_mapOperands]

/-- A bypass splices the report block out, buries its values and folds phis of the
fall-through. -/
theorem Bypassable.folds_splice :
    ∃ transform, function.Buries report transform ∧
      ((function.splice report).mapBlocks
        (Block.mapInsts (Inst.mapOperands transform))).Folds
          (function.bypassReportBlock values slice check).function := by
  have rewriting :=
    @Bypassable.edits_rewritten function values check report slice bypassable shaped
  rcases bypassable.exists_buries shaped slice with ⟨transform, buries, equal⟩
  refine ⟨transform, buries, ?_⟩
  rw [bypassable.bypassReportBlock_eq shaped, ← equal]
  generalize (function.rewritten values slice report).1 = rewritten at rewriting
  have whole := rewriting.shaped shaped
  have successors : rewritten.successors report.id =
      (getReportBlockFallthrough report).toList := by
    rcases rewriting.exists_after bypassable.report_mem.1 with
      ⟨after, afterMember, carries, redirected⟩
    have notPred : report.id ∉ function.predecessors report.id := by
      rw [mem_predecessors]
      exact bypassable.noLoop shaped
    rw [Redirected, if_neg notPred] at redirected
    rw [← carries.id, whole.successors_eq afterMember, Block.successors,
      redirected.successors_eq]
    exact successors_of_isReportBlockTerminator bypassable.terminator
  have different : ∀ fallthrough, getReportBlockFallthrough report = some fallthrough →
      fallthrough ≠ report.id := by
    intro fallthrough found equal
    exact bypassable.noLoop shaped
      ((bypassable.edge_report_iff shaped).mpr (equal ▸ found))
  cases found : getReportBlockFallthrough report with
  | none =>
      rw [found] at successors
      have dropped : rewritten.dropReportEntry report = rewritten := by
        rw [dropReportEntry, found]
      rw [dropped, deleteDeadBlock, successors]
      exact .refl _
  | some fallthrough =>
      rw [found] at successors
      have dropped : rewritten.dropReportEntry report = rewritten.updateBlock fallthrough
          (Block.mapPhis (removeIncomingValue report.id)) := by
        rw [dropReportEntry, found]
      have edits : rewritten.Edits (fun _ _ => True) (rewritten.updateBlock fallthrough
          (Block.mapPhis (removeIncomingValue report.id))) :=
        edits_dropEntries fallthrough report.id
      have droppedShaped : (rewritten.dropReportEntry report).Shaped :=
        dropped ▸ edits.shaped whole
      rw [deleteDeadBlock, successors, Option.toList_some, List.foldl_cons, List.foldl_nil,
        removePredecessor, ← dropped]
      apply folds_eraseBlock
      intro phi member defined
      rcases mem_definitions_of_mem_phisOf member with ⟨home, homeMember, address, inside⟩
      rcases mem_definedIn.mp defined with ⟨other, otherMember, atReport, again⟩
      have same := droppedShaped.block_of_definition homeMember otherMember inside again
      apply different fallthrough found
      rw [← address, same, atReport]

theorem Bypassable.folds :
    ∃ forgotten, (function.splice report).Forgets forgotten ∧
      forgotten.Folds (function.bypassReportBlock values slice check).function := by
  rcases bypassable.folds_splice shaped slice with ⟨transform, buries, folds⟩
  refine ⟨_, ⟨transform, buries.keeps, ?_, rfl⟩, folds⟩
  intro id member
  apply buries.others
  intro inside
  have same : (function.splice report).ids = (function.detach report).ids := by
    simp only [splice, ids, instructions, blocks_mapBlocks, List.flatMap_map,
      List.map_flatMap]
    exact List.flatMap_congr fun block _ =>
      Block.definitions_redirect report.id (getReportBlockFallthrough report)
        (function.predecessors report.id) block
  rw [same] at member
  exact notMem_ids_detach shaped bypassable.report_mem.1 rfl inside member

end Bypass

end Function

end Desan
