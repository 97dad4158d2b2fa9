import Desan.CheckSliceRemover.Bypass

/-! # A bypass splices paths

The blocks after a bypass are the old ones without the report block, and control goes
straight from its predecessors to where it led. -/

namespace Desan

theorem successors_of_isReportBlockTerminator {report : Block}
    (terminator : isReportBlockTerminator report.terminator.op = true) :
    report.successors = (getReportBlockFallthrough report).toList := by
  rw [Block.successors, getReportBlockFallthrough]
  cases kind : report.terminator.op with
  | br destination => rfl
  | unreachable => rfl
  | _ =>
      rw [kind] at terminator
      cases terminator

/-- An accepted branch leads to the report block and past it, and nowhere else. -/
theorem eq_or_eq_of_safe {report target successor : BlockId} {fallthrough : Option BlockId}
    {op : Op} (safe : safeSuccessor report fallthrough op = some target)
    (toReport : report ∈ op.successors) (member : successor ∈ op.successors) :
    successor = report ∨ successor = target := by
  rcases safeSuccessor_cases safe with ⟨-, conditional | unconditional⟩
  · rcases conditional with ⟨condition, rfl | rfl, -⟩
    · simpa [Op.successors] using member
    · simpa [Op.successors, or_comm] using member
  · rcases unconditional with ⟨⟨destination, rfl⟩, -⟩
    have only : report = destination := List.mem_singleton.mp toReport
    exact .inl ((List.mem_singleton.mp member).trans only.symm)

/-- The safe successor is another successor of the branch or the fall-through. -/
theorem mem_or_eq_of_safe {report target : BlockId} {fallthrough : Option BlockId} {op : Op}
    (safe : safeSuccessor report fallthrough op = some target) :
    target ∈ op.successors ∨ fallthrough = some target := by
  rcases safeSuccessor_cases safe with ⟨-, conditional | unconditional⟩
  · rcases conditional with ⟨condition, rfl | rfl, -⟩
    · exact .inl (by simp [Op.successors])
    · exact .inl (by simp [Op.successors])
  · exact .inr unconditional.2

/-- Where the report block falls through to is where its predecessors branch. -/
theorem eq_of_safe_fallthrough {report target next : BlockId} {fallthrough : Option BlockId}
    {op : Op} (safe : safeSuccessor report fallthrough op = some target)
    (found : fallthrough = some next) : next = target := by
  rcases safeSuccessor_cases safe with ⟨-, conditional | unconditional⟩
  · rcases conditional with ⟨-, -, none | some⟩
    · rw [found] at none
      cases none
    · exact Option.some.inj (found.symm.trans some)
  · exact Option.some.inj (found.symm.trans unconditional.2)

namespace Function

variable {function edited : Function} {values : ValueTable} {check : InstId} {report : Block}

theorem isEntry_dropBlock {relation : Block → Block → Prop}
    (edits : function.Edits relation edited) {entry block : BlockId}
    (isEntry : function.IsEntry entry) (different : entry ≠ block) :
    (edited.dropBlock block).IsEntry entry := by
  rcases edits with ⟨transform, rfl, kept⟩
  rw [IsEntry, entry?] at isEntry ⊢
  cases found : function.blocks with
  | nil =>
      rw [found] at isEntry
      cases isEntry
  | cons head tail =>
      rw [found] at isEntry
      have address : head.id = entry := Option.some.inj isEntry
      have carried := (kept head (found ▸ List.mem_cons_self ..)).1.id
      rw [dropBlock, blocks_mapBlocks, found, List.map_cons, List.filter_cons_of_pos]
      · exact congrArg some (carried.trans address)
      · simpa [carried, address] using different

theorem Bypassable.edge_report_iff (bypassable : function.Bypassable values check report)
    (shaped : function.Shaped) {target : BlockId} :
    function.Edge report.id target ↔ getReportBlockFallthrough report = some target := by
  have successors := successors_of_isReportBlockTerminator bypassable.terminator
  rw [Function.edge_iff]
  constructor
  · intro edge
    rcases edge with ⟨block, member, equal, inside⟩
    rw [shaped.block_eq member bypassable.report_mem.1 equal, successors] at inside
    exact Option.mem_toList.mp inside
  · intro found
    refine ⟨report, bypassable.report_mem.1, rfl, ?_⟩
    rw [successors]
    exact Option.mem_toList.mpr found

/-- The report block is no predecessor of its own. -/
theorem Bypassable.noLoop (bypassable : function.Bypassable values check report)
    (shaped : function.Shaped) : ¬function.Edge report.id report.id := by
  intro loop
  have accepted := bypassable.preds report.id (mem_predecessors.mpr loop)
  rcases (acceptsPredecessor_iff shaped bypassable.report_mem.1).mp accepted with
    ⟨target, safe⟩
  have same := eq_of_safe_fallthrough safe ((bypassable.edge_report_iff shaped).mp loop)
  exact (safeSuccessor_cases safe).1 same.symm

section Edits

variable (bypassable : function.Bypassable values check report) (shaped : function.Shaped)
  (edits : function.Edits
    (Redirected report.id (getReportBlockFallthrough report)
      (function.predecessors report.id)) edited)
include bypassable shaped edits

/-- Every edge of the new graph is an edge of the old one, or two over the report
block. -/
theorem Bypassable.edge_of_edge_dropBlock {source target : BlockId}
    (edge : (edited.dropBlock report.id).Edge source target) :
    source ≠ report.id ∧ target ≠ report.id ∧ (function.Edge source target ∨
      function.Edge source report.id ∧ function.Edge report.id target) := by
  rcases Function.edge_iff.mp edge with ⟨after, dropped, rfl, inside⟩
  rcases mem_dropBlock.mp dropped with ⟨afterMember, sourceNot⟩
  rcases edits.exists_before afterMember with ⟨block, member, carries, redirected⟩
  rw [carries.id]
  rw [carries.id] at sourceNot
  rw [Redirected] at redirected
  split at redirected
  · rename_i isPred
    rcases redirected with ⟨safeSucc, safe, branch⟩
    rw [Block.successors, branch] at inside
    have equal : target = safeSucc := List.mem_singleton.mp inside
    have toReport := mem_predecessors.mp isPred
    refine ⟨sourceNot, equal ▸ (safeSuccessor_cases safe).1, ?_⟩
    rcases mem_or_eq_of_safe safe with other | past
    · exact .inl (Function.edge_iff.mpr ⟨block, member, rfl, equal ▸ other⟩)
    · exact .inr ⟨toReport, (bypassable.edge_report_iff shaped).mpr (equal ▸ past)⟩
  · rename_i notPred
    rw [Block.successors, redirected.successors_eq] at inside
    have old : function.Edge block.id target :=
      Function.edge_iff.mpr ⟨block, member, rfl, inside⟩
    exact ⟨sourceNot, fun equal => notPred (mem_predecessors.mpr (equal ▸ old)), .inl old⟩

theorem Bypassable.edge_dropBlock {source target : BlockId}
    (sourceNot : source ≠ report.id) (targetNot : target ≠ report.id)
    (old : function.Edge source target ∨
      function.Edge source report.id ∧ function.Edge report.id target) :
    (edited.dropBlock report.id).Edge source target := by
  have fromBlock : ∃ block ∈ function.blocks, block.id = source ∧
      (target ∈ block.successors ∨ report.id ∈ block.successors ∧
        getReportBlockFallthrough report = some target) := by
    rcases old with direct | through
    · rcases Function.edge_iff.mp direct with ⟨block, member, equal, inside⟩
      exact ⟨block, member, equal, .inl inside⟩
    · rcases Function.edge_iff.mp through.1 with ⟨block, member, equal, inside⟩
      exact ⟨block, member, equal,
        .inr ⟨inside, (bypassable.edge_report_iff shaped).mp through.2⟩⟩
  rcases fromBlock with ⟨block, member, rfl, leads⟩
  rcases edits.exists_after member with ⟨after, afterMember, carries, redirected⟩
  refine Function.edge_iff.mpr ⟨after, mem_dropBlock.mpr ⟨afterMember, ?_⟩, carries.id, ?_⟩
  · rw [carries.id]
    exact sourceNot
  · rw [Redirected] at redirected
    split at redirected
    · rename_i isPred
      rcases redirected with ⟨safeSucc, safe, branch⟩
      rcases Function.edge_iff.mp (mem_predecessors.mp isPred) with
        ⟨pred, predMember, address, inReport⟩
      rw [shaped.block_eq predMember member address] at inReport
      have equal : target = safeSucc := by
        rcases leads with direct | past
        · exact (eq_or_eq_of_safe safe inReport direct).resolve_left targetNot
        · exact eq_of_safe_fallthrough safe past.2
      rw [Block.successors, branch, equal]
      exact List.mem_singleton_self _
    · rename_i notPred
      rw [Block.successors, redirected.successors_eq]
      rcases leads with direct | past
      · exact direct
      · exact absurd (mem_predecessors.mpr
          (Function.edge_iff.mpr ⟨block, member, rfl, past.1⟩)) notPred

omit shaped in
theorem Bypassable.isEntry_iff (notEntry : ¬function.IsEntry report.id) (block : BlockId) :
    (edited.dropBlock report.id).IsEntry block ↔ function.IsEntry block := by
  have forward : ∀ entry, function.IsEntry entry →
      (edited.dropBlock report.id).IsEntry entry := by
    intro entry isEntry
    exact isEntry_dropBlock edits isEntry fun equal => notEntry (equal ▸ isEntry)
  constructor
  · intro isEntry
    cases found : function.blocks with
    | nil =>
        have report_mem := bypassable.report_mem.1
        rw [found] at report_mem
        cases report_mem
    | cons head tail =>
        have old : function.IsEntry head.id := by rw [IsEntry, entry?, found]; rfl
        have same : some head.id = some block := (forward head.id old).symm.trans isEntry
        exact Option.some.inj same ▸ old
  · exact forward block

/-- The control-flow graph after a bypass is the old one with the report block taken
out. -/
theorem Bypassable.splices (notEntry : ¬function.IsEntry report.id) :
    Walk.Splices report.id function.IsEntry function.Edge
      (edited.dropBlock report.id).IsEntry (edited.dropBlock report.id).Edge where
  start_iff := bypassable.isEntry_iff edits notEntry
  notStart := notEntry
  edge_iff := fun _ _ =>
    ⟨bypassable.edge_of_edge_dropBlock shaped edits, fun parts =>
      bypassable.edge_dropBlock shaped edits parts.1 parts.2.1 parts.2.2⟩
  noLoop := bypassable.noLoop shaped

end Edits

theorem bypassable_of_bypassed {slice : CheckSlice} (shaped : function.Shaped)
    (bypassed : (function.bypassReportBlock values slice check).bypassed = true)
    (parent : function.parent? check = some report) :
    function.Bypassable values check report := by
  have outcome : (∃ report, function.Bypassable values check report ∧
      function.bypassReportBlock values slice check =
        ⟨(function.rewritten values slice report).1.deleteDeadBlock report.id,
          (function.rewritten values slice report).2, true⟩) ∨
      function.bypassReportBlock values slice check = ⟨function, slice, false⟩ :=
    bypassReportBlock_cases shaped
  rcases outcome with ⟨other, bypassable, -⟩ | refused
  · have same := bypassable.parent.symm.trans parent
    exact Option.some.inj same ▸ bypassable
  · rw [refused] at bypassed
    cases bypassed

theorem EntersOnce.notEntry (enters : function.EntersOnce) {block : BlockId}
    (some : function.predecessors block ≠ []) : ¬function.IsEntry block :=
  fun isEntry => some (enters block isEntry)

/-- A bypass of a block with predecessors takes the block out of every path and leaves
the paths as they are otherwise. -/
theorem bypassReportBlock_splices (function : Function) (values : ValueTable)
    (slice : CheckSlice) (check : InstId) (report : Block) (shaped : function.Shaped)
    (enters : function.EntersOnce) (parent : function.parent? check = some report)
    (preds : function.predecessors report.id ≠ [])
    (bypassed : (function.bypassReportBlock values slice check).bypassed = true) :
    (function.bypassReportBlock values slice check).function.blockIds =
        function.blockIds.filter (fun block => block ≠ report.id) ∧
      (∀ done block,
        (function.bypassReportBlock values slice check).function.Path done block →
          ∃ old, function.Path old block ∧
            (block :: old).filter (fun visited => visited ≠ report.id) = block :: done) ∧
      (∀ done block, function.Path done block → report.id ∉ block :: done →
        (function.bypassReportBlock values slice check).function.Path done block) ∧
      ∀ block, block ≠ report.id → function.Reachable block →
        (function.bypassReportBlock values slice check).function.Reachable block := by
  have bypassable := bypassable_of_bypassed shaped bypassed parent
  rcases bypassable.exists_edited slice shaped with ⟨edited, edits, equal⟩
  have splices := bypassable.splices shaped edits (enters.notEntry preds)
  rw [equal]
  refine ⟨?_, ?_, ?_, ?_⟩
  · have kept := edits.blockIds_eq
    rw [← kept, blockIds, blockIds, dropBlock, List.filter_map]
    rfl
  · intro done block path
    rcases Walk.exists_of_splices splices path with ⟨blockNot, old, oldPath, deleted⟩
    refine ⟨old, oldPath, ?_⟩
    rw [List.filter_cons_of_pos (by simpa using blockNot), deleted]
  · intro done block path avoids
    have different : block ≠ report.id := fun same => avoids (same ▸ List.mem_cons_self ..)
    have kept : done.filter (fun visited => visited ≠ report.id) = done := by
      apply List.filter_eq_self.mpr
      intro visited member
      have other : visited ≠ report.id :=
        fun same => avoids (List.mem_cons_of_mem block (same ▸ member))
      simpa using other
    have path := (Walk.deleted_of_splices splices path).1 different
    rw [kept] at path
    exact path
  · intro block different reachable
    rcases reachable with ⟨done, path⟩
    exact ⟨_, (Walk.deleted_of_splices splices path).1 different⟩

/-- A branch around a load check, with its report block. -/
def guarded : Function where
  name := "f"
  blocks :=
    [{ id := 0, insts := [], terminator := ⟨10, .other 0, .condBr (.other 1) 1 2⟩ },
     { id := 1
       insts := [⟨0, .other 0, .call { calledOperand := .other 0, args := [.other 1] }⟩]
       terminator := ⟨11, .other 0, .br 2⟩ },
     { id := 2, insts := [], terminator := ⟨12, .other 0, .ret none⟩ }]

def guardedValues : ValueTable where
  value
    | 0 => ⟨.constant (.function "__asan_load4" .notIntrinsic), .pointer⟩
    | _ => ⟨.argument, .integer 64⟩
  count := 2

theorem guarded_splices :
    (guarded.bypassReportBlock guardedValues {} 0).function.blockIds = [0, 2] ∧
      (guarded.bypassReportBlock guardedValues {} 0).function.Reachable 2 := by
  have path : guarded.Path [1, 0] 2 := .step (.step (.start rfl) (by decide)) (by decide)
  have parts := bypassReportBlock_splices guarded guardedValues {} 0
    { id := 1
      insts := [⟨0, .other 0, .call { calledOperand := .other 0, args := [.other 1] }⟩]
      terminator := ⟨11, .other 0, .br 2⟩ }
    (by decide) (by decide) (by decide) (by decide) (by decide +kernel)
  exact ⟨parts.1, parts.2.2.2 2 (by decide) ⟨_, path⟩⟩

end Function

end Desan
