import Desan.IR.Carry
import Desan.CheckSliceRemover.Removal

/-! # What a bypass does

Once the validation has accepted every predecessor, each of them branches past the
report block, and the block goes. -/

namespace Desan

/-- An accepted terminator has one edge to the report block, and the safe successor is
another block. -/
theorem safeSuccessor_cases {report target : BlockId} {fallthrough : Option BlockId}
    {op : Op} (safe : safeSuccessor report fallthrough op = some target) :
    target ≠ report ∧
      ((∃ condition, (op = .condBr condition report target ∨
          op = .condBr condition target report) ∧
            (fallthrough = none ∨ fallthrough = some target)) ∨
        (∃ destination, op = .br destination) ∧ fallthrough = some target) := by
  cases op with
  | condBr condition ifTrue ifFalse =>
      simp only [safeSuccessor, Option.filter_eq_some_iff, decide_eq_true_eq] at safe
      rcases safe with ⟨chosen, different⟩
      refine ⟨different, .inl ⟨condition, ?_⟩⟩
      by_cases first : ifTrue = report
      · rw [if_pos first] at chosen
        cases fallthrough with
        | none =>
            cases chosen
            exact ⟨.inl (by rw [first]), .inl rfl⟩
        | some block =>
            simp only [Option.bind_some, Option.ite_none_right_eq_some] at chosen
            exact ⟨.inl (by rw [first, chosen.1, Option.some.inj chosen.2]), .inr chosen.2⟩
      · rw [if_neg first] at chosen
        by_cases second : ifFalse = report
        · rw [if_pos second] at chosen
          cases fallthrough with
          | none =>
              cases chosen
              exact ⟨.inr (by rw [second]), .inl rfl⟩
          | some block =>
              simp only [Option.bind_some, Option.ite_none_right_eq_some] at chosen
              exact ⟨.inr (by rw [second, chosen.1, Option.some.inj chosen.2]),
                .inr chosen.2⟩
        · rw [if_neg second] at chosen
          cases fallthrough <;> cases chosen
  | br destination =>
      simp only [safeSuccessor, Option.filter_eq_some_iff, decide_eq_true_eq] at safe
      exact ⟨safe.2, .inr ⟨⟨destination, rfl⟩, safe.1⟩⟩
  | _ => cases safe

/-- The second loop branches to the successor the first one found. -/
theorem bypassSuccessor_of_safe {report target : BlockId} {fallthrough : Option BlockId}
    {op : Op} (safe : safeSuccessor report fallthrough op = some target) :
    bypassSuccessor report fallthrough op = some target := by
  rcases safeSuccessor_cases safe with ⟨different, conditional | unconditional⟩
  · rcases conditional with ⟨condition, rfl | rfl, rfl | rfl⟩
    · simp [bypassSuccessor]
    · simp [bypassSuccessor]
    · simp [bypassSuccessor, different]
    · simp [bypassSuccessor]
  · rcases unconditional with ⟨⟨destination, rfl⟩, rfl⟩
    rfl

theorem safeSuccessor_editedTo {report : BlockId} {fallthrough : Option BlockId}
    {before after : Op} (edited : before.EditedTo after) :
    safeSuccessor report fallthrough after = safeSuccessor report fallthrough before := by
  rcases edited with ⟨transform, -, rfl⟩
  cases before <;> rfl

theorem count_successors_of_safe {report target : BlockId} {fallthrough : Option BlockId}
    {op : Op} (safe : safeSuccessor report fallthrough op = some target) :
    (op.successors.filter fun successor => successor = report).length ≤ 1 := by
  rcases safeSuccessor_cases safe with ⟨different, conditional | unconditional⟩
  · rcases conditional with ⟨condition, rfl | rfl, -⟩ <;> simp [Op.successors, different]
  · rcases unconditional with ⟨⟨destination, rfl⟩, -⟩
    exact List.length_filter_le _ _

namespace Function

variable {function : Function} {values : ValueTable} {report : BlockId}
  {fallthrough : Option BlockId}

theorem acceptsPredecessor_iff (shaped : function.Shaped) {block : Block}
    (member : block ∈ function.blocks) :
    function.acceptsPredecessor report fallthrough block.id = true ↔
      ∃ target, safeSuccessor report fallthrough block.terminator.op = some target := by
  rw [acceptsPredecessor, shaped.block?_eq member]
  exact Option.isSome_iff_exists

/-- Accepted predecessors have one edge to the report block each. -/
theorem nodup_predecessors (shaped : function.Shaped)
    (accepted : ∀ pred ∈ function.predecessors report,
      function.acceptsPredecessor report fallthrough pred = true) :
    (function.predecessors report).Nodup := by
  rw [predecessors, List.nodup_flatMap]
  constructor
  · intro block member
    by_cases edge : report ∈ block.successors
    · have pred := accepted block.id
        (mem_predecessors.mpr (edge_iff.mpr ⟨block, member, rfl, edge⟩))
      rcases (acceptsPredecessor_iff shaped member).mp pred with ⟨target, safe⟩
      have single : (block.successors.filter fun successor => successor = report).length ≤ 1 :=
        count_successors_of_safe safe
      rw [← List.length_map (f := fun _ => block.id)] at single
      cases found : (block.successors.filter fun successor => successor = report).map
          fun _ => block.id with
      | nil => exact List.nodup_nil
      | cons first rest =>
          rw [found, List.length_cons] at single
          have none : rest = [] := List.length_eq_zero_iff.mp (by omega)
          rw [none]
          exact List.nodup_singleton _
    · have none : (block.successors.filter fun successor => successor = report) = [] := by
        apply List.filter_eq_nil_iff.mpr
        intro successor member equal
        exact edge (of_decide_eq_true equal ▸ member)
      rw [none]
      exact List.nodup_nil
  · have apart : function.blocks.Pairwise fun first second => first.id ≠ second.id :=
      List.pairwise_map.mp shaped.blocks
    apply apart.imp
    intro first second different
    apply List.disjoint_left.mpr
    intro id firstMember secondMember
    rcases List.mem_map.mp firstMember with ⟨_, _, rfl⟩
    rcases List.mem_map.mp secondMember with ⟨_, _, equal⟩
    exact different equal.symm

/-- The terminator branches past the report block if the block was rewritten. -/
def Redirected (report : BlockId) (fallthrough : Option BlockId) (preds : List BlockId)
    (before after : Block) : Prop :=
  if before.id ∈ preds then
    ∃ target, safeSuccessor report fallthrough before.terminator.op = some target ∧
      after.terminator.op = .br target
  else before.KeepsTerminator after

theorem edits_bypassPredecessor (shaped : function.Shaped) {slice : CheckSlice}
    {pred : BlockId} (accepted : function.acceptsPredecessor report fallthrough pred = true) :
    function.Edits (Redirected report fallthrough [pred])
      (bypassPredecessor values report fallthrough (function, slice) pred).1 := by
  rw [acceptsPredecessor] at accepted
  cases found : function.block? pred with
  | none =>
      rw [found] at accepted
      cases accepted
  | some block =>
      rw [found] at accepted
      rcases Option.isSome_iff_exists.mp accepted with ⟨target, safe⟩
      rcases mem_of_block? found with ⟨member, address⟩
      simp only [bypassPredecessor, found, bypassSuccessor_of_safe safe]
      have removed := edits_removePredecessor shaped report pred
      have branched : (function.removePredecessor report pred).Edits
          (fun before after => (before.id = pred → after.terminator.op = .br target) ∧
            (before.id ≠ pred → before.KeepsTerminator after))
          ((function.removePredecessor report pred).branchTo pred target) := by
        refine ⟨_, rfl, ?_⟩
        intro candidate inside
        by_cases chosen : candidate.id = pred
        · simp only [if_pos chosen]
          exact ⟨Block.carries_setTerminator rfl candidate, fun _ => rfl,
            fun other => absurd chosen other⟩
        · simp only [if_neg chosen]
          exact ⟨.refl candidate, fun equal => absurd equal chosen, fun _ => .refl _⟩
      apply removed.trans branched
      intro first inside middle last same left right
      rw [Redirected]
      by_cases chosen : first.id = pred
      · rw [if_pos (List.mem_singleton.mpr chosen)]
        have equal := shaped.block_eq inside member (chosen.trans address.symm)
        exact ⟨target, equal ▸ safe, right.1 (same.trans chosen)⟩
      · rw [if_neg (by simpa using chosen)]
        exact left.trans (right.2 fun equal => chosen (same.symm.trans equal))

/-- A predecessor that is yet to be rewritten is accepted as before. -/
theorem acceptsPredecessor_of_redirected (shaped : function.Shaped) {edited : Function}
    {preds : List BlockId} (edits : function.Edits (Redirected report fallthrough preds) edited)
    {pred : BlockId} (later : pred ∉ preds)
    (accepted : function.acceptsPredecessor report fallthrough pred = true) :
    edited.acceptsPredecessor report fallthrough pred = true := by
  rw [acceptsPredecessor] at accepted
  cases found : function.block? pred with
  | none =>
      rw [found] at accepted
      cases accepted
  | some block =>
      rw [found] at accepted
      rcases mem_of_block? found with ⟨inside, address⟩
      rcases edits.exists_after inside with ⟨after, afterMember, carries, kept⟩
      rw [Redirected, if_neg (address ▸ later)] at kept
      rw [← address, ← carries.id, acceptsPredecessor_iff (edits.shaped shaped) afterMember,
        safeSuccessor_editedTo kept]
      exact Option.isSome_iff_exists.mp accepted

theorem edits_bypassPredecessors (shaped : function.Shaped) {slice : CheckSlice}
    {preds : List BlockId} (nodup : preds.Nodup)
    (accepted : ∀ pred ∈ preds,
      function.acceptsPredecessor report fallthrough pred = true) :
    function.Edits (Redirected report fallthrough preds)
      (preds.foldl (bypassPredecessor values report fallthrough) (function, slice)).1 := by
  induction preds generalizing function slice with
  | nil =>
      apply Edits.refl
      intro block
      rw [Redirected, if_neg (List.not_mem_nil)]
      exact .refl _
  | cons head tail induction =>
      have parts := List.nodup_cons.mp nodup
      have first : function.Edits (Redirected report fallthrough [head])
          (bypassPredecessor values report fallthrough (function, slice) head).1 :=
        edits_bypassPredecessor shaped (accepted head (List.mem_cons_self ..))
      rw [List.foldl_cons]
      have still : ∀ pred ∈ tail, (bypassPredecessor values report fallthrough
          (function, slice) head).1.acceptsPredecessor report fallthrough pred = true := by
        intro pred member
        exact acceptsPredecessor_of_redirected shaped first
          (fun inHead => parts.1 (List.mem_singleton.mp inHead ▸ member))
          (accepted pred (List.mem_cons_of_mem _ member))
      have rest : (bypassPredecessor values report fallthrough (function, slice) head).1.Edits
          (Redirected report fallthrough tail)
          (tail.foldl (bypassPredecessor values report fallthrough)
            (bypassPredecessor values report fallthrough (function, slice) head)).1 :=
        induction (first.shaped shaped) parts.2 still
      apply first.trans rest
      intro block _ middle last same left right
      rw [Redirected, same] at right
      rw [Redirected] at left ⊢
      by_cases atHead : block.id = head
      · have notTail : block.id ∉ tail := atHead ▸ parts.1
        rw [if_pos (List.mem_singleton.mpr atHead)] at left
        rw [if_neg notTail] at right
        rw [if_pos (List.mem_cons.mpr (.inl atHead))]
        rcases left with ⟨target, safe, branch⟩
        rcases right with ⟨transform, -, equal⟩
        exact ⟨target, safe, by rw [equal, branch]; rfl⟩
      · rw [if_neg (by simpa using atHead)] at left
        by_cases inTail : block.id ∈ tail
        · rw [if_pos inTail, safeSuccessor_editedTo left] at right
          rw [if_pos (List.mem_cons_of_mem _ inTail)]
          exact right
        · rw [if_neg inTail] at right
          rw [if_neg (by simp [atHead, inTail])]
          exact left.trans right

/-! ## The bypass as a whole -/

/-- The validation accepts the report block of the check. -/
structure Bypassable (function : Function) (values : ValueTable) (check : InstId)
    (report : Block) : Prop where
  parent : function.parent? check = some report
  sanitizerOnly : values.isSanitizerOnlyBlock report check = true
  terminator : isReportBlockTerminator report.terminator.op = true
  preds : ∀ pred ∈ function.predecessors report.id,
    function.acceptsPredecessor report.id (getReportBlockFallthrough report) pred = true

instance (function : Function) (values : ValueTable) (check : InstId) (report : Block) :
    Decidable (function.Bypassable values check report) :=
  decidable_of_iff
    (function.parent? check = some report ∧
      values.isSanitizerOnlyBlock report check = true ∧
      isReportBlockTerminator report.terminator.op = true ∧
      ∀ pred ∈ function.predecessors report.id,
        function.acceptsPredecessor report.id (getReportBlockFallthrough report) pred = true)
    ⟨fun parts => ⟨parts.1, parts.2.1, parts.2.2.1, parts.2.2.2⟩,
      fun bypassable => ⟨bypassable.parent, bypassable.sanitizerOnly, bypassable.terminator,
        bypassable.preds⟩⟩

/-- The function and the slice after the rewriting loop. -/
def rewritten (function : Function) (values : ValueTable) (slice : CheckSlice)
    (report : Block) : Function × CheckSlice :=
  (function.predecessors report.id).foldl
    (bypassPredecessor values report.id (getReportBlockFallthrough report)) (function, slice)

section Bypassable

variable {check : InstId} {report : Block} {slice : CheckSlice}

theorem Bypassable.report_mem (bypassable : function.Bypassable values check report) :
    report ∈ function.blocks ∧ check ∈ report.definitions :=
  ⟨List.mem_of_find?_eq_some bypassable.parent,
    by simpa using List.find?_some bypassable.parent⟩

theorem Bypassable.edits_rewritten (bypassable : function.Bypassable values check report)
    (shaped : function.Shaped) :
    function.Edits
      (Redirected report.id (getReportBlockFallthrough report)
        (function.predecessors report.id))
      (function.rewritten values slice report).1 :=
  edits_bypassPredecessors shaped (nodup_predecessors shaped bypassable.preds)
    bypassable.preds

/-- No edge leads to the report block any more, whatever the slice. -/
theorem Bypassable.predecessors_rewritten
    (bypassable : function.Bypassable values check report) (shaped : function.Shaped) :
    (function.rewritten values slice report).1.predecessors report.id = [] := by
  apply List.eq_nil_iff_forall_not_mem.mpr
  intro pred member
  rcases edge_iff.mp (mem_predecessors.mp member) with ⟨edited, editedInside, -, edge⟩
  rcases (bypassable.edits_rewritten shaped).exists_before editedInside with
    ⟨block, inside, -, redirected⟩
  rw [Redirected] at redirected
  split at redirected
  · rcases redirected with ⟨target, safe, branch⟩
    rw [Block.successors, branch] at edge
    exact (safeSuccessor_cases safe).1 (List.mem_singleton.mp edge).symm
  · rename_i notPred
    rw [Block.successors, redirected.successors_eq] at edge
    exact notPred (mem_predecessors.mpr (edge_iff.mpr ⟨block, inside, rfl, edge⟩))

/-- The two exits after the rewriting loop are never taken. -/
theorem Bypassable.bypassReportBlock_eq
    (bypassable : function.Bypassable values check report) (shaped : function.Shaped) :
    function.bypassReportBlock values slice check =
      ⟨(function.rewritten values slice report).1.deleteDeadBlock report.id,
        (function.rewritten values slice report).2, true⟩ := by
  have none : (function.rewritten values slice report).1.predecessors report.id = [] :=
    bypassable.predecessors_rewritten shaped
  have all : (function.predecessors report.id).all
      (function.acceptsPredecessor report.id (getReportBlockFallthrough report)) = true :=
    List.all_eq_true.mpr bypassable.preds
  rw [rewritten] at none ⊢
  rw [bypassReportBlock, bypassable.parent]
  simp only [bypassable.sanitizerOnly, bypassable.terminator, all, Bool.not_true,
    Bool.false_eq_true, if_false, hasNonSanitizerPredecessor, none, List.any_nil,
    List.isEmpty_nil]

/-- A bypass is accepted and carried out, or nothing happens. -/
theorem bypassReportBlock_cases (shaped : function.Shaped) :
    (∃ report, function.Bypassable values check report ∧
      function.bypassReportBlock values slice check =
        ⟨(function.rewritten values slice report).1.deleteDeadBlock report.id,
          (function.rewritten values slice report).2, true⟩) ∨
      function.bypassReportBlock values slice check = ⟨function, slice, false⟩ := by
  by_cases accepted : ∃ report, function.Bypassable values check report
  · rcases accepted with ⟨report, bypassable⟩
    exact .inl ⟨report, bypassable, bypassable.bypassReportBlock_eq shaped⟩
  · right
    rw [bypassReportBlock]
    cases parent : function.parent? check with
    | none => rfl
    | some report =>
        simp only
        by_cases sanitizerOnly : values.isSanitizerOnlyBlock report check = true
        · by_cases terminator : isReportBlockTerminator report.terminator.op = true
          · have refused : (function.predecessors report.id).all (function.acceptsPredecessor
                report.id (getReportBlockFallthrough report)) = false := by
              apply Bool.eq_false_iff.mpr
              intro all
              exact accepted
                ⟨report, parent, sanitizerOnly, terminator, List.all_eq_true.mp all⟩
            simp [sanitizerOnly, terminator, refused]
          · simp [sanitizerOnly, terminator]
        · simp [sanitizerOnly]

end Bypassable

theorem edits_poison (dead : List InstId) :
    function.Edits Block.KeepsTerminator
      (function.mapBlocks (Block.mapInsts (Inst.mapOperands (Value.poisonWhere dead)))) := by
  refine ⟨_, rfl, ?_⟩
  intro block _
  have keeps := Value.keepsConstants_poisonWhere dead
  exact ⟨Block.carries_mapOperands keeps block, _, keeps, rfl⟩

/-- Up to the deletion of the block itself, `DeleteDeadBlock` is an edit. -/
theorem exists_deleteDeadBlock (shaped : function.Shaped) (block : BlockId) :
    ∃ edited, function.Edits Block.KeepsTerminator edited ∧
      function.deleteDeadBlock block = edited.dropBlock block := by
  have detached := edits_removePredecessors shaped (function.successors block) block
  exact ⟨_, detached.trans (edits_poison _) fun _ _ _ _ _ left right => left.trans right,
    rfl⟩

/-- A bypass edits the blocks and drops the report block. -/
theorem Bypassable.exists_edited {check : InstId} {report : Block}
    (bypassable : function.Bypassable values check report) (slice : CheckSlice)
    (shaped : function.Shaped) :
    ∃ edited, function.Edits
        (Redirected report.id (getReportBlockFallthrough report)
          (function.predecessors report.id)) edited ∧
      (function.bypassReportBlock values slice check).function =
        edited.dropBlock report.id := by
  have rewriting : function.Edits
      (Redirected report.id (getReportBlockFallthrough report)
        (function.predecessors report.id)) (function.rewritten values slice report).1 :=
    bypassable.edits_rewritten shaped
  rcases exists_deleteDeadBlock (rewriting.shaped shaped) report.id with
    ⟨edited, deleting, equal⟩
  refine ⟨edited, ?_, ?_⟩
  · apply rewriting.trans deleting
    intro first _ middle last _ left right
    rw [Redirected] at left ⊢
    split at left
    · rename_i isPred
      rw [if_pos isPred]
      rcases left with ⟨target, safe, branch⟩
      rcases right with ⟨transform, -, same⟩
      exact ⟨target, safe, by rw [same, branch]; rfl⟩
    · rename_i notPred
      rw [if_neg notPred]
      exact left.trans right
  · rw [bypassable.bypassReportBlock_eq shaped, equal]

end Function

end Desan
