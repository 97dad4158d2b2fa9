import Desan.IR.Carry

/-! # Order of execution

Which instructions control executes after which, and which instructions have been
executed whenever control arrives at another. -/

namespace Desan

namespace Block

theorem nodup_definitions {function : Function} {block : Block} (shaped : function.Shaped)
    (member : block ∈ function.blocks) : block.definitions.Nodup := by
  have parts := List.nodup_flatMap.mp (show (function.blocks.flatMap fun block =>
    block.definitions).Nodup from by
      have same : (function.blocks.flatMap fun block => block.definitions) =
          function.instructions.map Inst.id := by
        rw [Function.instructions, List.map_flatMap]
        rfl
      rw [same]
      exact shaped.insts)
  exact parts.1 block member

theorem definitions_eq (block : Block) :
    block.definitions = block.insts.map Inst.id ++ [block.terminator.id] := by
  simp [definitions, instructions]

theorem terminator_mem_definitions (block : Block) :
    block.terminator.id ∈ block.definitions := by
  simp [definitions_eq]

/-- Every instruction of a block but the last stands before the terminator. -/
theorem eq_or_before_terminator {block : Block} {inst : InstId}
    (member : inst ∈ block.definitions) :
    inst = block.terminator.id ∨
      [inst, block.terminator.id].Sublist block.definitions := by
  rw [definitions_eq] at member ⊢
  rcases List.mem_append.mp member with inside | last
  · exact .inr ((List.singleton_sublist.mpr inside).append (List.Sublist.refl _))
  · exact .inl (List.mem_singleton.mp last)

end Block

namespace Function

variable {function : Function}

/-- Control goes from an instruction to the next one of its block, and from a
terminator to the first instruction of a successor. -/
def Next (function : Function) (first second : InstId) : Prop :=
  ∃ block ∈ function.blocks,
    [first, second] <:+: block.definitions ∨
      first = block.terminator.id ∧ ∃ next ∈ function.blocks,
        next.id ∈ block.successors ∧ next.definitions.head? = some second

/-- A control-flow path, of one step at least, executes the first instruction and later
the second. -/
abbrev Executes (function : Function) : InstId → InstId → Prop :=
  Relation.TransGen function.Next

theorem executes_of_sublist {block : Block} {first second : InstId}
    (member : block ∈ function.blocks)
    (ordered : [first, second].Sublist block.definitions) :
    function.Executes first second :=
  Relation.TransGen.mono (fun _ _ neighbours => ⟨block, member, .inl neighbours⟩) _ _
    (transGen_of_sublist ordered)

/-- An edge leads from the terminator of a block to every instruction of its target. -/
theorem executes_of_edge {source target : Block} {second : InstId}
    (sourceMember : source ∈ function.blocks) (targetMember : target ∈ function.blocks)
    (edge : target.id ∈ source.successors) (inside : second ∈ target.definitions) :
    function.Executes source.terminator.id second := by
  cases isHead : target.definitions.head? with
  | none =>
      rw [List.head?_eq_none_iff] at isHead
      rw [isHead] at inside
      cases inside
  | some head =>
      have step : function.Next source.terminator.id head :=
        ⟨source, sourceMember, .inr ⟨rfl, target, targetMember, edge, isHead⟩⟩
      rcases eq_or_after_head isHead inside with equal | later
      · exact equal ▸ .single step
      · exact .head step (executes_of_sublist targetMember later)

theorem executes_of_terminator {block : Block} {first second : InstId}
    (member : block ∈ function.blocks) (inside : first ∈ block.definitions)
    (onward : function.Executes block.terminator.id second) :
    function.Executes first second := by
  rcases Block.eq_or_before_terminator inside with rfl | before
  · exact onward
  · exact (executes_of_sublist member before).trans onward

theorem executes_of_edges {source : Block} (shaped : function.Shaped)
    (sourceMember : source ∈ function.blocks) {id : BlockId}
    (path : Relation.TransGen function.Edge source.id id) :
    ∀ target ∈ function.blocks, target.id = id → ∀ second ∈ target.definitions,
      function.Executes source.terminator.id second := by
  induction path with
  | single edge =>
      intro target targetMember same second inside
      rcases edge_iff.mp edge with ⟨block, member, equal, leads⟩
      rw [shaped.block_eq member sourceMember equal] at leads
      exact executes_of_edge sourceMember targetMember (same ▸ leads) inside
  | tail _ edge induction =>
      intro target targetMember same second inside
      rcases edge_iff.mp edge with ⟨block, member, equal, leads⟩
      have arrives := induction block member equal block.terminator.id
        block.terminator_mem_definitions
      exact arrives.trans (executes_of_edge member targetMember (same ▸ leads) inside)

/-- Control comes from one instruction to another inside their block or over edges of
the control-flow graph. -/
theorem executes_iff {first second : Block} {left right : InstId} (shaped : function.Shaped)
    (firstMember : first ∈ function.blocks) (secondMember : second ∈ function.blocks)
    (inFirst : left ∈ first.definitions) (inSecond : right ∈ second.definitions) :
    function.Executes left right ↔
      first = second ∧ [left, right].Sublist first.definitions ∨
        Relation.TransGen function.Edge first.id second.id := by
  constructor
  · intro path
    induction path generalizing second with
    | single step =>
        rcases step with ⟨block, member, neighbours | ⟨rfl, next, nextMember, edge, isHead⟩⟩
        · have ordered := neighbours.sublist
          have atFirst := shaped.block_of_definition member firstMember
            (ordered.subset (by simp)) inFirst
          have atSecond := shaped.block_of_definition member secondMember
            (ordered.subset (by simp)) inSecond
          exact .inl ⟨atFirst.symm.trans atSecond, atFirst ▸ ordered⟩
        · have atFirst := shaped.block_of_definition member firstMember
            block.terminator_mem_definitions inFirst
          have atSecond := shaped.block_of_definition nextMember secondMember
            (List.mem_of_mem_head? isHead) inSecond
          exact .inr (.single (edge_iff.mpr ⟨block, member, by rw [atFirst], atSecond ▸ edge⟩))
    | @tail middle _ _ step induction =>
        rcases step with ⟨block, member, neighbours | ⟨rfl, next, nextMember, edge, isHead⟩⟩
        · have ordered := neighbours.sublist
          have atSecond := shaped.block_of_definition member secondMember
            (ordered.subset (by simp)) inSecond
          rcases induction member (ordered.subset (by simp)) with same | edges
          · refine .inl ⟨same.1.trans atSecond, ?_⟩
            have nodup := Block.nodup_definitions shaped firstMember
            exact sublist_trans nodup same.2 (same.1 ▸ ordered)
          · exact .inr (atSecond ▸ edges)
        · have atSecond := shaped.block_of_definition nextMember secondMember
            (List.mem_of_mem_head? isHead) inSecond
          have last : function.Edge block.id second.id :=
            edge_iff.mpr ⟨block, member, rfl, atSecond ▸ edge⟩
          rcases induction member block.terminator_mem_definitions with same | edges
          · exact .inr (.single (same.1 ▸ last))
          · exact .inr (.tail edges last)
  · intro either
    rcases either with same | edges
    · exact executes_of_sublist firstMember same.2
    · exact executes_of_terminator firstMember inFirst
        (executes_of_edges shaped firstMember edges second secondMember rfl right inSecond)

/-! ## Dominance -/

/-- On the path that left the blocks `done` the instruction has been executed before
control arrived at the block, and has not unwound. -/
def ExecutedBefore (function : Function) (definition : InstId) (done : List BlockId)
    (block : BlockId) : Prop :=
  ∃ source ∈ function.blocks, definition ∈ source.definitions ∧ source.id ∈ done ∧
    ∀ site normal unwind, source.terminator.id = definition →
      source.terminator.op = .invoke site normal unwind →
        [normal, source.id] <:+: block :: done

/-- Every path from the entry to the user has executed the definition before. A phi
takes its operands at the end of the predecessors. -/
def Dominates (function : Function) (definition user : InstId) : Prop :=
  ∀ block ∈ function.blocks, ∀ inst ∈ block.instructions, inst.id = user →
    ∀ done, function.Path done block.id →
      inst.op.isPhi = false ∧ [definition, user].Sublist block.definitions ∨
        function.ExecutedBefore definition done block.id

def AllReachable (function : Function) : Prop :=
  ∀ block ∈ function.blocks, function.Reachable block.id

namespace ExecutedBefore

variable {definition : InstId} {done before after : List BlockId} {block middle : BlockId}

/-- What was executed earlier on a path stays executed. -/
theorem later (executed : function.ExecutedBefore definition before middle)
    (split : done = after ++ middle :: before) :
    function.ExecutedBefore definition done block := by
  rcases executed with ⟨source, member, inside, passed, onward⟩
  refine ⟨source, member, inside, ?_, ?_⟩
  · rw [split]
    exact List.mem_append_right _ (List.mem_cons_of_mem _ passed)
  · intro site normal unwind isTerminator kind
    have tail : middle :: before <:+ block :: done := by
      rw [split]
      exact ⟨block :: after, rfl⟩
    exact (onward site normal unwind isTerminator kind).trans tail.isInfix

end ExecutedBefore

section Dominates

variable {first second third : InstId}

theorem Dominates.trans (shaped : function.Shaped) (left : function.Dominates first second)
    (right : function.Dominates second third) : function.Dominates first third := by
  intro block member inst inside isThird done path
  rcases right block member inst inside isThird done path with ordered | executed
  · rcases ordered with ⟨notPhi, ordered⟩
    have secondInside : second ∈ block.definitions := ordered.subset (List.mem_cons_self ..)
    rcases List.mem_map.mp secondInside with ⟨middle, middleInside, isSecond⟩
    rcases left block member middle middleInside isSecond done path with earlier | executed
    · have nodup := Block.nodup_definitions shaped member
      exact .inl ⟨notPhi, sublist_trans nodup earlier.2 ordered⟩
    · exact .inr executed
  · rcases executed with ⟨source, sourceMember, secondInside, passed, -⟩
    rcases path.exists_prefix passed with ⟨after, before, split, arrived⟩
    rcases List.mem_map.mp secondInside with ⟨middle, middleInside, isSecond⟩
    right
    rcases left source sourceMember middle middleInside isSecond before arrived with
      earlier | executed
    · -- The first instruction is not the terminator of the block it shares.
      refine ⟨source, sourceMember, earlier.2.subset (List.mem_cons_self ..), passed, ?_⟩
      intro site normal unwind isTerminator _
      have nodup := Block.nodup_definitions shaped sourceMember
      rw [Block.definitions_eq] at nodup
      have ordered := earlier.2
      rw [← isTerminator, Block.definitions_eq] at ordered
      exact absurd (mem_after_of_sublist_pair nodup ordered) List.not_mem_nil
    · exact executed.later split

/-- No instruction that control can reach dominates itself. -/
theorem Dominates.irrefl (shaped : function.Shaped) (reachable : function.AllReachable)
    {block : Block} (member : block ∈ function.blocks) (inside : first ∈ block.definitions) :
    ¬function.Dominates first first := by
  intro dominates
  rcases reachable block member with ⟨done, path⟩
  rcases path.exists_first (List.mem_cons_self ..) with ⟨before, -, fresh, arrived⟩
  rcases List.mem_map.mp inside with ⟨inst, instMember, isFirst⟩
  rcases dominates block member inst instMember isFirst before arrived with ordered | executed
  · have nodup := (Block.nodup_definitions shaped member).sublist ordered.2
    exact (List.nodup_cons.mp nodup).1 (List.mem_singleton_self _)
  · rcases executed with ⟨source, sourceMember, sourceInside, passed, -⟩
    have same := shaped.block_of_definition sourceMember member sourceInside inside
    exact fresh (same ▸ passed)

/-- A dominating instruction stands before the dominated one in their block, or its
block leads to the other's. -/
theorem Dominates.leads (shaped : function.Shaped) (reachable : function.AllReachable)
    (dominates : function.Dominates first second) {left right : Block}
    (leftMember : left ∈ function.blocks) (rightMember : right ∈ function.blocks)
    (inLeft : first ∈ left.definitions) (inRight : second ∈ right.definitions) :
    if left = right then [first, second].Sublist left.definitions
    else Relation.TransGen function.Edge left.id right.id := by
  rcases reachable right rightMember with ⟨done, path⟩
  rcases path.exists_first (List.mem_cons_self ..) with ⟨before, -, fresh, arrived⟩
  rcases List.mem_map.mp inRight with ⟨inst, instMember, isSecond⟩
  rcases dominates right rightMember inst instMember isSecond before arrived with
    ordered | executed
  · have same := shaped.block_of_definition leftMember rightMember inLeft
      (ordered.2.subset (List.mem_cons_self ..))
    rw [if_pos same, same]
    exact ordered.2
  · rcases executed with ⟨source, sourceMember, sourceInside, passed, -⟩
    have same := shaped.block_of_definition sourceMember leftMember sourceInside inLeft
    rw [same] at passed
    have different : left ≠ right := fun equal => fresh (equal ▸ passed)
    rw [if_neg different]
    exact arrived.transGen_of_mem passed

end Dominates

end Function

end Desan
