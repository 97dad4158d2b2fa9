import Desan.CheckSliceRemover.Survival

/-! # What a direct erasure takes with it -/

namespace Desan

/-! ## The slice holds its check -/

namespace CheckSlice

variable {values : ValueTable} {slice : CheckSlice}

theorem subset_withInstruction (inst : Inst) :
    slice.orderedInstructions ⊆ (slice.withInstruction values inst).orderedInstructions := by
  rw [withInstruction, addInstruction]
  split
  · exact List.Subset.refl _
  · split
    · exact List.Subset.refl _
    · exact List.subset_append_left _ _

theorem subset_of_addInstruction {added : CheckSlice} {inst : Inst}
    (found : slice.addInstruction values inst = some added) :
    slice.orderedInstructions ⊆ added.orderedInstructions := by
  have same : slice.withInstruction values inst = added := by
    rw [withInstruction, found, Option.getD_some]
  exact same ▸ subset_withInstruction inst

/-- A loop that only adds keeps what it starts with. -/
theorem subset_foldl {α : Type} {step : CheckSlice → α → CheckSlice}
    (grows : ∀ slice item,
      slice.orderedInstructions ⊆ (step slice item).orderedInstructions) (items : List α)
    (slice : CheckSlice) :
    slice.orderedInstructions ⊆ (items.foldl step slice).orderedInstructions := by
  induction items generalizing slice with
  | nil => exact List.Subset.refl _
  | cons head tail induction => exact List.Subset.trans (grows slice head) (induction _)

theorem subset_addBlock (block : Block) :
    slice.orderedInstructions ⊆ (slice.addBlock values block).orderedInstructions := by
  rw [addBlock]
  split
  · exact List.Subset.refl _
  · exact subset_foldl (fun slice inst => subset_withInstruction inst) block.instructions
      { slice with orderedBlocks := slice.orderedBlocks ++ [block.id] }

end CheckSlice

namespace Function

variable {function : Function} {values : ValueTable} {check : InstId} {slice : CheckSlice}

theorem subset_collectBackwardFromValue (fuel : Nat) (slice : CheckSlice) (value : Value) :
    slice.orderedInstructions ⊆
      (function.collectBackwardFromValue values fuel slice value).orderedInstructions := by
  induction fuel generalizing slice value with
  | zero => exact List.Subset.refl _
  | succ fuel induction =>
      rw [collectBackwardFromValue]
      split
      · exact List.Subset.refl _
      · split
        · exact List.Subset.refl _
        · rename_i added found
          exact List.Subset.trans (CheckSlice.subset_of_addInstruction found)
            (CheckSlice.subset_foldl induction _ added)

theorem subset_collectBackwardFromInstruction (slice : CheckSlice) (inst : Inst) :
    slice.orderedInstructions ⊆
      (function.collectBackwardFromInstruction values slice inst).orderedInstructions :=
  CheckSlice.subset_foldl (subset_collectBackwardFromValue _) _ slice

theorem subset_visitPredecessor (state : CheckSlice × List BlockId) (pred : BlockId) :
    state.1.orderedInstructions ⊆
      (function.visitPredecessor values check state pred).1.orderedInstructions := by
  rw [visitPredecessor]
  split
  · exact List.Subset.refl _
  · split
    · exact List.Subset.refl _
    · rename_i block _ _
      have added : state.1.orderedInstructions ⊆
          (state.1.withInstruction values block.terminator).orderedInstructions :=
        CheckSlice.subset_withInstruction block.terminator
      have grown : state.1.orderedInstructions ⊆
          (function.collectBackwardFromInstruction values
            (state.1.withInstruction values block.terminator)
            block.terminator).orderedInstructions :=
        List.Subset.trans added (subset_collectBackwardFromInstruction _ _)
      simp only
      split
      · exact List.Subset.trans grown (CheckSlice.subset_addBlock block)
      · exact grown

theorem subset_collectControlFlowLoop (fuel : Nat) (seen : List BlockId)
    (slice : CheckSlice) (worklist : List BlockId) :
    slice.orderedInstructions ⊆ (function.collectControlFlowLoop values check fuel seen slice
      worklist).orderedInstructions := by
  induction fuel generalizing seen slice worklist with
  | zero => exact List.Subset.refl _
  | succ fuel induction =>
      cases worklist with
      | nil => exact List.Subset.refl _
      | cons block worklist =>
          rw [collectControlFlowLoop]
          split
          · exact induction _ _ _
          · have visited : ∀ (preds : List BlockId) (state : CheckSlice × List BlockId),
                state.1.orderedInstructions ⊆ (preds.foldl
                  (function.visitPredecessor values check) state).1.orderedInstructions := by
              intro preds
              induction preds with
              | nil => exact fun state => List.Subset.refl _
              | cons head tail rest =>
                  exact fun state =>
                    List.Subset.trans (subset_visitPredecessor state head) (rest _)
            exact List.Subset.trans (visited _ (slice, worklist)) (induction _ _ _)

theorem mem_collectCheckSlice {inst : Inst} {parent : Block}
    (found : function.inst? check = some inst)
    (inside : function.parent? check = some parent)
    (sanitizerOnly : values.isSanitizerOnlyInstruction inst.op = true) :
    check ∈ (function.collectCheckSlice values check).orderedInstructions := by
  rw [collectCheckSlice, found, inside]
  have start : check ∈
      (CheckSlice.withInstruction values {} inst).orderedInstructions := by
    have address := (mem_of_inst? found).2
    simp [CheckSlice.withInstruction, CheckSlice.addInstruction, sanitizerOnly, address]
  have backward : check ∈ (function.collectBackwardFromInstruction values
      (CheckSlice.withInstruction values {} inst) inst).orderedInstructions :=
    subset_collectBackwardFromInstruction _ inst start
  simp only
  apply subset_collectControlFlowLoop
  split
  · exact CheckSlice.subset_addBlock parent backward
  · exact backward

/-! ## Erasing instructions -/

def eraseInsts (function : Function) (insts : List InstId) : Function :=
  function.mapBlocks fun block =>
    { block with insts := block.insts.filter fun inst => inst.id ∉ insts }

theorem eraseInsts_nil : function.eraseInsts [] = function := by
  simp [eraseInsts, mapBlocks]

theorem eraseInst_eraseInsts (insts : List InstId) (inst : InstId) :
    (function.eraseInsts insts).eraseInst inst = function.eraseInsts (inst :: insts) := by
  simp only [eraseInst, eraseInsts, mapBlocks, List.map_map]
  congr 1
  apply List.map_congr_left
  intro block _
  simp only [Function.comp_apply, Block.erase, List.filter_filter]
  congr 1
  apply List.filter_congr
  intro other _
  by_cases equal : other.id = inst <;> simp [equal]

theorem eraseInst_eq_eraseInsts (function : Function) (inst : InstId) :
    function.eraseInst inst = function.eraseInsts [inst] := by
  have same : (function.eraseInsts []).eraseInst inst = function.eraseInsts [inst] :=
    eraseInst_eraseInsts [] inst
  rw [← same, eraseInsts_nil]

theorem eraseInsts_eraseInsts (function : Function) (first second : List InstId) :
    (function.eraseInsts first).eraseInsts second = function.eraseInsts (first ++ second) := by
  simp only [eraseInsts, mapBlocks, List.map_map]
  congr 1
  apply List.map_congr_left
  intro block _
  simp only [Function.comp_apply, List.filter_filter]
  congr 1
  apply List.filter_congr
  intro inst _
  by_cases inFirst : inst.id ∈ first <;> simp [inFirst]

theorem mem_eraseInsts {insts : List InstId} {block : Block} :
    block ∈ (function.eraseInsts insts).blocks ↔
      ∃ original ∈ function.blocks,
        { original with insts := original.insts.filter fun inst => inst.id ∉ insts } =
          block := by
  rw [eraseInsts, blocks_mapBlocks, List.mem_map]

theorem instructions_eraseInsts (insts : List InstId) :
    (function.eraseInsts insts).instructions.Sublist function.instructions := by
  rw [instructions, eraseInsts, blocks_mapBlocks, List.flatMap_map]
  apply List.Sublist.flatMap_right
  intro block _
  exact List.filter_sublist.append (List.Sublist.refl _)

theorem mem_instructions_eraseInsts {insts : List InstId} {inst : Inst}
    (member : inst ∈ function.instructions) (kept : inst.id ∉ insts) :
    inst ∈ (function.eraseInsts insts).instructions := by
  rcases mem_instructions.mp member with ⟨block, blockMember, inside⟩
  refine mem_instructions.mpr ⟨_, mem_eraseInsts.mpr ⟨block, blockMember, rfl⟩, ?_⟩
  rcases Block.mem_instructions.mp inside with body | last
  · exact Block.mem_instructions.mpr
      (.inl (List.mem_filter.mpr ⟨body, decide_eq_true kept⟩))
  · exact Block.mem_instructions.mpr (.inr last)

theorem edge_eraseInsts {insts : List InstId} {source target : BlockId}
    (edge : function.Edge source target) : (function.eraseInsts insts).Edge source target := by
  rcases edge_iff.mp edge with ⟨block, member, address, successor⟩
  exact edge_iff.mpr ⟨_, mem_eraseInsts.mpr ⟨block, member, rfl⟩, address, successor⟩

theorem entry?_eraseInsts (insts : List InstId) :
    Function.entry? (function.eraseInsts insts) = function.entry? := by
  rw [ entry?, entry?, eraseInsts, blocks_mapBlocks]
  cases function.blocks <;> rfl

/-- The calls that are lost are the erased ones. -/
theorem keepsCalls_eraseInsts (insts : List InstId) :
    function.KeepsCalls (fun id => id ∈ insts) (function.eraseInsts insts) where
  name := rfl
  shaped := fun shaped =>
    { blocks := by
        have same : (function.eraseInsts insts).blockIds = function.blockIds := by
          simp [blockIds, eraseInsts, Function.comp_def]
        exact same ▸ shaped.blocks
      insts := ((instructions_eraseInsts insts).map _).nodup shaped.insts
      terminators := by
        intro block member
        rcases mem_eraseInsts.mp member with ⟨original, inside, rfl⟩
        exact shaped.terminators original inside }
  old := fun _ member => ((instructions_eraseInsts insts).map _).subset member
  calls := by
    intro block member reachable inst inside _ _ kept
    refine ⟨_, mem_eraseInsts.mpr ⟨block, member, rfl⟩, ?_, inst, ?_, rfl, .refl _⟩
    · rcases reachable with ⟨done, path⟩
      refine ⟨done, path.mono ?_ fun source target => edge_eraseInsts⟩
      intro entry isEntry
      rw [IsEntry, entry?_eraseInsts]
      exact isEntry
    · rcases Block.mem_instructions.mp inside with body | last
      · exact Block.mem_instructions.mpr
          (.inl (List.mem_filter.mpr ⟨body, decide_eq_true kept⟩))
      · exact Block.mem_instructions.mpr (.inr last)

/-! ## The least dead part of a slice -/

theorem body_of_isErasableKind {op : Op} (kind : values.isErasableKind op = true) :
    op.isTerminator = false := by
  unfold ValueTable.isErasableKind at kind
  rw [Bool.and_eq_true, Bool.not_eq_true'] at kind
  exact kind.1

/-- What `canEraseInstruction` has found. -/
theorem canEraseInstruction_iff {inst : InstId} :
    function.canEraseInstruction values slice inst = true ↔
      ∃ found, function.inst? inst = some found ∧ inst ∈ slice.orderedInstructions ∧
        function.useEmpty inst = true ∧ values.isErasableKind found.op = true := by
  rw [canEraseInstruction]
  cases found : function.inst? inst with
  | none => simp
  | some present =>
      simp only [Bool.and_eq_true, decide_eq_true_eq, Option.some.injEq, exists_eq_left']
      constructor
      · intro parts
        exact ⟨parts.1.1.1, parts.1.2, parts.2⟩
      · intro parts
        rcases parts with ⟨inSlice, unused, kind⟩
        -- Without users, all of them are in the slice.
        have inside : function.allUsersInsideSlice slice inst = true := by
          rw [allUsersInsideSlice, List.isEmpty_iff.mp unused]
          rfl
        exact ⟨⟨⟨inSlice, inside⟩, unused⟩, kind⟩

/-- An instruction of the slice, of an erasable kind, whose users are all erased
before it. -/
inductive Erasable (function : Function) (values : ValueTable) (slice : CheckSlice) :
    InstId → Prop where
  | intro {inst : Inst} (member : inst ∈ function.instructions)
      (inSlice : inst.id ∈ slice.orderedInstructions)
      (kind : values.isErasableKind inst.op = true)
      (users : ∀ user ∈ function.users (.inst inst.id), Erasable function values slice user) :
      Erasable function values slice inst.id

theorem Erasable.exists_inst {function : Function} {slice : CheckSlice} {id : InstId}
    (erasable : function.Erasable values slice id) :
    ∃ inst ∈ function.instructions, inst.id = id ∧ values.isErasableKind inst.op = true ∧
      ∀ user ∈ function.users (.inst id), function.Erasable values slice user := by
  cases erasable with
  | intro member _ kind users => exact ⟨_, member, rfl, kind, users⟩

/-- What the sweep has done: erased some of the instructions that can be. -/
def SweptFrom (function : Function) (values : ValueTable) (slice : CheckSlice)
    (swept : Function) : Prop :=
  ∃ erased, swept = function.eraseInsts erased ∧
    ∀ inst ∈ erased, function.Erasable values slice inst

theorem SweptFrom.erase {swept : Function} {inst : InstId}
    (from_ : function.SweptFrom values slice swept)
    (dead : swept.canEraseInstruction values slice inst = true) :
    function.SweptFrom values slice (swept.eraseInst inst) := by
  rcases from_ with ⟨erased, rfl, allErasable⟩
  refine ⟨inst :: erased, eraseInst_eraseInsts erased inst, ?_⟩
  intro other member
  rcases List.mem_cons.mp member with rfl | earlier
  · rcases canEraseInstruction_iff.mp dead with ⟨inst, found, inSlice, unused, kind⟩
    rcases mem_of_inst? found with ⟨present, rfl⟩
    refine .intro ((instructions_eraseInsts erased).subset present) inSlice kind ?_
    intro user isUser
    rcases mem_users.mp isUser with ⟨using_, usingMember, rfl, operand⟩
    by_contra notErasable
    have kept : using_.id ∉ erased := fun gone => notErasable (allErasable _ gone)
    exact useEmpty_iff.mp unused using_ (mem_instructions_eraseInsts usingMember kept) operand
  · exact allErasable other earlier

/-- What the sweep does one erasure after the other. -/
theorem eraseDeadSliceLoop_induction {property : Function → Prop}
    (step : ∀ function inst, property function →
      function.canEraseInstruction values slice inst = true →
        property (function.eraseInst inst))
    (fuel : Nat) {sweep : Sweep} (holds : property sweep.function) :
    property (eraseDeadSliceLoop values slice fuel sweep).function := by
  have one : ∀ (sweep : Sweep) (inst : InstId), property sweep.function →
      property (eraseIfDead values slice sweep inst).function := by
    intro sweep inst holds
    rw [eraseIfDead]
    split
    · rename_i dead
      exact step sweep.function inst holds dead
    · exact holds
  have round : ∀ (insts : List InstId) (sweep : Sweep), property sweep.function →
      property (insts.foldl (eraseIfDead values slice) sweep).function := by
    intro insts
    induction insts with
    | nil => exact fun _ holds => holds
    | cons head tail induction => exact fun sweep holds => induction _ (one sweep head holds)
  induction fuel generalizing sweep with
  | zero => exact holds
  | succ fuel induction =>
      have next := round slice.orderedInstructions.reverse { sweep with changed := false } holds
      rw [eraseDeadSliceLoop]
      split
      · exact induction next
      · exact next

theorem eraseDeadSliceInstructions_induction {property : Function → Prop}
    (step : ∀ function inst, property function →
      function.canEraseInstruction values slice inst = true →
        property (function.eraseInst inst))
    (holds : property function) :
    property (function.eraseDeadSliceInstructions values slice).function :=
  eraseDeadSliceLoop_induction step _ holds

/-- Only the least dead part of the slice is erased. -/
theorem sweptFrom_eraseDeadSliceInstructions (slice : CheckSlice) :
    function.SweptFrom values slice
      (function.eraseDeadSliceInstructions values slice).function := by
  apply eraseDeadSliceInstructions_induction
  · intro swept inst from_ dead
    exact from_.erase dead
  · refine ⟨[], eraseInsts_nil.symm, ?_⟩
    intro inst member
    cases member

/-- What a direct erasure leaves. -/
theorem exists_erased (function : Function) (values : ValueTable) (check : InstId) :
    ∃ erased, ((function.eraseInst check).eraseDeadSliceInstructions values
        (function.collectCheckSlice values check)).function = function.eraseInsts erased ∧
      ∀ other ∈ erased, other = check ∨ Erasable (function.eraseInst check) values
        (function.collectCheckSlice values check) other := by
  have swept : (function.eraseInst check).SweptFrom values
      (function.collectCheckSlice values check)
      ((function.eraseInst check).eraseDeadSliceInstructions values
        (function.collectCheckSlice values check)).function :=
    sweptFrom_eraseDeadSliceInstructions _
  rcases swept with ⟨erased, whole, allErasable⟩
  refine ⟨[check] ++ erased, ?_, ?_⟩
  · rw [whole, eraseInst_eq_eraseInsts, eraseInsts_eraseInsts]
  · intro other member
    rcases List.mem_append.mp member with first | later
    · exact .inl (List.mem_singleton.mp first)
    · exact .inr (allErasable other later)

/-! ## What the sweep looks at -/

theorem inst?_eq_none {id : InstId} :
    function.inst? id = none ↔ id ∉ function.instructions.map Inst.id := by
  simp [inst?]

theorem inst?_eraseInst_of_none {id : InstId} (other : InstId)
    (gone : function.inst? id = none) : (function.eraseInst other).inst? id = none := by
  rw [inst?_eq_none] at gone ⊢
  intro present
  apply gone
  rw [eraseInst_eq_eraseInsts] at present
  exact ((instructions_eraseInsts [other]).map _).subset present

theorem looks_eraseIfDead (sweep : Sweep) (inst : InstId) :
    (eraseIfDead values slice sweep inst).looks =
      sweep.looks ++ [⟨inst, (sweep.function.inst? inst).isSome⟩] := by
  rw [eraseIfDead]
  split <;> rfl

theorem subset_looks_round (insts : List InstId) (sweep : Sweep) :
    sweep.looks ⊆ (insts.foldl (eraseIfDead values slice) sweep).looks := by
  induction insts generalizing sweep with
  | nil => exact List.Subset.refl _
  | cons head tail induction =>
      rw [List.foldl_cons]
      apply List.Subset.trans _ (induction _)
      rw [looks_eraseIfDead]
      exact List.subset_append_left _ _

theorem subset_looks_loop (fuel : Nat) (sweep : Sweep) :
    sweep.looks ⊆ (eraseDeadSliceLoop values slice fuel sweep).looks := by
  induction fuel generalizing sweep with
  | zero => exact List.Subset.refl _
  | succ fuel induction =>
      have round : sweep.looks ⊆ (slice.orderedInstructions.reverse.foldl
          (eraseIfDead values slice) { sweep with changed := false }).looks :=
        subset_looks_round _ { sweep with changed := false }
      rw [eraseDeadSliceLoop]
      split
      · exact List.Subset.trans round (induction _)
      · exact round

/-- A round looks at every instruction of the slice, the erased ones too. -/
theorem dead_mem_looks_round {inst : InstId} {insts : List InstId} {sweep : Sweep}
    (member : inst ∈ insts) (gone : sweep.function.inst? inst = none) :
    ⟨inst, false⟩ ∈ (insts.foldl (eraseIfDead values slice) sweep).looks := by
  induction insts generalizing sweep with
  | nil => cases member
  | cons head tail induction =>
      rw [List.foldl_cons]
      rcases List.mem_cons.mp member with rfl | later
      · apply subset_looks_round
        rw [looks_eraseIfDead, gone]
        exact List.mem_append_right _ (List.mem_singleton_self _)
      · apply induction later
        rw [eraseIfDead]
        split
        · exact inst?_eraseInst_of_none head gone
        · exact gone

theorem dead_mem_looks {inst : InstId} (inSlice : inst ∈ slice.orderedInstructions)
    (gone : function.inst? inst = none) :
    ⟨inst, false⟩ ∈ (function.eraseDeadSliceInstructions values slice).looks := by
  have round : (⟨inst, false⟩ : Look) ∈ (slice.orderedInstructions.reverse.foldl
      (eraseIfDead values slice) { function }).looks :=
    dead_mem_looks_round (List.mem_reverse.mpr inSlice) gone
  rw [eraseDeadSliceInstructions, eraseDeadSliceLoop]
  split
  · exact subset_looks_loop _ _ round
  · exact round

theorem parent?_of_inst? {inst : Inst} (found : function.inst? check = some inst) :
    ∃ block, function.parent? check = some block := by
  rcases mem_of_inst? found with ⟨member, rfl⟩
  rcases mem_instructions.mp member with ⟨block, blockMember, inside⟩
  apply Option.isSome_iff_exists.mp
  rw [parent?, List.find?_isSome]
  exact ⟨block, blockMember, decide_eq_true (List.mem_map_of_mem inside)⟩

theorem inst?_eraseInst {inst : Inst} (shaped : function.Shaped)
    (found : function.inst? check = some inst) (body : inst.op.isTerminator = false) :
    (function.eraseInst check).inst? check = none := by
  rcases mem_of_inst? found with ⟨member, rfl⟩
  rw [inst?_eq_none]
  intro present
  rcases List.mem_map.mp present with ⟨other, otherMember, equal⟩
  rcases mem_instructions.mp otherMember with ⟨block, blockMember, inside⟩
  rcases List.mem_map.mp blockMember with ⟨original, originalMember, rfl⟩
  rcases Block.mem_instructions.mp inside with kept | last
  · have different := (List.mem_filter.mp kept).2
    simp [equal] at different
  · exact shaped.terminator_ne member body original originalMember (last ▸ equal)

/-! ## The three outcomes -/

/-- The call is erased where it stands, because its block cannot be bypassed. -/
structure ErasesDirectly (function : Function) (values : ValueTable) (check : InstId) :
    Prop where
  notBypassed : ¬∃ report, function.Bypassable values check report
  erased : (function.eraseDirectCheckCall check).isSome = true

theorem eraseDirectCheckCall_eq_some {erased : Function}
    (found : function.eraseDirectCheckCall check = some erased) :
    erased = function.eraseInst check ∧ function.useEmpty check = true ∧
      ∃ inst site, function.inst? check = some inst ∧ inst.op = .call site := by
  rw [eraseDirectCheckCall] at found
  cases present : function.inst? check with
  | none =>
      rw [present] at found
      cases found
  | some inst =>
      rw [present, Option.map_some] at found
      cases kind : inst.op with
      | call site =>
          simp only [kind] at found
          split at found
          · rename_i unused
            exact ⟨(Option.some.inj found).symm, unused, inst, site, rfl, kind⟩
          · cases found
      | _ =>
          simp only [kind] at found
          cases found

/-- The block is bypassed, the call is erased with its dead slice, or nothing
happens. -/
theorem eraseCheckSlice_cases (shaped : function.Shaped) :
    (∃ report, function.Bypassable values check report ∧
        function.eraseCheckSlice values check =
          ⟨(function.bypassReportBlock values (function.collectCheckSlice values check)
            check).function, [], true⟩) ∨
      (function.ErasesDirectly values check ∧ function.eraseCheckSlice values check =
        ⟨((function.eraseInst check).eraseDeadSliceInstructions values
            (function.collectCheckSlice values check)).function,
          ((function.eraseInst check).eraseDeadSliceInstructions values
            (function.collectCheckSlice values check)).looks, true⟩) ∨
      (¬(∃ report, function.Bypassable values check report) ∧
        function.eraseDirectCheckCall check = none ∧
          function.eraseCheckSlice values check = ⟨function, [], false⟩) := by
  by_cases accepted : ∃ report, function.Bypassable values check report
  · rcases accepted with ⟨report, bypassable⟩
    refine .inl ⟨report, bypassable, ?_⟩
    simp only [eraseCheckSlice, bypassable.bypassReportBlock_eq shaped, if_true]
  · have refused : function.bypassReportBlock values
        (function.collectCheckSlice values check) check =
          ⟨function, function.collectCheckSlice values check, false⟩ := by
      rcases bypassReportBlock_cases shaped with ⟨report, bypassable, -⟩ | same
      · exact absurd ⟨report, bypassable⟩ accepted
      · exact same
    right
    cases direct : function.eraseDirectCheckCall check with
    | none =>
        refine .inr ⟨accepted, rfl, ?_⟩
        simp [eraseCheckSlice, refused, direct]
    | some erased =>
        refine .inl ⟨⟨accepted, by rw [direct]; rfl⟩, ?_⟩
        simp [eraseCheckSlice, refused, direct, (eraseDirectCheckCall_eq_some direct).1]

end Function

end Desan
