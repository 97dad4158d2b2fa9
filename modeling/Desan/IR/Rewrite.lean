import Desan.IR.Carry

/-! # Rewriting operands

Edits that change what operands stand for: operands forget instructions that are gone,
and phis that are left with one value are folded. -/

namespace Desan

namespace Block

@[simp] theorem definitions_mapOperands (transform : Value → Value) (block : Block) :
    (block.mapInsts (Inst.mapOperands transform)).definitions = block.definitions := by
  rw [definitions, definitions, instructions_mapInsts, List.map_map]
  rfl

@[simp] theorem successors_mapOperands (transform : Value → Value) (block : Block) :
    (block.mapInsts (Inst.mapOperands transform)).successors = block.successors :=
  Op.successors_mapOperands transform block.terminator.op

theorem mapOperands_id (block : Block) :
    (block.mapInsts (Inst.mapOperands fun value => value)) = block := by
  have same : (Inst.mapOperands fun value => value) = fun inst => inst := by
    funext inst
    exact congrArg (fun op => { inst with op }) inst.op.mapOperands_id
  rw [same, mapInsts, List.map_id'' fun _ => rfl]

theorem mapOperands_mapOperands (first second : Value → Value) (block : Block) :
    (block.mapInsts (Inst.mapOperands first)).mapInsts (Inst.mapOperands second) =
      block.mapInsts (Inst.mapOperands (second ∘ first)) := by
  have same : Inst.mapOperands second ∘ Inst.mapOperands first =
      Inst.mapOperands (second ∘ first) := by
    funext inst
    simp only [Function.comp_apply, Inst.mapOperands, Op.mapOperands_mapOperands]
  simp only [mapInsts, List.map_map, same]
  rw [← same, Function.comp_apply]

theorem erase_mapOperands (inst : InstId) (transform : Value → Value) (block : Block) :
    (block.mapInsts (Inst.mapOperands transform)).erase inst =
      (block.erase inst).mapInsts (Inst.mapOperands transform) := by
  rw [erase, mapInsts, List.filter_map]
  rfl

end Block

namespace Function

/-! ## Edits that leave the edges -/

section Edges

variable {function : Function} {transform : Block → Block}
  (keeps : ∀ block ∈ function.blocks,
    (transform block).id = block.id ∧ (transform block).successors = block.successors)
include keeps

theorem isEntry_mapBlocks {block : BlockId} :
    (function.mapBlocks transform).IsEntry block ↔ function.IsEntry block := by
  rw [IsEntry, IsEntry, entry?, entry?, blocks_mapBlocks, List.head?_map, Option.map_map]
  cases found : function.blocks.head? with
  | none => exact Iff.rfl
  | some head =>
      rw [Option.map_some, Option.map_some, Function.comp_apply,
        (keeps head (List.mem_of_mem_head? found)).1]

theorem predecessors_mapBlocks (target : BlockId) :
    (function.mapBlocks transform).predecessors target = function.predecessors target := by
  rw [predecessors, predecessors, blocks_mapBlocks, List.flatMap_map]
  apply List.flatMap_congr
  intro block member
  rw [(keeps block member).1, (keeps block member).2]

theorem edge_mapBlocks {source target : BlockId} :
    (function.mapBlocks transform).Edge source target ↔ function.Edge source target := by
  rw [← mem_predecessors, ← mem_predecessors, predecessors_mapBlocks keeps]

theorem path_mapBlocks {done : List BlockId} {block : BlockId} :
    (function.mapBlocks transform).Path done block ↔ function.Path done block := by
  constructor
  · intro path
    exact path.mono (fun _ => (isEntry_mapBlocks keeps).mp)
      fun _ _ => (edge_mapBlocks keeps).mp
  · intro path
    exact path.mono (fun _ => (isEntry_mapBlocks keeps).mpr)
      fun _ _ => (edge_mapBlocks keeps).mpr

theorem reachable_mapBlocks {block : BlockId} :
    (function.mapBlocks transform).Reachable block ↔ function.Reachable block :=
  exists_congr fun _ => path_mapBlocks keeps

theorem entersOnce_mapBlocks (entersOnce : function.EntersOnce) :
    (function.mapBlocks transform).EntersOnce := by
  intro entry isEntry
  rw [predecessors_mapBlocks keeps]
  exact entersOnce entry ((isEntry_mapBlocks keeps).mp isEntry)

end Edges

/-! ## Operands without an instruction -/

def ids (function : Function) : List InstId := function.instructions.map Inst.id

/-- Operands that stand for no instruction of the function may have changed. -/
def Forgets (before after : Function) : Prop :=
  ∃ transform, Value.KeepsConstants transform ∧
    (∀ id ∈ before.ids, transform (.inst id) = .inst id) ∧
      after = before.mapBlocks (Block.mapInsts (Inst.mapOperands transform))

section Forgets

variable {function first second third : Function}

theorem ids_mapOperands (transform : Value → Value) (function : Function) :
    (function.mapBlocks (Block.mapInsts (Inst.mapOperands transform))).ids = function.ids := by
  simp only [ids, instructions, blocks_mapBlocks, List.flatMap_map,
    Block.instructions_mapInsts, List.map_flatMap, List.map_map]
  rfl

/-- Operands that stand for one of the instructions may have changed. -/
def Rewords (replaced : List InstId) (before after : Function) : Prop :=
  ∃ transform, Value.KeepsConstants transform ∧
    (∀ id, id ∉ replaced → transform (.inst id) = .inst id) ∧
      after = before.mapBlocks (Block.mapInsts (Inst.mapOperands transform))

variable {replaced : List InstId}

theorem Rewords.ids_eq (rewords : first.Rewords replaced second) : second.ids = first.ids := by
  rcases rewords with ⟨transform, -, -, rfl⟩
  exact ids_mapOperands transform first

theorem mapOperands_id (function : Function) :
    function.mapBlocks (Block.mapInsts (Inst.mapOperands fun value => value)) = function := by
  have same : Block.mapInsts (Inst.mapOperands fun value => value) = id := by
    funext block
    exact block.mapOperands_id
  rw [mapBlocks, same, List.map_id]

theorem mapOperands_mapOperands (function : Function) (first second : Value → Value) :
    (function.mapBlocks (Block.mapInsts (Inst.mapOperands first))).mapBlocks
        (Block.mapInsts (Inst.mapOperands second)) =
      function.mapBlocks (Block.mapInsts (Inst.mapOperands (second ∘ first))) := by
  simp only [mapBlocks, List.map_map]
  congr 1
  apply List.map_congr_left
  intro block _
  exact block.mapOperands_mapOperands first second

theorem Rewords.refl (replaced : List InstId) (function : Function) :
    function.Rewords replaced function :=
  ⟨fun value => value, fun _ _ => rfl, fun _ _ => rfl, function.mapOperands_id.symm⟩

theorem Rewords.trans (left : first.Rewords replaced second)
    (right : second.Rewords replaced third) : first.Rewords replaced third := by
  rcases left with ⟨before, keepsBefore, fixesBefore, rfl⟩
  rcases right with ⟨after, keepsAfter, fixesAfter, rfl⟩
  refine ⟨after ∘ before, ?_, ?_, first.mapOperands_mapOperands before after⟩
  · intro value constant
    rw [Function.comp_apply, keepsBefore value constant, keepsAfter value constant]
  · intro id kept
    rw [Function.comp_apply, fixesBefore id kept, fixesAfter id kept]

end Forgets

theorem exists_phi_of_mapOperands (transform : Value → Value) {op : Op}
    {incoming : List (Value × BlockId)}
    (mapped : op.mapOperands transform = .phi incoming) :
    ∃ original, op = .phi original ∧
      incoming = original.map fun entry => (transform entry.1, entry.2) := by
  cases op with
  | phi original => exact ⟨original, rfl, (Op.phi.inj mapped).symm⟩
  | _ => cases mapped

/-! ## Folding phis -/

/-- Phis left with one value, themselves aside, are folded one after the other. -/
inductive Folds : Function → Function → Prop where
  | refl (function : Function) : Folds function function
  | step {function folded : Function} {inst : Inst} {incoming : List (Value × BlockId)}
      {value : Value} (member : inst ∈ function.instructions)
      (isPhi : inst.op = .phi incoming) (other : value ≠ inst.value)
      (one : ∀ entry ∈ incoming, entry.1 = value ∨ entry.1 = inst.value)
      (source : value = .poison ∨ ∃ entry ∈ incoming, entry.1 = value) :
      Folds (function.replaceInst inst.id value) folded → Folds function folded

theorem mem_instructions_replaceInst {function : Function} {phi : Inst}
    {incoming : List (Value × BlockId)} {value : Value} (shaped : function.Shaped)
    (member : phi ∈ function.instructions) (isPhi : phi.op = .phi incoming) {inst : Inst} :
    inst ∈ (function.replaceInst phi.id value).instructions ↔
      ∃ original ∈ function.instructions, original.id ≠ phi.id ∧
        original.mapOperands (Value.replace phi.id value) = inst := by
  have stays := shaped.terminator_ne member (by rw [isPhi]; rfl)
  constructor
  · intro inside
    rcases mem_instructions.mp inside with ⟨edited, editedMember, instInside⟩
    rcases List.mem_map.mp editedMember with ⟨middle, middleMember, rfl⟩
    rcases List.mem_map.mp middleMember with ⟨block, blockMember, rfl⟩
    rcases Block.mem_instructions.mp instInside with body | last
    · rcases List.mem_filter.mp body with ⟨mapped, different⟩
      rcases List.mem_map.mp mapped with ⟨original, originalMember, rfl⟩
      exact ⟨original, mem_instructions.mpr
        ⟨block, blockMember, Block.mem_instructions.mpr (.inl originalMember)⟩,
        of_decide_eq_true different, rfl⟩
    · exact ⟨block.terminator, mem_instructions.mpr
        ⟨block, blockMember, block.terminator_mem⟩, stays block blockMember, last.symm⟩
  · intro exists_
    rcases exists_ with ⟨original, originalMember, different, rfl⟩
    rcases mem_instructions.mp originalMember with ⟨block, blockMember, inside⟩
    refine mem_instructions.mpr ⟨_, List.mem_map_of_mem (List.mem_map_of_mem blockMember), ?_⟩
    rcases Block.mem_instructions.mp inside with body | last
    · exact Block.mem_instructions.mpr (.inl (List.mem_filter.mpr
        ⟨List.mem_map_of_mem body, decide_eq_true different⟩))
    · rw [last]
      exact Block.mem_instructions.mpr (.inr rfl)

/-- The phi takes over one value only, itself aside. -/
structure ComesOutAs (phi : InstId) (incoming : List (Value × BlockId)) (value : Value) :
    Prop where
  other : value ≠ .inst phi
  one : ∀ entry ∈ incoming, entry.1 = value ∨ entry.1 = .inst phi
  source : value = .poison ∨ ∃ entry ∈ incoming, entry.1 = value

theorem hasConstantValue_eq_some {phi : InstId} {incoming : List (Value × BlockId)}
    {value : Value} (constant : hasConstantValue phi incoming = some value) :
    ComesOutAs phi incoming value := by
  rw [hasConstantValue] at constant
  have others : ∀ entry ∈ incoming, entry.1 ≠ .inst phi →
      entry.1 ∈ (incoming.map Prod.fst).filter fun value => value ≠ .inst phi := by
    intro entry member different
    exact List.mem_filter.mpr ⟨List.mem_map_of_mem member, decide_eq_true different⟩
  split at constant
  · rename_i empty
    have equal : value = .poison := (Option.some.inj constant).symm
    refine ⟨by rw [equal]; exact Value.noConfusion, ?_, .inl equal⟩
    intro entry member
    by_contra neither
    have inside := others entry member fun same => neither (.inr same)
    rw [empty] at inside
    cases inside
  · rename_i head tail split
    simp only [Option.ite_none_right_eq_some, Option.some.injEq] at constant
    rcases constant with ⟨all, rfl⟩
    have inside : head ∈ (incoming.map Prod.fst).filter fun value => value ≠ .inst phi := by
      rw [split]
      exact List.mem_cons_self ..
    refine ⟨of_decide_eq_true (List.mem_filter.mp inside).2, ?_,
      .inr (List.mem_map.mp (List.mem_filter.mp inside).1)⟩
    · intro entry member
      by_cases same : entry.1 = .inst phi
      · exact .inr same
      · have inside := others entry member same
        rw [split] at inside
        rcases List.mem_cons.mp inside with equal | later
        · exact .inl equal
        · exact .inl (of_decide_eq_true (List.all_eq_true.mp all _ later))

section Folds

variable {function : Function} {block : BlockId}

theorem mem_definedIn {id : InstId} :
    id ∈ function.definedIn block ↔
      ∃ candidate ∈ function.blocks, candidate.id = block ∧ id ∈ candidate.definitions := by
  simp [definedIn, and_assoc]

theorem poisonWhere_ne {dead : List InstId} {phi : InstId} {value : Value}
    (different : value ≠ .inst phi) : Value.poisonWhere dead value ≠ .inst phi := by
  cases value with
  | inst id =>
      rw [Value.poisonWhere]
      split
      · exact Value.noConfusion
      · exact different
  | other id => exact Value.noConfusion
  | poison => exact Value.noConfusion

/-- A phi that stays takes over one value after others have become poison. -/
theorem ComesOutAs.poisonWhere {dead : List InstId} {phi : InstId}
    {incoming : List (Value × BlockId)} {value : Value} (outside : phi ∉ dead)
    (comesOut : ComesOutAs phi incoming value) :
    ComesOutAs phi (incoming.map fun entry => (Value.poisonWhere dead entry.1, entry.2))
      (Value.poisonWhere dead value) where
  other := poisonWhere_ne comesOut.other
  one := by
    have stays : Value.poisonWhere dead (.inst phi) = .inst phi := if_neg outside
    intro entry member
    rcases List.mem_map.mp member with ⟨original, originalMember, rfl⟩
    rcases comesOut.one original originalMember with same | self
    · exact .inl (congrArg (Value.poisonWhere dead) same)
    · right
      rw [self]
      exact stays
  source := by
    rcases comesOut.source with isPoison | ⟨entry, member, same⟩
    · left
      rw [isPoison]
      rfl
    · exact .inr ⟨_, List.mem_map_of_mem member, congrArg (Value.poisonWhere dead) same⟩

theorem poison_replace {dead : List InstId} {phi : InstId} (outside : phi ∉ dead)
    (new : Value) :
    Value.poisonWhere dead ∘ Value.replace phi new =
      Value.replace phi (Value.poisonWhere dead new) ∘ Value.poisonWhere dead := by
  funext value
  simp only [Function.comp_apply]
  by_cases same : value = .inst phi
  · have stays : Value.poisonWhere dead (.inst phi) = .inst phi := if_neg outside
    rw [same, stays, Value.replace_self, Value.replace_self]
  · rw [Value.replace_of_ne same, Value.replace_of_ne (poisonWhere_ne same)]

theorem definedIn_replaceInst {phi : InstId} (outside : phi ∉ function.definedIn block)
    (new : Value) : (function.replaceInst phi new).definedIn block = function.definedIn block := by
  simp only [definedIn, replaceInst, replaceAllUsesWith, eraseInst, mapBlocks,
    List.map_map, List.filter_map, List.flatMap_map]
  apply List.flatMap_congr
  intro candidate member
  rcases List.mem_filter.mp member with ⟨inside, atBlock⟩
  have notDefined : phi ∉ candidate.definitions := fun defined =>
    outside (mem_definedIn.mpr ⟨candidate, inside, of_decide_eq_true atBlock, defined⟩)
  simp only [Function.comp_apply, Block.definitions, Block.instructions, Block.erase,
    Block.mapInsts, List.map_append, List.map_cons, List.map_nil, Inst.id_mapOperands]
  congr 1
  rw [List.filter_eq_self.mpr]
  · simp [Function.comp_def]
  · intro inst instMember
    rcases List.mem_map.mp instMember with ⟨original, originalMember, rfl⟩
    apply decide_eq_true
    intro equal
    exact notDefined (List.mem_map.mpr
      ⟨original, Block.mem_instructions.mpr (.inl originalMember), equal⟩)

/-- Erasing a block and folding a phi of another block commute. -/
theorem eraseBlock_replaceInst {phi : InstId} (outside : phi ∉ function.definedIn block)
    (new : Value) :
    (function.replaceInst phi new).eraseBlock block =
      (function.eraseBlock block).replaceInst phi
        (Value.poisonWhere (function.definedIn block) new) := by
  have one : ∀ candidate : Block,
      ((candidate.mapInsts (Inst.mapOperands (Value.replace phi new))).erase phi).mapInsts
          (Inst.mapOperands (Value.poisonWhere (function.definedIn block))) =
        ((candidate.mapInsts
          (Inst.mapOperands (Value.poisonWhere (function.definedIn block)))).mapInsts
            (Inst.mapOperands (Value.replace phi
              (Value.poisonWhere (function.definedIn block) new)))).erase phi := by
    intro candidate
    rw [Block.mapOperands_mapOperands, ← poison_replace outside,
      ← Block.mapOperands_mapOperands, Block.erase_mapOperands phi (Value.poisonWhere _)]
  rw [eraseBlock, definedIn_replaceInst outside]
  simp only [eraseBlock, replaceInst, replaceAllUsesWith, eraseInst, mapBlocks, dropBlock,
    List.map_map, List.filter_map]
  congr 1
  apply List.map_congr_left
  intro candidate _
  exact one candidate

theorem mem_instructions_eraseBlock {inst : Inst} (member : inst ∈ function.instructions)
    (outside : inst.id ∉ function.definedIn block) :
    inst.mapOperands (Value.poisonWhere (function.definedIn block)) ∈
      (function.eraseBlock block).instructions := by
  rcases mem_instructions.mp member with ⟨home, homeMember, inside⟩
  have different : home.id ≠ block := fun atBlock =>
    outside (mem_definedIn.mpr ⟨home, homeMember, atBlock, List.mem_map_of_mem inside⟩)
  refine mem_instructions.mpr ⟨home.mapInsts (Inst.mapOperands
    (Value.poisonWhere (function.definedIn block))),
    mem_dropBlock.mpr ⟨List.mem_map_of_mem homeMember, different⟩, ?_⟩
  rw [Block.instructions_mapInsts]
  exact List.mem_map_of_mem inside

theorem folds_eraseBlock {phis : List InstId}
    (outside : ∀ phi ∈ phis, phi ∉ function.definedIn block) :
    (function.eraseBlock block).Folds ((phis.foldl foldPhi function).eraseBlock block) := by
  induction phis generalizing function with
  | nil => exact .refl _
  | cons head tail induction =>
      rw [List.foldl_cons]
      rcases List.forall_mem_cons.mp outside with ⟨notHead, later⟩
      rw [foldPhi]
      cases found : function.inst? head with
      | none => exact induction later
      | some inst =>
          rcases mem_of_inst? found with ⟨member, rfl⟩
          rw [Option.map_some]
          split
          · rename_i incoming isPhi
            cases constant : hasConstantValue inst.id incoming with
            | none => exact induction later
            | some value =>
                have comesOut := (hasConstantValue_eq_some constant).poisonWhere notHead
                have isPhi : (inst.mapOperands
                    (Value.poisonWhere (function.definedIn block))).op =
                      .phi (incoming.map fun entry =>
                        (Value.poisonWhere (function.definedIn block) entry.1, entry.2)) := by
                  rw [Inst.op_mapOperands, Option.some.inj isPhi]
                  rfl
                have rest : ((function.replaceInst inst.id value).eraseBlock block).Folds
                    ((tail.foldl foldPhi (function.replaceInst inst.id value)).eraseBlock
                      block) := by
                  apply induction
                  rw [definedIn_replaceInst notHead]
                  exact later
                rw [eraseBlock_replaceInst notHead] at rest
                exact .step (mem_instructions_eraseBlock member notHead) isPhi comesOut.other
                  comesOut.one comesOut.source rest
          · exact induction later

end Folds

end Function

end Desan
