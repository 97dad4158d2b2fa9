import Desan.Foundation.Layout
import Desan.Foundation.Walk
import Desan.IR.Value

/-! # Blocks, functions and modules -/

namespace Desan

structure Inst where
  id : InstId
  ty : Ty
  op : Op
deriving DecidableEq, Repr

namespace Inst

def value (inst : Inst) : Value := .inst inst.id

def mapOperands (transform : Value → Value) (inst : Inst) : Inst :=
  { inst with op := inst.op.mapOperands transform }

@[simp] theorem id_mapOperands (transform : Value → Value) (inst : Inst) :
    (inst.mapOperands transform).id = inst.id := rfl

@[simp] theorem op_mapOperands (transform : Value → Value) (inst : Inst) :
    (inst.mapOperands transform).op = inst.op.mapOperands transform := rfl

end Inst

/-- A basic block. The terminator is kept apart, so every block ends in one
instruction that `getTerminator` answers. -/
structure Block where
  id : BlockId
  /-- Empty when the block has no name. -/
  name : String := ""
  /-- The instructions before the terminator, in layout order. -/
  insts : List Inst
  terminator : Inst
  addressTaken : Bool := false
deriving DecidableEq, Repr

namespace Block

def instructions (block : Block) : List Inst := block.insts ++ [block.terminator]

def successors (block : Block) : List BlockId := block.terminator.op.successors

/-- The instructions a block defines, the terminator last. -/
def definitions (block : Block) : List InstId := block.instructions.map Inst.id

def phis (block : Block) : List Inst := block.insts.filter fun inst => inst.op.isPhi

def mapInsts (transform : Inst → Inst) (block : Block) : Block :=
  { block with
    insts := block.insts.map transform
    terminator := transform block.terminator }

/-- Remove an instruction that is not the terminator from its block. -/
def erase (inst : InstId) (block : Block) : Block :=
  { block with insts := block.insts.filter fun other => other.id ≠ inst }

@[simp] theorem id_mapInsts (transform : Inst → Inst) (block : Block) :
    (block.mapInsts transform).id = block.id := rfl

@[simp] theorem terminator_erase (inst : InstId) (block : Block) :
    (block.erase inst).terminator = block.terminator := rfl

@[simp] theorem successors_erase (inst : InstId) (block : Block) :
    (block.erase inst).successors = block.successors := rfl

@[simp] theorem instructions_mapInsts (transform : Inst → Inst) (block : Block) :
    (block.mapInsts transform).instructions = block.instructions.map transform := by
  simp [instructions, mapInsts]

theorem mem_instructions {block : Block} {inst : Inst} :
    inst ∈ block.instructions ↔ inst ∈ block.insts ∨ inst = block.terminator := by
  simp [instructions]

theorem terminator_mem (block : Block) : block.terminator ∈ block.instructions := by
  simp [instructions]

end Block

/-- A function, known by its name. A declaration has no blocks. -/
structure Function where
  name : String
  blocks : List Block
deriving DecidableEq, Repr

namespace Function

def isDeclaration (function : Function) : Bool := function.blocks.isEmpty

/-- `getEntryBlock`: the first block of the layout. -/
def entry? (function : Function) : Option BlockId := function.blocks.head?.map Block.id

def blockIds (function : Function) : List BlockId := function.blocks.map Block.id

def block? (function : Function) (block : BlockId) : Option Block :=
  function.blocks.find? fun candidate => candidate.id = block

/-- `instructions(F)`: blocks in layout order, instructions in block order. -/
def instructions (function : Function) : List Inst :=
  function.blocks.flatMap Block.instructions

/-- The instruction behind a pointer, unless it has been erased. -/
def inst? (function : Function) (inst : InstId) : Option Inst :=
  function.instructions.find? fun candidate => candidate.id = inst

/-- `getParent` of an instruction: null once it has been erased. -/
def parent? (function : Function) (inst : InstId) : Option Block :=
  function.blocks.find? fun block => inst ∈ block.definitions

def successors (function : Function) (block : BlockId) : List BlockId :=
  (function.blocks.filter fun candidate => candidate.id = block).flatMap Block.successors

/-- `predecessors(BB)`: one entry for each edge into the block, in layout order. -/
def predecessors (function : Function) (block : BlockId) : List BlockId :=
  function.blocks.flatMap fun source =>
    (source.successors.filter fun target => target = block).map fun _ => source.id

/-- `users()` of a value: one entry for each use of it by an instruction. -/
def users (function : Function) (value : Value) : List InstId :=
  function.instructions.flatMap fun inst =>
    (inst.op.operands.filter fun operand => operand = value).map fun _ => inst.id

def useEmpty (function : Function) (inst : InstId) : Bool :=
  (function.users (.inst inst)).isEmpty

def mapBlocks (transform : Block → Block) (function : Function) : Function :=
  { function with blocks := function.blocks.map transform }

/-- Change the block with the given address only. -/
def updateBlock (function : Function) (block : BlockId) (transform : Block → Block) :
    Function :=
  function.mapBlocks fun candidate =>
    if candidate.id = block then transform candidate else candidate

def replaceAllUsesWith (function : Function) (old : InstId) (new : Value) : Function :=
  function.mapBlocks (Block.mapInsts (Inst.mapOperands (Value.replace old new)))

/-- `eraseFromParent` of an instruction that is not a terminator. -/
def eraseInst (function : Function) (inst : InstId) : Function :=
  function.mapBlocks (Block.erase inst)

def Edge (function : Function) (source target : BlockId) : Prop :=
  target ∈ function.successors source

instance (function : Function) (source target : BlockId) :
    Decidable (function.Edge source target) :=
  inferInstanceAs (Decidable (target ∈ function.successors source))

def IsEntry (function : Function) (block : BlockId) : Prop :=
  function.entry? = some block

instance (function : Function) (block : BlockId) : Decidable (function.IsEntry block) :=
  inferInstanceAs (Decidable (function.entry? = some block))

/-- No branch leads to the entry block. -/
def EntersOnce (function : Function) : Prop :=
  ∀ entry ∈ function.entry?, function.predecessors entry = []

instance (function : Function) : Decidable function.EntersOnce :=
  inferInstanceAs (Decidable (∀ entry ∈ function.entry?, function.predecessors entry = []))

/-- `function.Path done block`: a control-flow path from the entry has executed the
blocks `done`, latest first, and has arrived at the start of `block`. -/
abbrev Path (function : Function) : List BlockId → BlockId → Prop :=
  Walk function.IsEntry function.Edge

def Reachable (function : Function) (block : BlockId) : Prop :=
  ∃ done, function.Path done block

@[simp] theorem blocks_mapBlocks (transform : Block → Block) (function : Function) :
    (function.mapBlocks transform).blocks = function.blocks.map transform := rfl

theorem edge_iff {function : Function} {source target : BlockId} :
    function.Edge source target ↔
      ∃ block ∈ function.blocks, block.id = source ∧ target ∈ block.successors := by
  simp [Edge, successors, and_assoc]

theorem successors_eq_nil {function : Function} {block : BlockId}
    (outside : block ∉ function.blockIds) :
    function.successors block = [] := by
  rw [successors, List.flatMap_eq_nil_iff]
  intro candidate member
  have parts := List.mem_filter.mp member
  have same : candidate.id = block := of_decide_eq_true parts.2
  exact absurd (same ▸ List.mem_map_of_mem parts.1) outside

theorem mem_predecessors {function : Function} {source target : BlockId} :
    source ∈ function.predecessors target ↔ function.Edge source target := by
  simp only [predecessors, List.mem_flatMap, List.mem_map, List.mem_filter,
    decide_eq_true_eq, edge_iff]
  constructor
  · rintro ⟨block, member, successor, ⟨inside, rfl⟩, rfl⟩
    exact ⟨block, member, rfl, inside⟩
  · rintro ⟨block, member, rfl, inside⟩
    exact ⟨block, member, target, ⟨inside, rfl⟩, rfl⟩

theorem mem_users {function : Function} {value : Value} {user : InstId} :
    user ∈ function.users value ↔
      ∃ inst ∈ function.instructions, inst.id = user ∧ value ∈ inst.op.operands := by
  simp only [users, List.mem_flatMap, List.mem_map, List.mem_filter, decide_eq_true_eq]
  constructor
  · rintro ⟨inst, member, operand, ⟨inside, rfl⟩, rfl⟩
    exact ⟨inst, member, rfl, inside⟩
  · rintro ⟨inst, member, rfl, inside⟩
    exact ⟨inst, member, value, ⟨inside, rfl⟩, rfl⟩

theorem useEmpty_iff {function : Function} {inst : InstId} :
    function.useEmpty inst = true ↔
      ∀ user ∈ function.instructions, Value.inst inst ∉ user.op.operands := by
  rw [useEmpty, List.isEmpty_iff, List.eq_nil_iff_forall_not_mem]
  constructor
  · intro none user member inside
    exact none user.id (mem_users.mpr ⟨user, member, rfl, inside⟩)
  · intro none user member
    obtain ⟨inst, inside, -, used⟩ := mem_users.mp member
    exact none inst inside used

theorem mem_instructions {function : Function} {inst : Inst} :
    inst ∈ function.instructions ↔
      ∃ block ∈ function.blocks, inst ∈ block.instructions := by
  simp [instructions]

theorem inst?_isSome {function : Function} {inst : InstId} :
    (function.inst? inst).isSome = true ↔ inst ∈ function.instructions.map Inst.id := by
  rw [inst?, List.find?_isSome]
  simp

end Function

/-- What stands behind a value that is not an instruction, and its type. -/
structure OtherValue where
  node : OtherNode
  ty : Ty
deriving DecidableEq, Repr

/-- The values of a module that are not instructions. `count` bounds the chains of
constant expressions among them. -/
structure ValueTable where
  value : Nat → OtherValue
  count : Nat

structure Module where
  functions : List Function
  values : ValueTable
  dataLayout : DataLayout

namespace Module

def instructions (module : Module) : List Inst :=
  module.functions.flatMap Function.instructions

def inst? (module : Module) (inst : InstId) : Option Inst :=
  module.instructions.find? fun candidate => candidate.id = inst

/-- `getFunction` of an instruction. -/
def functionOf? (module : Module) (inst : InstId) : Option Function :=
  module.functions.find? fun function => (function.inst? inst).isSome

/-- `users()` of a value, over every function of the module. -/
def users (module : Module) (value : Value) : List InstId :=
  module.functions.flatMap fun function => function.users value

/-- Distinct instructions, and distinct blocks of a function, have distinct
addresses. -/
structure DistinctIds (module : Module) : Prop where
  insts : (module.instructions.map Inst.id).Nodup
  blocks : ∀ function ∈ module.functions, function.blockIds.Nodup

instance (module : Module) : Decidable module.DistinctIds :=
  decidable_of_iff
    ((module.instructions.map Inst.id).Nodup ∧
      ∀ function ∈ module.functions, function.blockIds.Nodup)
    ⟨fun parts => ⟨parts.1, parts.2⟩, fun distinct => ⟨distinct.insts, distinct.blocks⟩⟩

/-- An instruction is in one function. -/
theorem DistinctIds.functionOf?_eq {module : Module} (distinct : module.DistinctIds)
    {function : Function} {id : InstId} (member : function ∈ module.functions)
    (inside : id ∈ function.instructions.map Inst.id) :
    module.functionOf? id = some function := by
  have isSome : (module.functionOf? id).isSome := by
    rw [functionOf?, List.find?_isSome]
    refine ⟨function, member, ?_⟩
    rw [Function.inst?, List.find?_isSome]
    simpa using inside
  rcases Option.isSome_iff_exists.mp isSome with ⟨found, equal⟩
  have nodup : (module.functions.flatMap fun function =>
      function.instructions.map Inst.id).Nodup := by
    have same : (module.functions.flatMap fun function =>
        function.instructions.map Inst.id) = module.instructions.map Inst.id := by
      rw [instructions, List.map_flatMap]
    rw [same]
    exact distinct.insts
  have holds := List.find?_some equal
  rw [Function.inst?, List.find?_isSome] at holds
  have same := eq_of_nodup_flatMap nodup (List.mem_of_find?_eq_some equal) member
    (by simpa using holds) inside
  rw [equal, same]

end Module

end Desan
