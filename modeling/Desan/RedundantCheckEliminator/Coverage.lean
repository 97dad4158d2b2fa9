import Desan.Foundation.Layout
import Desan.RedundantCheckEliminator.Policy

/-! # Coverage of a marked check

The policy follows the layout of a function, not its control flow. A path to a
marked check misses the read that was kept for it only by jumping over the block of
that read. -/

namespace Desan

namespace Function

/-- Along a path that has left the blocks `done` and has come to an instruction with
the instructions `before` in front of it in its block, an instruction was executed. -/
def Executed (function : Function) (done : List BlockId) (before : List Inst)
    (inst : InstId) : Prop :=
  (∃ block ∈ function.blocks, block.id ∈ done ∧ inst ∈ block.definitions) ∨
    inst ∈ before.map Inst.id

/-- Place of a block in the layout. -/
def position (function : Function) (block : BlockId) : Nat := function.blockIds.idxOf block

/-- A path takes an edge from in front of a block, in the layout, to behind it. -/
def JumpsOver (function : Function) (trail : List BlockId) (block : BlockId) : Prop :=
  ∃ newer source target older, trail = newer ++ target :: source :: older ∧
    function.Edge source target ∧ function.position source < function.position block ∧
    function.position block < function.position target

theorem position_entry {function : Function} {block : BlockId} (entry : function.IsEntry block) :
    function.position block = 0 := by
  rw [IsEntry, entry?] at entry
  rw [position, blockIds]
  cases blocks : function.blocks with
  | nil => simp [blocks] at entry
  | cons head tail =>
      have equal : head.id = block := by simpa [blocks] using entry
      rw [List.map_cons, equal, List.idxOf_cons_self]

theorem map_id_instructions (function : Function) :
    function.instructions.map Inst.id = function.blocks.flatMap Block.definitions := by
  rw [instructions, List.map_flatMap]
  rfl

end Function

namespace Module

theorem map_id_instructions (module : Module) :
    module.instructions.map Inst.id =
      module.functions.flatMap fun function => function.instructions.map Inst.id := by
  rw [instructions, List.map_flatMap]

/-- An instruction belongs to one function only. -/
theorem DistinctIds.function_eq {module : Module} (distinct : module.DistinctIds)
    {left right : Function} (leftMember : left ∈ module.functions)
    (rightMember : right ∈ module.functions) {inst : InstId}
    (inLeft : inst ∈ left.instructions.map Inst.id)
    (inRight : inst ∈ right.instructions.map Inst.id) : left = right := by
  have nodup := distinct.insts
  rw [map_id_instructions] at nodup
  exact eq_of_nodup_flatMap nodup leftMember rightMember inLeft inRight

theorem DistinctIds.nodup_function {module : Module} (distinct : module.DistinctIds)
    {function : Function} (member : function ∈ module.functions) :
    (function.instructions.map Inst.id).Nodup := by
  have nodup := distinct.insts
  rw [map_id_instructions, List.nodup_flatMap] at nodup
  exact nodup.1 function member

/-- No group with a check of the function has a check of another function. -/
def GroupsWithin (module : Module) (options : GroupingOptions)
    (coreCheckSet : List CoreCheckKey) (function : Function) : Prop :=
  ∀ inner ∈ module.functionVariables coreCheckSet function,
    ∀ other ∈ module.moduleVariables coreCheckSet,
      makeVariableKey options other = makeVariableKey options inner →
        other ∈ module.functionVariables coreCheckSet function

/-- Two checks of one function stand in its instructions as they do in the module. -/
theorem sublist_pair_function {module : Module} (distinct : module.DistinctIds)
    {coreCheckSet : List CoreCheckKey} {function : Function}
    (member : function ∈ module.functions) {first second : CheckedVariable}
    {firstInst secondInst : InstId} (firstCall : first.checkInst = some firstInst)
    (secondCall : second.checkInst = some secondInst)
    (firstInside : firstInst ∈ function.instructions.map Inst.id)
    (secondInside : secondInst ∈ function.instructions.map Inst.id)
    (ordered : [first, second].Sublist (module.moduleVariables coreCheckSet)) :
    [firstInst, secondInst].Sublist (function.instructions.map Inst.id) := by
  have calls := (ordered.map CheckedVariable.checkInst).trans
    (module.checkInst_moduleVariables_sublist coreCheckSet)
  have somes : (module.instructions.map fun inst => some inst.id) =
      (module.instructions.map Inst.id).map some := by
    rw [List.map_map]
    rfl
  rw [somes, List.map_cons, List.map_cons, firstCall, secondCall] at calls
  have ids : [firstInst, secondInst].Sublist (module.instructions.map Inst.id) := by
    have unwrapped := calls.filterMap (fun id => id)
    simpa using unwrapped
  rcases List.append_of_mem member with ⟨earlier, later, split⟩
  have nodup := distinct.insts
  rw [map_id_instructions, split, List.flatMap_append, List.flatMap_cons,
    ← List.append_assoc] at nodup ids
  exact sublist_pair_of_segment nodup firstInside secondInside ids

/-- Along every path to the check, an unmarked check with its key was executed. -/
def CoveredOnEveryPath (module : Module) (addresses : Addresses) (options : GroupingOptions)
    (coreCheckSet : List CoreCheckKey) (function : Function) (checked : CheckedVariable) :
    Prop :=
  ∀ block ∈ function.blocks, ∀ before call after,
    block.instructions = before ++ call :: after → checked.checkInst = some call.id →
      ∀ done, function.Path done block.id →
        ∃ other ∈ module.functionVariables coreCheckSet function,
          makeVariableKey options other = makeVariableKey options checked ∧
          (module.markRedundantChecks addresses options coreCheckSet).unmarked other = true ∧
          ∃ inst, other.checkInst = some inst ∧ function.Executed done before inst

/-- An unmarked READ with the key of the check, which every path to the check executes
first unless the path jumps over the block of that READ. -/
def CoveredUnlessJumped (module : Module) (addresses : Addresses)
    (options : GroupingOptions) (coreCheckSet : List CoreCheckKey) (function : Function)
    (checked : CheckedVariable) : Prop :=
  ∃ reader ∈ module.functionVariables coreCheckSet function,
    reader.type = .READ ∧
    makeVariableKey options reader = makeVariableKey options checked ∧
    (module.markRedundantChecks addresses options coreCheckSet).unmarked reader = true ∧
    ∃ inst, reader.checkInst = some inst ∧
      ∃ home ∈ function.blocks, inst ∈ home.definitions ∧
        ∀ block ∈ function.blocks, ∀ before call after,
          block.instructions = before ++ call :: after →
          checked.checkInst = some call.id →
          ∀ done, function.Path done block.id →
            function.Executed done before inst ∨
              function.JumpsOver (block.id :: done) home.id

theorem coveredUnlessJumped_of_marked (module : Module) (addresses : Addresses)
    (options : GroupingOptions) (coreCheckSet : List CoreCheckKey) (function : Function)
    (distinct : module.DistinctIds) (member : function ∈ module.functions)
    (within : module.GroupsWithin options coreCheckSet function)
    (checked : CheckedVariable)
    (inside : checked ∈ module.functionVariables coreCheckSet function)
    (marked : (module.markRedundantChecks addresses options coreCheckSet).unmarked checked =
      false) :
    module.CoveredUnlessJumped addresses options coreCheckSet function checked := by
  have numbered := numbered_moduleVariables distinct coreCheckSet
  have inModule : checked ∈ module.moduleVariables coreCheckSet :=
    List.mem_flatMap.mpr ⟨function, member, inside⟩
  rcases List.append_of_mem inModule with ⟨earlier, later, split⟩
  rcases exists_reader numbered split marked with
    ⟨front, reader, between, earlierSplit, isRead, sameKey, unmarked, -⟩
  have whole : module.moduleVariables coreCheckSet =
      front ++ reader :: between ++ checked :: later := by
    rw [split, earlierSplit]
  have readerInside : reader ∈ module.functionVariables coreCheckSet function := by
    apply within checked inside reader _ sameKey
    rw [whole]
    simp
  rcases mem_functionVariables.mp readerInside with ⟨-, readerCall, readerMember, readerCore⟩
  rcases mem_functionVariables.mp inside with ⟨-, checkedCall, checkedMember, checkedCore⟩
  have readerId := checkInst_of_coreVariable? readerCore
  have checkedId := checkInst_of_coreVariable? checkedCore
  have ordered := sublist_pair_function distinct member readerId checkedId
    (List.mem_map_of_mem readerMember) (List.mem_map_of_mem checkedMember)
    (sublist_pair_of_split whole)
  rcases Function.mem_instructions.mp readerMember with ⟨home, homeMember, inHome⟩
  refine ⟨reader, readerInside, isRead, sameKey, unmarked, readerCall.id, readerId, home,
    homeMember, List.mem_map_of_mem inHome, ?_⟩
  intro block blockMember before call after blockSplit sameCall done path
  have callId : call.id = checkedCall.id := by
    rw [checkedId] at sameCall
    exact (Option.some.inj sameCall).symm
  have nodup := distinct.nodup_function member
  rw [Function.map_id_instructions] at ordered nodup
  have parts := List.nodup_flatMap.mp nodup
  have inBlock : checkedCall.id ∈ block.definitions := by
    rw [Block.definitions, blockSplit, List.map_append, List.map_cons, callId]
    simp
  rcases sublist_pair_flatMap ordered with one | two
  · rcases one with ⟨shared, sharedMember, pair⟩
    have equal : shared = block :=
      eq_of_nodup_flatMap nodup sharedMember blockMember (pair.subset (by simp)) inBlock
    rw [equal, Block.definitions, blockSplit, List.map_append, List.map_cons, callId] at pair
    have blockNodup := parts.1 block blockMember
    rw [Block.definitions, blockSplit, List.map_append, List.map_cons, callId] at blockNodup
    exact .inl (.inr (mem_of_sublist_pair blockNodup pair))
  · rcases two with ⟨left, right, pair, inLeft, inRight⟩
    have leftMember : left ∈ function.blocks := pair.subset (by simp)
    have rightMember : right ∈ function.blocks := pair.subset (by simp)
    rw [eq_of_nodup_flatMap nodup leftMember homeMember inLeft (List.mem_map_of_mem inHome),
      eq_of_nodup_flatMap nodup rightMember blockMember inRight inBlock] at pair
    have less : function.position home.id < function.position block.id :=
      idxOf_lt_of_sublist_pair (distinct.blocks function member) (pair.map Block.id)
    have starts : ∀ root, function.IsEntry root →
        function.position root ≤ function.position home.id := by
      intro root entry
      rw [Function.position_entry entry]
      exact Nat.zero_le _
    rcases Walk.crosses path starts less with visited | jumped
    · rcases visited with ⟨middle, middleMember, position⟩
      have homeKnown : home.id ∈ function.blockIds := List.mem_map_of_mem homeMember
      have equal : home.id = middle := (List.idxOf_inj homeKnown).mp position.symm
      rw [← equal] at middleMember
      exact .inl (.inl ⟨home, homeMember, middleMember, List.mem_map_of_mem inHome⟩)
    · rcases jumped with ⟨newer, source, target, older, trail, edge, below, above⟩
      exact .inr ⟨newer, source, target, older, trail, edge, below, above⟩

/-- A conditional branch with a load of the same address on either side. -/
def diamondFunction : Function where
  name := "f"
  blocks :=
    [{ id := 0, insts := [], terminator := ⟨10, .other 0, .condBr (.other 4) 1 2⟩ },
     { id := 1, insts := [sampleCall 0 0 3], terminator := ⟨11, .other 0, .br 3⟩ },
     { id := 2, insts := [sampleCall 1 0 3], terminator := ⟨12, .other 0, .br 3⟩ },
     { id := 3, insts := [], terminator := ⟨13, .other 0, .ret none⟩ }]

def diamond : Module where
  functions := [diamondFunction]
  values := sampleValues
  dataLayout := ⟨64, 8⟩

theorem diamond_coveredUnlessJumped :
    (diamond.markRedundantChecks .byId {} []).unmarked (sampleChecked 1 .READ) = false ∧
      diamond.CoveredUnlessJumped .byId {} [] diamondFunction (sampleChecked 1 .READ) :=
  ⟨by decide +kernel,
    coveredUnlessJumped_of_marked diamond .byId {} [] diamondFunction (by decide)
      (by decide) (by unfold GroupsWithin; decide +kernel) (sampleChecked 1 .READ)
      (by decide +kernel) (by decide +kernel)⟩

/-- The path through the second side meets its load only, which is marked. -/
theorem diamond_not_covered :
    diamond.GroupsWithin {} [] diamondFunction ∧
      (diamond.markRedundantChecks .byId {} []).markedCalls = [1] ∧
      ¬diamond.CoveredOnEveryPath .byId {} [] diamondFunction (sampleChecked 1 .READ) := by
  refine ⟨by unfold GroupsWithin; decide +kernel, by decide +kernel, ?_⟩
  intro covered
  have path : diamondFunction.Path [0] 2 := .step (.start rfl) (by decide)
  rcases covered ⟨2, "", [sampleCall 1 0 3], ⟨12, .other 0, .br 3⟩, false⟩ (by decide) []
    (sampleCall 1 0 3) [⟨12, .other 0, .br 3⟩] rfl rfl [0] path with
    ⟨other, otherMember, -, unmarked, inst, call, executed⟩
  have known : diamond.functionVariables [] diamondFunction =
      [sampleChecked 0 .READ, sampleChecked 1 .READ] := by decide +kernel
  rw [known, List.mem_pair] at otherMember
  rcases otherMember with rfl | rfl
  · cases call
    rcases executed with earlier | before
    · have outside : ∀ block ∈ diamondFunction.blocks, block.id ∈ [0] →
          0 ∉ block.definitions := by decide
      rcases earlier with ⟨block, member, done, inside⟩
      exact outside block member done inside
    · cases before
  · have marked : (diamond.markRedundantChecks .byId {} []).unmarked
        (sampleChecked 1 .READ) = false := by decide +kernel
    rw [marked] at unmarked
    cases unmarked

end Module

end Desan
