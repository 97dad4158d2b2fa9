import Desan.CheckGraphBuilder
import Desan.Foundation.Repetition

/-! # Marking redundant read checks

The retention policy of `RedundantCheckEliminator`, run over every group of
checks with one key. -/

namespace Desan

/-- Per-variable retention policy: keep the first check, keep every WRITE,
keep the first READ after a WRITE/UNKNOWN barrier, and remove other READs. -/
structure ReadRetentionState where
  seenAnyCheck : Bool := false
  keepNextRead : Bool := false
deriving DecidableEq, Repr

namespace ReadRetentionState

def shouldKeep (state : ReadRetentionState) : AccessType → Bool × ReadRetentionState
  | .UNKNOWN => (true, { state with keepNextRead := true })
  | .WRITE => (true, { seenAnyCheck := true, keepNextRead := true })
  | .READ =>
      if state.seenAnyCheck = false then
        (true, { seenAnyCheck := true, keepNextRead := false })
      else if state.keepNextRead then (true, { state with keepNextRead := false })
      else (false, state)

end ReadRetentionState

structure RemovalCandidate where
  checked : CheckedVariable
  type : AccessType
  sanitizer : SanitizerKind
  basicBlockName : String
deriving DecidableEq, Repr

/-- The marked calls, each once, and what the dump tells of them. -/
structure Marks where
  markedCalls : List InstId := []
  removalCandidates : List RemovalCandidate := []
deriving DecidableEq, Repr

namespace Module

def basicBlockName (module : Module) (inst : InstId) : String :=
  match (module.functionOf? inst).bind fun function => function.parent? inst with
  | some block => if block.name.isEmpty then "<unnamed>" else block.name
  | none => "<unknown>"

def markForRemoval (module : Module) (marks : Marks) (checked : CheckedVariable)
    (type : AccessType) : Marks :=
  match checked.checkInst with
  | none => marks
  | some inst =>
      if inst ∈ marks.markedCalls then marks
      else
        { markedCalls := marks.markedCalls ++ [inst]
          removalCandidates := marks.removalCandidates ++
            [{ checked := { checked with checkInst := none, address := none }
               type := type
               sanitizer := checked.sanitizer
               basicBlockName := module.basicBlockName inst }] }

/-- The loop over one group. -/
def markGroup (module : Module) :
    ReadRetentionState → List CheckedVariable → Marks → Marks
  | _, [], marks => marks
  | retention, checked :: rest, marks =>
      if checked.checkInst.isNone then module.markGroup retention rest marks
      else
        match retention.shouldKeep checked.type with
        | (true, retention) => module.markGroup retention rest marks
        | (false, retention) =>
            if checked.type = .READ then
              module.markGroup retention rest (module.markForRemoval marks checked checked.type)
            else module.markGroup retention rest marks

def markGroups (module : Module)
    (groups : List (VariableKey × List CheckedVariable)) : Marks :=
  groups.foldl
    (fun marks group =>
      if group.2.isEmpty then marks else module.markGroup {} group.2 marks)
    {}

/-- `eliminateRedundantChecks`, up to the erasure of the marked calls. -/
def markRedundantChecks (module : Module) (addresses : Addresses)
    (options : GroupingOptions) (coreCheckSet : List CoreCheckKey) : Marks :=
  module.markGroups (module.groupChecksByVariable addresses options coreCheckSet)

end Module

/-! ## What the automaton knows -/

def CheckedVariable.isRead (checked : CheckedVariable) : Bool := checked.type = .READ

namespace ReadRetentionState

/-- What the two flags say of the last check of the group, if there was one. -/
def After (state : ReadRetentionState) : Option AccessType → Prop
  | none => state = {}
  | some .READ => state.seenAnyCheck = true ∧ state.keepNextRead = false
  | some .WRITE => state.seenAnyCheck = true ∧ state.keepNextRead = true
  | some .UNKNOWN => state.keepNextRead = true

theorem After.shouldKeep {state : ReadRetentionState} {last : Option AccessType}
    (after : state.After last) (type : AccessType) :
    (state.shouldKeep type).2.After (some type) ∧
      ((state.shouldKeep type).1 = false ↔ type = .READ ∧ last = some .READ) := by
  rcases state with ⟨seenAnyCheck, keepNextRead⟩
  cases type with
  | WRITE => simp [ReadRetentionState.shouldKeep, After]
  | UNKNOWN => simp [ReadRetentionState.shouldKeep, After]
  | READ =>
      match last, after with
      | none, after =>
          cases after
          simp [ReadRetentionState.shouldKeep, After]
      | some .READ, after =>
          rcases after with ⟨seen, keep⟩
          simp only at seen keep
          simp [ReadRetentionState.shouldKeep, After, seen, keep]
      | some .WRITE, after =>
          rcases after with ⟨seen, keep⟩
          simp only at seen keep
          simp [ReadRetentionState.shouldKeep, After, seen, keep]
      | some .UNKNOWN, keep =>
          simp only [After] at keep
          cases seenAnyCheck <;> simp [ReadRetentionState.shouldKeep, After, keep]

end ReadRetentionState

namespace Module

theorem mem_markForRemoval {module : Module} {marks : Marks} {checked : CheckedVariable}
    {type : AccessType} {inst : InstId} :
    inst ∈ (module.markForRemoval marks checked type).markedCalls ↔
      inst ∈ marks.markedCalls ∨ checked.checkInst = some inst := by
  rw [markForRemoval]
  cases found : checked.checkInst with
  | none => simp
  | some other =>
      by_cases marked : other ∈ marks.markedCalls
      · simp only [marked, if_true, Option.some.injEq]
        constructor
        · exact .inl
        · intro cases
          rcases cases with known | rfl
          · exact known
          · exact marked
      · simp [marked, eq_comm]

/-- A group's marks are the checks that repeat a READ. -/
theorem mem_markGroup {module : Module} {retention : ReadRetentionState}
    {last : Option AccessType} (after : retention.After last)
    {group : List CheckedVariable} (calls : ∀ checked ∈ group, checked.checkInst.isSome)
    {marks : Marks} {inst : InstId} :
    inst ∈ (module.markGroup retention group marks).markedCalls ↔
      inst ∈ marks.markedCalls ∨
        ∃ checked ∈ repeated CheckedVariable.isRead (last = some .READ) group,
          checked.checkInst = some inst := by
  induction group generalizing retention last marks with
  | nil => simp [markGroup, repeated]
  | cons head tail induction =>
      have present : head.checkInst.isNone = false :=
        Option.isNone_eq_false_iff.mpr (calls head (List.mem_cons_self ..))
      have tailCalls : ∀ checked ∈ tail, checked.checkInst.isSome :=
        fun checked member => calls checked (List.mem_cons_of_mem _ member)
      have step := after.shouldKeep head.type
      rw [markGroup, repeated, present]
      simp only [Bool.false_eq_true, if_false]
      cases kept : retention.shouldKeep head.type with
      | mk keep next =>
          rw [kept] at step
          have rest := @induction next (some head.type) step.1 tailCalls
          have isRead : head.isRead = decide (some head.type = some AccessType.READ) := by
            simp [CheckedVariable.isRead]
          cases keep with
          | true =>
              have first : ¬(head.isRead && decide (last = some .READ)) = true := by
                intro both
                have parts := Bool.and_eq_true_iff.mp both
                have dropped := step.2.mpr
                  ⟨by simpa [CheckedVariable.isRead] using parts.1,
                    by simpa using parts.2⟩
                cases dropped
              simp only [if_neg first]
              rw [rest, isRead]
          | false =>
              have parts := step.2.mp rfl
              have both : (head.isRead && decide (last = some .READ)) = true := by
                simp [CheckedVariable.isRead, parts.1, parts.2]
              rw [parts.1] at rest
              simp only [parts.1, if_true, if_pos both]
              rw [rest, mem_markForRemoval]
              simp [or_assoc]

theorem mem_markGroups {module : Module}
    {groups : List (VariableKey × List CheckedVariable)}
    (calls : ∀ group ∈ groups, ∀ checked ∈ group.2, checked.checkInst.isSome)
    {inst : InstId} :
    inst ∈ (module.markGroups groups).markedCalls ↔
      ∃ group ∈ groups, ∃ checked ∈ repeated CheckedVariable.isRead false group.2,
        checked.checkInst = some inst := by
  have general : ∀ marks : Marks,
      inst ∈ (groups.foldl
          (fun marks group =>
            if group.2.isEmpty then marks else module.markGroup {} group.2 marks)
          marks).markedCalls ↔
        inst ∈ marks.markedCalls ∨
          ∃ group ∈ groups, ∃ checked ∈ repeated CheckedVariable.isRead false group.2,
            checked.checkInst = some inst := by
    induction groups with
    | nil => simp
    | cons head tail induction =>
        intro marks
        have headCalls := calls head (List.mem_cons_self ..)
        rw [List.foldl_cons,
          induction fun group member => calls group (List.mem_cons_of_mem _ member)]
        by_cases empty : head.2.isEmpty
        · have none : head.2 = [] := List.isEmpty_iff.mp empty
          simp [none, repeated]
        · have start : ReadRetentionState.After {} none := rfl
          rw [if_neg empty, mem_markGroup start headCalls]
          simp [or_assoc]
  rw [markGroups, general]
  simp

end Module

end Desan
