import Desan.CheckedVariableAnalyzer.Analysis
import Desan.Foundation.Levels

/-! # What the walk along the uses of a value sees

`inferAccessTypeFromUses` looks at the users of the values at most eleven uses away. A
value derived by a longer chain of uses, or by a constant expression, is out of its
sight, and so are the writes through it. -/

namespace Desan

/-! ## Derived values -/

namespace ValueGraph

/-- What a GEP, bitcast, addrspacecast, ptrtoint, inttoptr, phi or select uses. -/
def derivedFrom (graph : ValueGraph) (target : Value) : List Value :=
  match graph.node target with
  | .instruction op => if isTraceThroughInstruction op then op.operands else []
  | .constant (.getElementPtr pointer indices) => pointer :: indices.map GEPIndex.value
  | .constant (.cast op operand) =>
      if op ∈ [.bitCast, .addrSpaceCast, .ptrToInt, .intToPtr] then [operand] else []
  | _ => []

/-- The target is such a use of the source. -/
def Derives (graph : ValueGraph) (source target : Value) : Prop :=
  source ∈ graph.derivedFrom target

instance (graph : ValueGraph) (source target : Value) :
    Decidable (graph.Derives source target) :=
  inferInstanceAs (Decidable (source ∈ graph.derivedFrom target))

/-- A load or a memory intrinsic reads through the value. -/
def ReadsThrough (graph : ValueGraph) (op : Op) (value : Value) : Prop :=
  (∃ isVolatile ordering, op = .load value isVolatile ordering) ∨
    graph.getMemIntrinsicSource op = some value

/-- A store or a memory intrinsic writes through the value. -/
def WritesThrough (graph : ValueGraph) (op : Op) (value : Value) : Prop :=
  (∃ stored, op = .store stored value) ∨ graph.getMemIntrinsicDest op = some value

theorem mem_operands_of_getMemIntrinsicDest {graph : ValueGraph} {op : Op} {dest : Value}
    (isDest : graph.getMemIntrinsicDest op = some dest) : dest ∈ op.operands := by
  rw [getMemIntrinsicDest] at isDest
  have ofSite : ∀ {site : CallSite}, op.callSite? = some site → dest ∈ site.args →
      dest ∈ op.operands := by
    intro site isCall member
    have inside : dest ∈ site.operands := List.mem_append_left _ member
    cases op <;> cases isCall <;> exact inside
  split at isDest
  · rename_i site _ isCall
    exact ofSite isCall (List.mem_of_getElem? isDest)
  · rename_i site _ isCall
    exact ofSite isCall (List.mem_of_getElem? isDest)
  · cases isDest

theorem WritesThrough.mem_operands {graph : ValueGraph} {op : Op} {value : Value}
    (writes : graph.WritesThrough op value) : value ∈ op.operands := by
  rcases writes with ⟨stored, equal⟩ | isDest
  · rw [equal]
    exact List.mem_cons_of_mem _ (List.mem_cons_self ..)
  · exact mem_operands_of_getMemIntrinsicDest isDest

theorem getMemIntrinsicDest_of_callSite? {graph : ValueGraph} {op : Op}
    (noCall : op.callSite? = none) : graph.getMemIntrinsicDest op = none := by
  rw [getMemIntrinsicDest, noCall]
  cases graph.values.intrinsicID op <;> rfl

theorem isTraceThroughInstruction_of_dest {graph : ValueGraph} {op : Op} {dest : Value}
    (isDest : graph.getMemIntrinsicDest op = some dest) :
    isTraceThroughInstruction op = false := by
  cases op with
  | call site => rfl
  | invoke site normal unwind => rfl
  | _ =>
      rw [getMemIntrinsicDest_of_callSite? rfl] at isDest
      cases isDest

theorem getMemIntrinsicSource_of_dest {graph : ValueGraph} {op : Op}
    (noDest : graph.getMemIntrinsicDest op = none) :
    graph.getMemIntrinsicSource op = none := by
  rw [getMemIntrinsicDest] at noDest
  rw [getMemIntrinsicSource]
  split
  · rename_i site transfer isCall
    rw [transfer, isCall] at noDest
    have empty : site.args = [] := by simpa using noDest
    rw [empty]
    rfl
  · rfl

section Through

variable {graph : ValueGraph} {op : Op} {holds : Value → Prop}

theorem exists_readsThrough_load {pointer : Value} {isVolatile : Bool}
    {ordering : AtomicOrdering} :
    (∃ source, holds source ∧ graph.ReadsThrough (.load pointer isVolatile ordering) source) ↔
      holds pointer := by
  constructor
  · intro read
    rcases read with ⟨source, same, ⟨_, _, equal⟩ | none⟩
    · cases equal
      exact same
    · rw [getMemIntrinsicSource_of_dest (getMemIntrinsicDest_of_callSite? rfl)] at none
      cases none
  · intro same
    exact ⟨pointer, same, .inl ⟨isVolatile, ordering, rfl⟩⟩

theorem exists_readsThrough_iff (notLoad : ∀ pointer isVolatile ordering,
    op ≠ .load pointer isVolatile ordering) :
    (∃ source, holds source ∧ graph.ReadsThrough op source) ↔
      ∃ source, graph.getMemIntrinsicSource op = some source ∧ holds source := by
  constructor
  · intro read
    rcases read with ⟨source, same, ⟨_, _, equal⟩ | isSource⟩
    · exact absurd equal (notLoad _ _ _)
    · exact ⟨source, isSource, same⟩
  · intro read
    rcases read with ⟨source, isSource, same⟩
    exact ⟨source, same, .inr isSource⟩

theorem exists_writesThrough_store {stored pointer : Value} :
    (∃ dest, holds dest ∧ graph.WritesThrough (.store stored pointer) dest) ↔
      holds pointer := by
  constructor
  · intro write
    rcases write with ⟨dest, same, ⟨_, equal⟩ | isDest⟩
    · cases equal
      exact same
    · rw [getMemIntrinsicDest_of_callSite? rfl] at isDest
      cases isDest
  · intro same
    exact ⟨pointer, same, .inl ⟨stored, rfl⟩⟩

theorem exists_writesThrough_iff (notStore : ∀ stored pointer, op ≠ .store stored pointer) :
    (∃ dest, holds dest ∧ graph.WritesThrough op dest) ↔
      ∃ dest, graph.getMemIntrinsicDest op = some dest ∧ holds dest := by
  constructor
  · intro write
    rcases write with ⟨dest, same, ⟨_, equal⟩ | isDest⟩
    · exact absurd equal (notStore _ _)
    · exact ⟨dest, isDest, same⟩
  · intro write
    rcases write with ⟨dest, isDest, same⟩
    exact ⟨dest, same, .inr isDest⟩

theorem not_writesThrough_load {pointer dest : Value} {isVolatile : Bool}
    {ordering : AtomicOrdering} :
    ¬graph.WritesThrough (.load pointer isVolatile ordering) dest := by
  intro write
  rcases write with ⟨_, equal⟩ | isDest
  · cases equal
  · rw [getMemIntrinsicDest_of_callSite? rfl] at isDest
    cases isDest

theorem not_readsThrough_store {stored pointer source : Value} :
    ¬graph.ReadsThrough (.store stored pointer) source := by
  intro read
  rcases read with ⟨_, _, equal⟩ | isSource
  · cases equal
  · rw [getMemIntrinsicSource_of_dest (getMemIntrinsicDest_of_callSite? rfl)] at isSource
    cases isSource

end Through

end ValueGraph

namespace CheckContext

variable (context : CheckContext)

/-! ## What the walk sees of a user -/

/-- The operation of a user that the walk does not pass over. -/
def userOp? (user : InstId) : Option Op :=
  if (context.function.inst? user).isNone ∨ user = context.check then none
  else
    match context.graph.node (.inst user) with
    | .instruction op => some op
    | _ => none

/-- The walk takes the user for a read of the value. -/
def SeesRead (current : Value) (user : InstId) : Prop :=
  ∃ op, context.userOp? user = some op ∧ ∃ source, context.sameVariable source current = true ∧
    context.graph.ReadsThrough op source

/-- The walk takes the user for a write of the value. -/
def SeesWrite (current : Value) (user : InstId) : Prop :=
  ∃ op, context.userOp? user = some op ∧ ∃ dest, context.sameVariable dest current = true ∧
    context.graph.WritesThrough op dest

def goesOnTo (user : InstId) : Bool :=
  match context.userOp? user with
  | some op => ValueGraph.isTraceThroughInstruction op
  | none => false

/-- The users that the walk goes on to. -/
def goesOn (current : Value) : List Value :=
  ((context.users current).filter context.goesOnTo).map Value.inst

/-- A chain of fewer uses than the walk has levels leads from the value to the other. -/
def Near (value met : Value) : Prop :=
  ∃ count < maxUseTraceDepth, StepsTo context.goesOn count value met

/-- A scan whose flags say what the users of the visited values do. -/
structure Tells (scan : UseScan) : Prop where
  read : scan.sawRead = true ↔
    ∃ met ∈ scan.visited, ∃ user ∈ context.users met, context.SeesRead met user
  write : scan.sawWrite = true ↔
    ∃ met ∈ scan.visited, ∃ user ∈ context.users met, context.SeesWrite met user

variable {context}

theorem seesRead_iff (current : Value) {user : InstId} {op : Op}
    (isOp : context.userOp? user = some op) :
    context.SeesRead current user ↔ ∃ source, context.sameVariable source current = true ∧
      context.graph.ReadsThrough op source := by
  constructor
  · intro sees
    rcases sees with ⟨other, isOther, reads⟩
    rw [isOp] at isOther
    cases isOther
    exact reads
  · intro reads
    exact ⟨op, isOp, reads⟩

theorem seesWrite_iff (current : Value) {user : InstId} {op : Op}
    (isOp : context.userOp? user = some op) :
    context.SeesWrite current user ↔ ∃ dest, context.sameVariable dest current = true ∧
      context.graph.WritesThrough op dest := by
  constructor
  · intro sees
    rcases sees with ⟨other, isOther, writes⟩
    rw [isOp] at isOther
    cases isOther
    exact writes
  · intro writes
    exact ⟨op, isOp, writes⟩

/-- What one user adds to a scan. -/
structure Looks (context : CheckContext) (current : Value) (user : InstId)
    (before after : UseScan) : Prop where
  visited : after.visited = before.visited
  next : after.next = before.next ++ if context.goesOnTo user = true then [.inst user] else []
  read : after.sawRead = true ↔ before.sawRead = true ∨ context.SeesRead current user
  write : after.sawWrite = true ↔ before.sawWrite = true ∨ context.SeesWrite current user

theorem looks_of_userOp?_eq_none {current : Value} {user : InstId} (scan : UseScan)
    (silent : context.userOp? user = none) : context.Looks current user scan scan := by
  have noRead : ¬context.SeesRead current user := by
    intro sees
    rcases sees with ⟨op, seen, -⟩
    rw [silent] at seen
    cases seen
  have noWrite : ¬context.SeesWrite current user := by
    intro sees
    rcases sees with ⟨op, seen, -⟩
    rw [silent] at seen
    cases seen
  refine ⟨rfl, ?_, (or_iff_left noRead).symm, (or_iff_left noWrite).symm⟩
  rw [goesOnTo, silent]
  exact (List.append_nil _).symm

/-- A user that the walk does not go on to sets flags only. -/
theorem looks_of_flags {current : Value} {user : InstId} {op : Op} (scan : UseScan)
    (reads writes : Bool) (isOp : context.userOp? user = some op)
    (stays : ValueGraph.isTraceThroughInstruction op = false)
    (read : (∃ source, context.sameVariable source current = true ∧
      context.graph.ReadsThrough op source) ↔ reads = true)
    (write : (∃ dest, context.sameVariable dest current = true ∧
      context.graph.WritesThrough op dest) ↔ writes = true) :
    context.Looks current user scan
      { scan with
        sawRead := scan.sawRead || reads
        sawWrite := scan.sawWrite || writes } where
  visited := rfl
  next := by
    rw [goesOnTo, isOp]
    simp only [stays]
    exact (List.append_nil _).symm
  read := by
    rw [seesRead_iff current isOp, read, Bool.or_eq_true]
  write := by
    rw [seesWrite_iff current isOp, write, Bool.or_eq_true]

theorem looks_scanUser (context : CheckContext) (current : Value) (scan : UseScan) (user : InstId) :
    context.Looks current user scan (context.scanUser current scan user) := by
  rw [scanUser]
  split
  · rename_i silent
    exact looks_of_userOp?_eq_none scan (by rw [userOp?, if_pos silent])
  · rename_i looked
    split
    · rename_i op kind
      have isOp : context.userOp? user = some op := by
        rw [userOp?, if_neg looked, kind]
      split
      · rename_i pointer isVolatile ordering
        have flags := looks_of_flags scan (context.sameVariable pointer current) false isOp rfl
          ValueGraph.exists_readsThrough_load (by simp [ValueGraph.not_writesThrough_load])
        cases same : context.sameVariable pointer current with
        | false => simpa [same] using flags
        | true => simpa [same] using flags
      · rename_i stored pointer
        have flags := looks_of_flags scan false (context.sameVariable pointer current) isOp rfl
          (by simp [ValueGraph.not_readsThrough_store]) ValueGraph.exists_writesThrough_store
        cases same : context.sameVariable pointer current with
        | false => simpa [same] using flags
        | true => simpa [same] using flags
      · rename_i notLoad notStore
        split
        · rename_i dest isDest
          have stays := ValueGraph.isTraceThroughInstruction_of_dest isDest
          have writes : (∃ other, context.sameVariable other current = true ∧
              context.graph.WritesThrough op other) ↔
                context.sameVariable dest current = true := by
            rw [ValueGraph.exists_writesThrough_iff notStore, isDest]
            simp
          have reads : (∃ source, context.sameVariable source current = true ∧
              context.graph.ReadsThrough op source) ↔
                ((context.graph.getMemIntrinsicSource op).any fun source =>
                  context.sameVariable source current) = true := by
            rw [ValueGraph.exists_readsThrough_iff notLoad]
            cases context.graph.getMemIntrinsicSource op <;> simp
          have flags := looks_of_flags scan _ _ isOp stays reads writes
          cases isSource : context.graph.getMemIntrinsicSource op with
          | none =>
              cases same : context.sameVariable dest current with
              | false => simpa [same, isSource] using flags
              | true => simpa [same, isSource] using flags
          | some source =>
              cases same : context.sameVariable dest current with
              | false =>
                  cases read : context.sameVariable source current with
                  | false => simpa [same, isSource, read] using flags
                  | true => simpa [same, isSource, read] using flags
              | true =>
                  cases read : context.sameVariable source current with
                  | false => simpa [same, isSource, read] using flags
                  | true => simpa [same, isSource, read] using flags
        · rename_i noDest
          have noRead : ¬context.SeesRead current user := by
            rw [seesRead_iff current isOp, ValueGraph.exists_readsThrough_iff notLoad,
              ValueGraph.getMemIntrinsicSource_of_dest noDest]
            simp
          have noWrite : ¬context.SeesWrite current user := by
            rw [seesWrite_iff current isOp, ValueGraph.exists_writesThrough_iff notStore, noDest]
            simp
          have goes : context.goesOnTo user = ValueGraph.isTraceThroughInstruction op := by
            rw [goesOnTo, isOp]
          split
          · rename_i traced
            refine ⟨rfl, ?_, (or_iff_left noRead).symm, (or_iff_left noWrite).symm⟩
            rw [if_pos (goes.trans traced)]
          · rename_i stays
            refine ⟨rfl, ?_, (or_iff_left noRead).symm, (or_iff_left noWrite).symm⟩
            rw [if_neg (goes ▸ stays)]
            exact (List.append_nil _).symm
    · rename_i noOp
      apply looks_of_userOp?_eq_none
      rw [userOp?, if_neg looked]
      split
      · rename_i op kind
        exact absurd kind (noOp op)
      · rfl

/-- What all users of a value add to a scan. -/
theorem looks_foldl (context : CheckContext) (current : Value) (scan : UseScan) (users : List InstId) :
    (users.foldl (context.scanUser current) scan).visited = scan.visited ∧
      (users.foldl (context.scanUser current) scan).next =
        scan.next ++ (users.filter context.goesOnTo).map Value.inst ∧
      ((users.foldl (context.scanUser current) scan).sawRead = true ↔
        scan.sawRead = true ∨ ∃ user ∈ users, context.SeesRead current user) ∧
      ((users.foldl (context.scanUser current) scan).sawWrite = true ↔
        scan.sawWrite = true ∨ ∃ user ∈ users, context.SeesWrite current user) := by
  induction users generalizing scan with
  | nil => simp
  | cons user rest induction =>
      have looks := looks_scanUser context current scan user
      rcases induction (context.scanUser current scan user) with ⟨visited, next, read, write⟩
      rw [List.foldl_cons]
      refine ⟨visited.trans looks.visited, ?_, ?_, ?_⟩
      · rw [next, looks.next, List.append_assoc]
        cases goes : context.goesOnTo user <;> simp [goes]
      · rw [read, looks.read, or_assoc]
        simp
      · rw [write, looks.write, or_assoc]
        simp

def UseScan.sweep (scan : UseScan) : LevelSweep Value := ⟨scan.visited, scan.next⟩

/-! ## What the walk sees -/

theorem tells_start : context.Tells {} := by
  constructor <;> simp

theorem scanValue_spec (context : CheckContext) (scan : UseScan) (current : Value) :
    UseScan.sweep (context.scanValue scan current) =
        LevelSweep.visit context.goesOn (UseScan.sweep scan) current ∧
      (context.Tells scan → context.Tells (context.scanValue scan current)) := by
  rw [scanValue, LevelSweep.visit]
  by_cases seen : current ∈ scan.visited
  · rw [if_pos seen]
    refine ⟨?_, id⟩
    exact (if_pos seen).symm
  · rw [if_neg seen]
    rcases looks_foldl context current
      { scan with visited := current :: scan.visited } (context.users current) with
        ⟨visited, next, read, write⟩
    constructor
    · have unseen : current ∉ (UseScan.sweep scan).visited := seen
      rw [if_neg unseen, UseScan.sweep, visited, next]
      rfl
    · intro tells
      constructor
      · rw [read, visited]
        simp only [tells.read, List.mem_cons, exists_eq_or_imp]
        exact or_comm
      · rw [write, visited]
        simp only [tells.write, List.mem_cons, exists_eq_or_imp]
        exact or_comm

theorem foldl_scanValue_spec (context : CheckContext) (scan : UseScan) (worklist : List Value) :
    UseScan.sweep (worklist.foldl context.scanValue scan) =
        worklist.foldl (LevelSweep.visit context.goesOn) (UseScan.sweep scan) ∧
      (context.Tells scan → context.Tells (worklist.foldl context.scanValue scan)) := by
  induction worklist generalizing scan with
  | nil => exact ⟨rfl, id⟩
  | cons current rest induction =>
      have first := scanValue_spec context scan current
      have later := induction (context.scanValue scan current)
      rw [List.foldl_cons, List.foldl_cons, ← first.1]
      exact ⟨later.1, fun tells => later.2 (first.2 tells)⟩

theorem scanLevels_spec (context : CheckContext) (fuel : Nat) (scan : UseScan) (worklist : List Value) :
    (context.scanLevels fuel scan worklist).visited =
        (LevelSweep.levels context.goesOn fuel (UseScan.sweep scan) worklist).visited ∧
      (context.Tells scan → context.Tells (context.scanLevels fuel scan worklist)) := by
  induction fuel generalizing scan worklist with
  | zero => exact ⟨rfl, id⟩
  | succ fuel induction =>
      cases worklist with
      | nil => exact ⟨rfl, id⟩
      | cons current rest =>
          have level := foldl_scanValue_spec context { scan with next := [] }
            (current :: rest)
          let swept := (current :: rest).foldl context.scanValue { scan with next := [] }
          have here : context.scanLevels (fuel + 1) scan (current :: rest) =
              context.scanLevels fuel swept swept.next := rfl
          have later := induction swept swept.next
          rw [here]
          refine ⟨?_, fun tells => later.2 (level.2 ⟨tells.read, tells.write⟩)⟩
          rw [later.1]
          change (LevelSweep.levels _ fuel (UseScan.sweep swept) (UseScan.sweep swept).next).visited = _
          rw [level.1]
          rfl

/-- The walk visits what is near, and its flags say what is seen there. -/
theorem scanLevels_flags (context : CheckContext) (value : Value) :
    ((context.scanLevels maxUseTraceDepth {} [value]).sawRead = true ↔
        ∃ met, context.Near value met ∧ ∃ user ∈ context.users met, context.SeesRead met user) ∧
      ((context.scanLevels maxUseTraceDepth {} [value]).sawWrite = true ↔
        ∃ met, context.Near value met ∧
          ∃ user ∈ context.users met, context.SeesWrite met user) := by
  have spec := scanLevels_spec context maxUseTraceDepth {} [value]
  have tells := spec.2 tells_start
  have near : ∀ met, met ∈ (context.scanLevels maxUseTraceDepth {} [value]).visited ↔
      context.Near value met := by
    intro met
    rw [spec.1]
    exact LevelSweep.mem_levels_iff
  have read := tells.read
  have write := tells.write
  simp only [near] at read write
  exact ⟨read, write⟩

/-- The walk says READ exactly if some near user reads and none writes. -/
theorem inferAccessTypeFromUses_eq_read_iff (value : Value) :
    context.inferAccessTypeFromUses value = .READ ↔
      (∃ met, context.Near value met ∧ ∃ user ∈ context.users met, context.SeesRead met user) ∧
        ∀ met, context.Near value met → ∀ user ∈ context.users met,
          ¬context.SeesWrite met user := by
  have flags := scanLevels_flags context value
  have noWrite : (context.scanLevels maxUseTraceDepth {} [value]).sawWrite = false ↔
      ∀ met, context.Near value met → ∀ user ∈ context.users met,
        ¬context.SeesWrite met user := by
    rw [← Bool.not_eq_true, flags.2]
    constructor
    · intro none met isNear user member sees
      exact none ⟨met, isNear, user, member, sees⟩
    · intro none some
      rcases some with ⟨met, isNear, user, member, sees⟩
      exact none met isNear user member sees
  rw [inferAccessTypeFromUses, ← flags.1, ← noWrite]
  cases (context.scanLevels maxUseTraceDepth {} [value]).sawRead <;>
    cases (context.scanLevels maxUseTraceDepth {} [value]).sawWrite <;> simp

/-! ## The order of the use lists -/

/-- The same check with other use lists. -/
def withUsers (context : CheckContext) (users : Value → List InstId) : CheckContext :=
  { context with users }

section Permuted

variable {users : Value → List InstId}
  (permuted : ∀ value, (users value).Perm (context.users value))
include permuted

theorem mem_goesOn_withUsers {value current : Value} :
    value ∈ (context.withUsers users).goesOn current ↔ value ∈ context.goesOn current :=
  (((permuted current).filter context.goesOnTo).map Value.inst).mem_iff

theorem near_withUsers {value met : Value} :
    (context.withUsers users).Near value met ↔ context.Near value met := by
  have steps : ∀ count met, StepsTo (context.withUsers users).goesOn count value met ↔
      StepsTo context.goesOn count value met := by
    intro count
    induction count with
    | zero => exact fun _ => Iff.rfl
    | succ count induction =>
        intro met
        rw [StepsTo, StepsTo]
        simp only [induction, mem_goesOn_withUsers permuted]
  simp only [Near, steps]

/-- The walk looks at all uses of what is near, in whatever order they are listed. -/
theorem inferAccessTypeFromUses_withUsers (value : Value) :
    (context.withUsers users).inferAccessTypeFromUses value =
      context.inferAccessTypeFromUses value := by
  have same : ∀ met, ∀ user, user ∈ (context.withUsers users).users met ↔
      user ∈ context.users met := fun met _ => (permuted met).mem_iff
  have old := scanLevels_flags context value
  have new := scanLevels_flags (context.withUsers users) value
  simp only [near_withUsers permuted, same] at new
  have read : ((context.withUsers users).scanLevels maxUseTraceDepth {} [value]).sawRead =
      (context.scanLevels maxUseTraceDepth {} [value]).sawRead := by
    rw [Bool.eq_iff_iff, old.1, new.1]
    exact Iff.rfl
  have write : ((context.withUsers users).scanLevels maxUseTraceDepth {} [value]).sawWrite =
      (context.scanLevels maxUseTraceDepth {} [value]).sawWrite := by
    rw [Bool.eq_iff_iff, old.2, new.2]
    exact Iff.rfl
  rw [inferAccessTypeFromUses, inferAccessTypeFromUses, read, write]

end Permuted

/-! ## Writes out of sight -/

/-- A value said to be read is not written through it or a value derived from it. -/
def ReadIsSound (context : CheckContext) (value : Value) : Prop :=
  context.inferAccessTypeFromUses value = .READ →
    ∀ met, Relation.ReflTransGen context.graph.Derives value met →
      ∀ user op, context.graph.node (.inst user) = .instruction op → user ≠ context.check →
        ¬context.graph.WritesThrough op met

/-- If the value is written through a derived value that is not near, a near user writes
too, or no near user reads. -/
def WritesInSight (context : CheckContext) (value : Value) : Prop :=
  ∀ met, Relation.ReflTransGen context.graph.Derives value met → ¬context.Near value met →
    ∀ user op, context.graph.node (.inst user) = .instruction op → user ≠ context.check →
      context.graph.WritesThrough op met →
        (∃ near, context.Near value near ∧
          ∃ other ∈ context.users near, context.SeesWrite near other) ∨
        ∀ near, context.Near value near → ∀ other ∈ context.users near,
          ¬context.SeesRead near other

end CheckContext

namespace Module

variable {module : Module} {function : Function} {check : InstId}

theorem inst?_of_node {user : InstId} {op : Op}
    (kind : (module.functionGraph function).node (.inst user) = .instruction op) :
    ∃ inst, function.inst? user = some inst ∧ inst.op = op := by
  have lookedUp : (module.functionGraph function).inst? user = function.inst? user := rfl
  cases found : function.inst? user with
  | none =>
      rw [ValueGraph.node, lookedUp, found] at kind
      cases kind
  | some inst =>
      rw [ValueGraph.node, lookedUp, found] at kind
      exact ⟨inst, rfl, Node.instruction.inj kind⟩

theorem userOp?_of_node {user : InstId} {op : Op}
    (kind : (module.functionGraph function).node (.inst user) = .instruction op)
    (other : user ≠ check) :
    (module.checkContext function check).userOp? user = some op := by
  have kindThere : (module.checkContext function check).graph.node (.inst user) =
      .instruction op := kind
  rcases inst?_of_node kind with ⟨inst, found, -⟩
  have looked : ¬(((module.checkContext function check).function.inst? user).isNone = true ∨
      user = (module.checkContext function check).check) := by
    intro passed
    rcases passed with outside | same
    · have foundThere : (module.checkContext function check).function.inst? user = some inst :=
        found
      rw [foundThere] at outside
      cases outside
    · exact other same
  rw [CheckContext.userOp?, if_neg looked, kindThere]

theorem mem_users_of_node (member : function ∈ module.functions) {user : InstId} {op : Op}
    {value : Value} (kind : (module.functionGraph function).node (.inst user) = .instruction op)
    (operand : value ∈ op.operands) : user ∈ module.users value := by
  rcases inst?_of_node kind with ⟨inst, found, rfl⟩
  apply List.mem_flatMap.mpr
  refine ⟨function, member, Function.mem_users.mpr ⟨inst, ?_, ?_, operand⟩⟩
  · exact List.mem_of_find?_eq_some found
  · rw [Function.inst?] at found
    simpa using List.find?_some found

/-- READ is sound exactly if no write through a derived value is out of sight. -/
theorem readIsSound_iff_writesInSight (member : function ∈ module.functions)
    (check : InstId) (value : Value) :
    (module.checkContext function check).ReadIsSound value ↔
      (module.checkContext function check).WritesInSight value := by
  have nearWrite : ∀ {met : Value} {user : InstId} {op : Op},
      (module.functionGraph function).node (.inst user) = .instruction op → user ≠ check →
      (module.functionGraph function).WritesThrough op met →
        ∃ other ∈ module.users met, (module.checkContext function check).SeesWrite met other := by
    intro met user op kind other writes
    exact ⟨user, mem_users_of_node member kind writes.mem_operands, op,
      userOp?_of_node kind other, met, beq_self_eq_true _, writes⟩
  constructor
  · intro sound met derived _ user op kind other writes
    by_contra unseen
    rw [not_or] at unseen
    have isRead : (module.checkContext function check).inferAccessTypeFromUses value = .READ := by
      rw [CheckContext.inferAccessTypeFromUses_eq_read_iff]
      constructor
      · by_contra none
        apply unseen.2
        intro near isNear reader isUser sees
        exact none ⟨near, isNear, reader, isUser, sees⟩
      · intro near isNear writer isUser sees
        exact unseen.1 ⟨near, isNear, writer, isUser, sees⟩
    exact sound isRead met derived user op kind other writes
  · intro inSight isRead met derived user op kind other writes
    rw [CheckContext.inferAccessTypeFromUses_eq_read_iff] at isRead
    rcases isRead with ⟨⟨near, isNear, reader, isUser, sees⟩, noWrite⟩
    by_cases metNear : (module.checkContext function check).Near value met
    · rcases nearWrite kind other writes with ⟨writer, writerUses, seen⟩
      exact noWrite met metNear writer writerUses seen
    · rcases inSight met derived metNear user op kind other writes with written | unread
      · rcases written with ⟨spot, whereNear, writer, writerUses, seen⟩
        exact noWrite spot whereNear writer writerUses seen
      · exact unread near isNear reader isUser sees

/-- A function that checks an argument, loads through it and ends with an access through
the last of a chain of addresses. -/
def accessChain (length : Nat) (last : Inst) : Function where
  name := "f"
  blocks :=
    [{ id := 0
       insts :=
         [⟨200, .other 0, .call { calledOperand := .other 2, args := [.other 3, .other 0] }⟩,
          ⟨100, .integer 32, .load (.other 0) false .notAtomic⟩,
          ⟨0, .pointer, .getElementPtr (.other 0) [⟨.other 1, .element 1⟩]⟩] ++
            (List.range length).map (fun place =>
              ⟨place + 1, .pointer, .getElementPtr (.inst place) [⟨.other 1, .element 1⟩]⟩) ++
            [last]
       terminator := ⟨102, .other 0, .ret none⟩ }]

def lastStore (place : InstId) : Inst := ⟨101, .other 0, .store (.other 1) (.inst place)⟩

def lastLoad (place : InstId) : Inst :=
  ⟨101, .integer 32, .load (.inst place) false .notAtomic⟩

def accessModule (function : Function) : Module where
  functions := [function]
  values :=
    { value
        | 0 => ⟨.argument, .pointer⟩
        | 2 => ⟨.constant (.function "__ubsan_handle_type_mismatch_v1" .notIntrinsic), .pointer⟩
        | 3 => ⟨.constant .globalVariable, .pointer⟩
        | _ => ⟨.argument, .integer 64⟩
      count := 4 }
  dataLayout := ⟨64, 8⟩

def storeChain (length : Nat) : Function := accessChain length (lastStore length)

def loadChain (length : Nat) : Function := accessChain length (lastLoad length)

/-- Twelve uses away a write is out of sight. -/
theorem accessModule_not_readIsSound :
    ¬((accessModule (storeChain 11)).checkContext (storeChain 11) 200).ReadIsSound (.other 0) := by
  intro sound
  have derived : ∀ place : Nat, place ≤ 11 → Relation.ReflTransGen
      ((accessModule (storeChain 11)).checkContext (storeChain 11) 200).graph.Derives (.other 0)
        (.inst place) := by
    intro place
    induction place with
    | zero => exact fun _ => .single (by decide)
    | succ place induction =>
        intro bound
        refine .tail (induction (by omega)) ?_
        have steps : ∀ place : Nat, place < 11 →
            ((accessModule (storeChain 11)).checkContext (storeChain 11) 200).graph.Derives (.inst place)
              (.inst (place + 1)) := by
          decide
        exact steps place (by omega)
  exact sound (by decide +kernel) (.inst 11) (derived 11 (by omega)) 101 _ rfl (by decide)
    (.inl ⟨_, rfl⟩)

/-- With its use lists reversed, the chain of accesses is walked in another order. -/
theorem accessModule_reversed :
    (((accessModule (storeChain 2)).checkContext (storeChain 2) 200).withUsers fun value =>
        ((accessModule (storeChain 2)).users value).reverse).inferAccessTypeFromUses (.other 0) =
      ((accessModule (storeChain 2)).checkContext (storeChain 2) 200).inferAccessTypeFromUses
        (.other 0) := by
  apply CheckContext.inferAccessTypeFromUses_withUsers
  intro value
  exact List.reverse_perm _

theorem accessModule_readIsSound :
    ((accessModule (loadChain 2)).checkContext (loadChain 2) 200).inferAccessTypeFromUses
        (.other 0) = .READ ∧
      ((accessModule (loadChain 2)).checkContext (loadChain 2) 200).ReadIsSound (.other 0) := by
  refine ⟨by decide +kernel, ?_⟩
  have member : loadChain 2 ∈ (accessModule (loadChain 2)).functions := List.mem_cons_self ..
  have loadsOnly : ∀ inst ∈ (loadChain 2).instructions, inst.id ≠ 200 →
    inst.op.mayHaveSideEffects = false ∧
      ((accessModule (loadChain 2)).functionGraph (loadChain 2)).getMemIntrinsicDest inst.op =
        none := by decide
  apply (readIsSound_iff_writesInSight member 200 (.other 0)).mpr
  intro met derived _ user op kind other writes
  rcases inst?_of_node kind with ⟨inst, found, rfl⟩
  have isUser : inst.id = user := by simpa using List.find?_some found
  have silent := loadsOnly inst (List.mem_of_find?_eq_some found) (isUser ▸ other)
  rcases writes with ⟨stored, isStore⟩ | isDest
  · rw [isStore] at silent
    cases silent.1
  · cases silent.2.symm.trans isDest

end Module

end Desan
