import Desan.CheckedVariableAnalyzer.StaticOffset
import Desan.CheckedVariableAnalyzer.TracersAgree
import Desan.Foundation.PathWalk

/-! # Joins of one value

A phi or select of one value only is traced as that value is, but for the base: the join
normalises it once more. Where the tracer has stopped at an inner join, normalisation may
see through that. -/

namespace Desan

namespace ValueGraph

variable {graph : ValueGraph} {layout : Option DataLayout}

/-! ## The tracers walk the value graph -/

/-- The operands the tracer of ASan addresses goes on to. -/
def asanTargets (graph : ValueGraph) (value : Value) : List Value :=
  match graph.node (graph.stripPointerCasts value) with
  | .instruction (.getElementPtr pointer _)
  | .constant (.getElementPtr pointer _) => [pointer]
  | .instruction (.load pointer _ _) => [pointer]
  | .instruction (.cast _ source) => [source]
  | .instruction (.phi incoming) => incoming.map Prod.fst
  | .instruction (.select _ ifTrue ifFalse) => [ifTrue, ifFalse]
  | .instruction (.binary _ lhs rhs) => [graph.firstNonConstant lhs rhs]
  | _ => []

/-- What the tracer of ASan addresses makes of the traces of these operands. -/
def asanRule (graph : ValueGraph) (layout : Option DataLayout)
    (trace : Value → CheckedVariable) (value : Value) : CheckedVariable :=
  let value := graph.stripPointerCasts value
  match graph.node value with
  | .instruction (.getElementPtr pointer indices)
  | .constant (.getElementPtr pointer indices) =>
      { graph.appendGEPRegion layout (trace pointer) indices with address := some value }
  | .instruction (.load pointer _ _) => (trace pointer).markUnknownStaticOffset
  | .instruction (.cast _ source) => trace source
  | .instruction (.phi incoming) =>
      graph.tracePhi value (incoming.map fun entry => trace entry.1)
  | .instruction (.select _ ifTrue ifFalse) =>
      graph.traceSelect value (trace ifTrue) (trace ifFalse)
  | .instruction (.binary op lhs rhs) =>
      graph.traceASanBinary op lhs rhs (trace (graph.firstNonConstant lhs rhs))
  | _ => graph.makeBaseVariable (graph.normalizeVariable value)

def checkedTargets (graph : ValueGraph) (value : Value) : List Value :=
  match graph.node (graph.stripPointerCasts value) with
  | .instruction (.getElementPtr pointer _)
  | .constant (.getElementPtr pointer _) => [pointer]
  | .instruction (.load pointer _ _)
  | .instruction (.store _ pointer) => [pointer]
  | .instruction (.cast _ source)
  | .constant (.cast _ source) => [source]
  | .instruction (.phi incoming) => incoming.map Prod.fst
  | .instruction (.select _ ifTrue ifFalse) => [ifTrue, ifFalse]
  | .instruction (.cmp _ lhs rhs) => [graph.firstNonConstant lhs rhs]
  | .instruction (.binary _ lhs rhs) =>
      match graph.recoverAddressPointer lhs with
      | some pointer => [pointer]
      | none =>
          match graph.recoverAddressPointer rhs with
          | some pointer => [pointer]
          | none => [graph.firstNonConstant lhs rhs]
  | _ => []

def checkedRule (graph : ValueGraph) (layout : Option DataLayout)
    (trace : Value → CheckedVariable) (value : Value) : CheckedVariable :=
  let value := graph.stripPointerCasts value
  match graph.node value with
  | .instruction (.getElementPtr pointer indices)
  | .constant (.getElementPtr pointer indices) =>
      { graph.appendGEPRegion layout (trace pointer) indices with address := some value }
  | .instruction (.load pointer _ _)
  | .instruction (.store _ pointer) => (trace pointer).markUnknownStaticOffset
  | .instruction (.cast _ source)
  | .constant (.cast _ source) => trace source
  | .instruction (.phi incoming) =>
      graph.tracePhi value (incoming.map fun entry => trace entry.1)
  | .instruction (.select _ ifTrue ifFalse) =>
      graph.traceSelect value (trace ifTrue) (trace ifFalse)
  | .instruction (.cmp _ lhs rhs) => trace (graph.firstNonConstant lhs rhs)
  | .instruction (.binary op lhs rhs) =>
      match graph.recoverAddressPointer lhs with
      | some pointer => ((trace pointer).appendOffset rhs).markUnknownStaticOffset
      | none =>
          match graph.recoverAddressPointer rhs with
          | some pointer => ((trace pointer).appendOffset lhs).markUnknownStaticOffset
          | none =>
              graph.traceCheckedBinary op lhs rhs (trace (graph.firstNonConstant lhs rhs))
  | _ => graph.makeBaseVariable (graph.normalizeVariable value)

theorem map_arms_congr {first second : Value → CheckedVariable}
    {incoming : List (Value × BlockId)}
    (same : ∀ target ∈ incoming.map Prod.fst, first target = second target) :
    incoming.map (fun entry => first entry.1) = incoming.map fun entry => second entry.1 := by
  apply List.map_congr_left
  intro entry member
  exact same entry.1 (List.mem_map_of_mem member)

theorem asanRule_congr (layout : Option DataLayout)
    (first second : Value → CheckedVariable) (value : Value)
    (same : ∀ target ∈ graph.asanTargets value, first target = second target) :
    graph.asanRule layout first value = graph.asanRule layout second value := by
  rw [asanTargets] at same
  rw [asanRule, asanRule]
  simp only
  cases kind : graph.node (graph.stripPointerCasts value) with
  | constant constant =>
      rw [kind] at same
      cases constant with
      | getElementPtr pointer indices =>
          simp only [same pointer (List.mem_singleton_self _)]
      | _ => rfl
  | instruction op =>
      rw [kind] at same
      cases op with
      | getElementPtr pointer indices =>
          simp only [same pointer (List.mem_singleton_self _)]
      | load pointer isVolatile ordering =>
          simp only [same pointer (List.mem_singleton_self _)]
      | cast op source => simp only [same source (List.mem_singleton_self _)]
      | phi incoming => simp only [map_arms_congr same]
      | select condition ifTrue ifFalse =>
          simp only [same ifTrue (List.mem_cons_self ..),
            same ifFalse (List.mem_cons_of_mem _ (List.mem_singleton_self _))]
      | binary op lhs rhs => simp only [same _ (List.mem_singleton_self _)]
      | _ => rfl
  | _ => rfl

theorem checkedRule_congr (layout : Option DataLayout)
    (first second : Value → CheckedVariable) (value : Value)
    (same : ∀ target ∈ graph.checkedTargets value, first target = second target) :
    graph.checkedRule layout first value = graph.checkedRule layout second value := by
  rw [checkedTargets] at same
  rw [checkedRule, checkedRule]
  simp only
  cases kind : graph.node (graph.stripPointerCasts value) with
  | constant constant =>
      rw [kind] at same
      cases constant with
      | getElementPtr pointer indices =>
          simp only [same pointer (List.mem_singleton_self _)]
      | cast op source => simp only [same source (List.mem_singleton_self _)]
      | _ => rfl
  | instruction op =>
      rw [kind] at same
      cases op with
      | getElementPtr pointer indices =>
          simp only [same pointer (List.mem_singleton_self _)]
      | load pointer isVolatile ordering =>
          simp only [same pointer (List.mem_singleton_self _)]
      | store stored pointer => simp only [same pointer (List.mem_singleton_self _)]
      | cast op source => simp only [same source (List.mem_singleton_self _)]
      | phi incoming => simp only [map_arms_congr same]
      | select condition ifTrue ifFalse =>
          simp only [same ifTrue (List.mem_cons_self ..),
            same ifFalse (List.mem_cons_of_mem _ (List.mem_singleton_self _))]
      | cmp predicate lhs rhs => simp only [same _ (List.mem_singleton_self _)]
      | binary op lhs rhs =>
          simp only at same ⊢
          cases left : graph.recoverAddressPointer lhs with
          | some pointer =>
              rw [left] at same
              simp only [same pointer (List.mem_singleton_self _)]
          | none =>
              rw [left] at same
              cases right : graph.recoverAddressPointer rhs with
              | some pointer =>
                  rw [right] at same
                  simp only [same pointer (List.mem_singleton_self _)]
              | none =>
                  rw [right] at same
                  simp only [same _ (List.mem_singleton_self _)]
      | _ => rfl
  | _ => rfl

/-- The tracer of ASan addresses as a walk. -/
def asanWalk (graph : ValueGraph) (layout : Option DataLayout) :
    PathWalk Value CheckedVariable where
  leaf := graph.makeBaseVariable
  targets := graph.asanTargets
  rule := graph.asanRule layout
  rule_congr := asanRule_congr layout

/-- The tracer of the other checked values as a walk. -/
def checkedWalk (graph : ValueGraph) (layout : Option DataLayout) :
    PathWalk Value CheckedVariable where
  leaf := graph.makeBaseVariable
  targets := graph.checkedTargets
  rule := graph.checkedRule layout
  rule_congr := checkedRule_congr layout

theorem traceASanCheckedAddressImpl_eq_run (fuel : Nat) (visited : List Value)
    (value : Value) :
    graph.traceASanCheckedAddressImpl layout fuel visited value =
      (graph.asanWalk layout).run fuel visited value := by
  induction fuel generalizing visited value with
  | zero => rfl
  | succ fuel induction =>
      have traces : graph.traceASanCheckedAddressImpl layout fuel (value :: visited) =
          (graph.asanWalk layout).run fuel (value :: visited) := by
        funext other
        exact induction (value :: visited) other
      rw [traceASanCheckedAddressImpl, PathWalk.run, ← traces]
      rfl

theorem traceCheckedValueImpl_eq_run (fuel : Nat) (visited : List Value) (value : Value) :
    graph.traceCheckedValueImpl layout fuel visited value =
      (graph.checkedWalk layout).run fuel visited value := by
  induction fuel generalizing visited value with
  | zero => rfl
  | succ fuel induction =>
      have traces : graph.traceCheckedValueImpl layout fuel (value :: visited) =
          (graph.checkedWalk layout).run fuel (value :: visited) := by
        funext other
        exact induction (value :: visited) other
      rw [traceCheckedValueImpl, PathWalk.run, ← traces]
      rfl

/-! ## Every trace has a base -/

theorem base_run {walk : PathWalk Value CheckedVariable}
    (leaf : ∀ value, (walk.leaf value).base.isSome)
    (rule : ∀ (trace : Value → CheckedVariable) (value : Value),
      (∀ target, (trace target).base.isSome) → (walk.rule trace value).base.isSome)
    (fuel : Nat) (visited : List Value) (value : Value) :
    (walk.run fuel visited value).base.isSome := by
  induction fuel generalizing visited value with
  | zero => exact leaf value
  | succ fuel induction =>
      rw [PathWalk.run]
      split
      · exact leaf value
      · exact rule _ _ (induction (value :: visited))

theorem base_arms {trace : Value → CheckedVariable} (based : ∀ value, (trace value).base.isSome)
    (incoming : List (Value × BlockId)) :
    ∀ arm ∈ incoming.map fun entry => trace entry.1, arm.base.isSome := by
  intro arm member
  rcases List.mem_map.mp member with ⟨entry, -, equal⟩
  rw [← equal]
  exact based entry.1

theorem base_asanRule (trace : Value → CheckedVariable) (value : Value)
    (based : ∀ target, (trace target).base.isSome) :
    (graph.asanRule layout trace value).base.isSome := by
  rw [asanRule]
  simp only
  split
  · rw [base_appendGEPRegion]
    exact based _
  · rw [base_appendGEPRegion]
    exact based _
  · exact based _
  · exact based _
  · exact base_tracePhi graph _ (base_arms based _)
  · exact base_traceSelect ..
  · rw [base_traceASanBinary]
    exact based _
  · rfl

theorem base_traceCheckedBinary {op : BinOp} {lhs rhs : Value} {result : CheckedVariable} :
    (graph.traceCheckedBinary op lhs rhs result).base = result.base := by
  rw [traceCheckedBinary]
  simp only [CheckedVariable.addStaticOffset, CheckedVariable.appendOffset,
    CheckedVariable.markUnknownStaticOffset]
  repeat' split
  all_goals rfl

theorem base_checkedRule (trace : Value → CheckedVariable) (value : Value)
    (based : ∀ target, (trace target).base.isSome) :
    (graph.checkedRule layout trace value).base.isSome := by
  rw [checkedRule]
  simp only
  split
  · rw [base_appendGEPRegion]
    exact based _
  · rw [base_appendGEPRegion]
    exact based _
  · exact based _
  · exact based _
  · exact based _
  · exact based _
  · exact base_tracePhi graph _ (base_arms based _)
  · exact base_traceSelect ..
  · exact based _
  · split
    · exact based _
    · split
      · exact based _
      · rw [base_traceCheckedBinary]
        exact based _
  · rfl

/-! ## The trace of a join -/

/-- What a join makes of the one trace of its arms. -/
def joinOf (graph : ValueGraph) (trace : CheckedVariable) : CheckedVariable where
  base := trace.base.map graph.normalizeVariable
  offsets := trace.offsets
  hasStaticByteOffset := trace.hasStaticByteOffset
  staticByteOffset := trace.staticByteOffset

theorem sameRegionStart_self (trace : CheckedVariable) : trace.sameRegionStart trace = true := by
  simp [CheckedVariable.sameRegionStart]

/-- A trace that is merged already leaves the merge as it is. -/
theorem add_joinOf {trace : CheckedVariable} {base : Value} (isBase : trace.base = some base) :
    PhiMerge.add graph ⟨graph.joinOf trace, true, true⟩ trace =
      ⟨graph.joinOf trace, true, true⟩ := by
  have sameBase : (graph.joinOf trace).base = some (graph.normalizeVariable base) := by
    rw [joinOf, isBase]
    rfl
  have sameStart : (graph.joinOf trace).sameRegionStart trace = true :=
    sameRegionStart_self trace
  have sameOffsets : (graph.joinOf trace).offsets = trace.offsets := rfl
  rw [PhiMerge.add, isBase]
  simp [sameBase, sameOffsets, sameStart]

theorem tracePhi_joinOf (phi : Value) {trace : CheckedVariable} (based : trace.base.isSome)
    {traces : List CheckedVariable} (nonempty : traces ≠ [])
    (all : ∀ other ∈ traces, other = trace) :
    graph.tracePhi phi traces = graph.joinOf trace := by
  rcases Option.isSome_iff_exists.mp based with ⟨base, isBase⟩
  have rest : ∀ later : List CheckedVariable, (∀ other ∈ later, other = trace) →
      later.foldl (PhiMerge.add graph) ⟨graph.joinOf trace, true, true⟩ =
        ⟨graph.joinOf trace, true, true⟩ := by
    intro later same
    induction later with
    | nil => rfl
    | cons head tail induction =>
        rw [List.foldl_cons, same head (List.mem_cons_self ..), add_joinOf isBase]
        exact induction fun other member => same other (List.mem_cons_of_mem _ member)
  cases traces with
  | nil => exact absurd rfl nonempty
  | cons head tail =>
      have first : PhiMerge.add graph {} trace = ⟨graph.joinOf trace, true, true⟩ := by
        rw [PhiMerge.add, isBase, joinOf, isBase]
        rfl
      rw [tracePhi, List.foldl_cons, all head (List.mem_cons_self ..), first,
        rest tail fun other member => all other (List.mem_cons_of_mem _ member)]
      rfl

theorem traceSelect_joinOf (select : Value) {trace : CheckedVariable}
    (based : trace.base.isSome) :
    graph.traceSelect select trace trace = graph.joinOf trace := by
  rcases Option.isSome_iff_exists.mp based with ⟨base, isBase⟩
  rw [traceSelect, joinOf, isBase]
  simp [sameRegionStart_self]

/-- Every phi and every select is traced by the rule of its kind. -/
structure TracesJoins (graph : ValueGraph) (walk : PathWalk Value CheckedVariable) : Prop where
  phi : ∀ trace value incoming,
    graph.node (graph.stripPointerCasts value) = .instruction (.phi incoming) →
      walk.rule trace value = graph.tracePhi (graph.stripPointerCasts value)
        (incoming.map fun entry => trace entry.1)
  select : ∀ trace value condition ifTrue ifFalse,
    graph.node (graph.stripPointerCasts value) = .instruction (.select condition ifTrue ifFalse) →
      walk.rule trace value = graph.traceSelect (graph.stripPointerCasts value)
        (trace ifTrue) (trace ifFalse)
  based : ∀ fuel visited value, (walk.run fuel visited value).base.isSome

theorem tracesJoins_asanWalk : graph.TracesJoins (graph.asanWalk layout) where
  phi trace value incoming isPhi := by
    show graph.asanRule layout trace value = _
    rw [asanRule]
    simp only [isPhi]
  select trace value condition ifTrue ifFalse isSelect := by
    show graph.asanRule layout trace value = _
    rw [asanRule]
    simp only [isSelect]
  based := base_run (fun _ => rfl) base_asanRule

theorem tracesJoins_checkedWalk : graph.TracesJoins (graph.checkedWalk layout) where
  phi trace value incoming isPhi := by
    show graph.checkedRule layout trace value = _
    rw [checkedRule]
    simp only [isPhi]
  select trace value condition ifTrue ifFalse isSelect := by
    show graph.checkedRule layout trace value = _
    rw [checkedRule]
    simp only [isSelect]
  based := base_run (fun _ => rfl) base_checkedRule

/-- The rule of a join whose arms are all one value. -/
theorem TracesJoins.rule_join {walk : PathWalk Value CheckedVariable}
    (traces : graph.TracesJoins walk) {join value : Value} {arms : List Value}
    (isJoin : graph.arms? join = some arms) (nonempty : arms ≠ [])
    (all : ∀ arm ∈ arms, arm = value) (trace : Value → CheckedVariable)
    (based : (trace value).base.isSome) :
    walk.rule trace join = graph.joinOf (trace value) := by
  have stays : graph.stripPointerCasts join = join := (onward_of_arms? isJoin).1
  rw [arms?] at isJoin
  split at isJoin
  · rename_i incoming kind
    cases isJoin
    rw [← stays] at kind
    rw [traces.phi trace join incoming kind]
    apply tracePhi_joinOf _ based
    · intro empty
      exact nonempty (List.map_eq_nil_iff.mpr (List.map_eq_nil_iff.mp empty))
    · intro other member
      rcases List.mem_map.mp member with ⟨entry, isEntry, equal⟩
      rw [← equal, all entry.1 (List.mem_map_of_mem isEntry)]
  · rename_i condition ifTrue ifFalse kind
    cases isJoin
    rw [← stays] at kind
    rw [traces.select trace join condition ifTrue ifFalse kind,
      all ifTrue (List.mem_cons_self ..),
      all ifFalse (List.mem_cons_of_mem _ (List.mem_singleton_self _))]
    exact traceSelect_joinOf _ based
  · cases isJoin

/-- A join of one value that the trace of the value does not come to. -/
theorem TracesJoins.run_join {walk : PathWalk Value CheckedVariable}
    (traces : graph.TracesJoins walk) {join value : Value} {arms : List Value}
    (isJoin : graph.arms? join = some arms) (nonempty : arms ≠ [])
    (all : ∀ arm ∈ arms, arm = value) {fuel : Nat} (ends : walk.EndsWithin fuel [] value)
    (avoids : walk.Avoids join value) :
    walk.run (fuel + 1) [] join = graph.joinOf (walk.run (fuel + 1) [] value) := by
  rw [PathWalk.run, if_neg List.not_mem_nil,
    traces.rule_join isJoin nonempty all _ (traces.based ..), PathWalk.run_after ends avoids]

/-- A phi or select of one value has the trace of that value with the base normalised. -/
theorem trace_join_of_one_value (layout : Option DataLayout) {join value : Value}
    {arms : List Value} (isJoin : graph.arms? join = some arms) (nonempty : arms ≠ [])
    (all : ∀ arm ∈ arms, arm = value) :
    ((graph.asanWalk layout).EndsWithin maxTraceDepth [] value →
      (graph.asanWalk layout).Avoids join value →
        SameTrace (graph.traceASanCheckedAddress layout join)
          { graph.traceASanCheckedAddress layout value with
            base := (graph.traceASanCheckedAddress layout value).base.map
              graph.normalizeVariable }) ∧
    ((graph.checkedWalk layout).EndsWithin maxTraceDepth [] value →
      (graph.checkedWalk layout).Avoids join value →
        SameTrace (graph.traceCheckedValue layout join)
          { graph.traceCheckedValue layout value with
            base := (graph.traceCheckedValue layout value).base.map
              graph.normalizeVariable }) := by
  constructor
  · intro ends avoids
    rw [traceASanCheckedAddress, traceASanCheckedAddress, traceASanCheckedAddressImpl_eq_run,
      traceASanCheckedAddressImpl_eq_run, traceFuel,
      tracesJoins_asanWalk.run_join isJoin nonempty all ends avoids]
    exact ⟨rfl, rfl, rfl, rfl⟩
  · intro ends avoids
    rw [traceCheckedValue, traceCheckedValue, traceCheckedValueImpl_eq_run,
      traceCheckedValueImpl_eq_run, traceFuel,
      tracesJoins_checkedWalk.run_join isJoin nonempty all ends avoids]
    exact ⟨rfl, rfl, rfl, rfl⟩

/-- The value graph of a function over a pointer, two sizes and a condition. -/
def joinGraph (blocks : List Block) : ValueGraph :=
  Module.functionGraph
    { functions := []
      values :=
        { value
            | 0 => ⟨.argument, .pointer⟩
            | 1 => ⟨.constant (.int 8), .integer 64⟩
            | 2 => ⟨.constant (.int 16), .integer 64⟩
            | _ => ⟨.argument, .integer 1⟩
          count := 4 }
      dataLayout := ⟨64, 8⟩ }
    { name := "joins", blocks }

/-- `inst` elements of one byte behind a pointer. -/
def elementAt (inst : InstId) (pointer index : Value) : Inst :=
  ⟨inst, .pointer, .getElementPtr pointer [⟨index, .element 1⟩]⟩

/-- Two addresses of one argument at different offsets, joined, and the join joined with
itself. -/
def nestedJoins : ValueGraph :=
  joinGraph
    [⟨0, "", [], ⟨0, .other 0, .condBr (.other 3) 1 2⟩, false⟩,
      ⟨1, "", [elementAt 1 (.other 0) (.other 1)], ⟨2, .other 0, .br 3⟩, false⟩,
      ⟨2, "", [elementAt 3 (.other 0) (.other 2)], ⟨4, .other 0, .br 3⟩, false⟩,
      ⟨3, "", [⟨5, .pointer, .phi [(.inst 1, 1), (.inst 3, 2)]⟩,
        ⟨6, .pointer, .select (.other 3) (.inst 5) (.inst 5)⟩],
        ⟨7, .other 0, .ret none⟩, false⟩]

/-- Unreachable code in which an address and the join of it come from each other. -/
def circularJoin : ValueGraph :=
  joinGraph
    [⟨0, "", [], ⟨0, .other 0, .ret none⟩, false⟩,
      ⟨1, "", [elementAt 1 (.inst 2) (.other 1),
        ⟨2, .pointer, .select (.other 3) (.inst 1) (.inst 1)⟩],
        ⟨3, .other 0, .br 1⟩, false⟩]

/-- A pointer that a loop moves on by a join of one value. -/
def loopJoin : ValueGraph :=
  joinGraph
    [⟨0, "", [], ⟨0, .other 0, .br 1⟩, false⟩,
      ⟨1, "", [⟨1, .pointer, .phi [(.other 0, 0), (.inst 3, 1)]⟩,
        elementAt 2 (.inst 1) (.other 1),
        ⟨3, .pointer, .select (.other 3) (.inst 2) (.inst 2)⟩],
        ⟨4, .other 0, .condBr (.other 3) 1 2⟩, false⟩,
      ⟨2, "", [], ⟨5, .other 0, .ret none⟩, false⟩]

theorem tracePhi_differ (phi : Value) {first second : CheckedVariable} {left right : Value}
    (isLeft : first.base = some left) (isRight : second.base = some right)
    (differ : graph.normalizeVariable left ≠ graph.normalizeVariable right) :
    graph.tracePhi phi [first, second] = { base := some phi } := by
  rw [tracePhi, List.foldl_cons, List.foldl_cons, List.foldl_nil, PhiMerge.add, PhiMerge.add,
    isLeft, isRight]
  simp [differ]

theorem oneArm : ∀ arm ∈ [Value.inst 2, .inst 2], arm = .inst 2 := by decide

def loopValues : List Value := [.inst 1, .inst 2, .inst 3]

/-- The walks in which the loop is traced by the rules of its kinds. -/
structure TracesLoop (walk : PathWalk Value CheckedVariable) : Prop where
  joins : loopJoin.TracesJoins walk
  leaf : ∀ value, (walk.leaf value).base = some value
  start : ∀ trace, (walk.rule trace (.other 0)).base = some (.other 0)
  moves : ∀ trace, (walk.rule trace (.inst 2)).base = (trace (.inst 1)).base
  targets : walk.targets (.inst 2) = [.inst 1]

theorem TracesLoop.phi_settled {walk : PathWalk Value CheckedVariable}
    (traces : TracesLoop walk) {trace : Value → CheckedVariable} {base : Value}
    (start : (trace (.other 0)).base = some (.other 0)) (isBase : (trace (.inst 3)).base = some base)
    (inLoop : base ∈ loopValues) :
    walk.rule trace (.inst 1) = { base := some (.inst 1) } := by
  have outside : ∀ value ∈ loopValues,
      loopJoin.normalizeVariable (.other 0) ≠ loopJoin.normalizeVariable value := by
    decide +kernel
  rw [traces.joins.phi trace (.inst 1) [(.other 0, 0), (.inst 3, 1)] rfl]
  exact tracePhi_differ _ start isBase (outside base inLoop)

/-- Inside the loop every trace has its base in the loop, and outside it has not. -/
theorem TracesLoop.bases {walk : PathWalk Value CheckedVariable} (traces : TracesLoop walk)
    (fuel : Nat) (path : List Value) :
    (walk.run fuel path (.other 0)).base = some (.other 0) ∧
      ∀ value ∈ loopValues, ∃ base ∈ loopValues, (walk.run fuel path value).base = some base := by
  have closed : ∀ value ∈ loopValues, loopJoin.normalizeVariable value ∈ loopValues := by
    decide +kernel
  induction fuel generalizing path with
  | zero => exact ⟨traces.leaf _, fun value inLoop => ⟨value, inLoop, traces.leaf value⟩⟩
  | succ fuel induction =>
      constructor
      · rw [PathWalk.run]
        split
        · exact traces.leaf _
        · exact traces.start _
      · intro value inLoop
        rw [PathWalk.run]
        split
        · exact ⟨value, inLoop, traces.leaf value⟩
        · have before := induction (value :: path)
          simp only [loopValues, List.mem_cons, List.not_mem_nil, or_false] at inLoop
          rcases inLoop with rfl | rfl | rfl
          · rcases before.2 (.inst 3) (by decide) with ⟨base, isIn, isBase⟩
            rw [traces.phi_settled before.1 isBase isIn]
            exact ⟨.inst 1, by decide, rfl⟩
          · rw [traces.moves]
            exact before.2 (.inst 1) (by decide)
          · rcases before.2 (.inst 2) (by decide) with ⟨base, isIn, isBase⟩
            have isJoin : loopJoin.arms? (.inst 3) = some [.inst 2, .inst 2] := rfl
            rw [traces.joins.rule_join isJoin (by decide) oneArm _ (traces.joins.based ..)]
            refine ⟨loopJoin.normalizeVariable base, closed base isIn, ?_⟩
            rw [joinOf, isBase]
            rfl

theorem TracesLoop.avoids {walk : PathWalk Value CheckedVariable} (traces : TracesLoop walk) :
    walk.Avoids (.inst 3) (.inst 2) := by
  have settled : walk.Settled (.inst 1) := by
    refine ⟨{ base := some (.inst 1) }, fun fuel path _ => ?_⟩
    have bases := traces.bases fuel path
    rcases bases.2 (.inst 3) (by decide) with ⟨base, isIn, isBase⟩
    exact traces.phi_settled bases.1 isBase isIn
  have ends : ∀ met, Relation.ReflTransGen walk.Step (.inst 2) met →
      met = .inst 2 ∨ met = .inst 1 := by
    intro met path
    induction path with
    | refl => exact .inl rfl
    | tail _ step induction =>
        rcases induction with rfl | rfl
        · have member := step.2
          rw [traces.targets] at member
          exact .inr (List.mem_singleton.mp member)
        · exact absurd settled step.1
  intro path
  rcases ends _ path with same | same <;> cases same

theorem tracesLoop_asanWalk : TracesLoop (loopJoin.asanWalk layout) where
  joins := tracesJoins_asanWalk
  leaf _ := rfl
  start _ := rfl
  moves _ := base_appendGEPRegion
  targets := rfl

theorem tracesLoop_checkedWalk : TracesLoop (loopJoin.checkedWalk layout) where
  joins := tracesJoins_checkedWalk
  leaf _ := rfl
  start _ := rfl
  moves _ := base_appendGEPRegion
  targets := rfl

theorem trace_loopJoin :
    SameTrace (loopJoin.traceASanCheckedAddress none (.inst 3))
      { loopJoin.traceASanCheckedAddress none (.inst 2) with
        base := (loopJoin.traceASanCheckedAddress none (.inst 2)).base.map
          loopJoin.normalizeVariable } ∧
    SameTrace (loopJoin.traceCheckedValue none (.inst 3))
      { loopJoin.traceCheckedValue none (.inst 2) with
        base := (loopJoin.traceCheckedValue none (.inst 2)).base.map
          loopJoin.normalizeVariable } := by
  have isJoin : loopJoin.arms? (.inst 3) = some [.inst 2, .inst 2] := rfl
  have joined := trace_join_of_one_value none isJoin (by decide) oneArm
  exact ⟨joined.1 (by decide +kernel) tracesLoop_asanWalk.avoids,
    joined.2 (by decide +kernel) tracesLoop_checkedWalk.avoids⟩

/-- The base of a join that the tracer stopped at changes, and where the trace of a value
comes back to the join of it, normalising its base does not make up for it. -/
theorem trace_join_of_one_value_differs :
    (nestedJoins.arms? (.inst 6) = some [.inst 5, .inst 5] ∧
      (nestedJoins.asanWalk none).EndsWithin maxTraceDepth [] (.inst 5) ∧
      (nestedJoins.checkedWalk none).EndsWithin maxTraceDepth [] (.inst 5) ∧
      (nestedJoins.traceASanCheckedAddress none (.inst 6)).base ≠
        (nestedJoins.traceASanCheckedAddress none (.inst 5)).base ∧
      (nestedJoins.traceCheckedValue none (.inst 6)).base ≠
        (nestedJoins.traceCheckedValue none (.inst 5)).base) ∧
    (circularJoin.arms? (.inst 2) = some [.inst 1, .inst 1] ∧
      (circularJoin.asanWalk none).EndsWithin maxTraceDepth [] (.inst 1) ∧
      (circularJoin.checkedWalk none).EndsWithin maxTraceDepth [] (.inst 1) ∧
      (circularJoin.traceASanCheckedAddress none (.inst 2)).base ≠
        (circularJoin.traceASanCheckedAddress none (.inst 1)).base.map
          circularJoin.normalizeVariable ∧
      (circularJoin.traceCheckedValue none (.inst 2)).base ≠
        (circularJoin.traceCheckedValue none (.inst 1)).base.map
          circularJoin.normalizeVariable) := by
  decide +kernel

end ValueGraph

end Desan
