import Desan.IR.ValueGraph

/-! # Tracing a checked value to its base

`normalizeVariable` and the two tracers of the analyzer. The source counts a
depth up to `MaxTraceDepth`; here the first argument counts down from
`traceFuel`, so it is 0 exactly when the depth is past the limit. -/

namespace Desan

def maxTraceDepth : Nat := 32

def traceFuel : Nat := maxTraceDepth + 1

inductive AccessType where
  | READ | WRITE | UNKNOWN
deriving DecidableEq, Repr

structure CheckedVariable where
  base : Option Value := none
  address : Option Value := none
  offsets : List Value := []
  hasStaticByteOffset : Bool := false
  staticByteOffset : Int := 0
  accessSize : Nat := 0
  type : AccessType := .UNKNOWN
  sanitizer : SanitizerKind := .Unknown
  checkInst : Option InstId := none
deriving DecidableEq, Repr

/-- A 64-bit signed sum. -/
def addInt64 (left right : Int) : Int := (left + right).bmod (2 ^ 64)

namespace CheckedVariable

def markUnknownStaticOffset (checked : CheckedVariable) : CheckedVariable :=
  { checked with hasStaticByteOffset := false, staticByteOffset := 0 }

def addStaticOffset (checked : CheckedVariable) (delta : Int) : CheckedVariable :=
  if checked.hasStaticByteOffset then
    { checked with staticByteOffset := addInt64 checked.staticByteOffset delta }
  else checked

def appendOffset (checked : CheckedVariable) (value : Value) : CheckedVariable :=
  { checked with offsets := checked.offsets ++ [value] }

def sameRegionStart (left right : CheckedVariable) : Bool :=
  left.hasStaticByteOffset == right.hasStaticByteOffset &&
    (!left.hasStaticByteOffset || left.staticByteOffset == right.staticByteOffset)

end CheckedVariable

namespace ValueGraph

def makeBaseVariable (graph : ValueGraph) (value : Value) : CheckedVariable where
  base := some value
  address := if (graph.ty value).isPointer then some value else none
  hasStaticByteOffset := true

def firstNonConstant (graph : ValueGraph) (lhs rhs : Value) : Value :=
  if graph.isConstant lhs = false then lhs
  else if graph.isConstant rhs = false then rhs
  else lhs

def appendGEPRegion (graph : ValueGraph) (layout : Option DataLayout)
    (checked : CheckedVariable) (indices : List GEPIndex) : CheckedVariable :=
  let appended :=
    { checked with offsets := checked.offsets ++ indices.map GEPIndex.value }
  match layout with
  | none => appended.markUnknownStaticOffset
  | some layout =>
      if appended.hasStaticByteOffset = false then appended.markUnknownStaticOffset
      else
        match graph.accumulateConstantOffset layout.indexSizeInBits indices with
        | none => appended.markUnknownStaticOffset
        | some offset =>
            if offset.toInt < -2 ^ 63 ∨ 2 ^ 63 ≤ offset.toInt then
              appended.markUnknownStaticOffset
            else appended.addStaticOffset offset.toInt

/-! ## Normalisation

One visited set is shared by every branch of the walk, so it is returned. -/

abbrev Normalized := Value × List Value

/-- The loop over the incoming values of a phi; nothing if two of them have
different bases, which ends the loop early. -/
def normalizeIncoming (normalize : List Value → Value → Normalized) :
    List Value → Option Value → List Value → Option (Option Value) × List Value
  | [], commonBase, visited => (some commonBase, visited)
  | incoming :: rest, commonBase, visited =>
      let (incomingBase, visited) := normalize visited incoming
      match commonBase with
      | none => normalizeIncoming normalize rest (some incomingBase) visited
      | some base =>
          if base ≠ incomingBase then (none, visited)
          else normalizeIncoming normalize rest commonBase visited

def normalizeVariableImpl (graph : ValueGraph) : Nat → List Value → Value → Normalized
  | 0, visited, value => (value, visited)
  | fuel + 1, visited, value =>
      if value ∈ visited then (value, visited)
      else
        let visited := value :: visited
        let value := graph.stripPointerCasts value
        match graph.node value with
        | .instruction (.getElementPtr pointer _)
        | .constant (.getElementPtr pointer _) =>
            graph.normalizeVariableImpl fuel visited pointer
        | .instruction (.cast _ source)
        | .constant (.cast _ source) => graph.normalizeVariableImpl fuel visited source
        | .instruction (.load pointer _ _) =>
            graph.normalizeVariableImpl fuel visited pointer
        | .instruction (.store _ pointer) =>
            graph.normalizeVariableImpl fuel visited pointer
        | .instruction (.phi incoming) =>
            match normalizeIncoming (graph.normalizeVariableImpl fuel)
                (incoming.map Prod.fst) none visited with
            | (some commonBase, visited) => (commonBase.getD value, visited)
            | (none, visited) => (value, visited)
        | .instruction (.select _ ifTrue ifFalse) =>
            let (trueBase, visited) := graph.normalizeVariableImpl fuel visited ifTrue
            let (falseBase, visited) := graph.normalizeVariableImpl fuel visited ifFalse
            (if trueBase = falseBase then trueBase else value, visited)
        | .instruction (.binary _ lhs rhs) =>
            graph.normalizeVariableImpl fuel visited (graph.firstNonConstant lhs rhs)
        | _ => (value, visited)

def normalizeVariable (graph : ValueGraph) (value : Value) : Value :=
  (graph.normalizeVariableImpl traceFuel [] value).1

/-! ## Joins -/

/-- The state of the loop that merges the traces of the incoming values. -/
structure PhiMerge where
  merged : CheckedVariable := {}
  hasIncoming : Bool := false
  sameBase : Bool := true

def PhiMerge.add (graph : ValueGraph) (state : PhiMerge) (incoming : CheckedVariable) :
    PhiMerge :=
  match incoming.base with
  | none => state
  | some base =>
      let incomingBase := graph.normalizeVariable base
      if state.hasIncoming = false then
        { merged :=
            { base := some incomingBase
              offsets := incoming.offsets
              hasStaticByteOffset := incoming.hasStaticByteOffset
              staticByteOffset := incoming.staticByteOffset }
          hasIncoming := true
          sameBase := state.sameBase }
      else if state.merged.base ≠ some incomingBase ∨
          state.merged.offsets ≠ incoming.offsets ∨
          state.merged.sameRegionStart incoming = false then
        { state with sameBase := false }
      else state

/-- The trace of a phi from the traces of its incoming values. -/
def tracePhi (graph : ValueGraph) (phi : Value) (incoming : List CheckedVariable) :
    CheckedVariable :=
  let state := incoming.foldl (PhiMerge.add graph) {}
  if state.hasIncoming && state.sameBase then state.merged else { base := some phi }

def traceSelect (graph : ValueGraph) (select : Value)
    (trueVariable falseVariable : CheckedVariable) : CheckedVariable :=
  let trueBase := trueVariable.base.map graph.normalizeVariable
  let falseBase := falseVariable.base.map graph.normalizeVariable
  if trueBase.isSome && trueBase == falseBase then
    if trueVariable.offsets ≠ falseVariable.offsets ∨
        trueVariable.sameRegionStart falseVariable = false then
      { base := some select }
    else
      { base := trueBase
        offsets := trueVariable.offsets
        hasStaticByteOffset := trueVariable.hasStaticByteOffset
        staticByteOffset := trueVariable.staticByteOffset }
  else { base := some select }

/-! ## ASan addresses -/

/-- What a binary operator adds to the trace of its address operand. -/
def traceASanBinary (graph : ValueGraph) (op : BinOp) (lhs rhs : Value)
    (result : CheckedVariable) : CheckedVariable :=
  if op = .add ∨ op = .sub then
    if graph.isConstant lhs then
      let result := result.appendOffset lhs
      match graph.constantInt? lhs with
      | some int =>
          if op = .sub then result.markUnknownStaticOffset
          else result.addStaticOffset int
      | none => result.markUnknownStaticOffset
    else if graph.isConstant rhs then
      let result := result.appendOffset rhs
      match graph.constantInt? rhs with
      | some int => result.addStaticOffset (if op = .sub then -int else int)
      | none => result.markUnknownStaticOffset
    else result
  else result

def traceASanCheckedAddressImpl (graph : ValueGraph) (layout : Option DataLayout) :
    Nat → List Value → Value → CheckedVariable
  | 0, _, value => graph.makeBaseVariable value
  | fuel + 1, visited, value =>
      if value ∈ visited then graph.makeBaseVariable value
      else
        let visited := value :: visited
        let value := graph.stripPointerCasts value
        match graph.node value with
        | .instruction (.getElementPtr pointer indices)
        | .constant (.getElementPtr pointer indices) =>
            let result := graph.traceASanCheckedAddressImpl layout fuel visited pointer
            { graph.appendGEPRegion layout result indices with address := some value }
        | .instruction (.load pointer _ _) =>
            (graph.traceASanCheckedAddressImpl layout fuel visited
              pointer).markUnknownStaticOffset
        | .instruction (.cast _ source) =>
            graph.traceASanCheckedAddressImpl layout fuel visited source
        | .instruction (.phi incoming) =>
            graph.tracePhi value (incoming.map fun entry =>
              graph.traceASanCheckedAddressImpl layout fuel visited entry.1)
        | .instruction (.select _ ifTrue ifFalse) =>
            graph.traceSelect value
              (graph.traceASanCheckedAddressImpl layout fuel visited ifTrue)
              (graph.traceASanCheckedAddressImpl layout fuel visited ifFalse)
        | .instruction (.binary op lhs rhs) =>
            graph.traceASanBinary op lhs rhs
              (graph.traceASanCheckedAddressImpl layout fuel visited
                (graph.firstNonConstant lhs rhs))
        | _ => graph.makeBaseVariable (graph.normalizeVariable value)

theorem traceASanCheckedAddressImpl_seen {graph : ValueGraph} {layout : Option DataLayout}
    {fuel : Nat} {visited : List Value} {value : Value} (seen : value ∈ visited) :
    graph.traceASanCheckedAddressImpl layout (fuel + 1) visited value =
      graph.makeBaseVariable value := by
  rw [traceASanCheckedAddressImpl, if_pos seen]

def traceASanCheckedAddress (graph : ValueGraph) (layout : Option DataLayout)
    (value : Value) : CheckedVariable :=
  graph.traceASanCheckedAddressImpl layout traceFuel [] value

/-! ## Other checked values -/

def recoverAddressPointerImpl (graph : ValueGraph) : Nat → Value → Option Value
  | 0, _ => none
  | fuel + 1, value =>
      if (graph.ty value).isPointer then some (graph.stripPointerCasts value)
      else
        match graph.node value with
        | .instruction (.cast _ source)
        | .constant (.cast _ source) => graph.recoverAddressPointerImpl fuel source
        | .instruction (.binary _ lhs rhs) =>
            match graph.recoverAddressPointerImpl fuel lhs with
            | some pointer => some pointer
            | none => graph.recoverAddressPointerImpl fuel rhs
        | _ => none

def recoverAddressPointer (graph : ValueGraph) (value : Value) : Option Value :=
  graph.recoverAddressPointerImpl traceFuel value

/-- What a binary operator without a pointer operand adds to the trace. -/
def traceCheckedBinary (graph : ValueGraph) (op : BinOp) (lhs rhs : Value)
    (result : CheckedVariable) : CheckedVariable :=
  if op = .add ∨ op = .sub then
    let constantSide := if graph.isConstant lhs then lhs else rhs
    match graph.constantInt? constantSide with
    | some int =>
        let result := result.appendOffset constantSide
        if op = .sub ∧ constantSide = lhs then result.markUnknownStaticOffset
        else result.addStaticOffset (if op = .sub then -int else int)
    | none =>
        if graph.isConstant constantSide then
          (result.appendOffset constantSide).markUnknownStaticOffset
        else result
  else result

def traceCheckedValueImpl (graph : ValueGraph) (layout : Option DataLayout) :
    Nat → List Value → Value → CheckedVariable
  | 0, _, value => graph.makeBaseVariable value
  | fuel + 1, visited, value =>
      if value ∈ visited then graph.makeBaseVariable value
      else
        let visited := value :: visited
        let value := graph.stripPointerCasts value
        match graph.node value with
        | .instruction (.getElementPtr pointer indices)
        | .constant (.getElementPtr pointer indices) =>
            let result := graph.traceCheckedValueImpl layout fuel visited pointer
            { graph.appendGEPRegion layout result indices with address := some value }
        | .instruction (.load pointer _ _)
        | .instruction (.store _ pointer) =>
            (graph.traceCheckedValueImpl layout fuel visited
              pointer).markUnknownStaticOffset
        | .instruction (.cast _ source)
        | .constant (.cast _ source) =>
            graph.traceCheckedValueImpl layout fuel visited source
        | .instruction (.phi incoming) =>
            graph.tracePhi value (incoming.map fun entry =>
              graph.traceCheckedValueImpl layout fuel visited entry.1)
        | .instruction (.select _ ifTrue ifFalse) =>
            graph.traceSelect value
              (graph.traceCheckedValueImpl layout fuel visited ifTrue)
              (graph.traceCheckedValueImpl layout fuel visited ifFalse)
        | .instruction (.cmp _ lhs rhs) =>
            graph.traceCheckedValueImpl layout fuel visited
              (graph.firstNonConstant lhs rhs)
        | .instruction (.binary op lhs rhs) =>
            match graph.recoverAddressPointer lhs with
            | some pointer =>
                ((graph.traceCheckedValueImpl layout fuel visited
                  pointer).appendOffset rhs).markUnknownStaticOffset
            | none =>
                match graph.recoverAddressPointer rhs with
                | some pointer =>
                    ((graph.traceCheckedValueImpl layout fuel visited
                      pointer).appendOffset lhs).markUnknownStaticOffset
                | none =>
                    graph.traceCheckedBinary op lhs rhs
                      (graph.traceCheckedValueImpl layout fuel visited
                        (graph.firstNonConstant lhs rhs))
        | _ => graph.makeBaseVariable (graph.normalizeVariable value)

def traceCheckedValue (graph : ValueGraph) (layout : Option DataLayout)
    (value : Value) : CheckedVariable :=
  graph.traceCheckedValueImpl layout traceFuel [] value

end ValueGraph

end Desan
