import Desan.SanitizerCheckCollector

/-! # The value graph of a module

What the analyses see of the values of a module: the node behind every pointer
and its type. The graph may share nodes and, through phis, may be cyclic. -/

namespace Desan

structure ValueGraph where
  values : ValueTable
  inst? : InstId → Option Inst
  /-- The number of values, poison included: a bound for walks that never repeat one. -/
  count : Nat

def Ty.isPointer : Ty → Bool
  | .pointer => true
  | _ => false

/-- `getTypeStoreSize`, and 0 for a type without a size. -/
def Ty.storeSize (layout : DataLayout) : Ty → Nat
  | .pointer => layout.pointerSize
  | .integer bits => (bits + 7) / 8
  | .other storeSize => storeSize

namespace ValueGraph

def node (graph : ValueGraph) : Value → Node
  | .inst id =>
      match graph.inst? id with
      | some inst => .instruction inst.op
      | none => .constant .other
  | .other id => (graph.values.value id).node.toNode
  | .poison => .constant .other

def ty (graph : ValueGraph) : Value → Ty
  | .inst id =>
      match graph.inst? id with
      | some inst => inst.ty
      | none => .other 0
  | .other id => (graph.values.value id).ty
  | .poison => .other 0

/-- `isa<Constant>`: globals and functions are constants too. -/
def isConstant (graph : ValueGraph) (value : Value) : Bool :=
  match graph.node value with
  | .constant _ => true
  | _ => false

def constantInt? (graph : ValueGraph) (value : Value) : Option Int :=
  match graph.node value with
  | .constant (.int int) => some int
  | _ => none

def hasAllZeroIndices (graph : ValueGraph) (indices : List GEPIndex) : Bool :=
  indices.all fun index => graph.constantInt? index.value == some 0

/-- The operand one turn of `stripPointerCasts` goes to, if it goes on. -/
def stripStep (graph : ValueGraph) (value : Value) : Option Value :=
  match graph.node value with
  | .instruction (.getElementPtr pointer indices)
  | .constant (.getElementPtr pointer indices) =>
      if graph.hasAllZeroIndices indices then some pointer else none
  | .instruction (.cast .bitCast source)
  | .constant (.cast .bitCast source) =>
      if (graph.ty source).isPointer then some source else none
  | .instruction (.cast .addrSpaceCast source)
  | .constant (.cast .addrSpaceCast source) => some source
  | .instruction (.call site) => site.returnedArg
  | .instruction (.invoke site _ _) => site.returnedArg
  | _ => none

def stripLoop (graph : ValueGraph) : Nat → List Value → Value → Value
  | 0, _, value => value
  | fuel + 1, visited, value =>
      match graph.stripStep value with
      | none => value
      | some next =>
          if next ∈ visited then next
          else graph.stripLoop fuel (next :: visited) next

/-- Strip pointer casts, GEPs whose indices are all zero and address space casts.
The visited set ends the walk on the cycles unreachable code may contain. -/
def stripPointerCasts (graph : ValueGraph) (value : Value) : Value :=
  if (graph.ty value).isPointer then graph.stripLoop graph.count [value] value
  else value

/-- `accumulateConstantOffset`: the byte offset of constant indices, computed in
the index width, and nothing if some index is not a `ConstantInt`. -/
def accumulateConstantOffset (graph : ValueGraph) (width : Nat) :
    List GEPIndex → Option (BitVec width)
  | [] => some 0
  | index :: rest => do
      let int ← graph.constantInt? index.value
      let offset ← graph.accumulateConstantOffset width rest
      match index.step with
      | .field fieldOffset => some (BitVec.ofNat width fieldOffset + offset)
      | .element stride => some (BitVec.ofInt width int * BitVec.ofNat width stride + offset)

end ValueGraph

namespace Module

def graph (module : Module) : ValueGraph where
  values := module.values
  inst? := module.inst?
  count := module.values.count + module.instructions.length + 1

/-- The values an instruction of the function can have as operands: the instructions
of its own function, and what is no instruction. -/
def functionGraph (module : Module) (function : Function) : ValueGraph where
  values := module.values
  inst? := function.inst?
  count := module.values.count + function.instructions.length + 1

end Module

end Desan
