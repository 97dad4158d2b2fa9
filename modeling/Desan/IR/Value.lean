import Mathlib.Data.List.Basic

/-! # Values and operations

The LLVM values the pass looks at. A `Value` stands for a `Value *`: two values
are equal exactly when the pointers are. What `dyn_cast` sees behind a pointer
is its `Node`, so a value graph may share subterms and may be cyclic. -/

namespace Desan

/-- The address of an instruction. -/
abbrev InstId := Nat

/-- The address of a basic block. -/
abbrev BlockId := Nat

inductive Value where
  | inst (id : InstId)
  /-- An argument, a global, a function, an inline assembly or a constant. -/
  | other (id : Nat)
  /-- The poison constant that replaces the uses of a deleted instruction. -/
  | poison
deriving DecidableEq, Repr

namespace Value

/-- `dyn_cast<Instruction>`. -/
def asInst : Value → Option InstId
  | .inst id => some id
  | _ => none

theorem asInst_eq_some {value : Value} {id : InstId} :
    value.asInst = some id ↔ value = .inst id := by
  cases value <;> simp [asInst]

/-- Replace one instruction by another value, as `replaceAllUsesWith` does in
every operand. -/
def replace (old : InstId) (new : Value) (value : Value) : Value :=
  if value = .inst old then new else value

@[simp] theorem replace_self (old : InstId) (new : Value) :
    replace old new (.inst old) = new := by
  simp [replace]

theorem replace_of_ne {old : InstId} {new value : Value}
    (different : value ≠ .inst old) : replace old new value = value := by
  simp [replace, different]

end Value

inductive Ty where
  | pointer
  | integer (bits : Nat)
  /-- Any other type; `storeSize` is what the data layout says, 0 if unsized. -/
  | other (storeSize : Nat)
deriving DecidableEq, Repr

inductive CastOp where
  | trunc | zext | sext | floating | ptrToInt | intToPtr | bitCast | addrSpaceCast
deriving DecidableEq, Repr

inductive BinOp where
  | add | sub | mul | udiv | sdiv | urem | srem
  | shl | lshr | ashr | and | or | xor | floating
deriving DecidableEq, Repr

/-- What the GEP type iterator says of one index: a struct field at a byte
offset, or an element of a sequence with a byte stride. -/
inductive GEPStep where
  | field (offset : Nat)
  | element (stride : Nat)
deriving DecidableEq, Repr

structure GEPIndex where
  value : Value
  step : GEPStep
deriving DecidableEq, Repr

inductive AtomicOrdering where
  | notAtomic | unordered | ordered
deriving DecidableEq, Repr

structure CallSite where
  calledOperand : Value
  args : List Value
  /-- The call has the function type of its callee; `getCalledFunction` answers
  null otherwise. -/
  exactType : Bool := true
  /-- Place of the argument marked `returned`, if there is one. -/
  returnedIndex : Option Nat := none
  /-- `wouldInstructionBeTriviallyDead` holds of the call: by its attributes it
  has no side effect and returns. -/
  removableIfUnused : Bool := false
deriving DecidableEq, Repr

/-- Instructions, by the classes `isa` and `dyn_cast` tell apart. -/
inductive Op where
  | phi (incoming : List (Value × BlockId))
  | load (pointer : Value) (isVolatile : Bool) (ordering : AtomicOrdering)
  | store (value pointer : Value)
  | getElementPtr (pointer : Value) (indices : List GEPIndex)
  | cast (op : CastOp) (source : Value)
  | binary (op : BinOp) (lhs rhs : Value)
  | cmp (predicate : String) (lhs rhs : Value)
  | select (condition ifTrue ifFalse : Value)
  /-- `extractvalue`, `insertvalue` and the unary operators. -/
  | aggregate (name : String) (operands : List Value)
  | call (site : CallSite)
  | alloca (size : Value)
  /-- `atomicrmw` and `cmpxchg`. -/
  | atomic (name : String) (operands : List Value)
  | other (name : String) (operands : List Value) (sideEffects : Bool)
  | br (destination : BlockId)
  | condBr (condition : Value) (ifTrue ifFalse : BlockId)
  | unreachable
  | ret (value : Option Value)
  | invoke (site : CallSite) (normal unwind : BlockId)
  | otherTerminator (name : String) (operands : List Value)
      (destinations : List BlockId) (sideEffects : Bool)
deriving DecidableEq, Repr

namespace CallSite

def operands (site : CallSite) : List Value :=
  site.args ++ [site.calledOperand]

/-- `getReturnedArgOperand`. -/
def returnedArg (site : CallSite) : Option Value :=
  site.returnedIndex.bind fun index => site.args[index]?

def mapOperands (transform : Value → Value) (site : CallSite) : CallSite :=
  { site with
    calledOperand := transform site.calledOperand
    args := site.args.map transform }

@[simp] theorem operands_mapOperands (transform : Value → Value) (site : CallSite) :
    (site.mapOperands transform).operands = site.operands.map transform := by
  simp [operands, mapOperands]

end CallSite

namespace Op

/-- The operands that are values; a branch also names blocks, see `successors`. -/
def operands : Op → List Value
  | .phi incoming => incoming.map Prod.fst
  | .load pointer _ _ => [pointer]
  | .store value pointer => [value, pointer]
  | .getElementPtr pointer indices => pointer :: indices.map GEPIndex.value
  | .cast _ source => [source]
  | .binary _ lhs rhs => [lhs, rhs]
  | .cmp _ lhs rhs => [lhs, rhs]
  | .select condition ifTrue ifFalse => [condition, ifTrue, ifFalse]
  | .aggregate _ operands => operands
  | .call site => site.operands
  | .alloca size => [size]
  | .atomic _ operands => operands
  | .other _ operands _ => operands
  | .br _ => []
  | .condBr condition _ _ => [condition]
  | .unreachable => []
  | .ret value => value.toList
  | .invoke site _ _ => site.operands
  | .otherTerminator _ operands _ _ => operands

def mapOperands (transform : Value → Value) : Op → Op
  | .phi incoming => .phi (incoming.map fun entry => (transform entry.1, entry.2))
  | .load pointer isVolatile ordering => .load (transform pointer) isVolatile ordering
  | .store value pointer => .store (transform value) (transform pointer)
  | .getElementPtr pointer indices =>
      .getElementPtr (transform pointer)
        (indices.map fun index => { index with value := transform index.value })
  | .cast op source => .cast op (transform source)
  | .binary op lhs rhs => .binary op (transform lhs) (transform rhs)
  | .cmp predicate lhs rhs => .cmp predicate (transform lhs) (transform rhs)
  | .select condition ifTrue ifFalse =>
      .select (transform condition) (transform ifTrue) (transform ifFalse)
  | .aggregate name operands => .aggregate name (operands.map transform)
  | .call site => .call (site.mapOperands transform)
  | .alloca size => .alloca (transform size)
  | .atomic name operands => .atomic name (operands.map transform)
  | .other name operands sideEffects => .other name (operands.map transform) sideEffects
  | .br destination => .br destination
  | .condBr condition ifTrue ifFalse => .condBr (transform condition) ifTrue ifFalse
  | .unreachable => .unreachable
  | .ret value => .ret (value.map transform)
  | .invoke site normal unwind => .invoke (site.mapOperands transform) normal unwind
  | .otherTerminator name operands destinations sideEffects =>
      .otherTerminator name (operands.map transform) destinations sideEffects

@[simp] theorem operands_mapOperands (transform : Value → Value) (op : Op) :
    (op.mapOperands transform).operands = op.operands.map transform := by
  cases op with
  | ret value => cases value <;> simp [mapOperands, operands]
  | _ => simp [mapOperands, operands, Function.comp_def]

def isTerminator : Op → Bool
  | .br _ | .condBr .. | .unreachable | .ret _ | .invoke .. | .otherTerminator .. => true
  | _ => false

/-- The successor blocks of a terminator, one for each edge. -/
def successors : Op → List BlockId
  | .br destination => [destination]
  | .condBr _ ifTrue ifFalse => [ifTrue, ifFalse]
  | .invoke _ normal unwind => [normal, unwind]
  | .otherTerminator _ _ destinations _ => destinations
  | _ => []

def isPhi : Op → Bool
  | .phi _ => true
  | _ => false

/-- The call of a `CallBase`, that is of a call or an invoke. -/
def callSite? : Op → Option CallSite
  | .call site => some site
  | .invoke site _ _ => some site
  | _ => none

/-- `Instruction::mayHaveSideEffects`. The pass asks it of no call. -/
def mayHaveSideEffects : Op → Bool
  | .load _ isVolatile ordering => isVolatile || ordering == .ordered
  | .store .. | .atomic .. => true
  | .other _ _ sideEffects => sideEffects
  | .call site => !site.removableIfUnused
  | .invoke .. => true
  | .otherTerminator _ _ _ sideEffects => sideEffects
  | _ => false

@[simp] theorem isTerminator_mapOperands (transform : Value → Value) (op : Op) :
    (op.mapOperands transform).isTerminator = op.isTerminator := by
  cases op <;> rfl

@[simp] theorem successors_mapOperands (transform : Value → Value) (op : Op) :
    (op.mapOperands transform).successors = op.successors := by
  cases op <;> rfl

@[simp] theorem isPhi_mapOperands (transform : Value → Value) (op : Op) :
    (op.mapOperands transform).isPhi = op.isPhi := by
  cases op <;> rfl

@[simp] theorem mayHaveSideEffects_mapOperands (transform : Value → Value) (op : Op) :
    (op.mapOperands transform).mayHaveSideEffects = op.mayHaveSideEffects := by
  cases op <;> rfl

end Op

inductive IntrinsicID where
  | notIntrinsic | debugInfo | lifetimeStart | lifetimeEnd | invariantStart
  | invariantEnd | memTransfer | memSet | other
deriving DecidableEq, Repr

inductive Constant where
  /-- A `ConstantInt`, with the value `getSExtValue` answers. -/
  | int (value : Int)
  | globalVariable
  | function (name : String) (intrinsic : IntrinsicID)
  | globalAlias (aliaseeObject : Option Value)
  | cast (op : CastOp) (source : Value)
  | getElementPtr (pointer : Value) (indices : List GEPIndex)
  | other
deriving DecidableEq, Repr

/-- What stands behind a value that is not an instruction. -/
inductive OtherNode where
  | argument
  | inlineAsm (asmString : String)
  | constant (constant : Constant)
deriving DecidableEq, Repr

/-- What stands behind a value. -/
inductive Node where
  | instruction (op : Op)
  | argument
  | inlineAsm (asmString : String)
  | constant (constant : Constant)
deriving DecidableEq, Repr

def OtherNode.toNode : OtherNode → Node
  | .argument => .argument
  | .inlineAsm asmString => .inlineAsm asmString
  | .constant value => .constant value

structure DataLayout where
  /-- Width in bits of the pointer index type. -/
  indexSizeInBits : Nat
  /-- Store size in bytes of a pointer. -/
  pointerSize : Nat
deriving DecidableEq, Repr

end Desan
