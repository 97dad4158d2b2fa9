import Desan.CheckGraphBuilder
import Desan.CheckedVariableAnalyzer.Forgotten

/-! # What a dynamic key says of an address

In the most discriminating mode a key without a static offset is the base and the list of
offsets. Two checks with one key are of one address if their traces also forget the
same. -/

namespace Desan

/-- Static offsets are distinguished, and dynamic ones are not grouped by their base. -/
def discriminating : GroupingOptions where
  groupDynamicOffsetsByBase := false
  distinguishStaticOffsets := true

namespace Module

variable {module : Module} {function : Function}

/-- The address that an ASan check is given. -/
def asanAddress? (module : Module) (inst : Inst) : Option Value :=
  match inst.op.callSite?, module.values.classifyCheck inst.op with
  | some site, some check => if check.sanitizer = .ASan then site.args[0]? else none
  | _, _ => none

/-- Two checks with one key, which has no static offset. -/
def SameDynamicKey (module : Module) (function : Function) (left right : Inst) : Prop :=
  ∃ leftVariable rightVariable,
    module.analyzeCheck function left = some leftVariable ∧
    module.analyzeCheck function right = some rightVariable ∧
    makeVariableKey discriminating leftVariable = makeVariableKey discriminating rightVariable ∧
    (makeVariableKey discriminating leftVariable).hasStaticByteOffset = false

/-- The addresses of any two ASan checks with one dynamic key are the same number in every
state. -/
def KeysDetermineAddresses (module : Module) (function : Function) : Prop :=
  ∀ left ∈ function.instructions, ∀ right ∈ function.instructions,
    ∀ leftAddress rightAddress, module.asanAddress? left = some leftAddress →
      module.asanAddress? right = some rightAddress →
        module.SameDynamicKey function left right →
          ∀ state : (module.functionGraph function).State,
            state.number leftAddress = state.number rightAddress

/-- The traces of any two ASan checks with one dynamic key forget the same. -/
def ForgetsAlike (module : Module) (function : Function) : Prop :=
  ∀ left ∈ function.instructions, ∀ right ∈ function.instructions,
    ∀ leftAddress rightAddress, module.asanAddress? left = some leftAddress →
      module.asanAddress? right = some rightAddress →
        module.SameDynamicKey function left right →
          (module.functionGraph function).forgotten (some module.dataLayout) leftAddress =
            (module.functionGraph function).forgotten (some module.dataLayout) rightAddress

/-- The checked variable of an ASan check is the trace of its address. -/
theorem traced_of_asanAddress? {inst : Inst} {address : Value} {checked : CheckedVariable}
    (isAddress : module.asanAddress? inst = some address)
    (analyzed : module.analyzeCheck function inst = some checked) :
    checked.base = ((module.functionGraph function).traceASanCheckedAddress
        (some module.dataLayout) address).base ∧
      checked.offsets = ((module.functionGraph function).traceASanCheckedAddress
        (some module.dataLayout) address).offsets := by
  rw [asanAddress?] at isAddress
  rw [analyzeCheck] at analyzed
  split at isAddress
  · rename_i site check isCall classified
    rw [isCall, classified] at analyzed
    split at isAddress
    · rename_i asan
      cases analyzed
      have operand : (module.checkContext function inst.id).getCheckedOperand site check =
          some address := by
        rw [CheckContext.getCheckedOperand, asan]
        exact isAddress
      rw [CheckContext.analyzeCall, operand]
      simp only [Option.map_some, Option.getD_some, CheckContext.traceOperand, if_pos asan]
      exact ⟨rfl, rfl⟩
    · cases isAddress
  · cases isAddress

/-- A dynamic key is the base and the offsets. -/
theorem parts_of_dynamic {left right : CheckedVariable}
    (same : makeVariableKey discriminating left = makeVariableKey discriminating right)
    (dynamic : (makeVariableKey discriminating left).hasStaticByteOffset = false) :
    left.base = right.base ∧ left.offsets = right.offsets := by
  have rightDynamic : (makeVariableKey discriminating right).hasStaticByteOffset = false :=
    same ▸ dynamic
  have leftFlag : left.hasStaticByteOffset = false := dynamic
  have rightFlag : right.hasStaticByteOffset = false := rightDynamic
  have offsets := congrArg VariableKey.offsets same
  simp only [makeVariableKey, discriminating, leftFlag, rightFlag] at offsets
  exact ⟨congrArg VariableKey.base same, offsets⟩

theorem keysDetermineAddresses_of_forgetsAlike (alike : module.ForgetsAlike function) :
    module.KeysDetermineAddresses function := by
  intro left leftMember right rightMember leftAddress rightAddress isLeft isRight sameKey state
  have forgotten := alike left leftMember right rightMember leftAddress rightAddress isLeft
    isRight sameKey
  rcases sameKey with ⟨leftVariable, rightVariable, leftAnalyzed, rightAnalyzed, same, dynamic⟩
  have leftTrace := traced_of_asanAddress? isLeft leftAnalyzed
  have rightTrace := traced_of_asanAddress? isRight rightAnalyzed
  have parts := parts_of_dynamic same dynamic
  have basesEqual := leftTrace.1.symm.trans (parts.1.trans rightTrace.1)
  have offsetsEqual := leftTrace.2.symm.trans (parts.2.trans rightTrace.2)
  rcases Option.isSome_iff_exists.mp
    (ValueGraph.base_isSome_trace traceFuel [] leftAddress) with ⟨base, isBase⟩
  have leftRebuilt := ValueGraph.rebuilds state traceFuel [] leftAddress base isBase
  have rightRebuilt := ValueGraph.rebuilds state traceFuel [] rightAddress base
    (basesEqual.symm.trans isBase)
  rw [ValueGraph.forgotten, ValueGraph.forgotten] at forgotten
  rw [ValueGraph.traceASanCheckedAddress, ValueGraph.traceASanCheckedAddress] at offsetsEqual
  rw [leftRebuilt, rightRebuilt, forgotten, offsetsEqual]

/-- A function that checks two elements of an argument at one index, the first of an array
of bytes and the second of an array of that stride. -/
def elements (stride : Nat) : Function where
  name := "f"
  blocks :=
    [{ id := 0
       insts :=
         [⟨0, .pointer, .getElementPtr (.other 0) [⟨.other 1, .element 1⟩]⟩,
          ⟨1, .integer 64, .cast .ptrToInt (.inst 0)⟩,
          ⟨2, .other 0, .call { calledOperand := .other 2, args := [.inst 1] }⟩,
          ⟨3, .pointer, .getElementPtr (.other 0) [⟨.other 1, .element stride⟩]⟩,
          ⟨4, .integer 64, .cast .ptrToInt (.inst 3)⟩,
          ⟨5, .other 0, .call { calledOperand := .other 2, args := [.inst 4] }⟩]
       terminator := ⟨6, .other 0, .ret none⟩ }]

def elementsModule (stride : Nat) : Module where
  functions := [elements stride]
  values :=
    { value
        | 0 => ⟨.argument, .pointer⟩
        | 1 => ⟨.argument, .integer 64⟩
        | _ => ⟨.constant (.function "__asan_load1" .notIntrinsic), .pointer⟩
      count := 3 }
  dataLayout := ⟨64, 8⟩

/-- The argument is 16 and the index 1. -/
def elementsNumber : Assignment
  | .other 0 => 16
  | .other 1 => 1
  | .inst 0 | .inst 1 => 17
  | .inst 3 | .inst 4 => 20
  | _ => 0

def elementsState : ((elementsModule 4).functionGraph (elements 4)).State where
  number := elementsNumber
  memory := fun _ _ => 0
  results := fun _ _ _ _ => 0
  satisfies :=
    { inRange := by
        intro value width bits
        match value with
        | .other 0 | .other 1 | .inst 0 | .inst 1 | .inst 3 | .inst 4 =>
            cases bits
            decide
        | .other (_ + 2) | .inst 2 | .inst 5 | .inst (_ + 6) | .poison =>
            exact Nat.two_pow_pos width
      holds := by
        intro value
        match value with
        | .inst 0 =>
            change elementsNumber.word (.inst 0) = elementsNumber.word (.other 0) +
              ((elementsModule 4).functionGraph (elements 4)).gepOffset elementsNumber
                [⟨.other 1, .element 1⟩]
            decide
        | .inst 3 =>
            change elementsNumber.word (.inst 3) = elementsNumber.word (.other 0) +
              ((elementsModule 4).functionGraph (elements 4)).gepOffset elementsNumber
                [⟨.other 1, .element 4⟩]
            decide
        | .inst 1 | .inst 4 =>
            intro width target result sourceBits targetBits evaluated
            cases sourceBits
            cases targetBits
            cases evaluated
            decide
        | .inst 2 | .inst 5 =>
            intro argument returned
            cases returned
        | .inst 6 | .inst (_ + 7) | .other 0 | .other 1 | .other (_ + 2) | .poison => trivial }
  loads := by
    intro value pointer isVolatile ordering node
    match value with
    | .inst 0 | .inst 1 | .inst 2 | .inst 3 | .inst 4 | .inst 5 | .inst 6 | .inst (_ + 7)
    | .other 0 | .other 1 | .other (_ + 2) | .poison => cases node
  undefined := by
    intro value op lhs rhs width node
    match value with
    | .inst 0 | .inst 1 | .inst 2 | .inst 3 | .inst 4 | .inst 5 | .inst 6 | .inst (_ + 7)
    | .other 0 | .other 1 | .other (_ + 2) | .poison => cases node

/-- An element of bytes and one of words have the same key. -/
theorem elementsModule_not_keysDetermine :
    ¬(elementsModule 4).KeysDetermineAddresses (elements 4) := by
  intro determine
  have equal := determine
    ⟨2, .other 0, .call { calledOperand := .other 2, args := [.inst 1] }⟩ (by decide)
    ⟨5, .other 0, .call { calledOperand := .other 2, args := [.inst 4] }⟩ (by decide)
    (.inst 1) (.inst 4) (by decide +kernel) (by decide +kernel)
    ⟨_, _, rfl, rfl, by decide +kernel, by decide +kernel⟩ elementsState
  revert equal
  decide

theorem elementsModule_keysDetermine : (elementsModule 1).KeysDetermineAddresses (elements 1) := by
  apply keysDetermineAddresses_of_forgetsAlike
  have all : ∀ inst ∈ (elements 1).instructions, ∀ address ∈ (elementsModule 1).asanAddress? inst,
      ((elementsModule 1).functionGraph (elements 1)).forgotten
        (some (elementsModule 1).dataLayout) address = .gep [.element 1] .itself := by
    decide +kernel
  intro left leftMember right rightMember leftAddress rightAddress isLeft isRight _
  rw [all left leftMember leftAddress isLeft, all right rightMember rightAddress isRight]

end Module

end Desan
