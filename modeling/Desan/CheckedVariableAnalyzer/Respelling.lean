import Desan.CheckedVariableAnalyzer.Analysis
import Desan.SanitizerCheckCollector.Spelling

/-! # The analyzer does not see spellings

The analyzer takes names from the collector, and otherwise only asks the value graph
what is behind a value: the name of a function constant decides nothing there. -/

namespace Desan

namespace ValueGraph

def respell (graph : ValueGraph) (respelling : Respelling) : ValueGraph :=
  { graph with values := graph.values.respell respelling }

variable (graph : ValueGraph) (respelling : Respelling)

/-- Only the nodes of functions change, and in their names only. -/
theorem node_respell (value : Value) :
    (graph.respell respelling).node value = graph.node value ∨
      ∃ name intrinsic, graph.node value = .constant (.function name intrinsic) ∧
        (graph.respell respelling).node value =
          .constant (.function (respelling.spell name) intrinsic) := by
  cases value with
  | inst id => exact .inl rfl
  | poison => exact .inl rfl
  | other id =>
      have spelled : (graph.respell respelling).node (.other id) =
          ((graph.values.value id).node.respell respelling).toNode := rfl
      have plain : graph.node (.other id) = (graph.values.value id).node.toNode := rfl
      rw [spelled, plain]
      rcases (graph.values.value id).node with _ | _ | constant
      · exact .inl rfl
      · exact .inl rfl
      · cases constant with
        | function name intrinsic => exact .inr ⟨name, intrinsic, rfl, rfl⟩
        | _ => exact .inl rfl

@[simp] theorem ty_respell (value : Value) :
    (graph.respell respelling).ty value = graph.ty value := by
  cases value <;> rfl

@[simp] theorem isConstant_respell (value : Value) :
    (graph.respell respelling).isConstant value = graph.isConstant value := by
  rw [isConstant, isConstant]
  rcases graph.node_respell respelling value with same | ⟨name, intrinsic, plain, spelled⟩
  · rw [same]
  · rw [plain, spelled]

@[simp] theorem constantInt?_respell (value : Value) :
    (graph.respell respelling).constantInt? value = graph.constantInt? value := by
  rw [constantInt?, constantInt?]
  rcases graph.node_respell respelling value with same | ⟨name, intrinsic, plain, spelled⟩
  · rw [same]
  · rw [plain, spelled]

@[simp] theorem hasAllZeroIndices_respell (indices : List GEPIndex) :
    (graph.respell respelling).hasAllZeroIndices indices =
      graph.hasAllZeroIndices indices := by
  simp only [hasAllZeroIndices, constantInt?_respell]

@[simp] theorem stripStep_respell (value : Value) :
    (graph.respell respelling).stripStep value = graph.stripStep value := by
  simp only [stripStep, hasAllZeroIndices_respell, ty_respell]
  rcases graph.node_respell respelling value with same | ⟨name, intrinsic, plain, spelled⟩
  · rw [same]
  · rw [plain, spelled]

@[simp] theorem stripLoop_respell (fuel : Nat) (visited : List Value) (value : Value) :
    (graph.respell respelling).stripLoop fuel visited value =
      graph.stripLoop fuel visited value := by
  induction fuel generalizing visited value with
  | zero => rfl
  | succ fuel induction =>
      rw [stripLoop, stripLoop, stripStep_respell]
      cases graph.stripStep value with
      | none => rfl
      | some next => simp only [induction]

@[simp] theorem stripPointerCasts_respell (value : Value) :
    (graph.respell respelling).stripPointerCasts value = graph.stripPointerCasts value := by
  have count : (graph.respell respelling).count = graph.count := rfl
  simp only [stripPointerCasts, ty_respell, count, stripLoop_respell]

@[simp] theorem accumulateConstantOffset_respell (width : Nat) (indices : List GEPIndex) :
    (graph.respell respelling).accumulateConstantOffset width indices =
      graph.accumulateConstantOffset width indices := by
  induction indices with
  | nil => rfl
  | cons head tail induction =>
      simp only [accumulateConstantOffset, constantInt?_respell, induction]

/-! ## Tracing -/

@[simp] theorem makeBaseVariable_respell (value : Value) :
    (graph.respell respelling).makeBaseVariable value = graph.makeBaseVariable value := by
  simp only [makeBaseVariable, ty_respell]

@[simp] theorem firstNonConstant_respell (lhs rhs : Value) :
    (graph.respell respelling).firstNonConstant lhs rhs = graph.firstNonConstant lhs rhs := by
  simp only [firstNonConstant, isConstant_respell]

@[simp] theorem appendGEPRegion_respell (layout : Option DataLayout)
    (checked : CheckedVariable) (indices : List GEPIndex) :
    (graph.respell respelling).appendGEPRegion layout checked indices =
      graph.appendGEPRegion layout checked indices := by
  simp only [appendGEPRegion, accumulateConstantOffset_respell]

theorem normalizeVariableImpl_respell (fuel : Nat) :
    (graph.respell respelling).normalizeVariableImpl fuel =
      graph.normalizeVariableImpl fuel := by
  induction fuel with
  | zero => rfl
  | succ fuel induction =>
      funext visited value
      simp only [normalizeVariableImpl, stripPointerCasts_respell, firstNonConstant_respell,
        induction]
      rcases graph.node_respell respelling (graph.stripPointerCasts value)
        with same | ⟨name, intrinsic, plain, spelled⟩
      · rw [same]
      · rw [plain, spelled]

@[simp] theorem normalizeVariable_respell :
    (graph.respell respelling).normalizeVariable = graph.normalizeVariable := by
  funext value
  rw [normalizeVariable, normalizeVariable, normalizeVariableImpl_respell]

@[simp] theorem phiMergeAdd_respell :
    PhiMerge.add (graph.respell respelling) = PhiMerge.add graph := by
  funext state incoming
  simp only [PhiMerge.add, normalizeVariable_respell]

@[simp] theorem tracePhi_respell :
    (graph.respell respelling).tracePhi = graph.tracePhi := by
  funext phi incoming
  simp only [tracePhi, phiMergeAdd_respell]

@[simp] theorem traceSelect_respell :
    (graph.respell respelling).traceSelect = graph.traceSelect := by
  funext select trueVariable falseVariable
  simp only [traceSelect, normalizeVariable_respell]

@[simp] theorem traceASanBinary_respell :
    (graph.respell respelling).traceASanBinary = graph.traceASanBinary := by
  funext op lhs rhs result
  simp only [traceASanBinary, isConstant_respell, constantInt?_respell]

theorem traceASanCheckedAddressImpl_respell (layout : Option DataLayout) (fuel : Nat) :
    (graph.respell respelling).traceASanCheckedAddressImpl layout fuel =
      graph.traceASanCheckedAddressImpl layout fuel := by
  induction fuel with
  | zero =>
      funext visited value
      exact graph.makeBaseVariable_respell respelling value
  | succ fuel induction =>
      funext visited value
      simp only [traceASanCheckedAddressImpl, stripPointerCasts_respell,
        firstNonConstant_respell, makeBaseVariable_respell, appendGEPRegion_respell,
        tracePhi_respell, traceSelect_respell, traceASanBinary_respell,
        normalizeVariable_respell, induction]
      rcases graph.node_respell respelling (graph.stripPointerCasts value)
        with same | ⟨name, intrinsic, plain, spelled⟩
      · rw [same]
      · rw [plain, spelled]

@[simp] theorem traceASanCheckedAddress_respell :
    (graph.respell respelling).traceASanCheckedAddress = graph.traceASanCheckedAddress := by
  funext layout value
  rw [traceASanCheckedAddress, traceASanCheckedAddress, traceASanCheckedAddressImpl_respell]

theorem recoverAddressPointerImpl_respell (fuel : Nat) (value : Value) :
    (graph.respell respelling).recoverAddressPointerImpl fuel value =
      graph.recoverAddressPointerImpl fuel value := by
  induction fuel generalizing value with
  | zero => rfl
  | succ fuel induction =>
      simp only [recoverAddressPointerImpl, ty_respell, stripPointerCasts_respell, induction]
      rcases graph.node_respell respelling value with same | ⟨name, intrinsic, plain, spelled⟩
      · rw [same]
      · rw [plain, spelled]

@[simp] theorem recoverAddressPointer_respell :
    (graph.respell respelling).recoverAddressPointer = graph.recoverAddressPointer := by
  funext value
  exact graph.recoverAddressPointerImpl_respell respelling traceFuel value

@[simp] theorem traceCheckedBinary_respell :
    (graph.respell respelling).traceCheckedBinary = graph.traceCheckedBinary := by
  funext op lhs rhs result
  simp only [traceCheckedBinary, isConstant_respell, constantInt?_respell]

theorem traceCheckedValueImpl_respell (layout : Option DataLayout) (fuel : Nat) :
    (graph.respell respelling).traceCheckedValueImpl layout fuel =
      graph.traceCheckedValueImpl layout fuel := by
  induction fuel with
  | zero =>
      funext visited value
      exact graph.makeBaseVariable_respell respelling value
  | succ fuel induction =>
      funext visited value
      simp only [traceCheckedValueImpl, stripPointerCasts_respell,
        firstNonConstant_respell, makeBaseVariable_respell, appendGEPRegion_respell,
        tracePhi_respell, traceSelect_respell, traceCheckedBinary_respell,
        recoverAddressPointer_respell, normalizeVariable_respell, induction]
      rcases graph.node_respell respelling (graph.stripPointerCasts value)
        with same | ⟨name, intrinsic, plain, spelled⟩
      · rw [same]
      · rw [plain, spelled]

@[simp] theorem traceCheckedValue_respell :
    (graph.respell respelling).traceCheckedValue = graph.traceCheckedValue := by
  funext layout value
  rw [traceCheckedValue, traceCheckedValue, traceCheckedValueImpl_respell]

/-! ## Values and their sizes -/

theorem stripScalarCastsImpl_respell (fuel : Nat) (value : Value) :
    (graph.respell respelling).stripScalarCastsImpl fuel value =
      graph.stripScalarCastsImpl fuel value := by
  induction fuel generalizing value with
  | zero => rfl
  | succ fuel induction =>
      simp only [stripScalarCastsImpl, induction]
      rcases graph.node_respell respelling value with same | ⟨name, intrinsic, plain, spelled⟩
      · rw [same]
      · rw [plain, spelled]

@[simp] theorem stripScalarCasts_respell :
    (graph.respell respelling).stripScalarCasts = graph.stripScalarCasts := by
  funext value
  exact graph.stripScalarCastsImpl_respell respelling traceFuel value

@[simp] theorem intrinsicID_respell :
    (graph.respell respelling).values.intrinsicID = graph.values.intrinsicID := by
  funext op
  exact graph.values.intrinsicID_respell respelling op

@[simp] theorem getMemIntrinsicDest_respell :
    (graph.respell respelling).getMemIntrinsicDest = graph.getMemIntrinsicDest := by
  funext op
  simp only [getMemIntrinsicDest, intrinsicID_respell]

@[simp] theorem getMemIntrinsicSource_respell :
    (graph.respell respelling).getMemIntrinsicSource = graph.getMemIntrinsicSource := by
  funext op
  simp only [getMemIntrinsicSource, intrinsicID_respell]

theorem constantInts_respell :
    (graph.respell respelling).constantInt? = graph.constantInt? := by
  funext value
  exact graph.constantInt?_respell respelling value

@[simp] theorem constantMemIntrinsicLength_respell :
    (graph.respell respelling).constantMemIntrinsicLength =
      graph.constantMemIntrinsicLength := by
  funext op
  simp only [constantMemIntrinsicLength, intrinsicID_respell, constantInts_respell]

@[simp] theorem getConstantSizeOperand_respell :
    (graph.respell respelling).getConstantSizeOperand = graph.getConstantSizeOperand := by
  funext site
  simp only [getConstantSizeOperand, constantInts_respell]

theorem inferSizeFromValueDefImpl_respell (layout : DataLayout) (fuel : Nat) (value : Value) :
    (graph.respell respelling).inferSizeFromValueDefImpl layout fuel value =
      graph.inferSizeFromValueDefImpl layout fuel value := by
  induction fuel generalizing value with
  | zero => rfl
  | succ fuel induction =>
      simp only [inferSizeFromValueDefImpl, stripScalarCasts_respell, ty_respell,
        firstNonConstant_respell, induction]
      rcases graph.node_respell respelling (graph.stripScalarCasts value)
        with same | ⟨name, intrinsic, plain, spelled⟩
      · rw [same]
      · rw [plain, spelled]

@[simp] theorem inferSizeFromValueDef_respell :
    (graph.respell respelling).inferSizeFromValueDef = graph.inferSizeFromValueDef := by
  funext layout value
  exact graph.inferSizeFromValueDefImpl_respell respelling layout traceFuel value

/-! ## The access a bounds check guards -/

@[simp] theorem gepUsesIndex_respell :
    (graph.respell respelling).gepUsesIndex = graph.gepUsesIndex := by
  funext indices index
  simp only [gepUsesIndex, sameScalarRoot, stripScalarCasts_respell]

@[simp] theorem matchesIndex_respell :
    (graph.respell respelling).matchesIndex = graph.matchesIndex := by
  funext index inst
  unfold matchesIndex
  rw [gepUsesIndex_respell]

@[simp] theorem scanAfterCheck_respell (index : Value) (insts : List Inst) (budget : Nat) :
    (graph.respell respelling).scanAfterCheck index insts budget =
      graph.scanAfterCheck index insts budget := by
  induction insts generalizing budget with
  | nil => rfl
  | cons head tail induction =>
      simp only [scanAfterCheck, matchesIndex_respell, induction]

@[simp] theorem scanBlock_respell (index : Value) (insts : List Inst) (budget : Nat) :
    (graph.respell respelling).scanBlock index insts budget =
      graph.scanBlock index insts budget := by
  induction insts generalizing budget with
  | nil => rfl
  | cons head tail induction =>
      simp only [scanBlock, matchesIndex_respell, induction]

@[simp] theorem searchBlocks_respell (function : Function) (index : Value)
    (blockBudget instBudget : Nat) (seen worklist : List BlockId) :
    (graph.respell respelling).searchBlocks function index blockBudget instBudget seen worklist =
      graph.searchBlocks function index blockBudget instBudget seen worklist := by
  induction blockBudget generalizing instBudget seen worklist with
  | zero => rfl
  | succ blockBudget induction =>
      cases worklist with
      | nil => rfl
      | cons block worklist =>
          simp only [searchBlocks, scanBlock_respell, induction]

end ValueGraph

namespace ValueTable

@[simp] theorem implicitOperandBefore_respell (values : ValueTable)
    (respelling : Respelling) (insts : List Inst) :
    (values.respell respelling).implicitOperandBefore insts =
      values.implicitOperandBefore insts := by
  induction insts with
  | nil => rfl
  | cons head tail induction =>
      simp only [implicitOperandBefore, intrinsicID_respell, isCheck_respell,
        isDirectMemSanRuntimeCall_respell, induction]

end ValueTable

/-! ## Checks -/

namespace CheckContext

def respell (context : CheckContext) (respelling : Respelling) : CheckContext :=
  { context with
    graph := context.graph.respell respelling
    moduleGraph := context.moduleGraph.respell respelling }

variable (context : CheckContext) (respelling : Respelling)

@[simp] theorem sameVariable_respell :
    (context.respell respelling).sameVariable = context.sameVariable := by
  funext pointer current
  simp only [sameVariable, respell, ValueGraph.normalizeVariable_respell]

@[simp] theorem sameModuleVariable_respell :
    (context.respell respelling).sameModuleVariable = context.sameModuleVariable := by
  funext pointer current
  simp only [sameModuleVariable, respell, ValueGraph.normalizeVariable_respell]

@[simp] theorem scanUser_respell :
    (context.respell respelling).scanUser = context.scanUser := by
  funext current scan user
  simp only [scanUser, sameVariable_respell]
  simp only [respell, ValueGraph.getMemIntrinsicDest_respell,
    ValueGraph.getMemIntrinsicSource_respell]
  rfl

@[simp] theorem scanValue_respell :
    (context.respell respelling).scanValue = context.scanValue := by
  funext scan current
  rw [scanValue, scanValue, scanUser_respell]
  rfl

theorem scanLevels_respell (fuel : Nat) (scan : UseScan) (worklist : List Value) :
    (context.respell respelling).scanLevels fuel scan worklist =
      context.scanLevels fuel scan worklist := by
  induction fuel generalizing scan worklist with
  | zero => rfl
  | succ fuel induction =>
      cases worklist with
      | nil => rfl
      | cons head tail => simp only [scanLevels, scanValue_respell, induction]

@[simp] theorem inferAccessTypeFromUses_respell :
    (context.respell respelling).inferAccessTypeFromUses =
      context.inferAccessTypeFromUses := by
  funext value
  simp only [inferAccessTypeFromUses, scanLevels_respell]

@[simp] theorem userAccessSize?_respell :
    (context.respell respelling).userAccessSize? = context.userAccessSize? := by
  funext current user
  simp only [userAccessSize?, sameModuleVariable_respell]
  simp only [respell, ValueGraph.getMemIntrinsicDest_respell,
    ValueGraph.getMemIntrinsicSource_respell, ValueGraph.constantMemIntrinsicLength_respell,
    ValueGraph.ty_respell]
  rfl

@[simp] theorem traceThroughUsers_respell :
    (context.respell respelling).traceThroughUsers = context.traceThroughUsers := by
  funext current
  simp only [traceThroughUsers]
  simp only [respell, ValueGraph.getMemIntrinsicDest_respell]
  rfl

theorem sizeLevel_respell (worklist visited next : List Value) :
    (context.respell respelling).sizeLevel worklist visited next =
      context.sizeLevel worklist visited next := by
  induction worklist generalizing visited next with
  | nil => rfl
  | cons head tail induction =>
      have users : (context.respell respelling).users = context.users := rfl
      simp only [sizeLevel, users, userAccessSize?_respell, traceThroughUsers_respell, induction]

theorem sizeLevels_respell (fuel : Nat) (visited worklist : List Value) :
    (context.respell respelling).sizeLevels fuel visited worklist =
      context.sizeLevels fuel visited worklist := by
  induction fuel generalizing visited worklist with
  | zero => rfl
  | succ fuel induction =>
      cases worklist with
      | nil => rfl
      | cons head tail => simp only [sizeLevels, sizeLevel_respell, induction]

@[simp] theorem inferAccessSizeFromUses_respell :
    (context.respell respelling).inferAccessSizeFromUses =
      context.inferAccessSizeFromUses := by
  funext value
  exact context.sizeLevels_respell respelling maxUseTraceDepth [] [value]

@[simp] theorem findUBSanOutOfBoundsAccessOperand_respell :
    (context.respell respelling).findUBSanOutOfBoundsAccessOperand =
      context.findUBSanOutOfBoundsAccessOperand := by
  funext index
  simp only [findUBSanOutOfBoundsAccessOperand, respell, ValueGraph.scanAfterCheck_respell,
    ValueGraph.searchBlocks_respell]
  rfl

@[simp] theorem getImplicitMemSanOperand_respell :
    (context.respell respelling).getImplicitMemSanOperand =
      context.getImplicitMemSanOperand := by
  funext checkType
  simp only [getImplicitMemSanOperand, respell, ValueGraph.respell,
    ValueTable.implicitOperandBefore_respell]
  rfl

@[simp] theorem getUBSanCheckedOperand_respell :
    (context.respell respelling).getUBSanCheckedOperand = context.getUBSanCheckedOperand := by
  funext site checkType
  simp only [getUBSanCheckedOperand, findUBSanOutOfBoundsAccessOperand_respell]
  simp only [respell, ValueGraph.recoverAddressPointer_respell]

@[simp] theorem getCheckedOperand_respell :
    (context.respell respelling).getCheckedOperand = context.getCheckedOperand := by
  funext site check
  simp only [getCheckedOperand, getUBSanCheckedOperand_respell,
    getImplicitMemSanOperand_respell]

@[simp] theorem inferUBSanAccessType_respell :
    (context.respell respelling).inferUBSanAccessType = context.inferUBSanAccessType := by
  funext operand
  simp only [inferUBSanAccessType, inferAccessTypeFromUses_respell]
  simp only [respell, ValueGraph.recoverAddressPointer_respell]

@[simp] theorem inferAccessType_respell :
    (context.respell respelling).inferAccessType = context.inferAccessType := by
  funext site check
  simp only [inferAccessType, inferUBSanAccessType_respell, getCheckedOperand_respell,
    inferAccessTypeFromUses_respell]

@[simp] theorem inferASanAccessSize_respell :
    (context.respell respelling).inferASanAccessSize = context.inferASanAccessSize := by
  funext site checkType
  simp only [inferASanAccessSize, respell, ValueGraph.getConstantSizeOperand_respell]

@[simp] theorem inferMemSanAccessSize_respell :
    (context.respell respelling).inferMemSanAccessSize = context.inferMemSanAccessSize := by
  funext site checkType checkedValue
  simp only [inferMemSanAccessSize, inferAccessSizeFromUses_respell]
  simp only [respell, ValueGraph.getConstantSizeOperand_respell,
    ValueGraph.inferSizeFromValueDef_respell]

@[simp] theorem sizeOrFromAddress_respell :
    (context.respell respelling).sizeOrFromAddress = context.sizeOrFromAddress := by
  funext size address
  simp only [sizeOrFromAddress, inferAccessSizeFromUses_respell]

@[simp] theorem traceOperand_respell :
    (context.respell respelling).traceOperand = context.traceOperand := by
  funext sanitizer checkedValue
  simp only [traceOperand, respell, ValueGraph.traceASanCheckedAddress_respell,
    ValueGraph.traceCheckedValue_respell, ValueGraph.recoverAddressPointer_respell,
    ValueGraph.ty_respell, ValueGraph.stripPointerCasts_respell]

/-- What the analyzer answers for a check does not depend on how callees are spelled. -/
@[simp] theorem analyzeCall_respell :
    (context.respell respelling).analyzeCall = context.analyzeCall := by
  funext site check
  simp only [analyzeCall, getCheckedOperand_respell, traceOperand_respell,
    inferASanAccessSize_respell, inferAccessSizeFromUses_respell, sizeOrFromAddress_respell,
    inferMemSanAccessSize_respell, inferAccessType_respell]
  rfl

end CheckContext

end Desan
