import Desan.CheckedVariableAnalyzer.Tracing

/-! # The checked variable of a sanitizer call

Which operand a check is about, whether it guards a read or a write, and how
many bytes it covers. -/

namespace Desan

def maxUseTraceDepth : Nat := 12

/-! ## Names -/

def isLoadCheckName (name : String) : Bool :=
  startsWith name "__asan_report_load" || startsWith name "__asan_report_exp_load" ||
    startsWith name "__asan_load" || startsWith name "__asan_exp_load"

def isStoreCheckName (name : String) : Bool :=
  startsWith name "__asan_report_store" || startsWith name "__asan_report_exp_store" ||
    startsWith name "__asan_store" || startsWith name "__asan_exp_store"

def isMemWriteCheckName (name : String) : Bool := startsWith name "__asan_memset"

def isTypeMismatchCheck (name : String) : Bool :=
  startsWith name "__ubsan_handle_type_mismatch"

def isPointerOverflowCheck (name : String) : Bool :=
  startsWith name "__ubsan_handle_pointer_overflow"

def isOutOfBoundsCheck (name : String) : Bool :=
  startsWith name "__ubsan_handle_out_of_bounds"

def isShiftOutOfBoundsCheck (name : String) : Bool :=
  startsWith name "__ubsan_handle_shift_out_of_bounds"

def isMemSanExplicitValueCheck (name : String) : Bool :=
  startsWith name "__msan_param_" || startsWith name "__msan_retval_" ||
    startsWith name "__msan_va_arg_" ||
    startsWith name "__msan_check_mem_is_initialized" ||
    startsWith name "__msan_test_shadow" || startsWith name "__msan_print_shadow" ||
    startsWith name "__msan_maybe_warning"

def isMemSanMemoryRegionCheck (name : String) : Bool :=
  startsWith name "__msan_check_mem_is_initialized" ||
    startsWith name "__msan_test_shadow" || startsWith name "__msan_print_shadow"

def isMemSanValueUseCheck (name : String) : Bool :=
  startsWith name "__msan_param_" || startsWith name "__msan_retval_" ||
    startsWith name "__msan_va_arg_" || startsWith name "__msan_maybe_warning"

def isMemSanWarningCheck (name : String) : Bool := startsWith name "__msan_warning"

/-- What follows the first occurrence of a token. -/
def afterToken (token : List Char) : List Char → Option (List Char)
  | [] => if token.isEmpty then some [] else none
  | char :: rest =>
      if token.isPrefixOf (char :: rest) then some ((char :: rest).drop token.length)
      else afterToken token rest

def containsToken (name token : String) : Bool :=
  (afterToken token.toList name.toList).isSome

def parseDecimalAfterToken (name token : String) : Option Nat :=
  match afterToken token.toList name.toList with
  | none => none
  | some tail =>
      match tail.takeWhile Char.isDigit with
      | [] => none
      | digits =>
          some (digits.foldl (fun result digit =>
            (result * 10 + (digit.toNat - '0'.toNat)) % 2 ^ 64) 0)

/-! ## Values -/

namespace ValueGraph

def stripScalarCastsImpl (graph : ValueGraph) : Nat → Value → Value
  | 0, value => value
  | fuel + 1, value =>
      match graph.node value with
      | .instruction (.cast _ source)
      | .constant (.cast _ source) => graph.stripScalarCastsImpl fuel source
      | _ => value

def stripScalarCasts (graph : ValueGraph) (value : Value) : Value :=
  graph.stripScalarCastsImpl traceFuel value

def sameScalarRoot (graph : ValueGraph) (lhs rhs : Value) : Bool :=
  graph.stripScalarCasts lhs == graph.stripScalarCasts rhs

def gepUsesIndex (graph : ValueGraph) (indices : List GEPIndex) (index : Value) : Bool :=
  indices.any fun gepIndex => graph.sameScalarRoot gepIndex.value index

def isTraceThroughInstruction : Op → Bool
  | .getElementPtr .. | .phi _ | .select .. => true
  | .cast .bitCast _ | .cast .addrSpaceCast _ | .cast .ptrToInt _
  | .cast .intToPtr _ => true
  | _ => false

def getMemIntrinsicDest (graph : ValueGraph) (op : Op) : Option Value :=
  match graph.values.intrinsicID op, op.callSite? with
  | .memTransfer, some site | .memSet, some site => site.args[0]?
  | _, _ => none

def getMemIntrinsicSource (graph : ValueGraph) (op : Op) : Option Value :=
  match graph.values.intrinsicID op, op.callSite? with
  | .memTransfer, some site => site.args[1]?
  | _, _ => none

def toUInt64 (int : Int) : Nat := (int % 2 ^ 64).toNat

def constantMemIntrinsicLength (graph : ValueGraph) (op : Op) : Nat :=
  match graph.values.intrinsicID op, op.callSite? with
  | .memTransfer, some site | .memSet, some site =>
      ((site.args[2]?.bind graph.constantInt?).map toUInt64).getD 0
  | _, _ => 0

def getConstantSizeOperand (graph : ValueGraph) (site : CallSite) : Nat :=
  ((site.args[1]?.bind graph.constantInt?).map toUInt64).getD 0

def inferSizeFromValueDefImpl (graph : ValueGraph) (layout : DataLayout) :
    Nat → Value → Nat
  | 0, _ => 0
  | fuel + 1, value =>
      let value := graph.stripScalarCasts value
      let default := (graph.ty value).storeSize layout
      match graph.node value with
      | .instruction (.load ..) => default
      | .instruction (.store stored _) => (graph.ty stored).storeSize layout
      | .instruction (.cmp _ lhs rhs)
      | .instruction (.binary _ lhs rhs) =>
          match graph.inferSizeFromValueDefImpl layout fuel
              (graph.firstNonConstant lhs rhs) with
          | 0 => default
          | size => size
      | .instruction (.phi incoming) =>
          let sizes := (incoming.map fun entry =>
            graph.inferSizeFromValueDefImpl layout fuel entry.1).filter (· ≠ 0)
          match sizes with
          | [] => default
          | commonSize :: rest => if rest.all (· = commonSize) then commonSize else 0
      | .instruction (.select _ ifTrue ifFalse) =>
          let trueSize := graph.inferSizeFromValueDefImpl layout fuel ifTrue
          let falseSize := graph.inferSizeFromValueDefImpl layout fuel ifFalse
          if trueSize ≠ 0 ∧ trueSize = falseSize then trueSize else default
      | _ => default

def inferSizeFromValueDef (graph : ValueGraph) (layout : DataLayout) (value : Value) : Nat :=
  graph.inferSizeFromValueDefImpl layout traceFuel value

/-! ### The access a bounds check guards -/

/-- One unsigned decrement, which wraps below zero. -/
def decrement (budget : Nat) : Nat := if budget = 0 then 2 ^ 32 - 1 else budget - 1

def matchesIndex (graph : ValueGraph) (index : Value) (inst : Inst) : Option Value :=
  match inst.op with
  | .getElementPtr _ indices =>
      if graph.gepUsesIndex indices index then some inst.value else none
  | _ => none

/-- The scan of the instructions after the check in its own block. -/
def scanAfterCheck (graph : ValueGraph) (index : Value) : List Inst → Nat → Option Value × Nat
  | [], budget => (none, budget)
  | inst :: rest, budget =>
      if budget = 0 then (none, budget)
      else
        match graph.matchesIndex index inst with
        | some access => (some access, budget)
        | none => graph.scanAfterCheck index rest (decrement budget)

/-- The scan of a whole successor block: the budget is tested and then
decremented, also by the test that ends the loop. -/
def scanBlock (graph : ValueGraph) (index : Value) : List Inst → Nat → Option Value × Nat
  | [], budget => (none, budget)
  | inst :: rest, budget =>
      if budget = 0 then (none, decrement budget)
      else
        match graph.matchesIndex index inst with
        | some access => (some access, decrement budget)
        | none => graph.scanBlock index rest (decrement budget)

/-- The block search; the worklist is a stack with its top first. -/
def searchBlocks (graph : ValueGraph) (function : Function) (index : Value) :
    Nat → Nat → List BlockId → List BlockId → Option Value
  | 0, _, _, _ => none
  | _ + 1, _, _, [] => none
  | blockBudget + 1, instBudget, seen, block :: worklist =>
      if instBudget = 0 then none
      else if block ∈ seen then
        graph.searchBlocks function index blockBudget instBudget seen worklist
      else
        match function.block? block with
        | none => graph.searchBlocks function index blockBudget instBudget seen worklist
        | some found =>
            match graph.scanBlock index found.instructions instBudget with
            | (some access, _) => some access
            | (none, instBudget) =>
                let seen := block :: seen
                let unseen := found.successors.filter fun successor => successor ∉ seen
                graph.searchBlocks function index blockBudget instBudget seen
                  (unseen.reverse ++ worklist)

end ValueGraph

namespace ValueTable

/-- The walk back from a warning call to the instruction it is about. -/
def implicitOperandBefore (values : ValueTable) : List Inst → Option (Option Value)
  | [] => none
  | candidate :: rest =>
      if values.intrinsicID candidate.op = .debugInfo then
        values.implicitOperandBefore rest
      else if candidate.op.callSite?.isSome then
        if values.isCheck candidate.op ||
            values.isDirectMemSanRuntimeCall candidate.op then
          values.implicitOperandBefore rest
        else some none
      else if candidate.op.isTerminator then values.implicitOperandBefore rest
      else if candidate.op.mayHaveSideEffects &&
          !(match candidate.op with | .load .. => true | _ => false) then
        some none
      else some (some candidate.value)

end ValueTable

/-! ## Walking the uses of a value -/

/-- A check call, the function it is in, and what is known of the values there.
`users` are the use lists, in whatever order they are kept; the users of a global
are in any function, so walks along them see the graph of the module. -/
structure CheckContext where
  graph : ValueGraph
  moduleGraph : ValueGraph
  function : Function
  users : Value → List InstId
  layout : DataLayout
  check : InstId

/-- The state of the use walk. -/
structure UseScan where
  sawRead : Bool := false
  sawWrite : Bool := false
  visited : List Value := []
  next : List Value := []

namespace CheckContext

variable (context : CheckContext)

/-- Whether a pointer normalises like the value whose uses are walked. -/
def sameVariable (pointer current : Value) : Bool :=
  context.graph.normalizeVariable pointer == context.graph.normalizeVariable current

/-- One user of `current`: a user outside the check's function or the check
itself is passed over. -/
def scanUser (current : Value) (scan : UseScan) (user : InstId) : UseScan :=
  if (context.function.inst? user).isNone ∨ user = context.check then scan
  else
    match context.graph.node (.inst user) with
    | .instruction op =>
        match op with
        | .load pointer _ _ =>
            if context.sameVariable pointer current then { scan with sawRead := true }
            else scan
        | .store _ pointer =>
            if context.sameVariable pointer current then { scan with sawWrite := true }
            else scan
        | _ =>
            match context.graph.getMemIntrinsicDest op with
            | some dest =>
                let scan :=
                  if context.sameVariable dest current then { scan with sawWrite := true }
                  else scan
                match context.graph.getMemIntrinsicSource op with
                | some source =>
                    if context.sameVariable source current then
                      { scan with sawRead := true }
                    else scan
                | none => scan
            | none =>
                if ValueGraph.isTraceThroughInstruction op then
                  { scan with next := scan.next ++ [.inst user] }
                else scan
    | _ => scan

def scanValue (scan : UseScan) (current : Value) : UseScan :=
  if current ∈ scan.visited then scan
  else
    (context.users current).foldl (context.scanUser current)
      { scan with visited := current :: scan.visited }

def scanLevels : Nat → UseScan → List Value → UseScan
  | 0, scan, _ => scan
  | _ + 1, scan, [] => scan
  | fuel + 1, scan, worklist =>
      let scanned := worklist.foldl context.scanValue { scan with next := [] }
      scanLevels fuel scanned scanned.next

def inferAccessTypeFromUses (value : Value) : AccessType :=
  let scan := context.scanLevels maxUseTraceDepth {} [value]
  if scan.sawRead && !scan.sawWrite then .READ
  else if scan.sawWrite && !scan.sawRead then .WRITE
  else .UNKNOWN

def sameModuleVariable (pointer current : Value) : Bool :=
  context.moduleGraph.normalizeVariable pointer ==
    context.moduleGraph.normalizeVariable current

/-- The access size of a user, if it accesses the value `current` stands for. -/
def userAccessSize? (current : Value) (user : InstId) : Option Nat :=
  match context.moduleGraph.node (.inst user) with
  | .instruction op =>
      match op with
      | .load pointer _ _ =>
          if context.sameModuleVariable pointer current then
            some ((context.moduleGraph.ty (.inst user)).storeSize context.layout)
          else none
      | .store stored pointer =>
          if context.sameModuleVariable pointer current then
            some ((context.moduleGraph.ty stored).storeSize context.layout)
          else none
      | _ =>
          match context.moduleGraph.getMemIntrinsicDest op with
          | some dest =>
              let length := context.moduleGraph.constantMemIntrinsicLength op
              let accesses := context.sameModuleVariable dest current ||
                ((context.moduleGraph.getMemIntrinsicSource op).map fun source =>
                  context.sameModuleVariable source current).getD false
              if accesses ∧ length ≠ 0 then some length else none
          | none => none
  | _ => none

/-- The users a size walk goes on to: it asks for no function. -/
def traceThroughUsers (current : Value) : List Value :=
  ((context.users current).filter fun user =>
    match context.moduleGraph.node (.inst user) with
    | .instruction op =>
        ValueGraph.isTraceThroughInstruction op &&
          (context.moduleGraph.getMemIntrinsicDest op).isNone
    | _ => false).map Value.inst

/-- One level of the size walk: the first access met ends it. -/
def sizeLevel : List Value → List Value → List Value →
    Option Nat × List Value × List Value
  | [], visited, next => (none, visited, next)
  | current :: rest, visited, next =>
      if current ∈ visited then sizeLevel rest visited next
      else
        match (context.users current).findSome? (context.userAccessSize? current) with
        | some size => (some size, visited, next)
        | none =>
            sizeLevel rest (current :: visited)
              (next ++ context.traceThroughUsers current)

def sizeLevels : Nat → List Value → List Value → Nat
  | 0, _, _ => 0
  | _ + 1, _, [] => 0
  | fuel + 1, visited, worklist =>
      match context.sizeLevel worklist visited [] with
      | (some size, _, _) => size
      | (none, visited, next) => sizeLevels fuel visited next

def inferAccessSizeFromUses (value : Value) : Nat :=
  context.sizeLevels maxUseTraceDepth [] [value]

/-! ## The operand a check is about -/

def instBudget : Nat := 96

def blockBudget : Nat := 8

def findUBSanOutOfBoundsAccessOperand (index : Value) : Option Value :=
  match context.function.parent? context.check with
  | none => none
  | some reportBlock =>
      let after := (reportBlock.instructions.dropWhile fun inst =>
        inst.id ≠ context.check).tail
      match context.graph.scanAfterCheck index after instBudget with
      | (some access, _) => some access
      | (none, budget) =>
          context.graph.searchBlocks context.function index blockBudget budget []
            reportBlock.successors.reverse

def getImplicitMemSanOperand (checkType : String) : Option Value :=
  if isMemSanWarningCheck checkType = false then none
  else
    match context.function.parent? context.check with
    | none => none
    | some block =>
        let before := block.instructions.takeWhile fun inst => inst.id ≠ context.check
        match context.graph.values.implicitOperandBefore before.reverse with
        | some operand => operand
        | none =>
            -- the condition that led here, if one predecessor edge branches on it
            match context.function.predecessors block.id with
            | [predecessor] =>
                match context.function.block? predecessor with
                | none => none
                | some source =>
                    match source.terminator.op with
                    | .condBr condition _ _ => some condition
                    | _ => none
            | _ => none

def getUBSanCheckedOperand (site : CallSite) (checkType : String) : Option Value :=
  if isTypeMismatchCheck checkType ∧ 1 < site.args.length then site.args[1]?
  else if isPointerOverflowCheck checkType then
    let base := site.args[1]?
    let result := site.args[2]?
    if (result.bind context.graph.recoverAddressPointer).isSome then result
    else if (base.bind context.graph.recoverAddressPointer).isSome then base
    else result.or base
  else if isOutOfBoundsCheck checkType ∧ 1 < site.args.length then
    match site.args[1]? with
    | none => none
    | some index => (context.findUBSanOutOfBoundsAccessOperand index).or (some index)
  else site.args[1]?

def getCheckedOperand (site : CallSite) (check : ClassifiedCheck) : Option Value :=
  match check.sanitizer with
  | .ASan => site.args[0]?
  | .UBSan => context.getUBSanCheckedOperand site check.checkType
  | .MemSan =>
      if isMemSanExplicitValueCheck check.checkType ∧ 0 < site.args.length then
        site.args[0]?
      else context.getImplicitMemSanOperand check.checkType
  | .Unknown => none

/-! ## Access type and size -/

def inferUBSanAccessType (operand : Option Value) : AccessType :=
  match operand with
  | none => .UNKNOWN
  | some value =>
      match context.inferAccessTypeFromUses value with
      | .UNKNOWN =>
          match context.graph.recoverAddressPointer value with
          | some pointer => context.inferAccessTypeFromUses pointer
          | none => .UNKNOWN
      | type => type

def inferAccessType (site : CallSite) (check : ClassifiedCheck) : AccessType :=
  match check.sanitizer with
  | .ASan =>
      if isLoadCheckName check.checkType then .READ
      else if isStoreCheckName check.checkType || isMemWriteCheckName check.checkType then
        .WRITE
      else .UNKNOWN
  | .UBSan =>
      if isShiftOutOfBoundsCheck check.checkType then .UNKNOWN
      else context.inferUBSanAccessType (context.getCheckedOperand site check)
  | .MemSan =>
      if isMemSanMemoryRegionCheck check.checkType ||
          isMemSanValueUseCheck check.checkType then .READ
      else
        match context.getCheckedOperand site check with
        | none => .UNKNOWN
        | some value =>
            if isMemSanWarningCheck check.checkType then .READ
            else context.inferAccessTypeFromUses value
  | .Unknown => .UNKNOWN

def inferASanAccessSize (site : CallSite) (checkType : String) : Nat :=
  match parseDecimalAfterToken checkType "load" with
  | some size => size
  | none =>
      match parseDecimalAfterToken checkType "store" with
      | some size => size
      | none =>
          if containsToken checkType "loadN" || containsToken checkType "storeN" ||
              containsToken checkType "load_n" || containsToken checkType "store_n" then
            context.graph.getConstantSizeOperand site
          else 0

def inferMemSanAccessSize (site : CallSite) (checkType : String)
    (checkedValue : Option Value) : Nat :=
  if isMemSanMemoryRegionCheck checkType then context.graph.getConstantSizeOperand site
  else
    match checkedValue with
    | none => 0
    | some value =>
        match context.graph.inferSizeFromValueDef context.layout value with
        | 0 => context.inferAccessSizeFromUses value
        | size => size

/-- A size, or the size found from the recovered address if that one is 0. -/
def sizeOrFromAddress (size : Nat) (address : Option Value) : Nat :=
  match size, address with
  | 0, some address => context.inferAccessSizeFromUses address
  | size, _ => size

def traceOperand (sanitizer : SanitizerKind) (checkedValue : Value) : CheckedVariable :=
  if sanitizer = .ASan then
    { context.graph.traceASanCheckedAddress (some context.layout) checkedValue with
      address := context.graph.recoverAddressPointer checkedValue }
  else
    let result := context.graph.traceCheckedValue (some context.layout) checkedValue
    let recovered := result.address.or (context.graph.recoverAddressPointer checkedValue)
    { result with
      address := recovered.or
        (if (context.graph.ty checkedValue).isPointer then
          some (context.graph.stripPointerCasts checkedValue)
        else none) }

def analyzeCall (site : CallSite) (check : ClassifiedCheck) : CheckedVariable :=
  let checkedValue := context.getCheckedOperand site check
  let traced := (checkedValue.map (context.traceOperand check.sanitizer)).getD {}
  let accessSize :=
    match check.sanitizer with
    | .ASan => context.inferASanAccessSize site check.checkType
    | .UBSan =>
        context.sizeOrFromAddress
          ((checkedValue.map context.inferAccessSizeFromUses).getD 0) traced.address
    | .MemSan =>
        context.sizeOrFromAddress
          (context.inferMemSanAccessSize site check.checkType checkedValue) traced.address
    | .Unknown => 0
  { traced with
    type := context.inferAccessType site check
    sanitizer := check.sanitizer
    accessSize := accessSize
    checkInst := some context.check }

end CheckContext

namespace Module

def checkContext (module : Module) (function : Function) (check : InstId) : CheckContext where
  graph := module.functionGraph function
  moduleGraph := module.graph
  function := function
  users := module.users
  layout := module.dataLayout
  check := check

def analyzeCheck (module : Module) (function : Function) (inst : Inst) :
    Option CheckedVariable :=
  match inst.op.callSite?, module.values.classifyCheck inst.op with
  | some site, some check =>
      some ((module.checkContext function inst.id).analyzeCall site check)
  | _, _ => none

end Module

end Desan
