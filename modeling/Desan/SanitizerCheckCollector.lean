import Mathlib.Data.List.Sort
import Mathlib.Data.Rat.Defs
import Mathlib.Algebra.Order.Ring.Rat
import Desan.IR.Function

/-! # Recognising and counting sanitizer checks -/

namespace Desan

/-! ## Strings, as `StringRef` treats them -/

def startsWith (name start : String) : Bool := start.toList.isPrefixOf name.toList

def dropFront (name : String) (count : Nat) : String :=
  String.ofList (name.toList.drop count)

/-- `consume_front`: drop the given start of the name if it is there. -/
def consumeFront (name start : String) : String :=
  if startsWith name start then dropFront name start.toList.length else name

/-- The characters `StringRef::trim` strips from both ends. -/
def trimmedChars : List Char := [' ', '\t', '\n', '\x0b', '\x0c', '\r']

def trim (name : String) : String :=
  let front := name.toList.dropWhile fun char => char ∈ trimmedChars
  String.ofList (front.reverse.dropWhile fun char => char ∈ trimmedChars).reverse

/-- `operator<` of strings, by code points. -/
def nameLess (left right : String) : Bool := decide (left.toList < right.toList)

/-! ## Recognised names -/

inductive SanitizerKind where
  | ASan | UBSan | MemSan | Unknown
deriving DecidableEq, Repr

def sanitizerKindName : SanitizerKind → String
  | .ASan => "ASan"
  | .UBSan => "UBSan"
  | .MemSan => "MemSan"
  | .Unknown => "Unknown"

/-- Undo the Mach-O spelling of a runtime name: a leading `\01`, and an extra
underscore before the sanitizer prefixes. -/
def canonicalCalleeName (name : String) : String :=
  let name := consumeFront (trim name) "\x01"
  if startsWith name "___asan_" || startsWith name "___ubsan_" ||
      startsWith name "___msan_" then
    dropFront name 1
  else
    name

def isASanCheckName (name : String) : Bool :=
  startsWith name "__asan_report_load" || startsWith name "__asan_report_store" ||
    startsWith name "__asan_report_exp_load" ||
    startsWith name "__asan_report_exp_store" ||
    startsWith name "__asan_report_error" || startsWith name "__asan_load" ||
    startsWith name "__asan_store" || startsWith name "__asan_exp_load" ||
    startsWith name "__asan_exp_store" || startsWith name "__asan_memcpy" ||
    startsWith name "__asan_memmove" || startsWith name "__asan_memset" ||
    name == "__asan_handle_no_return"

def isUBSanCheckName (name : String) : Bool :=
  startsWith name "__ubsan_handle_" || name == "llvm.ubsantrap"

def isMemSanCheckName (name : String) : Bool :=
  startsWith name "__msan_warning" || startsWith name "__msan_maybe_warning" ||
    startsWith name "__msan_param_" || startsWith name "__msan_retval_" ||
    startsWith name "__msan_va_arg_" ||
    startsWith name "__msan_check_mem_is_initialized" ||
    startsWith name "__msan_test_shadow" || startsWith name "__msan_print_shadow"

def classifySanitizerName (name : String) : SanitizerKind :=
  if isASanCheckName name then .ASan
  else if isUBSanCheckName name then .UBSan
  else if isMemSanCheckName name then .MemSan
  else .Unknown

/-! ## Classifying a call -/

structure ClassifiedCheck where
  sanitizer : SanitizerKind
  checkType : String
deriving DecidableEq, Repr

namespace ValueTable

/-- The node of a value, as far as the table of non-instructions tells. -/
def otherNode? (values : ValueTable) : Value → Option OtherNode
  | .other id => some (values.value id).node
  | _ => none

def isZeroIndex (values : ValueTable) (index : GEPIndex) : Bool :=
  values.otherNode? index.value == some (.constant (.int 0))

/-- The function behind a value and its intrinsic number. -/
def function? (values : ValueTable) (value : Value) : Option (String × IntrinsicID) :=
  match values.otherNode? value with
  | some (.constant (.function name intrinsic)) => some (name, intrinsic)
  | _ => none

/-- `getCalledFunction`: the callee if it is a function of the call's own type. -/
def calledFunction? (values : ValueTable) (site : CallSite) : Option (String × IntrinsicID) :=
  if site.exactType then values.function? site.calledOperand else none

/-- `stripPointerCasts` on a called operand. An instruction in that place stays
what it is: the callee is then not known. -/
def stripCallee (values : ValueTable) : Nat → Value → Value
  | 0, value => value
  | fuel + 1, value =>
      match values.otherNode? value with
      | some (.constant (.cast .bitCast source)) => values.stripCallee fuel source
      | some (.constant (.cast .addrSpaceCast source)) => values.stripCallee fuel source
      | some (.constant (.getElementPtr pointer indices)) =>
          if indices.all values.isZeroIndex then values.stripCallee fuel pointer else value
      | _ => value

def resolveCalledFunction (values : ValueTable) (site : CallSite) : Option String :=
  match values.calledFunction? site with
  | some (name, _) => some name
  | none =>
      let called := values.stripCallee values.count site.calledOperand
      match values.otherNode? called with
      | some (.constant (.function name _)) => some name
      | some (.constant (.globalAlias (some aliasee))) =>
          (values.function? aliasee).map Prod.fst
      | _ => none

def classifyCall (values : ValueTable) (site : CallSite) : Option ClassifiedCheck :=
  match values.resolveCalledFunction site with
  | none => none
  | some calleeName =>
      if calleeName.isEmpty then none
      else
        let name := canonicalCalleeName calleeName
        match classifySanitizerName name with
        | .Unknown => none
        | sanitizer => some ⟨sanitizer, name⟩

/-- `classifyCheck` on an instruction: only a `CallBase` can be a check. -/
def classifyCheck (values : ValueTable) (op : Op) : Option ClassifiedCheck :=
  op.callSite?.bind values.classifyCall

def isCheck (values : ValueTable) (op : Op) : Bool := (values.classifyCheck op).isSome

/-- The intrinsic an `IntrinsicInst` calls. -/
def intrinsicID (values : ValueTable) (op : Op) : IntrinsicID :=
  match op.callSite?.bind values.calledFunction? with
  | some (_, intrinsic) => intrinsic
  | none => .notIntrinsic

def isDirectMemSanRuntimeCall (values : ValueTable) (op : Op) : Bool :=
  match op.callSite?.bind values.calledFunction? with
  | none => false
  | some (calleeName, _) =>
      if calleeName.isEmpty then false
      else
        let name := consumeFront calleeName "\x01"
        let name := if startsWith name "___msan_" then dropFront name 1 else name
        startsWith name "__msan_"

end ValueTable

/-! ## Counting -/

structure CheckStat where
  sanitizer : SanitizerKind
  checkType : String
  count : Nat
  ratioWithinSanitizer : ℚ
  ratioOverall : ℚ
  /-- Negative when no profile names the check type. -/
  runtimeRatio : ℚ
deriving DecidableEq

/-- `CheckCountMap`, in any order of its keys. -/
abbrev CheckCountMap := List (String × Nat)

/-- `++Map[CheckType]`. -/
def CheckCountMap.increment (checkType : String) : CheckCountMap → CheckCountMap
  | [] => [(checkType, 1)]
  | (name, count) :: rest =>
      if name = checkType then (name, count + 1) :: rest
      else (name, count) :: CheckCountMap.increment checkType rest

structure SanitizerCheckCollector where
  checkCounts : SanitizerKind → CheckCountMap := fun _ => []
  sanitizerTotals : SanitizerKind → Nat := fun _ => 0
  /-- Profiled cost of a check type, if the profile names it. -/
  runtimeCosts : SanitizerKind → String → Option ℚ := fun _ _ => none
  totalRuntimeCost : ℚ := 0
  totalChecks : Nat := 0

namespace SanitizerCheckCollector

def recordCheck (collector : SanitizerCheckCollector) (check : ClassifiedCheck) :
    SanitizerCheckCollector :=
  if check.sanitizer = .Unknown ∨ check.checkType.isEmpty then collector
  else
    { collector with
      checkCounts := Function.update collector.checkCounts check.sanitizer
        ((collector.checkCounts check.sanitizer).increment check.checkType)
      sanitizerTotals := Function.update collector.sanitizerTotals check.sanitizer
        (collector.sanitizerTotals check.sanitizer + 1)
      totalChecks := collector.totalChecks + 1 }

def collectChecks (collector : SanitizerCheckCollector) (values : ValueTable)
    (function : Function) : SanitizerCheckCollector :=
  (function.instructions.filterMap fun inst => values.classifyCheck inst.op).foldl
    recordCheck collector

/-- What the pass does before it selects core checks: collect over every
function that has a body. -/
def collectModule (collector : SanitizerCheckCollector) (module : Module) :
    SanitizerCheckCollector :=
  (module.functions.filter fun function => !function.isDeclaration).foldl
    (fun collector function => collector.collectChecks module.values function) collector

def makeStat (collector : SanitizerCheckCollector) (sanitizer : SanitizerKind)
    (entry : String × Nat) : CheckStat where
  sanitizer := sanitizer
  checkType := entry.1
  count := entry.2
  ratioWithinSanitizer :=
    if collector.sanitizerTotals sanitizer = 0 then 0
    else 100 * entry.2 / collector.sanitizerTotals sanitizer
  ratioOverall :=
    if collector.totalChecks = 0 then 0 else 100 * entry.2 / collector.totalChecks
  runtimeRatio :=
    match collector.runtimeCosts sanitizer entry.1 with
    | some cost =>
        if 0 < collector.totalRuntimeCost then 100 * cost / collector.totalRuntimeCost
        else -1
    | none => -1

/-- Sorted by count, largest first, and by name among equal counts. -/
def statLess (left right : CheckStat) : Bool :=
  if left.count ≠ right.count then right.count < left.count
  else nameLess left.checkType right.checkType

def getStatsForSanitizer (collector : SanitizerCheckCollector)
    (sanitizer : SanitizerKind) : List CheckStat :=
  ((collector.checkCounts sanitizer).map (collector.makeStat sanitizer)).insertionSort
    fun left right => statLess right left = false

/-- One turn of the selection loop; `selected` holds what was added so far. -/
def selectStat (maxPerSanitizer : Nat) (minRatio : ℚ) (selected : List CheckStat)
    (stat : CheckStat) : List CheckStat :=
  if maxPerSanitizer ≠ 0 ∧ maxPerSanitizer ≤ selected.length then selected
  else if stat.ratioWithinSanitizer < minRatio ∧ 0 < selected.length then selected
  else selected ++ [stat]

def coreLess (left right : CheckStat) : Bool :=
  if left.count ≠ right.count then right.count < left.count
  else if left.sanitizer ≠ right.sanitizer then
    nameLess (sanitizerKindName left.sanitizer) (sanitizerKindName right.sanitizer)
  else nameLess left.checkType right.checkType

def identifyCoreChecks (collector : SanitizerCheckCollector) (maxPerSanitizer : Nat)
    (minRatio : ℚ) : List CheckStat :=
  ([SanitizerKind.ASan, .UBSan, .MemSan].flatMap fun sanitizer =>
    (collector.getStatsForSanitizer sanitizer).foldl
      (selectStat maxPerSanitizer minRatio) []).insertionSort
    fun left right => coreLess right left = false

end SanitizerCheckCollector

end Desan
