import Desan.Foundation.Pattern
import Desan.CheckedVariableAnalyzer.Tracing

/-! # The summary of disabled UBSan checks

`sanrazor_removed_access_summary.py` reads the text of a module line by line and counts
the handler paths that a constant branch disables. -/

namespace Desan

/-- What Unicode says of the characters beyond ASCII. -/
structure UnicodeTables where
  isWord : Char → Bool
  isSpace : Char → Bool
  digit? : Char → Option Nat

namespace SanrazorRemovedAccess

variable (tables : UnicodeTables)

/-! ## Patterns -/

def isWord (char : Char) : Bool :=
  if char.toNat < 128 then char.isAlphanum || char == '_' else tables.isWord char

def isSpace (char : Char) : Bool :=
  if char.toNat < 128 then
    char ∈ [' ', '\t', '\n', '\x0b', '\x0c', '\r', '\x1c', '\x1d', '\x1e', '\x1f']
  else tables.isSpace char

def digit? (char : Char) : Option Nat :=
  if char.toNat < 128 then
    if char.isDigit then some (char.toNat - '0'.toNat) else none
  else tables.digit? char

def isDigit (char : Char) : Bool := (digit? tables char).isSome

/-- What `int` reads. -/
def readInt (digits : String) : Nat :=
  digits.toList.foldl (fun number char => number * 10 + ((digit? tables char).getD 0)) 0

def splitLinesFrom : List Char → List Char → List String
  | [], [] => []
  | current, [] => [String.ofList current.reverse]
  | current, '\r' :: '\n' :: rest => String.ofList current.reverse :: splitLinesFrom [] rest
  | current, char :: rest =>
      if char ∈ ['\n', '\r', '\x0b', '\x0c', '\x1c', '\x1d', '\x1e', '\u0085', '\u2028',
          '\u2029'] then
        String.ofList current.reverse :: splitLinesFrom [] rest
      else splitLinesFrom (char :: current) rest

/-- `splitlines`. -/
def splitLines (text : String) : List String := splitLinesFrom [] text.toList

open Pattern in
/-- `[A-Za-z$._-][\w$._-]*|\d+` -/
def labelRe : Pattern :=
  .either
    (.seq (.char fun char => char.isAlpha || char ∈ ['$', '.', '_', '-'])
      (.many fun char => isWord tables char || char ∈ ['$', '.', '_', '-']))
    (atLeastOne (isDigit tables))

open Pattern in
/-- `@(__ubsan_handle_[A-Za-z0-9_]+)` -/
def ubsanCallRe : Pattern :=
  sequence
    [text "@",
     .group 1 (sequence
      [text "__ubsan_handle_", atLeastOne fun char => char.isAlphanum || char == '_'])]

open Pattern in
/-- `^([A-Za-z$._-][\w$._-]*|\d+):\s*(?:;.*)?$` -/
def blockRe : Pattern :=
  sequence
    [.start, .group 1 (labelRe tables), text ":", .many (isSpace tables),
     optional (sequence [text ";", .many (· != '\n')]), .stop]

open Pattern in
/-- `\bbr\s+i1\s+(true|false),\s+label\s+%(label),\s+label\s+%(label)` -/
def constBranchRe : Pattern :=
  sequence
    [.wordBoundary (isWord tables), text "br", atLeastOne (isSpace tables), text "i1",
     atLeastOne (isSpace tables), .group 1 (.either (text "true") (text "false")), text ",",
     atLeastOne (isSpace tables), text "label", atLeastOne (isSpace tables), text "%",
     .group 2 (labelRe tables), text ",", atLeastOne (isSpace tables), text "label",
     atLeastOne (isSpace tables), text "%", .group 3 (labelRe tables)]

open Pattern in
/-- `^(@[^\s=]+)\s*=` -/
def globalNameRe : Pattern :=
  sequence
    [.start,
     .group 1 (sequence
      [text "@", atLeastOne fun char => !isSpace tables char && char != '=']),
     .many (isSpace tables), text "="]

open Pattern in
/-- `\bi8\s+(\d+)\b` -/
def i8ValueRe : Pattern :=
  sequence
    [.wordBoundary (isWord tables), text "i8", atLeastOne (isSpace tables),
     .group 1 (atLeastOne (isDigit tables)), .wordBoundary (isWord tables)]

open Pattern in
/-- `@__ubsan_handle_type_mismatch_v1\(.*?\*\s+(@[A-Za-z0-9_$.\-]+)\s+to\s+i8\*` -/
def typeMismatchCallDataRe : Pattern :=
  sequence
    [text "@__ubsan_handle_type_mismatch_v1(", .fewest (· != '\n'), text "*",
     atLeastOne (isSpace tables),
     .group 1 (sequence
      [text "@", atLeastOne fun char => char.isAlphanum || char ∈ ['_', '$', '.', '-']]),
     atLeastOne (isSpace tables), text "to", atLeastOne (isSpace tables), text "i8*"]

/-! ## Blocks -/

def blockLabel? (line : String) : Option String :=
  ((blockRe tables).matchStart line).bind fun found => found.group? 1

/-- The loop of `parse_blocks`: one dictionary and one order for the whole text. -/
structure ParsedBlocks where
  blocks : String → Option (List String) := fun _ => none
  order : List String := []
  current : Option String := none

def parseLine (state : ParsedBlocks) (line : String) : ParsedBlocks :=
  match blockLabel? tables line with
  | some label =>
      { blocks := Function.update state.blocks label (some [])
        order := state.order ++ [label]
        current := some label }
  | none =>
      match state.current with
      | none => state
      | some label =>
          { state with
            blocks := Function.update state.blocks label
              ((state.blocks label).map fun lines => lines ++ [line]) }

def parseBlocks (lines : List String) : ParsedBlocks := lines.foldl (parseLine tables) {}

/-! ## Kinds -/

/-- The last `i8` in the data of a type mismatch is its `TypeCheckKind`. -/
def typeMismatchKind? (line : String) : Option (String × Nat) :=
  if occursIn "i8, i8" line = false then none
  else
    match ((globalNameRe tables).search line).bind fun found => found.group? 1 with
    | none => none
    | some name =>
        let values := ((i8ValueRe tables).findAll line).filterMap fun found => found.group? 1
        if values.length < 2 then none
        else values.getLast?.map fun value => (name, readInt tables value)

def parseTypeMismatchKinds (lines : List String) : String → Option Nat :=
  lines.foldl (fun kinds line =>
    match typeMismatchKind? tables line with
    | some (name, kind) => Function.update kinds name (some kind)
    | none => kinds) fun _ => none

/-- The class of a handler call and its callee, which is empty if there is none. -/
def classifyHandler (callLine : String) (typeKinds : String → Option Nat) :
    AccessType × String :=
  match (ubsanCallRe.search callLine).bind fun found => found.group? 1 with
  | none => (.UNKNOWN, "")
  | some callee =>
      if callee = "__ubsan_handle_type_mismatch_v1" then
        let data := ((typeMismatchCallDataRe tables).search callLine).bind fun found =>
          found.group? 1
        match data.bind typeKinds with
        | some 0 => (.READ, callee)
        | some 1 => (.WRITE, callee)
        | _ => (.UNKNOWN, callee)
      else (.UNKNOWN, callee)

def firstUbsanCall (blockLines : List String) : Option String :=
  blockLines.find? fun line => (ubsanCallRe.search line).isSome

/-! ## Disabled checks -/

structure DisabledCheck where
  disabledBlock : String
  kind : AccessType
  callee : String
deriving DecidableEq, Repr

/-- The handler path that a tagged branch on a constant disables, if the successor it
does not take is one. -/
def disabledCheck? (typeKinds : String → Option Nat)
    (blocks : String → Option (List String)) (line : String) : Option DisabledCheck := do
  let branch ← (constBranchRe tables).search line
  let const ← branch.group? 1
  let trueSucc ← branch.group? 2
  let falseSucc ← branch.group? 3
  if occursIn "!sanitycheck" line = false then none
  else
    let disabledSucc := if const = "true" then falseSucc else trueSucc
    let disabledBlock ← blocks disabledSucc
    let callLine ← firstUbsanCall disabledBlock
    let (kind, callee) := classifyHandler tables callLine typeKinds
    some ⟨disabledSucc, kind, callee⟩

structure Example where
  block : String
  disabledBlock : String
  kind : AccessType
  callee : String
deriving DecidableEq, Repr

/-- The counters of `classify_file`. -/
structure Counts where
  counts : AccessType → Nat := fun _ => 0
  callees : CheckCountMap := []
  examples : List Example := []

def Counts.add (state : Counts) (label : String) (found : DisabledCheck) : Counts where
  counts := Function.update state.counts found.kind (state.counts found.kind + 1)
  callees :=
    if found.callee.isEmpty then state.callees
    else CheckCountMap.increment found.callee state.callees
  examples :=
    if state.examples.length < 5 then
      state.examples ++ [⟨label, found.disabledBlock, found.kind, found.callee⟩]
    else state.examples

structure FileSummary where
  level : String
  benchmark : String
  file : String
  total : Nat
  read : Nat
  write : Nat
  unknown : Nat
  callees : CheckCountMap
  examples : List Example

/-- The part of the path behind `CPU2006`. -/
def benchmarkFromPath (parts : List String) : String :=
  match parts.dropWhile (· ≠ "CPU2006") with
  | _ :: benchmark :: _ => benchmark
  | _ => "unknown"

def countFile (lines : List String) : Counts :=
  let parsed := parseBlocks tables lines
  let typeKinds := parseTypeMismatchKinds tables lines
  parsed.order.foldl (fun state label =>
    ((parsed.blocks label).getD []).foldl (fun state line =>
      match disabledCheck? tables typeKinds parsed.blocks line with
      | some found => state.add label found
      | none => state) state) {}

/-- `classify_file` on the text that `llvm-dis` prints; `parts` is the path of the file
below the root. -/
def classifyFile (ir : String) (file : String) (parts : List String) (level : String) :
    FileSummary :=
  let state := countFile tables (splitLines ir)
  { level := level
    benchmark := benchmarkFromPath parts
    file := file
    total := state.counts .READ + state.counts .WRITE + state.counts .UNKNOWN
    read := state.counts .READ
    write := state.counts .WRITE
    unknown := state.counts .UNKNOWN
    callees := state.callees
    examples := state.examples }

end SanrazorRemovedAccess

end Desan
