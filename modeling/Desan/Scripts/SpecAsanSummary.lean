import Mathlib.Algebra.GroupWithZero.Nat
import Desan.Scripts.TextFile
import Desan.SanitizerCheckCollector.CoreChecks

/-! # The log of the pass

`parse_pass_log` of `spec_asan_summary.py` reads what the pass prints: the statistics of
the collector, the core checks and the number of removed checks. -/

namespace Desan

/-! ## The writer -/

namespace SanitizerCheckCollector

section Writer

-- `percent` is what `format` makes of a ratio.
variable (percent : ℚ → String)

def statText (stat : CheckStat) : String :=
  "Check Type: " ++ stat.checkType ++ "\n" ++
    "Count: " ++ toString stat.count ++ "\n" ++
    "Ratio: " ++ percent stat.ratioWithinSanitizer ++ "\n" ++
    "Overall Ratio: " ++ percent stat.ratioOverall ++ "\n" ++
    (if 0 ≤ stat.runtimeRatio then "Runtime Ratio: " ++ percent stat.runtimeRatio ++ "\n"
      else "") ++
    "\n"

def sanitizerText (collector : SanitizerCheckCollector) (sanitizer : SanitizerKind) : String :=
  let stats := collector.getStatsForSanitizer sanitizer
  "Sanitizer: " ++ sanitizerKindName sanitizer ++ "\n" ++
    "Total Checks: " ++ toString (collector.sanitizerTotals sanitizer) ++ "\n" ++
    if stats.isEmpty then "\n" else String.join (stats.map (statText percent))

def dumpCheckStatistics (collector : SanitizerCheckCollector) : String :=
  "DESAN Sanitizer Check Statistics\n" ++
    "Total Checks: " ++ toString collector.totalChecks ++ "\n\n" ++
    String.join ([SanitizerKind.ASan, .UBSan, .MemSan].map (collector.sanitizerText percent)) ++
    "End Sanitizer Check Statistics\n"

def coreCheckText (stat : CheckStat) : String :=
  sanitizerKindName stat.sanitizer ++ " " ++ stat.checkType ++
    " count=" ++ toString stat.count ++
    " ratio=" ++ percent stat.ratioWithinSanitizer ++
    (if 0 ≤ stat.runtimeRatio then " runtime=" ++ percent stat.runtimeRatio else "") ++
    "\n"

/-- What the pass prints of the core checks it has selected. -/
def coreCheckSummary (coreChecks : List CheckStat) : String :=
  "DESAN Core Check Summary\n" ++ String.join (coreChecks.map (coreCheckText percent))

/-- The log of a run of the pass without further dumps. -/
def passLog (collector : SanitizerCheckCollector) (maxPerSanitizer : Nat) (minRatio : ℚ)
    (removed : Nat) : String :=
  collector.dumpCheckStatistics percent ++
    coreCheckSummary percent (collector.identifyCoreChecks maxPerSanitizer minRatio) ++
    "DESAN Removed Redundant Checks: " ++ toString removed ++ "\n"

end Writer

end SanitizerCheckCollector

/-! ## The reader -/

namespace SpecAsanSummary

structure PassLog where
  total : Int := 0
  core : Int := 0
  removed : Int := 0
  currentType : Option String := none
  sawTotal : Bool := false

variable (tables : UnicodeTables) (corePrefixes : List String)

def parseRemoved (line : String) (state : PassLog) : Option PassLog :=
  if startsWith line "DESAN Removed Redundant Checks:" ||
      startsWith line "DESAN Removed Redundant READ Checks:" then
    (afterLast ' ' line).map fun number =>
      { state with removed := (readInt? tables number).getD 0 }
  else some state

/-- One turn of the loop; nothing where the script raises `IndexError`. -/
def parseLine (state : PassLog) (line : String) : Option PassLog :=
  let line := strip tables line
  if startsWith line "Total Checks:" && !state.sawTotal then
    (afterLast ' ' line).map fun number =>
      { state with total := (readInt? tables number).getD 0, sawTotal := true }
  else if startsWith line "Check Type:" then
    some { state with currentType := some (strip tables (afterFirst ':' line)) }
  else
    match state.currentType.filter fun currentType => !currentType.isEmpty with
    | none => parseRemoved tables line state
    | some currentType =>
        if startsWith line "Count:" then
          (afterLast ' ' line).map fun number =>
            let count := (readInt? tables number).getD 0
            { state with
              core :=
                if corePrefixes.any (startsWith currentType) then state.core + count
                else state.core
              currentType := none }
        else parseRemoved tables line state

/-- The totals of a log; nothing is read from a file that is not there. -/
def parsePassLog (log : Option String) : Option (Int × Int × Int) :=
  match log with
  | none => some (0, 0, 0)
  | some text =>
      ((fileLines text).foldlM (parseLine tables corePrefixes) {}).map fun state =>
        (state.total, state.core, state.removed)

/-! ## The lines of the log -/

section Lines

variable (percent : ℚ → String) (collector : SanitizerCheckCollector)

def statLines (stat : CheckStat) : List String :=
  ["Check Type: " ++ stat.checkType, "Count: " ++ toString stat.count,
    "Ratio: " ++ percent stat.ratioWithinSanitizer,
    "Overall Ratio: " ++ percent stat.ratioOverall] ++
    ((if 0 ≤ stat.runtimeRatio then ["Runtime Ratio: " ++ percent stat.runtimeRatio] else []) ++
      [""])

def sanitizerLines (sanitizer : SanitizerKind) : List String :=
  ["Sanitizer: " ++ sanitizerKindName sanitizer,
    "Total Checks: " ++ toString (collector.sanitizerTotals sanitizer)] ++
    if (collector.getStatsForSanitizer sanitizer).isEmpty then [""]
    else (collector.getStatsForSanitizer sanitizer).flatMap (statLines percent)

def coreCheckLine (stat : CheckStat) : String :=
  sanitizerKindName stat.sanitizer ++ " " ++ stat.checkType ++
    " count=" ++ toString stat.count ++
    " ratio=" ++ percent stat.ratioWithinSanitizer ++
    if 0 ≤ stat.runtimeRatio then " runtime=" ++ percent stat.runtimeRatio else ""

/-- The lines behind the total. -/
def bodyLines (coreChecks : List CheckStat) : List String :=
  [""] ++ ([SanitizerKind.ASan, .UBSan, .MemSan].flatMap (sanitizerLines percent collector) ++
    (["End Sanitizer Check Statistics", "DESAN Core Check Summary"] ++
      coreChecks.map (coreCheckLine percent)))

theorem unlines_cons (line : String) (rest : List String) :
    unlines (line :: rest) = line ++ ("\n" ++ unlines rest) := by
  rw [unlines, unlines, List.map_cons, String.join_cons, String.append_assoc]

theorem unlines_nil : unlines [] = "" := by
  rw [unlines, List.map_nil, String.join_nil]

theorem unlines_flatMap {α : Type*} (lines : α → List String) (entries : List α) :
    unlines (entries.flatMap lines) =
      String.join (entries.map fun entry => unlines (lines entry)) := by
  induction entries with
  | nil => rfl
  | cons head tail induction =>
      rw [List.flatMap_cons, unlines_append, induction, List.map_cons, String.join_cons]

theorem unlines_map {α : Type*} (line : α → String) (entries : List α) :
    unlines (entries.map line) =
      String.join (entries.map fun entry => line entry ++ "\n") := by
  rw [unlines, List.map_map]
  rfl

theorem statText_eq (stat : CheckStat) :
    SanitizerCheckCollector.statText percent stat = unlines (statLines percent stat) := by
  delta SanitizerCheckCollector.statText
  rw [statLines]
  split <;>
    simp only [List.cons_append, List.nil_append, unlines_cons, unlines_nil, String.append_assoc,
      String.append_empty, String.empty_append]

theorem sanitizerText_eq (sanitizer : SanitizerKind) :
    collector.sanitizerText percent sanitizer =
      unlines (sanitizerLines percent collector sanitizer) := by
  have stats : SanitizerCheckCollector.statText percent =
      fun stat => unlines (statLines percent stat) := by
    funext stat
    exact statText_eq percent stat
  delta SanitizerCheckCollector.sanitizerText sanitizerLines
  simp only [stats]
  split <;>
    simp only [List.cons_append, List.nil_append, unlines_cons, unlines_nil, unlines_flatMap,
      String.append_assoc, String.append_empty, String.empty_append]

theorem append_lineBreak {text line : String} (ends : text.toList = line.toList ++ ['\n']) :
    text = line ++ "\n" := by
  apply String.toList_inj.mp
  rw [String.toList_append]
  exact ends

theorem coreCheckText_eq (stat : CheckStat) :
    SanitizerCheckCollector.coreCheckText percent stat = coreCheckLine percent stat ++ "\n" := by
  rw [SanitizerCheckCollector.coreCheckText, coreCheckLine]

theorem passLog_eq (maxPerSanitizer : Nat) (minRatio : ℚ) (removed : Nat) :
    collector.passLog percent maxPerSanitizer minRatio removed =
      unlines (["DESAN Sanitizer Check Statistics",
        "Total Checks: " ++ toString collector.totalChecks] ++
        (bodyLines percent collector (collector.identifyCoreChecks maxPerSanitizer minRatio) ++
          ["DESAN Removed Redundant Checks: " ++ toString removed])) := by
  have sanitizers : collector.sanitizerText percent =
      fun sanitizer => unlines (sanitizerLines percent collector sanitizer) := by
    funext sanitizer
    exact sanitizerText_eq percent collector sanitizer
  have cores : SanitizerCheckCollector.coreCheckText percent =
      fun stat => coreCheckLine percent stat ++ "\n" := by
    funext stat
    exact coreCheckText_eq percent stat
  have header : "DESAN Sanitizer Check Statistics\n" =
      "DESAN Sanitizer Check Statistics" ++ "\n" := append_lineBreak rfl
  have blank : "\n\n" = "\n" ++ "\n" := append_lineBreak rfl
  have footer : "End Sanitizer Check Statistics\n" =
      "End Sanitizer Check Statistics" ++ "\n" := append_lineBreak rfl
  have summary : "DESAN Core Check Summary\n" = "DESAN Core Check Summary" ++ "\n" :=
    append_lineBreak rfl
  delta SanitizerCheckCollector.passLog SanitizerCheckCollector.dumpCheckStatistics
    SanitizerCheckCollector.coreCheckSummary
  rw [sanitizers, cores, bodyLines, header, blank, footer, summary]
  simp only [List.cons_append, List.nil_append, List.append_assoc, unlines_cons, unlines_append,
    unlines_nil, unlines_flatMap, unlines_map, String.append_assoc, String.append_empty,
    String.empty_append]

end Lines

/-! ## What one line does -/

section Turn

open SanrazorRemovedAccess (isSpace)

variable {tables : UnicodeTables} {corePrefixes : List String} {state : PassLog} {line : String}

theorem startsWith_append (start rest : String) : startsWith (start ++ rest) start = true := by
  rw [startsWith, List.isPrefixOf_iff_prefix, String.toList_append]
  exact List.prefix_append _ _

theorem startsWith_eq_false {start : String} {first other : Char}
    (starts : line.toList.head? = some first) (looked : start.toList.head? = some other)
    (different : first ≠ other) : startsWith line start = false := by
  rw [startsWith, ← Bool.not_eq_true, List.isPrefixOf_iff_prefix]
  intro isPrefix
  cases letters : start.toList with
  | nil =>
      rw [letters] at looked
      cases looked
  | cons head tail =>
      cases whole : line.toList with
      | nil =>
          rw [whole] at starts
          cases starts
      | cons begin rest =>
          rw [letters] at looked isPrefix
          rw [whole] at starts isPrefix
          apply different
          rw [← Option.some.inj starts, ← Option.some.inj looked]
          exact (List.cons_prefix_cons.mp isPrefix).1.symm

theorem parseRemoved_other (redundant : startsWith line "DESAN Removed Redundant Checks:" = false)
    (read : startsWith line "DESAN Removed Redundant READ Checks:" = false) :
    parseRemoved tables line state = some state := by
  rw [parseRemoved, redundant, read]
  rfl

/-- A line that starts with no key changes nothing. -/
theorem parseLine_other
    (total : (startsWith (strip tables line) "Total Checks:" && !state.sawTotal) = false)
    (type : startsWith (strip tables line) "Check Type:" = false)
    (count : startsWith (strip tables line) "Count:" = false)
    (redundant : startsWith (strip tables line) "DESAN Removed Redundant Checks:" = false)
    (read : startsWith (strip tables line) "DESAN Removed Redundant READ Checks:" = false) :
    parseLine tables corePrefixes state line = some state := by
  rw [parseLine]
  simp only [total, type, count, Bool.false_eq_true, if_false, parseRemoved_other redundant read]
  split
  · rfl
  · rfl

/-- A line is told by its first character, if no key has it. -/
theorem parseLine_calm {first : Char} (starts : line.toList.head? = some first)
    (stays : isSpace tables first = false) (noCheck : first ≠ 'C') (noReport : first ≠ 'D')
    (noTotal : first ≠ 'T' ∨ state.sawTotal = true) :
    parseLine tables corePrefixes state (line ++ "\n") = some state := by
  have stripped : (strip tables (line ++ "\n")).toList.head? = some first :=
    head?_strip (head?_append starts) stays
  have total : (startsWith (strip tables (line ++ "\n")) "Total Checks:" && !state.sawTotal) =
      false := by
    rcases noTotal with different | saw
    · rw [startsWith_eq_false stripped rfl different, Bool.false_and]
    · rw [saw, Bool.not_true, Bool.and_false]
  exact parseLine_other total (startsWith_eq_false stripped rfl noCheck)
    (startsWith_eq_false stripped rfl noCheck) (startsWith_eq_false stripped rfl noReport)
    (startsWith_eq_false stripped rfl noReport)

theorem parseLine_blank : parseLine tables corePrefixes state ("" ++ "\n") = some state := by
  have blank : strip tables ("" ++ "\n") = "" := rfl
  apply parseLine_other <;> rw [blank] <;> rfl

theorem parseLine_header :
    parseLine tables corePrefixes state ("DESAN Sanitizer Check Statistics" ++ "\n") =
      some state := by
  have stripped : strip tables ("DESAN Sanitizer Check Statistics" ++ "\n") =
      "DESAN Sanitizer Check Statistics" := by
    have ends : "DESAN Sanitizer Check Statistics".toList =
        "DESAN Sanitizer Check Statistic".toList ++ ['s'] := rfl
    exact strip_line rfl ends rfl rfl
  apply parseLine_other <;> rw [stripped] <;> rfl

theorem parseLine_summary :
    parseLine tables corePrefixes state ("DESAN Core Check Summary" ++ "\n") = some state := by
  have stripped : strip tables ("DESAN Core Check Summary" ++ "\n") =
      "DESAN Core Check Summary" := by
    have ends : "DESAN Core Check Summary".toList =
        "DESAN Core Check Summar".toList ++ ['y'] := rfl
    exact strip_line rfl ends rfl rfl
  apply parseLine_other <;> rw [stripped] <;> rfl

theorem toList_number (number : Nat) : (toString number).toList = Nat.toDigits 10 number := by
  rw [Nat.toString_eq_repr, Nat.toList_repr]

theorem isDigit_of_mem_number {number : Nat} {char : Char}
    (member : char ∈ (toString number).toList) : char.isDigit = true := by
  rw [toList_number] at member
  exact Nat.isDigit_of_mem_toDigits (by decide) (by decide) member

/-- A line with a number is stripped to itself. -/
theorem strip_number {label : String} {first : Char} (starts : label.toList.head? = some first)
    (stays : isSpace tables first = false) (number : Nat) :
    strip tables (label ++ toString number ++ "\n") = label ++ toString number := by
  have nonempty : (toString number).toList ≠ [] := by
    rw [toList_number]
    exact Nat.toDigits_ne_nil
  have last := isDigit_of_mem_number (List.getLast_mem nonempty)
  have ends : (label ++ toString number).toList =
      (label.toList ++ (toString number).toList.dropLast) ++
        [(toString number).toList.getLast nonempty] := by
    rw [String.toList_append, List.append_assoc, List.dropLast_append_getLast]
  exact strip_line (head?_append starts) ends stays (isSpace_of_isDigit last)

theorem afterLast_number {label : String} {front : List Char}
    (ends : label.toList = front ++ [' ']) (number : Nat) :
    afterLast ' ' (label ++ toString number) = some (toString number) := by
  have clear : ∀ char ∈ (toString number).toList.reverse, decide (char ≠ ' ') = true := by
    intro char member
    rw [decide_eq_true_eq]
    intro same
    have isDigit := isDigit_of_mem_number (List.mem_reverse.mp member)
    rw [same] at isDigit
    exact absurd isDigit (by decide)
  have whole : (label ++ toString number).toList =
      front ++ ' ' :: (toString number).toList := by
    rw [String.toList_append, ends, List.append_assoc]
    rfl
  have found : ' ' ∈ (label ++ toString number).toList := by
    rw [whole]
    exact List.mem_append_right _ (List.mem_cons_self ..)
  rw [afterLast, if_pos found, whole, List.rtakeWhile, List.reverse_append, List.reverse_cons,
    List.append_assoc, List.takeWhile_append_of_pos clear, List.singleton_append,
    List.takeWhile_cons_of_neg (by decide), List.append_nil, List.reverse_reverse,
    String.ofList_toList]

theorem parseLine_total (saw : state.sawTotal = false) (number : Nat) :
    parseLine tables corePrefixes state ("Total Checks: " ++ toString number ++ "\n") =
      some { state with total := number, sawTotal := true } := by
  have stripped : strip tables ("Total Checks: " ++ toString number ++ "\n") = _ :=
    strip_number rfl rfl number
  have total : startsWith ("Total Checks: " ++ toString number) "Total Checks:" = true := by
    rw [show "Total Checks: " = "Total Checks:" ++ " " from rfl, String.append_assoc]
    exact startsWith_append _ _
  have ends : "Total Checks: ".toList = "Total Checks:".toList ++ [' '] := rfl
  rw [parseLine, stripped]
  simp only [total, saw, Bool.not_false, Bool.and_true, if_true, afterLast_number ends,
    Option.map_some, readInt?_toString, Option.getD_some]

theorem parseLine_removed (removed : Nat) :
    parseLine tables corePrefixes state
        ("DESAN Removed Redundant Checks: " ++ toString removed ++ "\n") =
      some { state with removed := removed } := by
  have stripped : strip tables
      ("DESAN Removed Redundant Checks: " ++ toString removed ++ "\n") = _ :=
    strip_number rfl rfl removed
  have starts : ("DESAN Removed Redundant Checks: " ++ toString removed).toList.head? =
      some 'D' := head?_append rfl
  have total : startsWith ("DESAN Removed Redundant Checks: " ++ toString removed)
      "Total Checks:" = false := startsWith_eq_false starts rfl (by decide)
  have type : startsWith ("DESAN Removed Redundant Checks: " ++ toString removed)
      "Check Type:" = false := startsWith_eq_false starts rfl (by decide)
  have count : startsWith ("DESAN Removed Redundant Checks: " ++ toString removed)
      "Count:" = false := startsWith_eq_false starts rfl (by decide)
  have redundant : startsWith ("DESAN Removed Redundant Checks: " ++ toString removed)
      "DESAN Removed Redundant Checks:" = true := by
    rw [show "DESAN Removed Redundant Checks: " = "DESAN Removed Redundant Checks:" ++ " " from rfl,
      String.append_assoc]
    exact startsWith_append _ _
  have ends : "DESAN Removed Redundant Checks: ".toList =
      "DESAN Removed Redundant Checks:".toList ++ [' '] := rfl
  rw [parseLine, stripped]
  simp only [total, type, count, Bool.false_and, Bool.false_eq_true, if_false, parseRemoved,
    redundant, Bool.true_or, if_true, afterLast_number ends, Option.map_some, readInt?_toString,
    Option.getD_some]
  split
  · rfl
  · rfl

theorem parseLine_type (saw : state.sawTotal = true) (type : String) :
    parseLine tables corePrefixes state ("Check Type: " ++ type ++ "\n") =
      some { state with currentType := some (strip tables type) } := by
  have label : "Check Type:".toList = "Check Type".toList ++ [':'] := rfl
  have unlike : ("Check Type".toList.all fun char => decide (char ≠ ':')) = true := by decide
  have stripped : strip tables ("Check Type: " ++ type ++ "\n") = "Check Type:" ++
      String.ofList ((" " ++ (type ++ "\n")).toList.rdropWhile (isSpace tables)) := by
    rw [show "Check Type: " = "Check Type:" ++ " " from rfl, String.append_assoc,
      String.append_assoc]
    exact strip_label rfl label rfl rfl
  have value : afterFirst ':' ("Check Type:" ++
      String.ofList ((" " ++ (type ++ "\n")).toList.rdropWhile (isSpace tables))) =
        String.ofList ((" " ++ (type ++ "\n")).toList.rdropWhile (isSpace tables)) := by
    rw [afterFirst, String.toList_append, label, List.append_assoc,
      List.dropWhile_append_of_pos (List.all_eq_true.mp unlike)]
    simp
  rw [parseLine, stripped]
  simp only [saw, Bool.not_true, Bool.and_false, Bool.false_eq_true, if_false, startsWith_append,
    if_true, value, strip_value]

/-- The line with the count of a type adds to the core checks if the type is core. -/
theorem parseLine_count {type : String} (current : state.currentType = some type)
    (some' : type.isEmpty = false) (saw : state.sawTotal = true) (count : Nat) :
    parseLine tables corePrefixes state ("Count: " ++ toString count ++ "\n") =
      some { state with
        core :=
          if corePrefixes.any (startsWith type) then state.core + count else state.core
        currentType := none } := by
  have stripped : strip tables ("Count: " ++ toString count ++ "\n") = _ :=
    strip_number rfl rfl count
  have notType : startsWith ("Count: " ++ toString count) "Check Type:" = false := by
    rw [startsWith, String.toList_append]
    rfl
  have counts : startsWith ("Count: " ++ toString count) "Count:" = true := by
    rw [show "Count: " = "Count:" ++ " " from rfl, String.append_assoc]
    exact startsWith_append _ _
  have ends : "Count: ".toList = "Count:".toList ++ [' '] := rfl
  rw [parseLine, stripped]
  simp only [saw, Bool.not_true, Bool.and_false, Bool.false_eq_true, if_false, notType, current,
    some', Option.filter_some, Bool.not_false, if_true, counts, afterLast_number ends,
    Option.map_some, readInt?_toString, Option.getD_some]

/-- Without a type before it a count is no count of a type. -/
theorem parseLine_stray_count {type : String} (current : state.currentType = some type)
    (none' : type.isEmpty = true) (saw : state.sawTotal = true) (count : Nat) :
    parseLine tables corePrefixes state ("Count: " ++ toString count ++ "\n") = some state := by
  have stripped : strip tables ("Count: " ++ toString count ++ "\n") = _ :=
    strip_number rfl rfl count
  have starts : ("Count: " ++ toString count).toList.head? = some 'C' := head?_append rfl
  have notType : startsWith ("Count: " ++ toString count) "Check Type:" = false := by
    rw [startsWith, String.toList_append]
    rfl
  rw [parseLine, stripped]
  simp only [saw, Bool.not_true, Bool.and_false, Bool.false_eq_true, if_false, notType, current,
    none', Option.filter_some, parseRemoved_other (startsWith_eq_false starts rfl (by decide))
      (startsWith_eq_false starts rfl (by decide))]

end Turn

/-! ## What a section adds -/

section Sections

variable (tables : UnicodeTables) (corePrefixes : List String)

/-- The type counts as core: without the white space around it, it starts with one of the
prefixes. -/
def isCoreType (type : String) : Bool :=
  !(strip tables type).isEmpty && corePrefixes.any (startsWith (strip tables type))

/-- Behind the total, the lines add so many core checks and nothing else. -/
def Adds (lines : List String) (core : Nat) : Prop :=
  ∀ state : PassLog, state.sawTotal = true →
    ∃ after, (lines.map (· ++ "\n")).foldlM (parseLine tables corePrefixes) state = some after ∧
      after.sawTotal = true ∧ after.total = state.total ∧ after.core = state.core + core ∧
      after.removed = state.removed

variable {tables corePrefixes}

theorem Adds.nil : Adds tables corePrefixes [] 0 :=
  fun state saw => ⟨state, rfl, saw, rfl, (Int.add_zero _).symm, rfl⟩

theorem Adds.append {first second : List String} {early late : Nat}
    (left : Adds tables corePrefixes first early) (right : Adds tables corePrefixes second late) :
    Adds tables corePrefixes (first ++ second) (early + late) := by
  intro state saw
  rcases left state saw with ⟨middle, toMiddle, sawMiddle, total, core, removed⟩
  rcases right middle sawMiddle with ⟨after, toAfter, sawAfter, lastTotal, lastCore, lastRemoved⟩
  refine ⟨after, ?_, sawAfter, lastTotal.trans total, ?_, lastRemoved.trans removed⟩
  · rw [List.map_append, List.foldlM_append, toMiddle]
    exact toAfter
  · rw [lastCore, core, Int.add_assoc, Int.natCast_add]

theorem Adds.flatMap {α : Type*} {lines : α → List String} {core : α → Nat} {entries : List α}
    (each : ∀ entry ∈ entries, Adds tables corePrefixes (lines entry) (core entry)) :
    Adds tables corePrefixes (entries.flatMap lines) (entries.map core).sum := by
  induction entries with
  | nil => exact .nil
  | cons head tail induction =>
      rcases List.forall_mem_cons.mp each with ⟨first, others⟩
      rw [List.flatMap_cons, List.map_cons, List.sum_cons]
      exact first.append (induction others)

/-- A line that changes nothing adds nothing. -/
theorem Adds.line {line : String}
    (same : ∀ state : PassLog, state.sawTotal = true →
      parseLine tables corePrefixes state (line ++ "\n") = some state) :
    Adds tables corePrefixes [line] 0 := by
  intro state saw
  refine ⟨state, ?_, saw, rfl, (Int.add_zero _).symm, rfl⟩
  rw [List.map_singleton, List.foldlM_cons, same state saw]
  rfl

theorem Adds.calm {line : String} {first : Char} (starts : line.toList.head? = some first)
    (stays : SanrazorRemovedAccess.isSpace tables first = false) (noCheck : first ≠ 'C')
    (noReport : first ≠ 'D') : Adds tables corePrefixes [line] 0 :=
  .line fun _ saw => parseLine_calm starts stays noCheck noReport (.inr saw)

theorem Adds.map {α : Type*} {line : α → String}
    (each : ∀ entry, Adds tables corePrefixes [line entry] 0) (entries : List α) :
    Adds tables corePrefixes (entries.map line) 0 := by
  induction entries with
  | nil => exact .nil
  | cons head tail induction => exact (each head).append induction

theorem Adds.labelled {label rest : String} {first : Char}
    (starts : label.toList.head? = some first)
    (stays : SanrazorRemovedAccess.isSpace tables first = false) (noCheck : first ≠ 'C')
    (noReport : first ≠ 'D') : Adds tables corePrefixes [label ++ rest] 0 :=
  .calm (head?_append starts) stays noCheck noReport

/-- A type with its count. -/
theorem Adds.count (type : String) (count : Nat) :
    Adds tables corePrefixes ["Check Type: " ++ type, "Count: " ++ toString count]
      (if isCoreType tables corePrefixes type then count else 0) := by
  intro state saw
  let middle : PassLog := { state with currentType := some (strip tables type) }
  have run : ∀ after : PassLog,
      parseLine tables corePrefixes middle ("Count: " ++ toString count ++ "\n") =
          some after →
        (["Check Type: " ++ type, "Count: " ++ toString count].map (· ++ "\n")).foldlM
          (parseLine tables corePrefixes) state = some after := by
    intro after counted
    rw [List.map_cons, List.map_singleton, List.foldlM_cons, parseLine_type saw,
      Option.bind_eq_bind, Option.bind_some, List.foldlM_cons, counted]
    rfl
  have current : middle.currentType = some (strip tables type) := rfl
  cases empty : (strip tables type).isEmpty with
  | true =>
      refine ⟨_, run _ (parseLine_stray_count current empty saw count), saw, rfl, ?_, rfl⟩
      rw [isCoreType, empty]
      exact (Int.add_zero _).symm
  | false =>
      refine ⟨_, run _ (parseLine_count current empty saw count), saw, rfl, ?_, rfl⟩
      simp only [isCoreType, empty, Bool.not_false, Bool.true_and]
      split
      · rfl
      · exact (Int.add_zero _).symm

variable {percent : ℚ → String} {collector : SanitizerCheckCollector}

/-- The core checks of a printed type. -/
def coreCount (tables : UnicodeTables) (corePrefixes : List String) (stat : CheckStat) : Nat :=
  if isCoreType tables corePrefixes stat.checkType then stat.count else 0

theorem adds_statLines (stat : CheckStat) :
    Adds tables corePrefixes (statLines percent stat)
      (coreCount tables corePrefixes stat) := by
  have ratio : Adds tables corePrefixes ["Ratio: " ++ percent stat.ratioWithinSanitizer] 0 :=
    Adds.labelled rfl rfl (by decide) (by decide)
  have overall : Adds tables corePrefixes ["Overall Ratio: " ++ percent stat.ratioOverall] 0 :=
    Adds.labelled rfl rfl (by decide) (by decide)
  have runtime : Adds tables corePrefixes
      (if 0 ≤ stat.runtimeRatio then ["Runtime Ratio: " ++ percent stat.runtimeRatio] else [])
      0 := by
    split
    · exact Adds.labelled rfl rfl (by decide) (by decide)
    · exact .nil
  have blank : Adds tables corePrefixes [""] 0 := .line fun _ _ => parseLine_blank
  have whole := ((Adds.count stat.checkType stat.count).append (ratio.append overall)).append
    (runtime.append blank)
  delta statLines coreCount
  simp only [List.cons_append, List.nil_append, Nat.add_zero] at whole ⊢
  exact whole

theorem adds_sanitizerLines (sanitizer : SanitizerKind) :
    Adds tables corePrefixes (sanitizerLines percent collector sanitizer)
      ((collector.getStatsForSanitizer sanitizer).map (coreCount tables corePrefixes)).sum := by
  have name : Adds tables corePrefixes ["Sanitizer: " ++ sanitizerKindName sanitizer] 0 :=
    Adds.labelled rfl rfl (by decide) (by decide)
  have total : Adds tables corePrefixes
      ["Total Checks: " ++ toString (collector.sanitizerTotals sanitizer)] 0 :=
    Adds.labelled rfl rfl (by decide) (by decide)
  have stats : Adds tables corePrefixes
      (if (collector.getStatsForSanitizer sanitizer).isEmpty then [""]
        else (collector.getStatsForSanitizer sanitizer).flatMap (statLines percent))
      ((collector.getStatsForSanitizer sanitizer).map (coreCount tables corePrefixes)).sum := by
    split
    · rename_i none
      rw [List.isEmpty_iff.mp none]
      exact .line fun _ _ => parseLine_blank
    · exact .flatMap fun stat _ => adds_statLines stat
  have whole := (name.append total).append stats
  rw [Nat.zero_add] at whole
  exact whole

theorem adds_coreCheckLine (stat : CheckStat) :
    Adds tables corePrefixes [coreCheckLine percent stat] 0 := by
  delta coreCheckLine
  simp only [String.append_assoc]
  cases stat.sanitizer with
  | ASan => exact Adds.labelled rfl rfl (by decide) (by decide)
  | UBSan => exact Adds.labelled rfl rfl (by decide) (by decide)
  | MemSan => exact Adds.labelled rfl rfl (by decide) (by decide)
  | Unknown => exact Adds.labelled rfl rfl (by decide) (by decide)

theorem adds_bodyLines (coreChecks : List CheckStat) :
    Adds tables corePrefixes (bodyLines percent collector coreChecks)
      ([SanitizerKind.ASan, .UBSan, .MemSan].map fun sanitizer =>
        ((collector.getStatsForSanitizer sanitizer).map
          (coreCount tables corePrefixes)).sum).sum := by
  have blank : Adds tables corePrefixes [""] 0 := .line fun _ _ => parseLine_blank
  have sanitizers : Adds tables corePrefixes
      ([SanitizerKind.ASan, .UBSan, .MemSan].flatMap (sanitizerLines percent collector)) _ :=
    .flatMap fun sanitizer _ => adds_sanitizerLines sanitizer
  have footer : Adds tables corePrefixes ["End Sanitizer Check Statistics"] 0 :=
    .calm rfl rfl (by decide) (by decide)
  have summary : Adds tables corePrefixes ["DESAN Core Check Summary"] 0 :=
    .line fun _ _ => parseLine_summary
  have cores : Adds tables corePrefixes (coreChecks.map (coreCheckLine percent)) 0 :=
    .map adds_coreCheckLine coreChecks
  have whole := blank.append (sanitizers.append ((footer.append summary).append cores))
  simp only [Nat.zero_add, Nat.add_zero] at whole
  exact whole

end Sections

/-! ## The round trip -/

section Lines

variable {percent : ℚ → String} {collector : SanitizerCheckCollector}

theorem isLine_statLines (percents : ∀ ratio, IsLine (percent ratio)) {stat : CheckStat}
    (type : IsLine stat.checkType) : ∀ line ∈ statLines percent stat, IsLine line := by
  have runtime : ∀ line ∈ (if 0 ≤ stat.runtimeRatio then
      ["Runtime Ratio: " ++ percent stat.runtimeRatio] else []), IsLine line := by
    split
    · exact List.forall_mem_singleton.mpr (.append (by decide) (percents _))
    · exact fun _ member => nomatch member
  delta statLines
  simp only [List.forall_mem_append, List.forall_mem_cons]
  exact ⟨⟨.append (by decide) type, .append (by decide) (isLine_number _),
    .append (by decide) (percents _), .append (by decide) (percents _),
    fun _ member => nomatch member⟩, runtime, by decide, fun _ member => nomatch member⟩

theorem isLine_sanitizerLines (percents : ∀ ratio, IsLine (percent ratio))
    {sanitizer : SanitizerKind}
    (types : ∀ stat ∈ collector.getStatsForSanitizer sanitizer, IsLine stat.checkType) :
    ∀ line ∈ sanitizerLines percent collector sanitizer, IsLine line := by
  have name : IsLine (sanitizerKindName sanitizer) := by
    cases sanitizer <;> decide
  have stats : ∀ line ∈ (if (collector.getStatsForSanitizer sanitizer).isEmpty then [""]
      else (collector.getStatsForSanitizer sanitizer).flatMap (statLines percent)),
      IsLine line := by
    split
    · exact List.forall_mem_singleton.mpr (by decide)
    · intro line member
      rcases List.mem_flatMap.mp member with ⟨stat, inside, isLine⟩
      exact isLine_statLines percents (types stat inside) line isLine
  rw [sanitizerLines]
  simp only [List.forall_mem_append, List.forall_mem_cons]
  exact ⟨⟨.append (by decide) name, .append (by decide) (isLine_number _),
    fun _ member => nomatch member⟩, stats⟩

theorem isLine_coreCheckLine (percents : ∀ ratio, IsLine (percent ratio)) {stat : CheckStat}
    (type : IsLine stat.checkType) : IsLine (coreCheckLine percent stat) := by
  have name : IsLine (sanitizerKindName stat.sanitizer) := by
    cases stat.sanitizer <;> decide
  have runtime : IsLine
      (if 0 ≤ stat.runtimeRatio then " runtime=" ++ percent stat.runtimeRatio else "") := by
    split
    · exact .append (by decide) (percents _)
    · decide
  delta coreCheckLine
  exact (((((name.append (by decide)).append type).append (by decide)).append
    (isLine_number _)).append (by decide) |>.append (percents _)).append runtime

theorem isLine_bodyLines (percents : ∀ ratio, IsLine (percent ratio))
    (types : ∀ sanitizer, ∀ stat ∈ collector.getStatsForSanitizer sanitizer,
      IsLine stat.checkType)
    {coreChecks : List CheckStat} (cores : ∀ stat ∈ coreChecks, IsLine stat.checkType) :
    ∀ line ∈ bodyLines percent collector coreChecks, IsLine line := by
  delta bodyLines
  simp only [List.forall_mem_append]
  refine ⟨by decide, ?_, by decide, ?_⟩
  · intro line member
    rcases List.mem_flatMap.mp member with ⟨sanitizer, -, isLine⟩
    exact isLine_sanitizerLines percents (types sanitizer) line isLine
  · intro line member
    rcases List.mem_map.mp member with ⟨stat, inside, rfl⟩
    exact isLine_coreCheckLine percents (cores stat inside)

end Lines

/-- What the script reads of a log with one type in it that it counts as core. -/
theorem parsePassLog_of_lines {tables : UnicodeTables} {corePrefixes : List String}
    {percent : ℚ → String} {collector : SanitizerCheckCollector} {maxPerSanitizer : Nat}
    {minRatio : ℚ} {core : Nat} (removed : Nat)
    (body : Adds tables corePrefixes (bodyLines percent collector
      (collector.identifyCoreChecks maxPerSanitizer minRatio)) core)
    (isLine : ∀ line ∈ bodyLines percent collector
      (collector.identifyCoreChecks maxPerSanitizer minRatio), IsLine line) :
    parsePassLog tables corePrefixes
        (some (collector.passLog percent maxPerSanitizer minRatio removed)) =
      some ((collector.totalChecks : Int), (core : Int), (removed : Int)) := by
  let told : PassLog := { total := collector.totalChecks, sawTotal := true }
  have starts : (["DESAN Sanitizer Check Statistics",
      "Total Checks: " ++ toString collector.totalChecks].map (· ++ "\n")).foldlM
        (parseLine tables corePrefixes) {} = some told := by
    rw [List.map_cons, List.map_singleton, List.foldlM_cons, parseLine_header,
      Option.bind_eq_bind, Option.bind_some, List.foldlM_cons, parseLine_total rfl]
    rfl
  rcases body told rfl with ⟨after, toAfter, saw, total, cores, removedBefore⟩
  have all : ∀ line ∈ ["DESAN Sanitizer Check Statistics",
      "Total Checks: " ++ toString collector.totalChecks] ++
        (bodyLines percent collector (collector.identifyCoreChecks maxPerSanitizer minRatio) ++
          ["DESAN Removed Redundant Checks: " ++ toString removed]), IsLine line := by
    simp only [List.forall_mem_append, List.forall_mem_cons]
    exact ⟨⟨by decide, .append (by decide) (isLine_number _), fun _ member => nomatch member⟩,
      isLine, .append (by decide) (isLine_number _), fun _ member => nomatch member⟩
  rw [parsePassLog]
  simp only [passLog_eq, fileLines_unlines all]
  rw [List.map_append, List.foldlM_append, starts, Option.bind_eq_bind, Option.bind_some,
    List.map_append, List.foldlM_append, toAfter, Option.bind_eq_bind, Option.bind_some,
    List.map_singleton, List.foldlM_cons, parseLine_removed, Option.bind_eq_bind,
    Option.bind_some, List.foldlM_nil]
  simp only [Option.pure_def, Option.map_some, total, cores]
  rw [show told.core = 0 from rfl, Int.zero_add]

/-! ## Printed counts and recorded checks -/

section Printed

open SanitizerCheckCollector

/-- The counts of the types of a kind. -/
def countWhere (kind : String → Bool) (map : CheckCountMap) : Nat :=
  (map.map fun entry => if kind entry.1 then entry.2 else 0).sum

theorem countWhere_increment (kind : String → Bool) (map : CheckCountMap) (recorded : String) :
    countWhere kind (map.increment recorded) =
      countWhere kind map + if kind recorded then 1 else 0 := by
  induction map with
  | nil => simp [countWhere, CheckCountMap.increment]
  | cons head tail induction =>
      rcases head with ⟨name, count⟩
      rw [countWhere] at induction ⊢
      rw [countWhere] at induction ⊢
      rw [CheckCountMap.increment]
      by_cases same : name = recorded
      · rw [if_pos same, same, List.map_cons, List.map_cons, List.sum_cons, List.sum_cons]
        simp only
        split
        · omega
        · omega
      · rw [if_neg same, List.map_cons, List.map_cons, List.sum_cons, List.sum_cons, induction]
        omega

/-- Of the checks of a sanitizer, the counters have those of a kind. -/
theorem countWhere_record (kind : String → Bool) (sanitizer : SanitizerKind)
    (checks : List ClassifiedCheck) (collector : SanitizerCheckCollector) :
    countWhere kind ((checks.foldl recordCheck collector).checkCounts sanitizer) =
      countWhere kind (collector.checkCounts sanitizer) +
        (checks.filter isRecorded).countP fun check =>
          decide (sanitizer = check.sanitizer) && kind check.checkType := by
  induction checks generalizing collector with
  | nil => rfl
  | cons head tail induction =>
      rw [List.foldl_cons, induction]
      by_cases recorded : isRecorded head = true
      · rw [checkCounts_recordCheck recorded, List.filter_cons_of_pos recorded,
          List.countP_cons]
        by_cases same : sanitizer = head.sanitizer
        · rw [if_pos same, countWhere_increment]
          simp only [same, decide_true, Bool.true_and]
          omega
        · rw [if_neg same]
          simp only [same, decide_false, Bool.false_and, Bool.false_eq_true, if_false]
          rfl
      · rw [recordCheck_of_not recorded, List.filter_cons_of_neg recorded]

/-- The stats of a sanitizer are its counters. -/
theorem sum_stats (kind : String → Bool) (collector : SanitizerCheckCollector)
    (sanitizer : SanitizerKind) :
    ((collector.getStatsForSanitizer sanitizer).map fun stat =>
      if kind stat.checkType then stat.count else 0).sum =
        countWhere kind (collector.checkCounts sanitizer) := by
  have permuted := (List.perm_insertionSort (fun left right => statLess right left = false)
    ((collector.checkCounts sanitizer).map (collector.makeStat sanitizer))).map
      fun stat => if kind stat.checkType then stat.count else 0
  rw [getStatsForSanitizer, permuted.sum_nat, countWhere, List.map_map]
  rfl

/-- Every known check is one of the three sanitizers. -/
theorem sum_sanitizers {checks : List ClassifiedCheck} (known : Known checks)
    (kind : String → Bool) :
    ([SanitizerKind.ASan, .UBSan, .MemSan].map fun sanitizer =>
      checks.countP fun check =>
        decide (sanitizer = check.sanitizer) && kind check.checkType).sum =
          checks.countP fun check => kind check.checkType := by
  induction checks with
  | nil => rfl
  | cons head tail induction =>
      have others := induction fun check member => known check (List.mem_cons_of_mem _ member)
      have first := known head (List.mem_cons_self ..)
      simp only [List.map_cons, List.map_nil, List.sum_cons, List.sum_nil, List.countP_cons]
        at others ⊢
      rw [← others]
      cases isKind : head.sanitizer with
      | Unknown => exact absurd isKind first
      | ASan =>
          simp
          omega
      | UBSan =>
          simp
          omega
      | MemSan =>
          simp
          omega

theorem sum_recordAll (kind : String → Bool) (checks : List ClassifiedCheck)
    (runtimeCosts : SanitizerKind → String → Option ℚ) (totalRuntimeCost : ℚ) :
    ([SanitizerKind.ASan, .UBSan, .MemSan].map fun sanitizer =>
      (((recordAll checks runtimeCosts totalRuntimeCost).getStatsForSanitizer sanitizer).map
        fun stat => if kind stat.checkType then stat.count else 0).sum).sum =
      (checks.filter isRecorded).countP fun check => kind check.checkType := by
  have known : Known (checks.filter isRecorded) := by
    intro check member
    exact (not_or.mp (isRecorded_iff.mp (List.mem_filter.mp member).2)).1
  rw [← sum_sanitizers known kind]
  congr 1
  apply List.map_congr_left
  intro sanitizer _
  rw [sum_stats, recordAll, countWhere_record]
  exact Nat.zero_add _

end Printed

/-- The script reads the number of recorded checks, which is the sum of the printed counts,
the number of those whose type is core, and the number of removed checks. -/
theorem parsePassLog_passLog (tables : UnicodeTables) (corePrefixes : List String)
    {percent : ℚ → String} (percents : ∀ ratio, IsLine (percent ratio))
    (checks : List ClassifiedCheck)
    (types : ∀ check ∈ checks.filter SanitizerCheckCollector.isRecorded, IsLine check.checkType)
    (runtimeCosts : SanitizerKind → String → Option ℚ) (totalRuntimeCost : ℚ)
    (maxPerSanitizer : Nat) (minRatio : ℚ) (removed : Nat) :
    let recorded := checks.filter SanitizerCheckCollector.isRecorded
    let collector := SanitizerCheckCollector.recordAll checks runtimeCosts totalRuntimeCost
    parsePassLog tables corePrefixes
        (some (collector.passLog percent maxPerSanitizer minRatio removed)) =
      some ((recorded.length : Int),
        ((recorded.countP fun check => isCoreType tables corePrefixes check.checkType : Nat) : Int),
        (removed : Int)) ∧
    recorded.length =
      ([SanitizerKind.ASan, .UBSan, .MemSan].map fun sanitizer =>
        ((collector.getStatsForSanitizer sanitizer).map CheckStat.count).sum).sum := by
  intro recorded collector
  have counts := SanitizerCheckCollector.counts_recordAll checks runtimeCosts totalRuntimeCost
  have known : SanitizerCheckCollector.Known recorded := by
    intro check member
    exact (not_or.mp
      (SanitizerCheckCollector.isRecorded_iff.mp (List.mem_filter.mp member).2)).1
  have statTypes : ∀ sanitizer, ∀ stat ∈ collector.getStatsForSanitizer sanitizer,
      IsLine stat.checkType := by
    intro sanitizer stat member
    exact types _ ((SanitizerCheckCollector.mem_types counts stat.checkType).mp
      (List.mem_map_of_mem member))
  have coreTypes : ∀ stat ∈ collector.identifyCoreChecks maxPerSanitizer minRatio,
      IsLine stat.checkType := by
    intro stat member
    exact statTypes stat.sanitizer stat
      ((SanitizerCheckCollector.selected_subset counts stat.sanitizer).subset
        (SanitizerCheckCollector.mem_selected_of_mem counts known member))
  have cores := sum_recordAll (isCoreType tables corePrefixes) checks runtimeCosts
    totalRuntimeCost
  have all := sum_recordAll (fun _ => true) checks runtimeCosts totalRuntimeCost
  constructor
  · have body : Adds tables corePrefixes (bodyLines percent collector
        (collector.identifyCoreChecks maxPerSanitizer minRatio)) _ := adds_bodyLines _
    rw [parsePassLog_of_lines removed body (isLine_bodyLines percents statTypes coreTypes),
      counts.total]
    delta coreCount
    rw [cores]
  · simp only [if_true, List.countP_true] at all
    exact all.symm

theorem isLine_filter_singleton {counts : ClassifiedCheck → Bool} {check : ClassifiedCheck}
    (isLine : IsLine check.checkType) :
    ∀ other ∈ [check].filter counts, IsLine other.checkType := by
  intro other member
  rw [List.mem_singleton.mp (List.mem_of_mem_filter member)]
  exact isLine

/-- A check whose name ends with a character that `strip` takes for white space. -/
def spacedCheck : ClassifiedCheck := ⟨.ASan, "__asan_load8\x1f"⟩

/-- With a prefix that has the character too, the script misses the check. -/
theorem parsePassLog_misses_spaced :
    ¬∀ (tables : UnicodeTables) (corePrefixes : List String) (checks : List ClassifiedCheck)
        (removed : Nat),
      (∀ check ∈ checks.filter SanitizerCheckCollector.isRecorded, IsLine check.checkType) →
        parsePassLog tables corePrefixes
            (some ((SanitizerCheckCollector.recordAll checks (fun _ _ => none) 0).passLog
              (fun _ => "100.0%") 1 0 removed)) =
          some (((checks.filter SanitizerCheckCollector.isRecorded).length : Int),
            (((checks.filter SanitizerCheckCollector.isRecorded).countP fun check =>
              corePrefixes.any (startsWith check.checkType) : Nat) : Int), (removed : Int)) := by
  intro exactly
  let tables : UnicodeTables := ⟨fun _ => false, fun _ => false, fun _ => none⟩
  let collector := SanitizerCheckCollector.recordAll [spacedCheck] (fun _ _ => none) 0
  have parsed := exactly tables ["__asan_load8\x1f"] [spacedCheck] 0
    (isLine_filter_singleton (by decide))
  have whole : IsLine "100.0%" := by decide
  have percents : ∀ ratio : ℚ, IsLine ((fun _ => "100.0%") ratio) := fun _ => whole
  have types : ∀ sanitizer, ∀ stat ∈ collector.getStatsForSanitizer sanitizer,
      IsLine stat.checkType := by
    intro sanitizer
    cases sanitizer <;> decide +kernel
  have cores : ∀ stat ∈ collector.identifyCoreChecks 1 0, IsLine stat.checkType := by
    decide +kernel
  rw [parsePassLog_of_lines 0 (adds_bodyLines _) (isLine_bodyLines percents types cores)] at parsed
  -- Of the one check the script counts none.
  revert parsed
  decide +kernel

/-- Checks of three sanitizers, one of them twice. -/
def mixedChecks : List ClassifiedCheck :=
  [⟨.ASan, "__asan_load8"⟩, ⟨.ASan, "__asan_store4"⟩, ⟨.UBSan, "__ubsan_handle_add_overflow"⟩,
    ⟨.MemSan, "__msan_warning"⟩, ⟨.ASan, "__asan_load8"⟩]

theorem parsePassLog_plain :
    parsePassLog ⟨fun _ => false, fun _ => false, fun _ => none⟩ ["__asan_load", "__msan_"]
        (some ((SanitizerCheckCollector.recordAll mixedChecks
          (fun _ _ => none) 0).passLog (fun _ => "100.0%") 2 0 3)) = some (5, 3, 3) := by
  have parts := parsePassLog_passLog ⟨fun _ => false, fun _ => false, fun _ => none⟩
    ["__asan_load", "__msan_"] (fun _ : ℚ => (by decide : IsLine "100.0%")) mixedChecks
    (by decide +kernel) (fun _ _ => none) 0 2 0 3
  refine parts.1.trans ?_
  decide +kernel

end SpecAsanSummary

end Desan
