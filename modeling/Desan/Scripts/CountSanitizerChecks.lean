import Mathlib.Algebra.GroupWithZero.Nat
import Desan.Foundation.PatternSearch
import Desan.Scripts.TextFile
import Desan.SanitizerCheckCollector.Recorded

/-! # The two check counters

`count_sanitizer_checks.py` counts the lines of a module's text on which it reads a call
of a function with the prefix of a tool. The collector counts the calls it recognises as
checks of the tool. -/

namespace Desan

namespace CountSanitizerChecks

open SanrazorRemovedAccess (isWord)

def corePrefixes (kind : String) : List String :=
  if kind = "asan" then
    ["__asan_report_load", "__asan_report_store", "__asan_load", "__asan_store"]
  else if kind = "ubsan" then
    ["__ubsan_handle_type_mismatch_v1", "__ubsan_handle_pointer_overflow",
      "__ubsan_handle_out_of_bounds", "__ubsan_handle_shift_out_of_bounds"]
  else if kind = "msan" then
    ["__msan_warning", "__msan_param_", "__msan_retval_", "__msan_va_arg_"]
  else []

/-- `[A-Za-z_]` -/
def startsName (char : Char) : Bool := char.isAlpha || char == '_'

/-- `[A-Za-z0-9_.$]` -/
def continuesName (char : Char) : Bool := char.isAlphanum || char ∈ ['_', '.', '$']

def sanitizerPrefix (kind : String) : String :=
  let kind := kind.toLower
  if kind = "asan" ∨ kind = "address" then "__asan_"
  else if kind = "ubsan" ∨ kind = "undefined" then "__ubsan_"
  else if kind = "msan" ∨ kind = "memory" then "__msan_"
  else "__"

def sanitizerLabel (kind : String) : String :=
  let kind := kind.toLower
  if kind = "asan" ∨ kind = "address" then "ASan"
  else if kind = "ubsan" ∨ kind = "undefined" then "UBSan"
  else if kind = "msan" ∨ kind = "memory" then "MemSan"
  else kind

def normalizeKind (kind : String) : String :=
  let kind := kind.toLower
  if kind = "address" then "asan"
  else if kind = "undefined" then "ubsan"
  else if kind = "memory" then "msan"
  else kind

variable (tables : UnicodeTables)

open Pattern in
/-- `\b(?:call|invoke)\b[^@]*@([A-Za-z_][A-Za-z0-9_.$]*)` -/
def callRe : Pattern :=
  sequence
    [.wordBoundary (isWord tables), .either (text "call") (text "invoke"),
     .wordBoundary (isWord tables), .many (· != '@'), text "@",
     .group 1 (.seq (.char startsName) (.many continuesName))]

def calledName? (line : String) : Option String :=
  ((callRe tables).search line).bind fun found => found.group? 1

def countLine (start : String) (counts : CheckCountMap) (line : String) : CheckCountMap :=
  match calledName? tables line with
  | none => counts
  | some name => if startsWith name start then counts.increment name else counts

/-- What `main` prints. -/
structure Summary where
  total : Nat
  core : Nat
  label : String
  counts : CheckCountMap
deriving DecidableEq

def main (sanitizer ir : String) : Summary :=
  let kind := normalizeKind sanitizer
  let counts := (fileLines ir).foldl (countLine tables (sanitizerPrefix kind)) []
  { total := (counts.map Prod.snd).sum
    core := ((counts.filter fun entry =>
      (corePrefixes kind).any (startsWith entry.1)).map Prod.snd).sum
    label := sanitizerLabel kind
    counts := counts }

/-! ## What the script counts -/

/-- The line is read as a call of a function whose name starts so. -/
def reads (start line : String) : Bool :=
  (calledName? tables line).any fun name => startsWith name start

theorem sum_countLines (start : String) (lines : List String) (counts : CheckCountMap) :
    ((lines.foldl (countLine tables start) counts).map Prod.snd).sum =
      (counts.map Prod.snd).sum + lines.countP (reads tables start) := by
  induction lines generalizing counts with
  | nil => rfl
  | cons line rest induction =>
      rw [List.foldl_cons, induction, List.countP_cons, countLine, reads]
      cases calledName? tables line with
      | none => simp
      | some name =>
          simp only [Option.any_some]
          by_cases starts : startsWith name start = true
          · rw [if_pos starts, if_pos starts, CheckCountMap.sum_increment]
            omega
          · rw [if_neg starts, if_neg starts]
            omega

/-! ## What the script reads on a line that prints a call -/

/-- What the pattern looks for behind the keyword. -/
def calleeRe : Pattern :=
  .sequence
    [.many (· != '@'), .text "@",
     .group 1 (.seq (.char startsName) (.many continuesName))]

/-- The name the script reads where a name is next. -/
def readName : List Char → String
  | [] => ""
  | first :: rest => String.ofList (first :: rest.takeWhile continuesName)

/-- The match has the name that is read behind the first `@`. -/
def Reads (letters : List Char) (found : Pattern.Cursor) : Prop :=
  found.group? 1 = some (readName letters)

/-- What is left of the line has an `@`, and a name right behind the first one. -/
structure AtCallee (letters after : List Char) : Prop where
  split : ∃ between, after = between ++ '@' :: letters ∧ '@' ∉ between
  starts : letters.head?.any startsName = true

theorem AtCallee.drop {letters passed left : List Char}
    (callee : AtCallee letters (passed ++ left)) (clear : '@' ∉ passed) :
    AtCallee letters left where
  split := by
    rcases callee.split with ⟨between, whole, none⟩
    rcases List.append_eq_append_iff.mp whole with ⟨middle, isBetween, isLeft⟩ |
      ⟨middle, isPassed, isRest⟩
    · refine ⟨middle, isLeft, ?_⟩
      rw [isBetween] at none
      exact fun member => none (List.mem_append_right _ member)
    · cases middle with
      | nil => exact ⟨[], isRest.symm, List.not_mem_nil⟩
      | cons head tail =>
          exfalso
          apply clear
          rw [isPassed, List.cons.inj isRest |>.1]
          exact List.mem_append_right _ (List.mem_cons_self ..)
  starts := callee.starts

/-- The group behind the `@` is as long as it can be in the first match. -/
theorem ends_name (cursor : Pattern.Cursor) {first : Char} {rest : List Char}
    (next : cursor.after = first :: rest) (starts : startsName first = true) :
    ∃ found others, (Pattern.sequence [.group 1
        (.seq (.char startsName) (.many continuesName))]).ends cursor = found :: others ∧
      Reads (first :: rest) found := by
  rcases Pattern.runs_eq continuesName (first :: cursor.before) rest with ⟨shorter, whole, -⟩
  rw [Pattern.sequence, Pattern.sequence, Pattern.ends, Pattern.ends, Pattern.ends,
    Pattern.ends, next]
  simp only [starts, if_true, List.flatMap_cons, List.flatMap_nil, List.append_nil]
  rw [Pattern.ends, whole, List.map_cons, List.map_cons, List.flatMap_cons, Pattern.ends]
  refine ⟨_, _, rfl, ?_⟩
  have matched := Pattern.take_passed ((rest.takeWhile continuesName).reverse ++ [first])
    cursor.before
  rw [List.append_assoc, List.singleton_append] at matched
  simp only [Reads, Pattern.Cursor.group?, List.find?_cons, decide_true, Option.map_some,
    matched]
  rw [List.reverse_append, List.reverse_reverse, List.reverse_singleton]
  rfl

theorem ends_callee {letters : List Char} {cursor : Pattern.Cursor}
    (callee : AtCallee letters cursor.after) :
    ∃ found others, calleeRe.ends cursor = found :: others ∧ Reads letters found := by
  rcases callee.split with ⟨between, whole, none⟩
  have passes : ∀ char ∈ between, (char != '@') = true := by
    intro char member
    rw [bne_iff_ne]
    exact fun same => none (same ▸ member)
  have stops : ∀ found : Pattern.Cursor, found.after.head?.any (· != '@') = true →
      (Pattern.sequence [.text "@", .group 1
        (.seq (.char startsName) (.many continuesName))]).ends found = [] := by
    intro found other
    rw [Pattern.sequence, Pattern.ends]
    rcases Pattern.ends_text "@" found with ⟨rest, isNext, -⟩ | ⟨-, fails⟩
    · rw [isNext] at other
      simp at other
    · rw [fails, List.flatMap_nil]
  have left : cursor.after.dropWhile (· != '@') = '@' :: letters := by
    rw [whole, List.dropWhile_append_of_pos passes]
    exact List.dropWhile_cons_of_neg (by decide)
  rw [calleeRe, Pattern.sequence, Pattern.ends_seq_many stops, left, Pattern.sequence,
    Pattern.ends]
  rcases Pattern.ends_text "@" (cursor.advance (cursor.after.takeWhile (· != '@'))
    ('@' :: letters)) with ⟨rest, isNext, matched⟩ | ⟨fails, -⟩
  · have isRest : letters = rest := (List.cons.inj isNext).2
    rw [matched, List.flatMap_cons, List.flatMap_nil, List.append_nil]
    cases letters with
    | nil => cases callee.starts
    | cons first others => exact ends_name _ isRest.symm callee.starts
  · exact absurd (List.prefix_append ['@'] letters) fails

/-- A match that starts before the first `@` of a line reads the name behind it. -/
theorem firstIs_callRe {letters : List Char} {cursor : Pattern.Cursor}
    (callee : AtCallee letters cursor.after) :
    Pattern.FirstIs (Reads letters) ((callRe tables).ends cursor) := by
  have boundary : ∀ next : Pattern, ∀ found : Pattern.Cursor,
      Pattern.FirstIs (Reads letters) (next.ends found) →
        Pattern.FirstIs (Reads letters)
          ((Pattern.seq (.wordBoundary (isWord tables)) next).ends found) := by
    intro next found good
    rw [Pattern.ends]
    apply Pattern.firstIs_flatMap
    intro place member
    rw [Pattern.ends] at member
    split at member
    · cases member
    · rw [List.mem_singleton.mp member]
      exact good
  rw [callRe, Pattern.sequence]
  apply boundary
  rw [Pattern.sequence, Pattern.ends]
  apply Pattern.firstIs_flatMap
  intro place member
  have behind : AtCallee letters place.after := by
    have keyword : ∀ literal : String, '@' ∉ literal.toList →
        place ∈ (Pattern.text literal).ends cursor → AtCallee letters place.after := by
      intro literal clear inside
      rcases Pattern.ends_text literal cursor with ⟨rest, isNext, matched⟩ | ⟨-, fails⟩
      · rw [matched] at inside
        rw [List.mem_singleton.mp inside]
        rw [isNext] at callee
        exact callee.drop clear
      · rw [fails] at inside
        cases inside
    rw [Pattern.ends] at member
    rcases List.mem_append.mp member with isCall | isInvoke
    · exact keyword "call" (by decide) isCall
    · exact keyword "invoke" (by decide) isInvoke
  rw [Pattern.sequence]
  apply boundary
  intro found isFirst
  rcases ends_callee behind with ⟨first, others, ends, reads⟩
  rw [calleeRe] at ends
  rw [ends, List.head?_cons, Option.mem_some_iff] at isFirst
  rw [← isFirst]
  exact reads

/-- The line prints a call of a function under its plain name. -/
structure PrintsCall (name line : String) : Prop where
  text : ∃ before keyword between after, keyword ∈ ["call", "invoke"] ∧
    line.toList =
      before ++ (keyword.toList ++ (between ++ '@' :: (name.toList ++ after))) ∧
    '@' ∉ before ∧ '@' ∉ between ∧
    before.getLast?.any (isWord tables) = false ∧
    between.head?.any (isWord tables) = false ∧
    after.head?.any (fun char => continuesName char || char == '-') = false
  starts : name.toList.head?.any startsName = true

variable {tables}

/-- The keywords start and end with a letter. -/
theorem word_next {keyword : String} (isKeyword : keyword ∈ ["call", "invoke"])
    (rest : List Char) :
    (keyword.toList ++ rest).head?.any (isWord tables) = true ∧
      (keyword.toList.reverse ++ rest).head?.any (isWord tables) = true := by
  simp only [List.mem_cons, List.not_mem_nil, or_false] at isKeyword
  rcases isKeyword with rfl | rfl
  · exact ⟨rfl, rfl⟩
  · exact ⟨rfl, rfl⟩

/-- On the line of a call the keyword is a match. -/
theorem ends_callRe_ne_nil {letters before between : List Char} {keyword : String}
    (isKeyword : keyword ∈ ["call", "invoke"])
    (callee : AtCallee letters (between ++ '@' :: letters))
    (start : before.getLast?.any (isWord tables) = false)
    (stop : between.head?.any (isWord tables) = false) :
    (callRe tables).ends ⟨before.reverse, keyword.toList ++ (between ++ '@' :: letters), []⟩ ≠
      [] := by
  have nextWord := (@word_next tables _ isKeyword (between ++ '@' :: letters)).1
  have lastWord := (@word_next tables _ isKeyword before.reverse).2
  have noWord : (between ++ '@' :: letters).head?.any (isWord tables) = false := by
    cases between with
    | nil => rfl
    | cons head tail => exact stop
  have matched : (⟨keyword.toList.reverse ++ before.reverse, between ++ '@' :: letters, []⟩ :
      Pattern.Cursor) ∈ (Pattern.either (.text "call") (.text "invoke")).ends
        ⟨before.reverse, keyword.toList ++ (between ++ '@' :: letters), []⟩ := by
    have here : (⟨keyword.toList.reverse ++ before.reverse, between ++ '@' :: letters, []⟩ :
        Pattern.Cursor) ∈ (Pattern.text keyword).ends
          ⟨before.reverse, keyword.toList ++ (between ++ '@' :: letters), []⟩ := by
      rcases Pattern.ends_text keyword
        ⟨before.reverse, keyword.toList ++ (between ++ '@' :: letters), []⟩ with
        ⟨rest, isNext, found⟩ | ⟨fails, -⟩
      · rw [found, ← List.append_cancel_left isNext]
        exact List.mem_singleton_self _
      · exact absurd (List.prefix_append _ _) fails
    rw [Pattern.ends]
    simp only [List.mem_cons, List.not_mem_nil, or_false] at isKeyword
    rcases isKeyword with rfl | rfl
    · exact List.mem_append_left _ here
    · exact List.mem_append_right _ here
  rw [callRe, Pattern.sequence, Pattern.ends, Pattern.ends, List.head?_reverse, start, nextWord,
    if_neg Bool.false_ne_true, List.flatMap_cons, List.flatMap_nil, List.append_nil,
    Pattern.sequence, Pattern.ends]
  apply Pattern.flatMap_ne_nil matched
  rw [Pattern.sequence, Pattern.ends, Pattern.ends, lastWord, noWord,
    if_neg Bool.false_ne_true.symm, List.flatMap_cons, List.flatMap_nil, List.append_nil]
  have behind : ∃ found others, calleeRe.ends
      ⟨keyword.toList.reverse ++ before.reverse, between ++ '@' :: letters, []⟩ =
        found :: others ∧ Reads letters found := ends_callee callee
  rcases behind with ⟨found, others, ends, -⟩
  rw [calleeRe] at ends
  rw [ends]
  exact List.cons_ne_nil _ _

theorem exists_calledName? {name line : String} (prints : PrintsCall tables name line) :
    ∃ after : List Char, calledName? tables line = some (readName (name.toList ++ after)) ∧
      after.head?.any (fun char => continuesName char || char == '-') = false := by
  rcases prints.text with ⟨before, keyword, between, after, isKeyword, whole, clearBefore,
    clearBetween, start, stop, ends⟩
  have starts : (name.toList ++ after).head?.any startsName = true := by
    cases letter : name.toList with
    | nil =>
        have first := prints.starts
        rw [letter] at first
        cases first
    | cons head tail =>
        have first := prints.starts
        rw [letter] at first
        exact first
  have clearKeyword : '@' ∉ keyword.toList := by
    simp only [List.mem_cons, List.not_mem_nil, or_false] at isKeyword
    rcases isKeyword with rfl | rfl
    · decide
    · decide
  have callee : AtCallee (name.toList ++ after) (between ++ '@' :: (name.toList ++ after)) :=
    ⟨⟨between, rfl, clearBetween⟩, starts⟩
  have first : ∀ passed left, before = passed ++ left →
      Pattern.FirstIs (Reads (name.toList ++ after)) ((callRe tables).ends
        ⟨passed.reverse ++ [],
          left ++ (keyword.toList ++ (between ++ '@' :: (name.toList ++ after))), []⟩) := by
    intro passed left split
    apply firstIs_callRe
    refine ⟨⟨left ++ (keyword.toList ++ between), by simp only [List.append_assoc], ?_⟩, starts⟩
    simp only [List.mem_append, not_or]
    refine ⟨?_, clearKeyword, clearBetween⟩
    intro member
    apply clearBefore
    rw [split]
    exact List.mem_append_right _ member
  have here := ends_callRe_ne_nil isKeyword callee start stop
  rw [← List.append_nil before.reverse] at here
  rcases Pattern.exists_searchFrom first here with ⟨found, searched, reads⟩
  refine ⟨after, ?_, ends⟩
  rw [calledName?, Pattern.search, whole, searched]
  exact reads

/-- What follows a name does not make it longer. -/
theorem prefix_takeWhile_iff {start : List Char} (plain : ∀ char ∈ start, continuesName char = true)
    {after : List Char} (ends : after.head?.any continuesName = false) (name : List Char) :
    start <+: (name ++ after).takeWhile continuesName ↔ start <+: name := by
  induction name generalizing start with
  | nil =>
      have nothing : after.takeWhile continuesName = [] := by
        cases after with
        | nil => rfl
        | cons head tail =>
            apply List.takeWhile_cons_of_neg
            rw [Bool.not_eq_true]
            exact ends
      rw [List.nil_append, nothing]
  | cons head tail induction =>
      cases start with
      | nil => simp
      | cons first rest =>
          rcases List.forall_mem_cons.mp plain with ⟨plainFirst, plainRest⟩
          by_cases continued : continuesName head = true
          · rw [List.cons_append, List.takeWhile_cons_of_pos continued, List.cons_prefix_cons,
              List.cons_prefix_cons, induction plainRest]
          · rw [List.cons_append, List.takeWhile_cons_of_neg continued, List.cons_prefix_cons]
            constructor
            · intro none
              exact absurd none (by simp)
            · intro both
              rw [both.1] at plainFirst
              exact absurd plainFirst continued

/-- The script counts the line of a call by the start of the callee's name. -/
theorem reads_of_printsCall {name line start : String} (prints : PrintsCall tables name line)
    (plain : ∀ char ∈ start.toList, continuesName char = true) :
    reads tables start line = startsWith name start := by
  rcases exists_calledName? prints with ⟨after, called, ends⟩
  have stops : after.head?.any continuesName = false := by
    cases after with
    | nil => rfl
    | cons head tail => exact (Bool.or_eq_false_iff.mp ends).1
  rw [reads, called, Option.any_some, Bool.eq_iff_iff, startsWith, startsWith,
    List.isPrefixOf_iff_prefix, List.isPrefixOf_iff_prefix]
  cases letters : name.toList with
  | nil =>
      have first := prints.starts
      rw [letters] at first
      cases first
  | cons head tail =>
      rw [List.cons_append, readName, String.toList_ofList]
      cases text : start.toList with
      | nil => simp
      | cons first rest =>
          rw [text] at plain
          rw [List.cons_prefix_cons, List.cons_prefix_cons,
            prefix_takeWhile_iff (List.forall_mem_cons.mp plain).2 stops]

/-! ## What must stand on a line that the script counts -/

/-- The word `call` or `invoke` stands on the line, and behind it, right after the next
`@`, a name that starts so. -/
def NamesRuntime (tables : UnicodeTables) (start line : String) : Prop :=
  ∃ before keyword between rest, keyword ∈ ["call", "invoke"] ∧
    line.toList = before ++ (keyword.toList ++ (between ++ '@' :: (start.toList ++ rest))) ∧
    '@' ∉ between ∧
    before.getLast?.any (isWord tables) = false ∧
    between.head?.any (isWord tables) = false

theorem NamesRuntime.keyword {start line : String}
    (names : NamesRuntime tables start line) :
    ∃ keyword ∈ ["call", "invoke"], keyword.toList <:+: line.toList := by
  rcases names with ⟨before, keyword, between, rest, isKeyword, whole, -⟩
  refine ⟨keyword, isKeyword, before, between ++ '@' :: (start.toList ++ rest), ?_⟩
  rw [whole, List.append_assoc]

theorem mem_ends_boundary {isWord : Char → Bool} {next : Pattern}
    {cursor found : Pattern.Cursor}
    (member : found ∈ (Pattern.seq (.wordBoundary isWord) next).ends cursor) :
    cursor.before.head?.any isWord ≠ cursor.after.head?.any isWord ∧
      found ∈ next.ends cursor := by
  rcases Pattern.mem_ends_seq member with ⟨middle, atBoundary, ends⟩
  rw [Pattern.ends] at atBoundary
  split at atBoundary
  · cases atBoundary
  · rename_i differ
    rw [List.mem_singleton.mp atBoundary] at ends
    exact ⟨differ, ends⟩

theorem mem_ends_keyword {cursor found : Pattern.Cursor}
    (member : found ∈ (Pattern.either (.text "call") (.text "invoke")).ends cursor) :
    ∃ keyword rest, keyword ∈ ["call", "invoke"] ∧ cursor.after = keyword.toList ++ rest ∧
      found = cursor.advance keyword.toList rest := by
  rw [Pattern.ends] at member
  rcases List.mem_append.mp member with isCall | isInvoke
  · rcases Pattern.mem_ends_text isCall with ⟨rest, isNext, isFound⟩
    exact ⟨"call", rest, by decide, isNext, isFound⟩
  · rcases Pattern.mem_ends_text isInvoke with ⟨rest, isNext, isFound⟩
    exact ⟨"invoke", rest, by decide, isNext, isFound⟩

/-- The name of a match is what it has passed behind the `@`. -/
theorem mem_ends_calleeRe {cursor found : Pattern.Cursor}
    (member : found ∈ calleeRe.ends cursor) :
    ∃ between name rest, cursor.after = between ++ '@' :: (name ++ rest) ∧ '@' ∉ between ∧
      found.group? 1 = some (String.ofList name) := by
  rw [calleeRe, Pattern.sequence] at member
  rcases Pattern.mem_ends_seq member with ⟨middle, isMiddle, member⟩
  rcases Pattern.mem_ends_many isMiddle with ⟨between, left, split, clear, rfl⟩
  rw [Pattern.sequence] at member
  rcases Pattern.mem_ends_seq member with ⟨behind, isBehind, member⟩
  rcases Pattern.mem_ends_text isBehind with ⟨letters, isNext, rfl⟩
  rw [Pattern.sequence, Pattern.sequence] at member
  rcases Pattern.mem_ends_seq member with ⟨last, isLast, member⟩
  rw [Pattern.ends, List.mem_singleton] at member
  rw [Pattern.ends] at isLast
  rcases List.mem_map.mp isLast with ⟨inner, isInner, grouped⟩
  rcases Pattern.mem_ends_seq isInner with ⟨start, isStart, isRest⟩
  rcases Pattern.mem_ends_many isRest with ⟨others, rest, isLetters, -, rfl⟩
  have passed : ∃ first, letters = first :: start.after ∧
      start.before = first :: (['@'].reverse ++ (between.reverse ++ cursor.before)) := by
    rw [Pattern.ends] at isStart
    simp only [Pattern.Cursor.advance] at isStart
    cases letters with
    | nil => cases isStart
    | cons first tail =>
        simp only at isStart
        split at isStart
        · rw [List.mem_singleton.mp isStart]
          exact ⟨first, rfl, rfl⟩
        · cases isStart
  rcases passed with ⟨first, isFirst, isBefore⟩
  refine ⟨between, first :: others, rest, ?_, ?_, ?_⟩
  · rw [split]
    simp only [Pattern.Cursor.advance] at isNext
    rw [isNext, isFirst, isLetters]
    rfl
  · intro inside
    have different := clear '@' inside
    exact absurd different (by decide)
  · rw [member, ← grouped]
    simp only [Pattern.Cursor.group?, Pattern.Cursor.advance, List.find?_cons, decide_true,
      Option.map_some, isBefore]
    have taken := Pattern.take_passed (others.reverse ++ [first])
      (['@'].reverse ++ (between.reverse ++ cursor.before))
    rw [List.append_assoc, List.singleton_append] at taken
    have atSign : "@".toList.reverse = ['@'].reverse := rfl
    rw [atSign, taken, List.reverse_append, List.reverse_reverse, List.reverse_singleton]
    rfl

/-- What the script counts has a keyword and a name of the runtime. -/
theorem namesRuntime_of_reads {start line : String} (counted : reads tables start line = true) :
    NamesRuntime tables start line := by
  rw [reads, calledName?, Pattern.search] at counted
  rcases (Option.any_eq_true ..).mp counted with ⟨name, called, starts⟩
  rcases Option.bind_eq_some_iff.mp called with ⟨found, searched, isName⟩
  rcases Pattern.exists_of_searchFrom searched with ⟨before, rest, split, member⟩
  rw [callRe, Pattern.sequence] at member
  rcases mem_ends_boundary member with ⟨startBoundary, member⟩
  rw [Pattern.sequence] at member
  rcases Pattern.mem_ends_seq member with ⟨middle, isMiddle, member⟩
  rcases mem_ends_keyword isMiddle with ⟨keyword, left, isKeyword, isNext, rfl⟩
  rw [Pattern.sequence] at member
  rcases mem_ends_boundary member with ⟨stopBoundary, member⟩
  rcases mem_ends_calleeRe member with ⟨between, letters, after, isLeft, clear, isGroup⟩
  have isLetters : String.ofList letters = name := Option.some.inj (isGroup.symm.trans isName)
  rw [← isLetters, startsWith, List.isPrefixOf_iff_prefix, String.toList_ofList] at starts
  rcases starts with ⟨others, rfl⟩
  simp only [Pattern.Cursor.advance] at isLeft stopBoundary isNext startBoundary
  refine ⟨before, keyword, between, others ++ after, isKeyword, ?_, clear, ?_, ?_⟩
  · rw [split, isNext, isLeft, List.append_assoc]
  · rw [isNext, (word_next isKeyword left).1, List.append_nil, List.head?_reverse]
      at startBoundary
    exact Bool.eq_false_of_not_eq_true startBoundary
  · rw [(word_next isKeyword _).2, isLeft] at stopBoundary
    cases between with
    | nil => rfl
    | cons head tail => exact Bool.eq_false_of_not_eq_true (Ne.symm stopBoundary)

/-! ## The text of a module -/

/-- A line of a module's text and the direct call it prints under a plain name, if it
prints one. -/
structure PrintedLine where
  text : String
  call? : Option Inst

/-- The function a direct call names. -/
def namedCallee? (values : ValueTable) (inst : Inst) : Option String :=
  inst.op.callSite?.bind fun site => (values.function? site.calledOperand).map Prod.fst

def bodies (module : Module) : List Inst :=
  (module.functions.filter fun function => !function.isDeclaration).flatMap
    Function.instructions

def toolArgument : SanitizerKind → String
  | .ASan => "asan"
  | .UBSan => "ubsan"
  | .MemSan => "msan"
  | .Unknown => ""

/-- The prefix the script looks for. -/
def toolPrefix (kind : SanitizerKind) : String :=
  sanitizerPrefix (normalizeKind (toolArgument kind))

def tools : List SanitizerKind := [.ASan, .UBSan, .MemSan]

/-- The call names a function with the prefix of the tool. -/
def callsRuntime (values : ValueTable) (kind : SanitizerKind) (inst : Inst) : Bool :=
  (namedCallee? values inst).any fun name => startsWith name (toolPrefix kind)

/-- The collector counts the call for the tool. -/
def countsAs (values : ValueTable) (kind : SanitizerKind) (inst : Inst) : Bool :=
  (values.classifyCheck inst.op).any fun check => check.sanitizer = kind

/-- A check, or a call of another function of a runtime. -/
def isOfTool (values : ValueTable) (inst : Inst) : Bool :=
  values.isCheck inst.op || tools.any fun kind => callsRuntime values kind inst

/-- The text of the module has the calls of the tools, each a direct call on a line of its
own. -/
structure Prints (tables : UnicodeTables) (module : Module) (ir : String)
    (lines : List PrintedLine) : Prop where
  text : fileLines ir = lines.map PrintedLine.text
  calls : ∀ line ∈ lines, ∀ inst, line.call? = some inst →
    ∃ name, namedCallee? module.values inst = some name ∧ PrintsCall tables name line.text
  listed : ((lines.filterMap PrintedLine.call?).filter (isOfTool module.values)).Perm
    ((bodies module).filter (isOfTool module.values))

/-- The functions that set a runtime up, and the module constructors that call them. -/
def initializationHooks : List String :=
  ["__asan_init", "__asan_version_mismatch_check_v8", "__asan_register_globals",
    "__asan_unregister_globals", "__asan_register_elf_globals",
    "__asan_unregister_elf_globals", "__asan_register_image_globals",
    "__asan_unregister_image_globals", "__asan_before_dynamic_init",
    "__asan_after_dynamic_init", "__msan_init", "asan.module_ctor", "asan.module_dtor",
    "msan.module_ctor"]

theorem hooks_not_checks :
    ∀ name ∈ initializationHooks, classifySanitizerName (canonicalCalleeName name) = .Unknown := by
  decide

/-- The counters print one total for the tool, and no call of an initialisation hook is
counted by either. -/
structure CountersAgree (tables : UnicodeTables) (module : Module) (ir : String)
    (lines : List PrintedLine) (kind : SanitizerKind) : Prop where
  totals : (main tables (toolArgument kind) ir).total =
    (({} : SanitizerCheckCollector).collectModule module).sanitizerTotals kind
  hooks : ∀ line ∈ lines, ∀ inst name, line.call? = some inst →
    namedCallee? module.values inst = some name → name ∈ initializationHooks →
      reads tables (toolPrefix kind) line.text = false ∧
        countsAs module.values kind inst = false

/-- The module calls the checks of the tool under names with its prefix, no other function
under such a name, and no other line of the text looks like such a call. -/
structure OnlyOwnChecks (tables : UnicodeTables) (module : Module) (lines : List PrintedLine)
    (kind : SanitizerKind) : Prop where
  calls : ∀ inst ∈ bodies module, callsRuntime module.values kind inst = true →
    countsAs module.values kind inst = true
  names : ∀ inst ∈ bodies module, countsAs module.values kind inst = true →
    callsRuntime module.values kind inst = true
  lines : ∀ line ∈ lines, line.call? = none →
    ¬NamesRuntime tables (toolPrefix kind) line.text

/-- The line prints no direct call, and the script reads one of the tool on it. -/
def isStray (tables : UnicodeTables) (kind : SanitizerKind) (line : PrintedLine) : Bool :=
  line.call?.isNone && reads tables (toolPrefix kind) line.text

/-- The script counts a call that is no check, or a line without a call. -/
def ScriptCountsMore (tables : UnicodeTables) (module : Module) (lines : List PrintedLine)
    (kind : SanitizerKind) : Prop :=
  (∃ inst ∈ bodies module, callsRuntime module.values kind inst = true ∧
    countsAs module.values kind inst = false) ∨ ∃ line ∈ lines, isStray tables kind line = true

/-- The collector counts a check that is called under another name. -/
def CollectorCountsMore (module : Module) (kind : SanitizerKind) : Prop :=
  ∃ inst ∈ bodies module, countsAs module.values kind inst = true ∧
    callsRuntime module.values kind inst = false

/-! ## What the collector counts -/

theorem collectModule_eq (collector : SanitizerCheckCollector) (module : Module) :
    collector.collectModule module =
      ((bodies module).filterMap fun inst => module.values.classifyCheck inst.op).foldl
        SanitizerCheckCollector.recordCheck collector := by
  rw [SanitizerCheckCollector.collectModule, bodies]
  generalize module.functions.filter (fun function => !function.isDeclaration) = functions
  induction functions generalizing collector with
  | nil => rfl
  | cons function rest induction =>
      rw [List.foldl_cons, induction, List.flatMap_cons, List.filterMap_append,
        List.foldl_append]
      rfl

/-- A recognised check is one the collector records. -/
theorem isRecorded_of_classifyCheck {values : ValueTable} {op : Op} {check : ClassifiedCheck}
    (classified : values.classifyCheck op = some check) :
    SanitizerCheckCollector.isRecorded check = true := by
  rw [ValueTable.classifyCheck] at classified
  rcases Option.bind_eq_some_iff.mp classified with ⟨site, -, isCheck⟩
  rw [ValueTable.classifyCall] at isCheck
  cases resolved : values.resolveCalledFunction site with
  | none =>
      rw [resolved] at isCheck
      cases isCheck
  | some name =>
      rw [resolved] at isCheck
      simp only [Option.ite_none_left_eq_some] at isCheck
      have nonempty : (canonicalCalleeName name).isEmpty = true →
          classifySanitizerName (canonicalCalleeName name) = .Unknown := by
        intro empty
        rw [String.isEmpty_iff.mp empty]
        decide
      cases kind : classifySanitizerName (canonicalCalleeName name) with
      | Unknown =>
          rw [kind] at isCheck
          cases isCheck.2
      | _ =>
          rw [kind] at isCheck nonempty
          rw [← Option.some.inj isCheck.2, SanitizerCheckCollector.isRecorded]
          cases empty : (canonicalCalleeName name).isEmpty with
          | true => cases nonempty empty
          | false => rfl

theorem sanitizerTotals_collectModule (module : Module) (kind : SanitizerKind) :
    (({} : SanitizerCheckCollector).collectModule module).sanitizerTotals kind =
      (bodies module).countP (countsAs module.values kind) := by
  have fresh : ({} : SanitizerCheckCollector).Counts [] :=
    SanitizerCheckCollector.counts_fresh rfl rfl rfl
  have counts := SanitizerCheckCollector.counts_record fresh
    ((bodies module).filterMap fun inst => module.values.classifyCheck inst.op)
  rw [collectModule_eq, counts.totals, List.nil_append]
  induction bodies module with
  | nil => rfl
  | cons inst rest induction =>
      rw [List.countP_cons, countsAs, ← induction]
      cases classified : module.values.classifyCheck inst.op with
      | none => simp [classified]
      | some check =>
          simp only [List.filterMap_cons, classified,
            List.filter_cons_of_pos (isRecorded_of_classifyCheck classified)]
          rw [SanitizerCheckCollector.ofSanitizer, List.filter_cons]
          by_cases same : check.sanitizer = kind
          · simp [same, SanitizerCheckCollector.ofSanitizer]
          · simp [same, SanitizerCheckCollector.ofSanitizer]

section Agreement

variable {module : Module} {ir : String} {lines : List PrintedLine} {kind : SanitizerKind}

theorem isOfTool_of_callsRuntime (tool : kind ∈ tools) {values : ValueTable} {inst : Inst}
    (calls : callsRuntime values kind inst = true) : isOfTool values inst = true := by
  rw [isOfTool, Bool.or_eq_true, List.any_eq_true]
  exact .inr ⟨kind, tool, calls⟩

/-- The calls of a sort are as many on the lines as in the module. -/
theorem countP_lines (prints : Prints tables module ir lines) {counted : Inst → Bool}
    (ofTool : ∀ inst, counted inst = true → isOfTool module.values inst = true) :
    lines.countP (fun line => line.call?.any counted) = (bodies module).countP counted := by
  have onLines : ∀ lines : List PrintedLine,
      lines.countP (fun line => line.call?.any counted) =
        (lines.filterMap PrintedLine.call?).countP counted := by
    intro lines
    induction lines with
    | nil => rfl
    | cons line rest induction =>
        rw [List.countP_cons, induction, List.filterMap_cons]
        cases line.call? with
        | none => rfl
        | some inst => exact List.countP_cons.symm
  have filtered : ∀ insts : List Inst,
      (insts.filter (isOfTool module.values)).countP counted = insts.countP counted := by
    intro insts
    rw [List.countP_filter]
    apply List.countP_congr
    intro inst _
    rw [Bool.and_eq_true]
    exact ⟨fun both => both.1, fun counts => ⟨counts, ofTool inst counts⟩⟩
  rw [onLines, ← filtered, prints.listed.countP_eq, filtered]

theorem plain_toolPrefix (kind : SanitizerKind) :
    ∀ char ∈ (toolPrefix kind).toList, continuesName char = true := by
  have all : (toolPrefix kind).toList.all continuesName = true := by
    cases kind <;> decide +kernel
  exact List.all_eq_true.mp all

/-- The script's total is the number of calls under the tool's names, and of stray lines. -/
theorem counted_eq (tool : kind ∈ tools) (prints : Prints tables module ir lines) :
    (main tables (toolArgument kind) ir).total =
      (bodies module).countP (callsRuntime module.values kind) +
        lines.countP (isStray tables kind) := by
  have each : ∀ line ∈ lines, reads tables (toolPrefix kind) line.text =
      (line.call?.any (callsRuntime module.values kind) || isStray tables kind line) := by
    intro line member
    rw [isStray]
    cases call : line.call? with
    | none => rfl
    | some inst =>
        rcases prints.calls line member inst call with ⟨name, named, printed⟩
        rw [reads_of_printsCall printed (plain_toolPrefix kind)]
        simp [callsRuntime, named]
  have apart : ∀ line : PrintedLine, line.call?.any (callsRuntime module.values kind) = true →
      isStray tables kind line = false := by
    intro line runs
    rw [isStray]
    cases call : line.call? with
    | none =>
        rw [call] at runs
        cases runs
    | some inst => rfl
  have total : (main tables (toolArgument kind) ir).total =
      (fileLines ir).countP (reads tables (toolPrefix kind)) := by
    have sum := sum_countLines tables (toolPrefix kind) (fileLines ir) []
    rw [List.map_nil, List.sum_nil, Nat.zero_add] at sum
    exact sum
  rw [total, prints.text, List.countP_map,
    ← countP_lines prints fun inst => isOfTool_of_callsRuntime tool]
  clear total prints
  induction lines with
  | nil => rfl
  | cons line rest induction =>
      have others := induction fun line member => each line (List.mem_cons_of_mem _ member)
      have first := each line (List.mem_cons_self ..)
      have separate := apart line
      rw [List.countP_cons, List.countP_cons, List.countP_cons, others, Function.comp_apply, first]
      cases runs : line.call?.any (callsRuntime module.values kind) with
      | false =>
          rw [Bool.false_or, if_neg Bool.false_ne_true]
          omega
      | true =>
          rw [separate runs, Bool.or_false, if_pos rfl, if_neg Bool.false_ne_true]
          omega

/-- Two counts of one list differ by what only one of them counts. -/
theorem countP_balance {α : Type*} (left right : α → Bool) (entries : List α) :
    entries.countP left + entries.countP (fun entry => right entry && !left entry) =
      entries.countP right + entries.countP fun entry => left entry && !right entry := by
  induction entries with
  | nil => rfl
  | cons head tail induction =>
      rw [List.countP_cons, List.countP_cons, List.countP_cons, List.countP_cons]
      cases left head <;> cases right head <;>
        simp only [Bool.not_true, Bool.not_false, Bool.and_true, Bool.and_false,
          Bool.false_eq_true, if_true, if_false] <;> omega

theorem resolveCalledFunction_of_named {values : ValueTable} {site : CallSite} {name : String}
    {intrinsic : IntrinsicID}
    (named : values.function? site.calledOperand = some (name, intrinsic)) :
    values.resolveCalledFunction site = some name := by
  rw [ValueTable.resolveCalledFunction, ValueTable.calledFunction?]
  by_cases exactly : site.exactType = true
  · rw [if_pos exactly, named]
  · have node : values.otherNode? site.calledOperand =
        some (.constant (.function name intrinsic)) := by
      rw [ValueTable.function?] at named
      split at named
      · rename_i kind
        rw [kind, (Prod.mk.inj (Option.some.inj named)).1,
          (Prod.mk.inj (Option.some.inj named)).2]
      · cases named
    have stays : values.stripCallee values.count site.calledOperand = site.calledOperand := by
      cases values.count with
      | zero => rfl
      | succ count => rw [ValueTable.stripCallee, node]
    rw [if_neg exactly]
    simp only [stays, node]

/-- A function that is called by name is counted by its name. -/
theorem countsAs_eq_false {values : ValueTable} {inst : Inst} {name : String}
    (named : namedCallee? values inst = some name)
    (noCheck : classifySanitizerName (canonicalCalleeName name) = .Unknown) :
    countsAs values kind inst = false := by
  rcases Option.bind_eq_some_iff.mp named with ⟨site, isSite, isFunction⟩
  rcases Option.map_eq_some_iff.mp isFunction with ⟨⟨_, intrinsic⟩, found, rfl⟩
  rw [countsAs, ValueTable.classifyCheck, isSite, Option.bind_some, ValueTable.classifyCall,
    resolveCalledFunction_of_named found]
  simp only [noCheck, ite_self]
  rfl

/-- What the script counts beyond the collector's total, and the other way round. -/
theorem totals_balance (tool : kind ∈ tools) (prints : Prints tables module ir lines) :
    (main tables (toolArgument kind) ir).total +
        (bodies module).countP (fun inst =>
          countsAs module.values kind inst && !callsRuntime module.values kind inst) =
      (({} : SanitizerCheckCollector).collectModule module).sanitizerTotals kind +
        (bodies module).countP (fun inst =>
          callsRuntime module.values kind inst && !countsAs module.values kind inst) +
        lines.countP (isStray tables kind) := by
  have balance := countP_balance (callsRuntime module.values kind)
    (countsAs module.values kind) (bodies module)
  rw [counted_eq tool prints, sanitizerTotals_collectModule]
  omega

theorem scriptCountsMore_iff :
    ScriptCountsMore tables module lines kind ↔
      0 < (bodies module).countP (fun inst =>
        callsRuntime module.values kind inst && !countsAs module.values kind inst) +
          lines.countP (isStray tables kind) := by
  rw [ScriptCountsMore, Nat.add_pos_iff_pos_or_pos, List.countP_pos_iff, List.countP_pos_iff]
  simp only [Bool.and_eq_true, Bool.not_eq_true']

theorem collectorCountsMore_iff :
    CollectorCountsMore module kind ↔
      0 < (bodies module).countP (fun inst =>
        countsAs module.values kind inst && !callsRuntime module.values kind inst) := by
  rw [CollectorCountsMore, List.countP_pos_iff]
  simp only [Bool.and_eq_true, Bool.not_eq_true']

namespace OnlyOwnChecks

variable (own : OnlyOwnChecks tables module lines kind)
include own

theorem not_scriptCountsMore : ¬ScriptCountsMore tables module lines kind := by
  intro more
  rcases more with ⟨inst, member, calls, noCheck⟩ | ⟨line, member, stray⟩
  · rw [own.calls inst member calls] at noCheck
    cases noCheck
  · rw [isStray, Bool.and_eq_true, Option.isNone_iff_eq_none] at stray
    exact own.lines line member stray.1 (namesRuntime_of_reads stray.2)

theorem not_collectorCountsMore : ¬CollectorCountsMore module kind := by
  intro more
  rcases more with ⟨inst, member, counts, other⟩
  rw [own.names inst member counts] at other
  cases other

/-- A hook is no check, so none with the prefix of the tool is called. -/
theorem hooks (tool : kind ∈ tools) (prints : Prints tables module ir lines)
    {line : PrintedLine} (member : line ∈ lines) {inst : Inst} {name : String}
    (call : line.call? = some inst) (named : namedCallee? module.values inst = some name)
    (isHook : name ∈ initializationHooks) :
    reads tables (toolPrefix kind) line.text = false ∧
      countsAs module.values kind inst = false := by
  have noCheck : countsAs module.values kind inst = false :=
    countsAs_eq_false named (hooks_not_checks name isHook)
  refine ⟨?_, noCheck⟩
  rcases prints.calls line member inst call with ⟨other, isNamed, printed⟩
  rw [reads_of_printsCall printed (plain_toolPrefix kind),
    ← Option.some.inj (named.symm.trans isNamed)]
  by_contra starts
  have calls : callsRuntime module.values kind inst = true := by
    rw [callsRuntime, named]
    exact Bool.eq_true_of_not_eq_false starts
  have inLines : inst ∈ (lines.filterMap PrintedLine.call?).filter
      (isOfTool module.values) := by
    apply List.mem_filter.mpr
    exact ⟨List.mem_filterMap.mpr ⟨line, member, call⟩, isOfTool_of_callsRuntime tool calls⟩
  have inModule := (List.mem_filter.mp (prints.listed.mem_iff.mp inLines)).1
  rw [own.calls inst inModule calls] at noCheck
  cases noCheck

end OnlyOwnChecks

/-- The counters agree on a tool if the module calls its own checks only. If they agree
otherwise, then what the script counts too much makes up for what it misses. -/
theorem countersAgree_of_onlyOwnChecks (tool : kind ∈ tools)
    (prints : Prints tables module ir lines) :
    (OnlyOwnChecks tables module lines kind → CountersAgree tables module ir lines kind) ∧
      (CountersAgree tables module ir lines kind →
        (ScriptCountsMore tables module lines kind ↔ CollectorCountsMore module kind)) := by
  have balance := totals_balance tool prints
  constructor
  · intro own
    constructor
    · have noMore := mt scriptCountsMore_iff.mpr own.not_scriptCountsMore
      have noOther := mt collectorCountsMore_iff.mpr own.not_collectorCountsMore
      omega
    · intro line member inst name call named isHook
      exact own.hooks tool prints member call named isHook
  · intro agree
    have equal := agree.totals
    rw [scriptCountsMore_iff, collectorCountsMore_iff]
    omega

end Agreement

/-! ## A module constructor -/

def asciiTables : UnicodeTables := ⟨fun _ => false, fun _ => false, fun _ => none⟩

/-- A call number `id` of the function number `callee`. -/
def plainCall (id callee : Nat) : Inst :=
  ⟨id, .other 0, .call { calledOperand := .other callee, args := [] }⟩

def plainLine (name : String) : String := "  call void @" ++ name ++ "()\n"

theorem plainLine_printsCall {name : String}
    (starts : name.toList.head?.any startsName = true) :
    PrintsCall asciiTables name (plainLine name) where
  text := by
    refine ⟨[' ', ' '], "call", " void ".toList, "()\n".toList, by decide, ?_, by decide,
      by decide, by decide, by decide, by decide⟩
    simp [plainLine, String.toList_append]
  starts := starts

/-- A module constructor that calls the initialisation hook. -/
def constructorModule : Module where
  functions :=
    [{ name := "asan.module_ctor"
       blocks :=
         [{ id := 0
            insts := [plainCall 0 0]
            terminator := ⟨1, .other 0, .ret none⟩ }] }]
  values :=
    { value := fun _ => ⟨.constant (.function "__asan_init" .notIntrinsic), .pointer⟩
      count := 1 }
  dataLayout := ⟨64, 8⟩

def constructorLines : List PrintedLine :=
  [⟨"define internal void @asan.module_ctor() \x7b\n", none⟩,
   ⟨plainLine "__asan_init", some (plainCall 0 0)⟩,
   ⟨"  ret void\n", none⟩,
   ⟨"\x7d\n", none⟩]

def textOf (lines : List PrintedLine) : String := String.join (lines.map PrintedLine.text)

theorem constructor_prints :
    Prints asciiTables constructorModule (textOf constructorLines) constructorLines where
  text := by decide +kernel
  calls := by
    intro line member inst call
    simp only [constructorLines, List.mem_cons, List.not_mem_nil, or_false] at member
    rcases member with rfl | rfl | rfl | rfl
    · cases call
    · rw [← Option.some.inj call]
      exact ⟨"__asan_init", rfl, plainLine_printsCall (by decide)⟩
    · cases call
    · cases call
  listed := by decide +kernel

/-- The script counts the initialisation hook, the collector does not. -/
theorem constructor_counters_differ :
    Prints asciiTables constructorModule (textOf constructorLines) constructorLines ∧
      ¬CountersAgree asciiTables constructorModule (textOf constructorLines)
        constructorLines .ASan := by
  refine ⟨constructor_prints, ?_⟩
  intro agree
  have totals := agree.totals
  revert totals
  decide +kernel

/-! ## A function with two checks -/

/-- A READ, a call of the program and a WRITE. -/
def checkedModule : Module where
  functions :=
    [{ name := "f"
       blocks :=
         [{ id := 0
            insts := [plainCall 0 0, plainCall 1 1, plainCall 2 2]
            terminator := ⟨3, .other 0, .ret none⟩ }] }]
  values :=
    { value := fun id =>
        ⟨.constant (.function (["__asan_load4", "g"].getD id "__asan_store8") .notIntrinsic),
          .pointer⟩
      count := 3 }
  dataLayout := ⟨64, 8⟩

def checkedLines : List PrintedLine :=
  [⟨"declare void @__asan_load4()\n", none⟩,
   ⟨"define void @f() \x7b\n", none⟩,
   ⟨plainLine "__asan_load4", some (plainCall 0 0)⟩,
   ⟨plainLine "g", some (plainCall 1 1)⟩,
   ⟨plainLine "__asan_store8", some (plainCall 2 2)⟩,
   ⟨"  ret void\n", none⟩,
   ⟨"\x7d\n", none⟩]

theorem checked_prints :
    Prints asciiTables checkedModule (textOf checkedLines) checkedLines where
  text := by decide +kernel
  calls := by
    intro line member inst call
    simp only [checkedLines, List.mem_cons, List.not_mem_nil, or_false] at member
    rcases member with rfl | rfl | rfl | rfl | rfl | rfl | rfl
    · cases call
    · cases call
    · rw [← Option.some.inj call]
      exact ⟨"__asan_load4", rfl, plainLine_printsCall (by decide)⟩
    · rw [← Option.some.inj call]
      exact ⟨"g", rfl, plainLine_printsCall (by decide)⟩
    · rw [← Option.some.inj call]
      exact ⟨"__asan_store8", rfl, plainLine_printsCall (by decide)⟩
    · cases call
    · cases call
  listed := by decide +kernel

theorem checked_onlyOwnChecks :
    OnlyOwnChecks asciiTables checkedModule checkedLines .ASan where
  calls := by decide +kernel
  names := by decide +kernel
  lines := by
    intro line member noCall names
    rcases names.keyword with ⟨keyword, isKeyword, inside⟩
    have noKeyword : ∀ line ∈ checkedLines, line.call? = none →
        ∀ keyword ∈ ["call", "invoke"], ¬keyword.toList <:+: line.text.toList := by
      decide +kernel
    exact noKeyword line member noCall keyword isKeyword inside

theorem checked_counters_agree :
    CountersAgree asciiTables checkedModule (textOf checkedLines) checkedLines .ASan :=
  (countersAgree_of_onlyOwnChecks (by decide) checked_prints).1 checked_onlyOwnChecks

end CountSanitizerChecks

end Desan
