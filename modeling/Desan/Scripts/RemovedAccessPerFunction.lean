import Mathlib.Algebra.BigOperators.Group.List.Basic
import Mathlib.Algebra.GroupWithZero.Nat
import Mathlib.Data.List.Induction
import Desan.Scripts.PrintedIR
import Desan.Scripts.TextFile

/-! # Disabled checks, function by function

The parser keeps one dictionary of blocks for the whole text. A branch counts as often
as its block is visited, and its successor is the last block of the text with that
label. -/

namespace Desan

/-! ## Places of a list -/

/-- The places of a list: what stands before, at and after each of them. -/
def splits {α : Type*} : List α → List α → List (List α × α × List α)
  | _, [] => []
  | before, head :: rest => (before, head, rest) :: splits (before ++ [head]) rest

namespace SanrazorRemovedAccess

variable (tables : UnicodeTables)

/-! ## What the file counts -/

def labels (lines : List String) : List String := lines.filterMap (blockLabel? tables)

/-- How often the loop over the order reads a line. A block is visited once for each
block with its label, if it is the last of them; what stands before all labels is
dropped. -/
def visits (before : List String) (line : String) (after : List String) : Nat :=
  match blockLabel? tables line, (labels tables before).getLast? with
  | none, some label =>
      if label ∈ labels tables after then 0 else (labels tables before).count label
  | _, _ => 0

namespace ParsedBlocks

/-- The sum of a weight over the lines of a block. -/
def blockWeight (weight : String → Nat) (state : ParsedBlocks) (label : String) : Nat :=
  (((state.blocks label).getD []).map weight).sum

end ParsedBlocks

theorem parseBlocks_append (before : List String) (line : String) :
    parseBlocks tables (before ++ [line]) = parseLine tables (parseBlocks tables before) line := by
  rw [parseBlocks, List.foldl_append]
  rfl

section Parse

variable {tables} {before : List String} {line label : String}

theorem parseBlocks_label (found : blockLabel? tables line = some label) :
    parseBlocks tables (before ++ [line]) =
      { blocks := Function.update (parseBlocks tables before).blocks label (some [])
        order := (parseBlocks tables before).order ++ [label]
        current := some label } := by
  rw [parseBlocks_append, parseLine, found]

theorem parseBlocks_stray (found : blockLabel? tables line = none)
    (current : (parseBlocks tables before).current = none) :
    parseBlocks tables (before ++ [line]) = parseBlocks tables before := by
  rw [parseBlocks_append, parseLine, found, current]

theorem parseBlocks_line (found : blockLabel? tables line = none)
    (current : (parseBlocks tables before).current = some label) :
    parseBlocks tables (before ++ [line]) =
      { parseBlocks tables before with
        blocks := Function.update (parseBlocks tables before).blocks label
          (((parseBlocks tables before).blocks label).map fun lines => lines ++ [line]) } := by
  simp only [parseBlocks_append, parseLine, found, current]

end Parse

/-- What the parser has read: every label, and a block for each. -/
structure Read (lines : List String) : Prop where
  order : (parseBlocks tables lines).order = labels tables lines
  current : (parseBlocks tables lines).current = (labels tables lines).getLast?
  blocks : ∀ label ∈ labels tables lines, ((parseBlocks tables lines).blocks label).isSome

theorem labels_append (before : List String) (line : String) :
    labels tables (before ++ [line]) =
      labels tables before ++ (blockLabel? tables line).toList := by
  rw [labels, List.filterMap_append, labels]
  cases found : blockLabel? tables line <;> simp [found]

theorem read (lines : List String) : Read tables lines := by
  induction lines using List.reverseRecOn with
  | nil =>
      refine ⟨rfl, rfl, ?_⟩
      intro label member
      exact absurd member List.not_mem_nil
  | append_singleton before line induction =>
      have labelled := labels_append tables before line
      cases found : blockLabel? tables line with
      | some label =>
          rw [found] at labelled
          have parsed : parseBlocks tables (before ++ [line]) = _ := parseBlocks_label found
          refine ⟨?_, ?_, ?_⟩
          · rw [parsed, labelled, induction.order]
            rfl
          · rw [parsed, labelled]
            simp
          · intro other member
            rw [parsed]
            by_cases same : other = label
            · rw [same]
              simp
            · rw [labelled] at member
              have earlier : other ∈ labels tables before := by simpa [same] using member
              simp only [Function.update_of_ne same]
              exact induction.blocks other earlier
      | none =>
          have sameLabels : labels tables (before ++ [line]) = labels tables before := by
            rw [labelled, found]
            exact List.append_nil _
          cases current : (parseBlocks tables before).current with
          | none =>
              have same := parseBlocks_stray found current
              refine ⟨?_, ?_, ?_⟩
              · rw [same, sameLabels, induction.order]
              · rw [same, sameLabels, induction.current]
              · rw [same, sameLabels]
                exact induction.blocks
          | some label =>
              have parsed := parseBlocks_line found current
              refine ⟨?_, ?_, ?_⟩
              · rw [parsed, sameLabels]
                exact induction.order
              · rw [parsed, sameLabels]
                exact induction.current
              · intro other member
                rw [sameLabels] at member
                rw [parsed]
                have present := induction.blocks other member
                by_cases same : other = label
                · rw [same] at present ⊢
                  simpa using present
                · simp only [Function.update_of_ne same]
                  exact present

/-! ## The loop over the order -/

/-- The sum of a weight over all lines that the loop over the order reads. -/
def ParsedBlocks.total (weight : String → Nat) (state : ParsedBlocks) : Nat :=
  (state.order.map (state.blockWeight weight)).sum

/-- The blocks that no later label takes over. -/
def ParsedBlocks.lasting (weight : String → Nat) (state : ParsedBlocks)
    (after : List String) : Nat :=
  ((state.order.filter fun label => label ∉ labels tables after).map
    (state.blockWeight weight)).sum

/-- The weights of the lines behind a place, each as often as it is read. -/
def readWeight (weight : String → Nat) (before after : List String) : Nat :=
  ((splits before after).map fun place =>
    visits tables place.1 place.2.1 place.2.2 * weight place.2.1).sum

theorem readWeight_cons (weight : String → Nat) (before : List String) (line : String)
    (rest : List String) :
    readWeight tables weight before (line :: rest) =
      visits tables before line rest * weight line +
        readWeight tables weight (before ++ [line]) rest := by
  rw [readWeight, splits, List.map_cons, List.sum_cons, readWeight]

theorem labels_cons_of_label {line label : String} {rest : List String}
    (found : blockLabel? tables line = some label) :
    labels tables (line :: rest) = label :: labels tables rest := by
  rw [labels, List.filterMap_cons, found, labels]

theorem labels_cons_of_line {line : String} {rest : List String}
    (found : blockLabel? tables line = none) :
    labels tables (line :: rest) = labels tables rest := by
  rw [labels, List.filterMap_cons, found, labels]

/-- A label starts an empty block and takes over those with the same label. -/
theorem lasting_of_label (weight : String → Nat) {before rest : List String} {line label : String}
    (found : blockLabel? tables line = some label) :
    (parseBlocks tables (before ++ [line])).lasting tables weight rest =
      (parseBlocks tables before).lasting tables weight (line :: rest) := by
  rw [ParsedBlocks.lasting, ParsedBlocks.lasting, parseBlocks_label found,
    labels_cons_of_label tables found]
  have empties : ∀ order : List String,
      ((order.filter fun other => other ∉ labels tables rest).map
        (ParsedBlocks.blockWeight weight
          { blocks := Function.update (parseBlocks tables before).blocks label (some [])
            order := (parseBlocks tables before).order ++ [label]
            current := some label })).sum =
      ((order.filter fun other => other ∉ label :: labels tables rest).map
        ((parseBlocks tables before).blockWeight weight)).sum := by
    intro order
    induction order with
    | nil => rfl
    | cons other others induction =>
        by_cases taken : other ∈ labels tables rest
        · simpa [taken] using induction
        · by_cases same : other = label
          · rw [List.filter_cons_of_pos (by simpa using taken), List.map_cons, List.sum_cons,
              induction, same, ParsedBlocks.blockWeight]
            simp
          · rw [List.filter_cons_of_pos (by simpa using taken),
              List.filter_cons_of_pos (by simp [same, taken]), List.map_cons, List.sum_cons,
              induction, ParsedBlocks.blockWeight]
            simp only [Function.update_of_ne same]
            rfl
  rw [empties, List.filter_append]
  simp

/-- A line grows the current block, which may be visited many times. -/
theorem lasting_of_line (weight : String → Nat) {before rest : List String} {line : String}
    (found : blockLabel? tables line = none) :
    (parseBlocks tables (before ++ [line])).lasting tables weight rest =
      (parseBlocks tables before).lasting tables weight (line :: rest) +
        visits tables before line rest * weight line := by
  have known := read tables before
  rw [ParsedBlocks.lasting, ParsedBlocks.lasting, labels_cons_of_line tables found]
  cases current : (parseBlocks tables before).current with
  | none =>
      have unread : visits tables before line rest = 0 := by
        rw [visits, found, ← known.current, current]
      rw [parseBlocks_stray found current, unread]
      omega
  | some label =>
      have reading : visits tables before line rest =
          if label ∈ labels tables rest then 0 else (labels tables before).count label := by
        rw [visits, found, ← known.current, current]
      have grown : ∀ other, (parseBlocks tables (before ++ [line])).blockWeight weight other =
          (parseBlocks tables before).blockWeight weight other +
            if other = label then weight line else 0 := by
        intro other
        rw [ParsedBlocks.blockWeight, ParsedBlocks.blockWeight, parseBlocks_line found current]
        by_cases same : other = label
        · have inside : label ∈ labels tables before :=
            List.mem_of_getLast? (known.current.symm.trans current)
          rcases Option.isSome_iff_exists.mp (known.blocks label inside) with ⟨lines, present⟩
          rw [same, if_pos rfl]
          simp [present]
        · simp only [Function.update_of_ne same, if_neg same]
          rfl
      have grows : ∀ order : List String,
          ((order.filter fun other => other ∉ labels tables rest).map
            ((parseBlocks tables (before ++ [line])).blockWeight weight)).sum =
          ((order.filter fun other => other ∉ labels tables rest).map
            ((parseBlocks tables before).blockWeight weight)).sum +
            (if label ∈ labels tables rest then 0 else order.count label) * weight line := by
        intro order
        induction order with
        | nil => simp
        | cons other others induction =>
            by_cases taken : other ∈ labels tables rest
            · have skipped : (if label ∈ labels tables rest then 0
                  else (other :: others).count label) =
                  if label ∈ labels tables rest then 0 else others.count label := by
                by_cases same : other = label
                · rw [if_pos (same ▸ taken), if_pos (same ▸ taken)]
                · rw [List.count_cons_of_ne same]
              rw [skipped]
              simpa [taken] using induction
            · rw [List.filter_cons_of_pos (by simpa using taken), List.map_cons, List.map_cons,
                List.sum_cons, List.sum_cons, induction, grown]
              by_cases same : other = label
              · rw [same] at taken ⊢
                simp only [if_neg taken, if_true, List.count_cons_self, Nat.add_mul, Nat.one_mul]
                omega
              · rw [List.count_cons_of_ne same, if_neg same]
                omega
      have sameOrder : (parseBlocks tables (before ++ [line])).order =
          (parseBlocks tables before).order := by
        rw [parseBlocks_line found current]
      rw [sameOrder, grows, reading, known.order]

/-- What is read in the end are the lasting blocks and the lines still to come. -/
theorem total_parse (weight : String → Nat) (before after : List String) :
    (parseBlocks tables (before ++ after)).total weight =
      (parseBlocks tables before).lasting tables weight after +
        readWeight tables weight before after := by
  induction after generalizing before with
  | nil =>
      have all : (parseBlocks tables before).order.filter
          (fun label => label ∉ labels tables []) = (parseBlocks tables before).order := by
        apply List.filter_eq_self.mpr
        intro label _
        simp [labels]
      rw [List.append_nil, ParsedBlocks.total, ParsedBlocks.lasting, all]
      rfl
  | cons line rest induction =>
      have whole : before ++ line :: rest = before ++ [line] ++ rest := by simp
      rw [whole, induction, readWeight_cons]
      cases found : blockLabel? tables line with
      | some label =>
          have unread : visits tables before line rest = 0 := by
            rw [visits, found]
          rw [lasting_of_label tables weight found, unread]
          omega
      | none =>
          rw [lasting_of_line tables weight found]
          omega

/-! ## The counters -/

/-- One for a line that disables a check of the kind. -/
def kindWeight (typeKinds : String → Option Nat) (blocks : String → Option (List String))
    (kind : AccessType) (line : String) : Nat :=
  if (disabledCheck? tables typeKinds blocks line).map DisabledCheck.kind = some kind then 1
  else 0

theorem counts_foldl_lines (typeKinds : String → Option Nat)
    (blocks : String → Option (List String)) (kind : AccessType) (label : String)
    (lines : List String) (state : Counts) :
    (lines.foldl (fun state line =>
      match disabledCheck? tables typeKinds blocks line with
      | some found => state.add label found
      | none => state) state).counts kind =
        state.counts kind + (lines.map (kindWeight tables typeKinds blocks kind)).sum := by
  induction lines generalizing state with
  | nil => rfl
  | cons line rest induction =>
      rw [List.foldl_cons, induction, List.map_cons, List.sum_cons, kindWeight]
      cases check : disabledCheck? tables typeKinds blocks line with
      | none => simp
      | some found =>
          by_cases same : found.kind = kind
          · simp only [Counts.add, same, Function.update_self, Option.map_some, if_true]
            omega
          · have other : kind ≠ found.kind := fun equal => same equal.symm
            simp only [Counts.add, Function.update_of_ne other, Option.map_some,
              Option.some.injEq, same, if_false]
            omega

theorem counts_foldl_order (typeKinds : String → Option Nat) (parsed : ParsedBlocks)
    (kind : AccessType) (order : List String) (state : Counts) :
    (order.foldl (fun state label =>
      ((parsed.blocks label).getD []).foldl (fun state line =>
        match disabledCheck? tables typeKinds parsed.blocks line with
        | some found => state.add label found
        | none => state) state) state).counts kind =
        state.counts kind +
          (order.map (parsed.blockWeight (kindWeight tables typeKinds parsed.blocks kind))).sum := by
  induction order generalizing state with
  | nil => rfl
  | cons label rest induction =>
      rw [List.foldl_cons, induction, counts_foldl_lines, List.map_cons, List.sum_cons,
        ParsedBlocks.blockWeight]
      omega

/-- How much a line adds to the count of a kind in the file. -/
def counted (lines : List String) (kind : AccessType)
    (place : List String × String × List String) : Nat :=
  visits tables place.1 place.2.1 place.2.2 *
    kindWeight tables (parseTypeMismatchKinds tables lines) (parseBlocks tables lines).blocks kind
      place.2.1

/-- The file counts every line as often as it is read, by the last block of the text with
the label of its successor. -/
theorem counts_countFile (lines : List String) (kind : AccessType) :
    (countFile tables lines).counts kind =
      ((splits [] lines).map (counted tables lines kind)).sum := by
  have folded := counts_foldl_order tables (parseTypeMismatchKinds tables lines)
    (parseBlocks tables lines) kind (parseBlocks tables lines).order {}
  have read := total_parse tables
    (kindWeight tables (parseTypeMismatchKinds tables lines) (parseBlocks tables lines).blocks kind)
    [] lines
  refine folded.trans ?_
  rw [List.nil_append, ParsedBlocks.total] at read
  rw [read]
  have nothing : (parseBlocks tables []).lasting tables
      (kindWeight tables (parseTypeMismatchKinds tables lines)
        (parseBlocks tables lines).blocks kind) lines = 0 := rfl
  rw [nothing, Nat.zero_add]
  exact Nat.zero_add _

/-! ## What each function holds -/

def isBoundary (line : String) : Bool := startsWith line "define" || line == "\x7d"

/-- The bodies of the functions of a text: what stands between the line that defines a
function and the closing brace. -/
def functionBodies : List String → List (List String)
  | [] => []
  | line :: rest =>
      if startsWith line "define" then
        rest.takeWhile (fun other => !isBoundary other) :: functionBodies rest
      else functionBodies rest

/-- The lines of the block of a function with a label. -/
def blockIn (body : List String) (label : String) : Option (List String) :=
  match body.dropWhile fun line => PrintedIR.label? line ≠ some label with
  | [] => none
  | _ :: rest => some (rest.takeWhile fun line => PrintedIR.label? line = none)

/-- The block of a function that a tagged branch on a constant does not take. -/
def notTakenIn (body : List String) (line : String) : Option (List String) :=
  (PrintedIR.disabledSucc? line).bind (blockIn body)

/-- The class of the handler that a line names. -/
def handlerKind (lines : List String) (line : String) : AccessType :=
  (classifyHandler tables line (parseTypeMismatchKinds tables lines)).1

/-- One for a tagged branch of a function whose successor that is not taken has a call of
a handler of the kind. -/
def dueWeight (lines : List String) (kind : AccessType) (body : List String)
    (line : String) : Nat :=
  if (notTakenIn body line).any fun block =>
    block.any fun call => PrintedIR.callsHandler call && handlerKind tables lines call = kind
  then 1 else 0

def functionCount (lines : List String) (kind : AccessType) (body : List String) : Nat :=
  (body.map (dueWeight tables lines kind body)).sum

/-- The body around a place, if it is in a function. -/
def enclosing (before : List String) (line : String) (after : List String) :
    Option (List String) :=
  if isBoundary line then none
  else
    match before.reverse.dropWhile fun other => !isBoundary other with
    | [] => none
    | opening :: _ =>
        if startsWith opening "define" then
          some ((before.reverse.takeWhile fun other => !isBoundary other).reverse ++
            line :: after.takeWhile fun other => !isBoundary other)
        else none

/-- How much a line should add to the count of a kind. -/
def due (lines : List String) (kind : AccessType)
    (place : List String × String × List String) : Nat :=
  match enclosing place.1 place.2.1 place.2.2 with
  | none => 0
  | some body => dueWeight tables lines kind body place.2.1

/-- The part of the body around a place that stands before it, if it is in a function. -/
def openBody (before : List String) : Option (List String) :=
  match before.reverse.dropWhile fun other => !isBoundary other with
  | [] => none
  | opening :: _ =>
      if startsWith opening "define" then
        some (before.reverse.takeWhile fun other => !isBoundary other).reverse
      else none

theorem enclosing_eq (before : List String) (line : String) (after : List String) :
    enclosing before line after =
      if isBoundary line then none
      else (openBody before).map fun body =>
        body ++ line :: after.takeWhile fun other => !isBoundary other := by
  rw [enclosing, openBody]
  split
  · rfl
  · split
    · rfl
    · split <;> rfl

theorem openBody_append_of_boundary {before : List String} {line : String}
    (boundary : isBoundary line = true) :
    openBody (before ++ [line]) = if startsWith line "define" then some [] else none := by
  rw [openBody, List.reverse_append, List.reverse_singleton, List.singleton_append,
    List.dropWhile_cons_of_neg (by simp [boundary]),
    List.takeWhile_cons_of_neg (by simp [boundary])]
  rfl

theorem openBody_append_of_line {before : List String} {line : String}
    (inside : isBoundary line = false) :
    openBody (before ++ [line]) = (openBody before).map fun body => body ++ [line] := by
  rw [openBody, openBody, List.reverse_append, List.reverse_singleton, List.singleton_append,
    List.dropWhile_cons_of_pos (by simp [inside]),
    List.takeWhile_cons_of_pos (by simp [inside])]
  split
  · rfl
  · split
    · simp
    · rfl

/-- What is due in the rest of the function around a place. -/
def openCount (lines : List String) (kind : AccessType) (after : List String) :
    Option (List String) → Nat
  | none => 0
  | some body =>
      let rest := after.takeWhile fun other => !isBoundary other
      (rest.map (dueWeight tables lines kind (body ++ rest))).sum

/-- What is due behind a place: the rest of the function around it, and the functions
still to come. -/
theorem sum_due (lines : List String) (kind : AccessType) (before after : List String) :
    ((splits before after).map (due tables lines kind)).sum =
      openCount tables lines kind after (openBody before) +
        ((functionBodies after).map (functionCount tables lines kind)).sum := by
  induction after generalizing before with
  | nil => cases openBody before <;> rfl
  | cons line rest induction =>
      rw [splits, List.map_cons, List.sum_cons, induction, functionBodies, due]
      simp only [enclosing_eq]
      by_cases boundary : isBoundary line = true
      · have ended : openCount tables lines kind (line :: rest) (openBody before) = 0 := by
          cases openBody before with
          | none => rfl
          | some body =>
              rw [openCount, List.takeWhile_cons_of_neg (by simp [boundary])]
              rfl
        rw [openBody_append_of_boundary boundary, if_pos boundary, ended]
        by_cases opens : startsWith line "define" = true
        · simp only [if_pos opens, List.map_cons, List.sum_cons, Nat.zero_add]
          rfl
        · simp only [if_neg opens, Nat.zero_add]
          rw [openCount, Nat.zero_add]
      · have inside : isBoundary line = false := Bool.not_eq_true _ ▸ boundary
        have opensNone : startsWith line "define" ≠ true := by
          intro opens
          rw [isBoundary, opens] at boundary
          exact boundary rfl
        rw [openBody_append_of_line inside, if_neg boundary, if_neg opensNone]
        cases openBody before with
        | none => exact Nat.zero_add _
        | some body =>
            simp only [Option.map_some, openCount]
            rw [List.takeWhile_cons_of_pos (by simp [inside]), List.map_cons, List.sum_cons]
            simp only [List.append_assoc, List.singleton_append]
            omega

/-! ## Labels kept apart -/

/-- The lines behind the last label of the text with this name, up to the next label. -/
def textUnder (label : String) : List String → Option (List String)
  | [] => none
  | line :: rest =>
      match textUnder label rest with
      | some found => some found
      | none =>
          if blockLabel? tables line = some label then
            some (rest.takeWhile fun other => blockLabel? tables other = none)
          else none

/-- The successor that a line of the file disables. -/
def disabledSuccessor? (line : String) : Option String := do
  let branch ← (constBranchRe tables).search line
  let const ← branch.group? 1
  let trueSucc ← branch.group? 2
  let falseSucc ← branch.group? 3
  if occursIn "!sanitycheck" line = false then none
  else some (if const = "true" then falseSucc else trueSucc)

def namesHandler (line : String) : Bool := (ubsanCallRe.search line).isSome

/-- The block that the line at a place disables in its function calls a handler. -/
def DisablesHandler (place : List String × String × List String) : Prop :=
  ∃ body ∈ enclosing place.1 place.2.1 place.2.2, ∃ block ∈ notTakenIn body place.2.1,
    ∃ call ∈ block, PrintedIR.callsHandler call = true

instance (place : List String × String × List String) : Decidable (DisablesHandler place) :=
  inferInstanceAs (Decidable (∃ body ∈ enclosing place.1 place.2.1 place.2.2,
    ∃ block ∈ notTakenIn body place.2.1, ∃ call ∈ block, PrintedIR.callsHandler call = true))

/-- The label before a place is used nowhere else in the text. -/
def OwnLabel (place : List String × String × List String) : Prop :=
  ∃ label ∈ (labels tables place.1).getLast?, (labels tables place.1).count label = 1 ∧
    label ∉ labels tables place.2.2

/-- The label of the block that the line at a place disables is used once in its function,
and not behind it. -/
def SuccessorLabel (place : List String × String × List String) : Prop :=
  ∀ succ ∈ PrintedIR.disabledSucc? place.2.1,
    ∀ body ∈ enclosing place.1 place.2.1 place.2.2, (labels tables body).count succ = 1 ∧
      succ ∉ labels tables (place.2.2.dropWhile fun other => !isBoundary other)

/-- All handlers of the block that the line at a place disables are of one class. -/
def OneClass (lines : List String) (place : List String × String × List String) : Prop :=
  ∀ body ∈ enclosing place.1 place.2.1 place.2.2, ∀ block ∈ notTakenIn body place.2.1,
    ∀ first ∈ block, ∀ second ∈ block, namesHandler first = true → namesHandler second = true →
      handlerKind tables lines first = handlerKind tables lines second

/-- No label stands before a place, or a later block has the same one. -/
def Hidden (place : List String × String × List String) : Prop :=
  ∀ label ∈ (labels tables place.1).getLast?, label ∈ labels tables place.2.2

/-- What stands under the last label with the name of the successor that the line at a
place disables names no handler. -/
def NoHandler (lines : List String) (place : List String × String × List String) : Prop :=
  ∀ succ ∈ PrintedIR.disabledSucc? place.2.1, ∀ block ∈ textUnder tables succ lines,
    ∀ line ∈ block, namesHandler line = false

instance (place : List String × String × List String) : Decidable (OwnLabel tables place) :=
  inferInstanceAs (Decidable (∃ label ∈ (labels tables place.1).getLast?,
    (labels tables place.1).count label = 1 ∧ label ∉ labels tables place.2.2))

instance (place : List String × String × List String) :
    Decidable (SuccessorLabel tables place) :=
  inferInstanceAs (Decidable (∀ succ ∈ PrintedIR.disabledSucc? place.2.1,
    ∀ body ∈ enclosing place.1 place.2.1 place.2.2, (labels tables body).count succ = 1 ∧
      succ ∉ labels tables (place.2.2.dropWhile fun other => !isBoundary other)))

instance (lines : List String) (place : List String × String × List String) :
    Decidable (OneClass tables lines place) :=
  inferInstanceAs (Decidable (∀ body ∈ enclosing place.1 place.2.1 place.2.2,
    ∀ block ∈ notTakenIn body place.2.1, ∀ first ∈ block, ∀ second ∈ block,
      namesHandler first = true → namesHandler second = true →
        handlerKind tables lines first = handlerKind tables lines second))

instance (place : List String × String × List String) : Decidable (Hidden tables place) :=
  inferInstanceAs (Decidable (∀ label ∈ (labels tables place.1).getLast?,
    label ∈ labels tables place.2.2))

instance (lines : List String) (place : List String × String × List String) :
    Decidable (NoHandler tables lines place) :=
  inferInstanceAs (Decidable (∀ succ ∈ PrintedIR.disabledSucc? place.2.1,
    ∀ block ∈ textUnder tables succ lines, ∀ line ∈ block, namesHandler line = false))

/-- The blocks of a text are where their labels lead. -/
structure LabelsApart (lines : List String) : Prop where
  labels : ∀ line ∈ lines, blockLabel? tables line = PrintedIR.label? line
  branches : ∀ line ∈ lines, disabledSuccessor? tables line = PrintedIR.disabledSucc? line
  handlers : ∀ place ∈ splits [] lines, DisablesHandler place →
    OwnLabel tables place ∧ SuccessorLabel tables place ∧ OneClass tables lines place
  others : ∀ place ∈ splits [] lines, ¬DisablesHandler place →
    NoHandler tables lines place ∨ Hidden tables place

theorem eq_of_mem_splits {α : Type*} {before rest : List α} {place : List α × α × List α}
    (member : place ∈ splits before rest) : before ++ rest = place.1 ++ place.2.1 :: place.2.2 := by
  induction rest generalizing before with
  | nil => cases member
  | cons head tail induction =>
      rcases List.mem_cons.mp member with rfl | later
      · rfl
      · rw [← induction later, List.append_assoc]
        rfl

/-! ## The block under a label -/

theorem labels_append_list (first second : List String) :
    labels tables (first ++ second) = labels tables first ++ labels tables second :=
  List.filterMap_append

/-- What the dictionary holds under a label. -/
theorem blocks_foldl (label : String) (lines : List String) (state : ParsedBlocks) :
    (lines.foldl (parseLine tables) state).blocks label =
      match textUnder tables label lines with
      | some found => some found
      | none =>
          if state.current = some label then
            (state.blocks label).map fun block =>
              block ++ lines.takeWhile fun other => blockLabel? tables other = none
          else state.blocks label := by
  induction lines generalizing state with
  | nil =>
      simp [textUnder]
  | cons line rest induction =>
      rw [List.foldl_cons, induction, textUnder]
      cases under : textUnder tables label rest with
      | some found => rfl
      | none =>
          cases found : blockLabel? tables line with
          | some other =>
              have stops : ((line :: rest).takeWhile fun other =>
                  blockLabel? tables other = none) = [] :=
                List.takeWhile_cons_of_neg (by simp [found])
              by_cases same : other = label
              · simp [parseLine, found, same]
              · have differ : label ≠ other := fun equal => same equal.symm
                simp [parseLine, found, same, stops, Function.update_of_ne differ]
          | none =>
              have goesOn : ((line :: rest).takeWhile fun other =>
                  blockLabel? tables other = none) =
                    line :: rest.takeWhile fun other => blockLabel? tables other = none :=
                List.takeWhile_cons_of_pos (by simp [found])
              cases current : state.current with
              | none => simp [parseLine, found, current]
              | some other =>
                  by_cases same : other = label
                  · simp [parseLine, found, current, same, goesOn, Function.comp_def]
                  · have differ : label ≠ other := fun equal => same equal.symm
                    simp [parseLine, found, current, same, Function.update_of_ne differ]

theorem blocks_eq_textUnder (label : String) (lines : List String) :
    (parseBlocks tables lines).blocks label = textUnder tables label lines := by
  rw [parseBlocks, blocks_foldl]
  cases textUnder tables label lines <;> rfl

theorem textUnder_of_not_mem {label : String} {lines : List String}
    (absent : label ∉ labels tables lines) : textUnder tables label lines = none := by
  induction lines with
  | nil => rfl
  | cons line rest induction =>
      rw [labels, List.filterMap_cons] at absent
      cases found : blockLabel? tables line with
      | none =>
          rw [found] at absent
          rw [textUnder, induction absent, found]
          rfl
      | some other =>
          rw [found] at absent
          have later : label ∉ labels tables rest :=
            fun member => absent (List.mem_cons_of_mem _ member)
          rw [textUnder, induction later, found]
          apply if_neg
          intro same
          rw [Option.some.inj same] at absent
          exact absent (List.mem_cons_self ..)

/-- The last label with a name decides. -/
theorem textUnder_append {label line : String} (before : List String) {rest : List String}
    (found : blockLabel? tables line = some label) (absent : label ∉ labels tables rest) :
    textUnder tables label (before ++ line :: rest) =
      some (rest.takeWhile fun other => blockLabel? tables other = none) := by
  induction before with
  | nil =>
      rw [List.nil_append, textUnder, textUnder_of_not_mem tables absent]
      exact if_pos found
  | cons head tail induction =>
      rw [List.cons_append, textUnder, induction]

theorem exists_takeWhile_append {α : Type*} {first second : α → Bool} {entries : List α}
    (alike : ∀ entry ∈ entries, first entry = second entry) (others : List α) :
    ∃ more, (entries ++ others).takeWhile first = entries.takeWhile second ++ more := by
  induction entries with
  | nil => exact ⟨others.takeWhile first, rfl⟩
  | cons head tail induction =>
      rcases List.forall_mem_cons.mp alike with ⟨same, rest⟩
      rw [List.cons_append, List.takeWhile_cons, List.takeWhile_cons, same]
      cases second head with
      | false => exact ⟨[], rfl⟩
      | true =>
          rcases induction rest with ⟨more, whole⟩
          exact ⟨more, congrArg (head :: ·) whole⟩

/-- A block of a function whose label is used once in it, and not behind it, is the first
part of what stands under the label. -/
theorem exists_textUnder_of_blockIn {before body after block : List String} {label : String}
    (alike : ∀ line ∈ body, blockLabel? tables line = PrintedIR.label? line)
    (inside : blockIn body label = some block) (once : (labels tables body).count label = 1)
    (absent : label ∉ labels tables after) :
    ∃ more, textUnder tables label (before ++ (body ++ after)) = some (block ++ more) := by
  rw [blockIn] at inside
  cases found : body.dropWhile fun line => PrintedIR.label? line ≠ some label with
  | nil =>
      rw [found] at inside
      cases inside
  | cons line rest =>
      rw [found] at inside
      have whole := @List.takeWhile_append_dropWhile _
        (fun line => decide (PrintedIR.label? line ≠ some label)) body
      have stops := List.head?_dropWhile_not
        (fun line => decide (PrintedIR.label? line ≠ some label)) body
      rw [found] at whole stops
      have isLabel : PrintedIR.label? line = some label := by simpa using stops
      rw [← whole] at alike once
      have read : blockLabel? tables line = some label :=
        (alike line (List.mem_append_right _ (List.mem_cons_self ..))).trans isLabel
      rw [labels_append_list, labels_cons_of_label tables read, List.count_append,
        List.count_cons_self] at once
      have absentRest : label ∉ labels tables rest := by
        apply List.count_eq_zero.mp
        omega
      have absentBehind : label ∉ labels tables (rest ++ after) := by
        rw [labels_append_list, List.mem_append]
        exact not_or.mpr ⟨absentRest, absent⟩
      rw [← whole, List.append_assoc, List.cons_append, ← List.append_assoc,
        textUnder_append tables _ read absentBehind, ← Option.some.inj inside]
      have sameReading : ∀ other ∈ rest, decide (blockLabel? tables other = none) =
          decide (PrintedIR.label? other = none) := by
        intro other member
        rw [alike other (List.mem_append_right _ (List.mem_cons_of_mem _ member))]
      rcases exists_takeWhile_append sameReading after with ⟨more, both⟩
      exact ⟨more, congrArg some both⟩

/-- The function around a place in the text. -/
theorem exists_of_enclosing {before after body : List String} {line : String}
    (encloses : enclosing before line after = some body) :
    ∃ earlier, before ++ line :: after =
      earlier ++ (body ++ after.dropWhile fun other => !isBoundary other) := by
  have halves := @List.takeWhile_append_dropWhile _ (fun other => !isBoundary other) before.reverse
  have rest := @List.takeWhile_append_dropWhile _ (fun other => !isBoundary other) after
  have split := congrArg List.reverse halves
  rw [List.reverse_append, List.reverse_reverse] at split
  refine ⟨(before.reverse.dropWhile fun other => !isBoundary other).reverse, ?_⟩
  rw [enclosing] at encloses
  split at encloses
  · cases encloses
  · split at encloses
    · cases encloses
    · split at encloses
      · rw [← Option.some.inj encloses, List.append_assoc, List.cons_append, rest,
          ← List.append_assoc, split]
      · cases encloses

/-! ## What each line adds -/

theorem disabledCheck?_eq (typeKinds : String → Option Nat)
    (blocks : String → Option (List String)) (line : String) :
    disabledCheck? tables typeKinds blocks line =
      (disabledSuccessor? tables line).bind fun succ => (blocks succ).bind fun block =>
        (firstUbsanCall block).map fun call =>
          ⟨succ, (classifyHandler tables call typeKinds).1,
            (classifyHandler tables call typeKinds).2⟩ := by
  rw [disabledCheck?, disabledSuccessor?]
  cases (constBranchRe tables).search line with
  | none => rfl
  | some branch =>
      simp only [Option.bind_eq_bind, Option.bind_some]
      cases branch.group? 1 with
      | none => rfl
      | some const =>
          simp only [Option.bind_some]
          cases branch.group? 2 with
          | none => rfl
          | some trueSucc =>
              simp only [Option.bind_some]
              cases branch.group? 3 with
              | none => rfl
              | some falseSucc =>
                  simp only [Option.bind_some]
                  split
                  · rfl
                  · simp only [Option.bind_some, Option.map_eq_bind]
                    rfl

section Line

variable {tables} {lines : List String} {line succ : String} (kind : AccessType)

theorem kindWeight_eq (branch : disabledSuccessor? tables line = some succ)
    (typeKinds : String → Option Nat) (blocks : String → Option (List String)) :
    kindWeight tables typeKinds blocks kind line =
      if ((blocks succ).bind firstUbsanCall).map
          (fun call => (classifyHandler tables call typeKinds).1) = some kind
      then 1 else 0 := by
  rw [kindWeight, disabledCheck?_eq, branch, Option.bind_some]
  cases blocks succ with
  | none => rfl
  | some block =>
      rw [Option.bind_some, Option.bind_some, Option.map_map]
      rfl

theorem kindWeight_of_none (none : disabledSuccessor? tables line = none)
    (typeKinds : String → Option Nat) (blocks : String → Option (List String)) :
    kindWeight tables typeKinds blocks kind line = 0 := by
  rw [kindWeight, disabledCheck?_eq, none]
  rfl

/-- The first handler named under the successor's label gives the class. -/
theorem kindWeight_eq_dueWeight {body block more : List String}
    (branch : disabledSuccessor? tables line = some succ)
    (under : textUnder tables succ lines = some (block ++ more))
    (inside : notTakenIn body line = some block)
    (calls : ∃ call ∈ block, PrintedIR.callsHandler call = true)
    (oneClass : ∀ first ∈ block, ∀ second ∈ block, namesHandler first = true →
      namesHandler second = true → handlerKind tables lines first = handlerKind tables lines second) :
    kindWeight tables (parseTypeMismatchKinds tables lines) (parseBlocks tables lines).blocks kind
      line = dueWeight tables lines kind body line := by
  have names : ∀ call, PrintedIR.callsHandler call = true → namesHandler call = true :=
    fun call isCall => PrintedIR.search_of_namesHandler (Bool.and_eq_true_iff.mp isCall).2
  rcases calls with ⟨call, member, isCall⟩
  have finds : (block.find? namesHandler).isSome = true :=
    List.find?_isSome.mpr ⟨call, member, names call isCall⟩
  rcases Option.isSome_iff_exists.mp finds with ⟨first, isFirst⟩
  have firstCall : firstUbsanCall (block ++ more) = some first := by
    have first? : firstUbsanCall (block ++ more) = (block ++ more).find? namesHandler := rfl
    rw [first?, List.find?_append, isFirst]
    rfl
  have firstMember := List.mem_of_find?_eq_some isFirst
  have firstNames : namesHandler first = true := List.find?_some isFirst
  rw [kindWeight_eq kind branch, blocks_eq_textUnder, under, Option.bind_some, firstCall,
    dueWeight, inside, Option.map_some, Option.any_some]
  have alike : (some (classifyHandler tables first (parseTypeMismatchKinds tables lines)).1 =
      some kind) ↔ (block.any fun call =>
        PrintedIR.callsHandler call && handlerKind tables lines call = kind) = true := by
    rw [Option.some.injEq, List.any_eq_true]
    constructor
    · intro isKind
      refine ⟨call, member, Bool.and_eq_true_iff.mpr ⟨isCall, decide_eq_true ?_⟩⟩
      rw [oneClass call member first firstMember (names call isCall) firstNames]
      exact isKind
    · intro some
      rcases some with ⟨other, otherMember, both⟩
      rcases Bool.and_eq_true_iff.mp both with ⟨otherCalls, isKind⟩
      rw [← of_decide_eq_true isKind]
      exact oneClass first firstMember other otherMember firstNames (names other otherCalls)
  exact if_congr alike rfl rfl

end Line

theorem visits_of_ownLabel {place : List String × String × List String}
    (own : OwnLabel tables place) (plain : blockLabel? tables place.2.1 = none) :
    visits tables place.1 place.2.1 place.2.2 = 1 := by
  rcases own with ⟨label, last, once, absent⟩
  have last : (labels tables place.1).getLast? = some label := last
  rw [visits, plain, last]
  simp only [if_neg absent, once]

theorem visits_of_hidden {place : List String × String × List String}
    (hidden : Hidden tables place) : visits tables place.1 place.2.1 place.2.2 = 0 := by
  rw [visits]
  split
  · rename_i label _ last
    exact if_pos (hidden label last)
  · rfl

theorem due_of_not_disables (lines : List String) (kind : AccessType)
    {place : List String × String × List String} (silent : ¬DisablesHandler place) :
    due tables lines kind place = 0 := by
  rw [due]
  cases encloses : enclosing place.1 place.2.1 place.2.2 with
  | none => rfl
  | some body =>
      simp only [dueWeight]
      cases inside : notTakenIn body place.2.1 with
      | none => rfl
      | some block =>
          apply if_neg
          intro some
          rcases List.any_eq_true.mp some with ⟨call, member, both⟩
          exact silent ⟨body, encloses, block, inside, call, member,
            (Bool.and_eq_true_iff.mp both).1⟩

/-- Every line adds to the counts of the file what it adds to those of its function. -/
theorem counted_eq_due {lines : List String} (apart : LabelsApart tables lines)
    (kind : AccessType) {place : List String × String × List String}
    (member : place ∈ splits [] lines) :
    counted tables lines kind place = due tables lines kind place := by
  have whole := eq_of_mem_splits member
  rw [List.nil_append] at whole
  have isLine : place.2.1 ∈ lines := by
    rw [whole]
    exact List.mem_append_right _ (List.mem_cons_self ..)
  have sameBranch := apart.branches place.2.1 isLine
  rw [counted]
  cases disabled : PrintedIR.disabledSucc? place.2.1 with
  | none =>
      rw [disabled] at sameBranch
      rw [kindWeight_of_none kind sameBranch, Nat.mul_zero, due]
      cases enclosing place.1 place.2.1 place.2.2 with
      | none => rfl
      | some body =>
          simp only [dueWeight, notTakenIn, disabled]
          rfl
  | some succ =>
      rw [disabled] at sameBranch
      by_cases disables : DisablesHandler place
      · rcases apart.handlers place member disables with ⟨own, successor, oneClass⟩
        rcases disables with ⟨body, encloses, block, inside, calls⟩
        have plain : blockLabel? tables place.2.1 = none :=
          (apart.labels place.2.1 isLine).trans (PrintedIR.label?_of_disabledSucc? disabled)
        rcases exists_of_enclosing encloses with ⟨earlier, split⟩
        rw [← whole] at split
        have alike : ∀ line ∈ body, blockLabel? tables line = PrintedIR.label? line := by
          intro line inBody
          apply apart.labels
          rw [split]
          exact List.mem_append_right _ (List.mem_append_left _ inBody)
        rcases successor succ disabled body encloses with ⟨once, absent⟩
        have blockInside : blockIn body succ = some block := by
          have isBlock : notTakenIn body place.2.1 = some block := inside
          rw [notTakenIn, disabled] at isBlock
          exact isBlock
        rcases @exists_textUnder_of_blockIn tables earlier _ _ _ _ alike blockInside once absent
          with ⟨more, under⟩
        rw [← split] at under
        have encloses : enclosing place.1 place.2.1 place.2.2 = some body := encloses
        rw [visits_of_ownLabel tables own plain, Nat.one_mul, due, encloses]
        exact kindWeight_eq_dueWeight kind sameBranch under inside calls
          (oneClass body encloses block inside)
      · rw [due_of_not_disables tables lines kind disables]
        rcases apart.others place member disables with noHandler | hidden
        · rw [kindWeight_eq kind sameBranch, blocks_eq_textUnder, if_neg, Nat.mul_zero]
          intro isKind
          rcases Option.map_eq_some_iff.mp isKind with ⟨call, first, -⟩
          rcases Option.bind_eq_some_iff.mp first with ⟨block, under, found⟩
          have names : namesHandler call = true := List.find?_some found
          have silent := noHandler succ disabled block under call (List.mem_of_find?_eq_some found)
          rw [names] at silent
          cases silent
        · rw [visits_of_hidden tables hidden, Nat.zero_mul]

/-- The counts of a file are the sums of the counts of its functions. -/
def PerFunction (ir file : String) (parts : List String) (level : String) : Prop :=
  let summary := classifyFile tables ir file parts level
  let functions (kind : AccessType) : Nat :=
    ((functionBodies (splitLines ir)).map (functionCount tables (splitLines ir) kind)).sum
  summary.read = functions .READ ∧ summary.write = functions .WRITE ∧
    summary.unknown = functions .UNKNOWN

/-- Two functions with one label: the second block replaces the first. -/
def sharedLabel : String :=
  "define void @f() \x7b\n" ++
  "entry:\n" ++
  "  br i1 true, label %cont, label %handler, !sanitycheck !0\n" ++
  "handler:\n" ++
  "  call void @__ubsan_handle_add_overflow(i8* null)\n" ++
  "  br label %cont\n" ++
  "cont:\n" ++
  "  ret void\n" ++
  "\x7d\n" ++
  "define void @g() \x7b\n" ++
  "entry:\n" ++
  "  ret void\n" ++
  "\x7d\n"

/-- Where `splitlines` ends a line. -/
abbrev lineBreaks : List Char :=
  ['\n', '\r', '\x0b', '\x0c', '\x1c', '\x1d', '\x1e', '\u0085', '\u2028', '\u2029']

def OneLine (line : String) : Prop := ∀ char ∈ line.toList, char ∉ lineBreaks

instance (line : String) : Decidable (OneLine line) :=
  decidable_of_iff (line.toList.all (fun char => char ∉ lineBreaks) = true)
    (by simp only [OneLine, List.all_eq_true, decide_eq_true_eq])

theorem splitLinesFrom_line {letters : List Char} (current rest : List Char)
    (plain : ∀ char ∈ letters, char ∉ lineBreaks) :
    splitLinesFrom current (letters ++ '\n' :: rest) =
      String.ofList (current.reverse ++ letters) :: splitLinesFrom [] rest := by
  induction letters generalizing current with
  | nil =>
      rw [List.nil_append, List.append_nil, splitLinesFrom]
      · simp
      · simp
  | cons head tail induction =>
      rcases List.forall_mem_cons.mp plain with ⟨noBreak, others⟩
      rw [List.cons_append, splitLinesFrom, if_neg noBreak, induction _ others,
        List.reverse_cons, List.append_assoc]
      · rfl
      · intro next isReturn
        rw [isReturn] at noBreak
        simp at noBreak

/-- The lines that a text was written from are read back. -/
theorem splitLines_unlines {lines : List String} (plain : ∀ line ∈ lines, OneLine line) :
    splitLines (unlines lines) = lines := by
  induction lines with
  | nil => rfl
  | cons line rest induction =>
      rcases List.forall_mem_cons.mp plain with ⟨oneLine, others⟩
      have written : (unlines (line :: rest)).toList =
          line.toList ++ '\n' :: (unlines rest).toList := by
        simp [unlines]
      rw [splitLines, written, splitLinesFrom_line [] _ oneLine, List.reverse_nil,
        List.nil_append, String.ofList_toList]
      exact congrArg (line :: ·) (induction others)

/-- Two functions with labels of their own, and a READ and an UNKNOWN check. -/
def ownLabels : List String :=
  ["@data = private global \x7b i8, i8 \x7d \x7b i8 2, i8 0 \x7d",
   "define void @f() \x7b",
   "first:",
   "  br i1 true, label %cont, label %handler, !sanitycheck !0",
   "handler:                 ; preds = %first",
   "  call void @__ubsan_handle_add_overflow(i8* null)",
   "  br label %cont",
   "cont:",
   "  ret void",
   "\x7d",
   "define void @g() \x7b",
   "second:",
   "  br i1 false, label %mismatch, label %left, !sanitycheck !0",
   "mismatch:",
   "  call void @__ubsan_handle_type_mismatch_v1(i8* bitcast (\x7b i8, i8 \x7d* @data to i8*))",
   "  br label %left",
   "left:",
   "  ret void",
   "\x7d",
   "declare void @__ubsan_handle_add_overflow(i8*)"]

theorem ownLabels_oneLine : ∀ line ∈ ownLabels, OneLine line := by decide +kernel

end SanrazorRemovedAccess

end Desan
