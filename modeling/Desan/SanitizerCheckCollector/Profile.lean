import Desan.SanitizerCheckCollector.CoreChecks
import Desan.SanitizerCheckCollector.Spelling

/-! # Reading a profile

`loadProfile` sums up the runtime costs a table names. Doubles are a parameter: the sums
are those of their own addition, in the order of the rows. -/

namespace Desan

/-- The doubles of the C library, as the reader of profiles uses them. -/
structure Doubles (Cost : Type*) where
  zero : Cost
  add : Cost → Cost → Cost
  /-- `Cost < 0.0`. -/
  isNegative : Cost → Bool
  /-- `strtod`: the number at the start of the text, if there is one, and what is left. -/
  strtod : List Char → Option (Cost × List Char)

structure ProfileRow (Cost : Type*) where
  sanitizer : SanitizerKind
  checkType : String
  cost : Cost
deriving DecidableEq, Repr

/-- The map `RuntimeCosts`, in any order of its keys, and the total. -/
structure Profile (Cost : Type*) where
  runtimeCosts : List (String × Cost) := []
  totalRuntimeCost : Cost

def runtimeCostKey (sanitizer : SanitizerKind) (checkType : String) : String :=
  sanitizerKindName sanitizer ++ "\t" ++ checkType

/-! ## Rows -/

def equalsInsensitive (left right : String) : Bool :=
  left.toList.map Char.toLower == right.toList.map Char.toLower

def parseSanitizerKind (text : String) : SanitizerKind :=
  let text := trim text
  if equalsInsensitive text "asan" then .ASan
  else if equalsInsensitive text "ubsan" then .UBSan
  else if equalsInsensitive text "memsan" || equalsInsensitive text "msan" then .MemSan
  else .Unknown

/-- What stands between the separators, empty pieces left out. -/
def pieces (separates : Char → Bool) (text : String) : List String :=
  ((text.toList.splitOnP separates).filter fun piece => !piece.isEmpty).map String.ofList

/-- A line with a comma is split at its commas, any other at its blanks. -/
def profileFields (line : String) : List String :=
  (if line.toList.contains ',' then pieces (fun char => char == ',') line
    else pieces (fun char => char ∈ trimmedChars) line).map trim

section Read

variable {Cost : Type*} (doubles : Doubles Cost)

/-- `strtod` sees a C string, which must be a number up to its end. -/
def parseDouble (text : String) : Option Cost :=
  let text := trim text
  if text.isEmpty then none
  else
    match doubles.strtod (text.toList.takeWhile fun char => char ≠ '\x00') with
    | some (value, []) => some value
    | _ => none

def parseFields : List String → Option (ProfileRow Cost)
  | [name, cost] =>
      let checkType := canonicalCalleeName name
      (parseDouble doubles cost).map fun cost =>
        ⟨classifySanitizerName checkType, checkType, cost⟩
  | sanitizer :: name :: cost :: _ =>
      (parseDouble doubles cost).map fun cost =>
        ⟨parseSanitizerKind sanitizer, canonicalCalleeName name, cost⟩
  | _ => none

/-- `RuntimeCosts[key] += cost`. -/
def addAt (key : String) (cost : Cost) : List (String × Cost) → List (String × Cost)
  | [] => [(key, doubles.add doubles.zero cost)]
  | (name, sum) :: rest =>
      if name = key then (name, doubles.add sum cost) :: rest
      else (name, sum) :: addAt key cost rest

def Profile.addRow (profile : Profile Cost) (row : ProfileRow Cost) : Profile Cost where
  runtimeCosts :=
    addAt doubles (runtimeCostKey row.sanitizer row.checkType) row.cost profile.runtimeCosts
  totalRuntimeCost := doubles.add profile.totalRuntimeCost row.cost

/-- One turn of the loop over the lines. -/
def Profile.loadLine (profile : Profile Cost) (line : String) : Profile Cost :=
  let line := trim line
  if line.isEmpty || startsWith line "#" then profile
  else
    match parseFields doubles (profileFields line) with
    | none => profile
    | some row =>
        if row.sanitizer = .Unknown ∨ row.checkType.isEmpty ∨ doubles.isNegative row.cost then
          profile
        else profile.addRow doubles row

def emptyProfile : Profile Cost := { totalRuntimeCost := doubles.zero }

def readProfile (text : String) : Profile Cost :=
  ((text.toList.splitOnP fun char => char == '\n').map String.ofList).foldl
    (Profile.loadLine doubles) (emptyProfile doubles)

/-- `loadProfile`, whether it succeeds and what it prints. Reading a file gives its text,
or a message. What was loaded before is forgotten. -/
def loadProfile (getFile : String → Except String String) (profilePath : String) :
    Profile Cost × Bool × String :=
  if profilePath.isEmpty then (emptyProfile doubles, true, "")
  else
    match getFile profilePath with
    | .error message =>
        (emptyProfile doubles, false,
          "DESAN: failed to read profile file '" ++ profilePath ++ "': " ++ message ++ "\n")
    | .ok text => (readProfile doubles text, true, "")

end Read

/-- What the map says of a check type. -/
def Profile.cost? {Cost : Type*} (profile : Profile Cost) (sanitizer : SanitizerKind)
    (checkType : String) : Option Cost :=
  (profile.runtimeCosts.find? fun entry =>
    entry.1 = runtimeCostKey sanitizer checkType).map Prod.snd

/-- A collector takes over a profile. -/
def SanitizerCheckCollector.withProfile (collector : SanitizerCheckCollector)
    (profile : Profile ℚ) : SanitizerCheckCollector :=
  { collector with
    runtimeCosts := profile.cost?
    totalRuntimeCost := profile.totalRuntimeCost }

/-! ## What is summed up -/

section Sums

variable {Cost : Type*} (doubles : Doubles Cost)

/-- The row that a line adds, if it adds one. -/
def acceptedRow (line : String) : Option (ProfileRow Cost) :=
  if (trim line).isEmpty || startsWith (trim line) "#" then none
  else
    (parseFields doubles (profileFields (trim line))).filter fun row =>
      !decide (row.sanitizer = .Unknown ∨ row.checkType.isEmpty ∨ doubles.isNegative row.cost)

/-- The rows of a text, in order. -/
def acceptedRows (text : String) : List (ProfileRow Cost) :=
  ((text.toList.splitOnP fun char => char == '\n').map String.ofList).filterMap
    (acceptedRow doubles)

/-- The rows of the file behind a path. No path and no file have none. -/
def profileRows (getFile : String → Except String String) (profilePath : String) :
    List (ProfileRow Cost) :=
  if profilePath.isEmpty then []
  else
    match getFile profilePath with
    | .error _ => []
    | .ok text => acceptedRows doubles text

/-- The rows that name a check type of a sanitizer. -/
def rowsOf (rows : List (ProfileRow Cost)) (sanitizer : SanitizerKind) (checkType : String) :
    List (ProfileRow Cost) :=
  rows.filter fun row => row.sanitizer = sanitizer ∧ row.checkType = checkType

/-- The sum of the costs, in the order of the rows. -/
def sumOf (rows : List (ProfileRow Cost)) : Cost :=
  (rows.map ProfileRow.cost).foldl doubles.add doubles.zero

/-- The key tells both parts apart: no sanitizer has a tab in its name. -/
theorem runtimeCostKey_injective {left right : SanitizerKind} {first second : String}
    (same : runtimeCostKey left first = runtimeCostKey right second) :
    left = right ∧ first = second := by
  have lists := congrArg String.toList same
  simp only [runtimeCostKey, String.toList_append] at lists
  cases left <;> cases right <;>
    simp [sanitizerKindName] at lists <;> exact ⟨rfl, String.toList_inj.mp lists⟩

variable {doubles} {profile : Profile Cost}

theorem loadLine_eq (line : String) :
    profile.loadLine doubles line =
      match acceptedRow doubles line with
      | none => profile
      | some row => profile.addRow doubles row := by
  rw [Profile.loadLine, acceptedRow]
  by_cases skipped : ((trim line).isEmpty || startsWith (trim line) "#") = true
  · simp only [if_pos skipped]
  · simp only [if_neg skipped]
    cases parseFields doubles (profileFields (trim line)) with
    | none => rfl
    | some row =>
        by_cases refused : row.sanitizer = .Unknown ∨ row.checkType.isEmpty = true ∨
            doubles.isNegative row.cost = true
        · simp only [if_pos refused, Option.filter, decide_eq_true refused, Bool.not_true,
            Bool.false_eq_true, if_false]
        · simp only [if_neg refused, Option.filter, decide_eq_false refused, Bool.not_false,
            if_true]

theorem readProfile_eq (text : String) :
    readProfile doubles text =
      (acceptedRows doubles text).foldl (Profile.addRow doubles) (emptyProfile doubles) := by
  rw [readProfile, acceptedRows]
  generalize emptyProfile doubles = profile
  generalize (text.toList.splitOnP fun char => char == '\n').map String.ofList = lines
  induction lines generalizing profile with
  | nil => rfl
  | cons line rest induction =>
      rw [List.foldl_cons, induction, loadLine_eq]
      cases found : acceptedRow doubles line with
      | none => rw [List.filterMap_cons_none found]
      | some row => rw [List.filterMap_cons_some found, List.foldl_cons]

theorem find?_addAt (key other : String) (cost : Cost) (costs : List (String × Cost)) :
    ((addAt doubles key cost costs).find? fun entry => entry.1 = other).map Prod.snd =
      if key = other then
        some (doubles.add (((costs.find? fun entry => entry.1 = other).map Prod.snd).getD
          doubles.zero) cost)
      else (costs.find? fun entry => entry.1 = other).map Prod.snd := by
  induction costs with
  | nil =>
      rw [addAt, List.find?_cons]
      by_cases same : key = other <;> simp [same]
  | cons head tail induction =>
      rcases head with ⟨name, sum⟩
      rw [addAt]
      by_cases atHead : name = key
      · rw [if_pos atHead, List.find?_cons, List.find?_cons, atHead]
        by_cases same : key = other
        · simp [same]
        · simp [same]
      · rw [if_neg atHead, List.find?_cons, List.find?_cons]
        by_cases here : name = other
        · have different : key ≠ other := fun equal => atHead (here.trans equal.symm)
          simp [here, different]
        · simpa [here] using induction

/-- One row adds its cost to its own check type, and to no other one. -/
theorem cost?_addRow (row : ProfileRow Cost) (sanitizer : SanitizerKind) (checkType : String) :
    (profile.addRow doubles row).cost? sanitizer checkType =
      if row.sanitizer = sanitizer ∧ row.checkType = checkType then
        some (doubles.add ((profile.cost? sanitizer checkType).getD doubles.zero) row.cost)
      else profile.cost? sanitizer checkType := by
  have keys : runtimeCostKey row.sanitizer row.checkType = runtimeCostKey sanitizer checkType ↔
      row.sanitizer = sanitizer ∧ row.checkType = checkType := by
    constructor
    · exact runtimeCostKey_injective
    · intro same
      rw [same.1, same.2]
  rw [Profile.cost?, Profile.addRow, find?_addAt]
  simp only [keys]
  rfl

theorem total_addRows (rows : List (ProfileRow Cost)) (profile : Profile Cost) :
    (rows.foldl (Profile.addRow doubles) profile).totalRuntimeCost =
      (rows.map ProfileRow.cost).foldl doubles.add profile.totalRuntimeCost := by
  induction rows generalizing profile with
  | nil => rfl
  | cons row rest induction => rw [List.foldl_cons, induction, List.map_cons, List.foldl_cons]; rfl

theorem cost?_addRows (rows : List (ProfileRow Cost)) (profile : Profile Cost)
    (sanitizer : SanitizerKind) (checkType : String) :
    (rows.foldl (Profile.addRow doubles) profile).cost? sanitizer checkType =
      if rowsOf rows sanitizer checkType = [] then profile.cost? sanitizer checkType
      else some (((rowsOf rows sanitizer checkType).map ProfileRow.cost).foldl doubles.add
        ((profile.cost? sanitizer checkType).getD doubles.zero)) := by
  induction rows generalizing profile with
  | nil => rfl
  | cons row rest induction =>
      rw [List.foldl_cons, induction, cost?_addRow, rowsOf, rowsOf]
      by_cases own : row.sanitizer = sanitizer ∧ row.checkType = checkType
      · rw [List.filter_cons_of_pos (by simpa using own)]
        simp only [if_pos own, List.cons_ne_nil, if_false, List.map_cons, List.foldl_cons,
          Option.getD_some]
        split
        · rename_i none
          rw [none]
          rfl
        · rfl
      · rw [List.filter_cons_of_neg (by simpa using own)]
        simp only [if_neg own]

/-- The total is the sum of all accepted rows, and the cost of a check type the sum of
those that name it. Nothing of an earlier profile is left. -/
theorem loadProfile_sums (doubles : Doubles Cost) (getFile : String → Except String String)
    (profilePath : String) :
    (loadProfile doubles getFile profilePath).1.totalRuntimeCost =
        sumOf doubles (profileRows doubles getFile profilePath) ∧
      ∀ sanitizer checkType,
        (loadProfile doubles getFile profilePath).1.cost? sanitizer checkType =
          if rowsOf (profileRows doubles getFile profilePath) sanitizer checkType = [] then none
          else some (sumOf doubles
            (rowsOf (profileRows doubles getFile profilePath) sanitizer checkType)) := by
  have loaded : (loadProfile doubles getFile profilePath).1 =
      (profileRows doubles getFile profilePath).foldl (Profile.addRow doubles)
        (emptyProfile doubles) := by
    rw [loadProfile, profileRows]
    split
    · rfl
    · split
      · rfl
      · exact readProfile_eq _
  rw [loaded]
  exact ⟨total_addRows _ _, fun sanitizer checkType => cost?_addRows _ _ sanitizer checkType⟩

end Sums

/-! ## Written rows

A table may name the sanitizer of a check type or leave it to its name, and may put
commas or blanks between the fields. -/

/-- A text that can stand in a field. -/
structure IsField (text : String) : Prop where
  notEmpty : text.toList ≠ []
  chars : ∀ char ∈ text.toList, char ∉ trimmedChars ∧ char ≠ ','

instance (text : String) : Decidable (IsField text) :=
  decidable_of_iff (text.toList ≠ [] ∧
      text.toList.all (fun char => char ∉ trimmedChars ∧ char ≠ ',') = true)
    ⟨fun held => ⟨held.1, by simpa using held.2⟩, fun held =>
      ⟨held.notEmpty, by simpa using held.chars⟩⟩

structure WrittenRow (Cost : Type*) where
  row : ProfileRow Cost
  costText : String
  separator : Char
  namesSanitizer : Bool

namespace WrittenRow

variable {Cost : Type*}

def fields (written : WrittenRow Cost) : List String :=
  if written.namesSanitizer then
    [sanitizerKindName written.row.sanitizer, written.row.checkType, written.costText]
  else [written.row.checkType, written.costText]

def line (written : WrittenRow Cost) : String :=
  String.ofList ([written.separator].intercalate (written.fields.map String.toList))

/-- What a row must be so that it can be read back. -/
structure Readable (doubles : Doubles Cost) (written : WrittenRow Cost) : Prop where
  separator : written.separator = ',' ∨ written.separator ∈ [' ', '\t']
  known : written.row.sanitizer ≠ .Unknown
  checkType : IsField written.row.checkType
  canonical : canonicalCalleeName written.row.checkType = written.row.checkType
  ownSanitizer : written.namesSanitizer = false →
    classifySanitizerName written.row.checkType = written.row.sanitizer
  costText : IsField written.costText
  value : parseDouble doubles written.costText = some written.row.cost
  notNegative : doubles.isNegative written.row.cost = false

end WrittenRow

/-- A line of a table: a row, a comment or nothing. -/
inductive ProfileLine (Cost : Type*) where
  | row (written : WrittenRow Cost)
  | comment (text : String)
  | blank

namespace ProfileLine

variable {Cost : Type*}

def text : ProfileLine Cost → String
  | .row written => written.line
  | .comment text => "#" ++ text
  | .blank => ""

def row? : ProfileLine Cost → Option (ProfileRow Cost)
  | .row written => some written.row
  | _ => none

def Readable (doubles : Doubles Cost) : ProfileLine Cost → Prop
  | .row written => written.Readable doubles
  | .comment text => '\n' ∉ text.toList
  | .blank => True

end ProfileLine

/-- A table, with a line break between its lines. -/
def profileText {Cost : Type*} (lines : List (ProfileLine Cost)) : String :=
  String.ofList (['\n'].intercalate (lines.map fun line => line.text.toList))

theorem splitOnP_intercalate {separates : Char → Bool} {separator : Char}
    (isSeparator : separates separator = true) {parts : List (List Char)} (some' : parts ≠ [])
    (apart : ∀ part ∈ parts, ∀ char ∈ part, separates char = false) :
    ([separator].intercalate parts).splitOnP separates = parts := by
  induction parts with
  | nil => exact absurd rfl some'
  | cons head tail induction =>
      rcases List.forall_mem_cons.mp apart with ⟨first, rest⟩
      cases tail with
      | nil =>
          rw [List.intercalate_singleton]
          exact List.splitOnP_eq_singleton first
      | cons next others =>
          rw [List.intercalate_cons_cons, List.append_assoc, List.singleton_append,
            List.splitOnP_append_cons_of_forall_mem first _ isSeparator,
            induction (List.cons_ne_nil _ _) rest]

theorem trim_of_ends {text : String} {first last : Char} {front back : List Char}
    (starts : text.toList = first :: front) (ends : text.toList = back ++ [last])
    (keepsFirst : first ∉ trimmedChars) (keepsLast : last ∉ trimmedChars) :
    trim text = text := by
  have whole : trimEnd (first :: front) = first :: front := by
    rw [← starts, ends, trimEnd, List.reverse_append, List.reverse_singleton,
      List.singleton_append, List.dropWhile_cons_of_neg (by simpa using keepsLast)]
    simp
  rw [trim_of_cons starts keepsFirst, ← trimEnd_cons keepsFirst, whole, ← starts,
    String.ofList_toList]

namespace IsField

variable {text : String} (isField : IsField text)
include isField

theorem exists_cons : ∃ first rest, text.toList = first :: rest ∧ first ∉ trimmedChars := by
  rcases List.exists_cons_of_ne_nil isField.notEmpty with ⟨first, rest, equal⟩
  exact ⟨first, rest, equal, (isField.chars first (equal ▸ List.mem_cons_self ..)).1⟩

theorem exists_append : ∃ rest last, text.toList = rest ++ [last] ∧ last ∉ trimmedChars := by
  rcases List.eq_nil_or_concat' text.toList with none | ⟨rest, last, equal⟩
  · exact absurd none isField.notEmpty
  · refine ⟨rest, last, equal, (isField.chars last ?_).1⟩
    rw [equal]
    exact List.mem_append_right _ (List.mem_singleton_self _)

theorem trim_eq : trim text = text := by
  rcases isField.exists_cons with ⟨first, front, starts, keepsFirst⟩
  rcases isField.exists_append with ⟨back, last, ends, keepsLast⟩
  exact trim_of_ends starts ends keepsFirst keepsLast

end IsField

theorem isField_sanitizerKindName (sanitizer : SanitizerKind) :
    IsField (sanitizerKindName sanitizer) := by
  cases sanitizer <;> decide

theorem mem_intercalate {separator char : Char} {parts : List (List Char)}
    (member : char ∈ [separator].intercalate parts) :
    char = separator ∨ ∃ part ∈ parts, char ∈ part := by
  induction parts with
  | nil => cases member
  | cons head tail induction =>
      cases tail with
      | nil =>
          rw [List.intercalate_singleton] at member
          exact .inr ⟨head, List.mem_singleton_self _, member⟩
      | cons next others =>
          rw [List.intercalate_cons_cons, List.append_assoc, List.mem_append,
            List.singleton_append, List.mem_cons] at member
          rcases member with inHead | isSeparator | inRest
          · exact .inr ⟨head, List.mem_cons_self .., inHead⟩
          · exact .inl isSeparator
          · rcases induction inRest with isSeparator | ⟨part, partMember, inside⟩
            · exact .inl isSeparator
            · exact .inr ⟨part, List.mem_cons_of_mem _ partMember, inside⟩

/-- Fields between separators that none of them has come back one by one. -/
theorem map_trim_pieces {separates : Char → Bool} {separator : Char}
    (isSeparator : separates separator = true) {fields : List String} (some' : fields ≠ [])
    (each : ∀ field ∈ fields, IsField field)
    (apart : ∀ field ∈ fields, ∀ char ∈ field.toList, separates char = false) :
    (pieces separates (String.ofList
      ([separator].intercalate (fields.map String.toList)))).map trim = fields := by
  have lists : ∀ part ∈ fields.map String.toList, ∀ char ∈ part, separates char = false := by
    intro part member
    rcases List.mem_map.mp member with ⟨field, inside, rfl⟩
    exact apart field inside
  have filled : ∀ part ∈ fields.map String.toList, (!part.isEmpty) = true := by
    intro part member
    rcases List.mem_map.mp member with ⟨field, inside, rfl⟩
    simpa using (each field inside).notEmpty
  rw [pieces, String.toList_ofList,
    splitOnP_intercalate isSeparator (by simpa using some') lists,
    List.filter_eq_self.mpr filled, List.map_map, List.map_map]
  have same : fields.map ((trim ∘ String.ofList) ∘ String.toList) = fields.map id := by
    apply List.map_congr_left
    intro field inside
    rw [Function.comp_apply, Function.comp_apply, String.ofList_toList,
      (each field inside).trim_eq, id_eq]
  rw [same, List.map_id]

theorem classify_of_hash {name : String} {rest : List Char} (equal : name.toList = '#' :: rest) :
    classifySanitizerName name = .Unknown := by
  have other : ∀ whole : String, whole.toList.head? ≠ some '#' → (name == whole) = false := by
    intro whole head
    apply beq_eq_false_iff_ne.mpr
    intro same
    exact head (by rw [← same, equal]; rfl)
  have asan := other "__asan_handle_no_return" (by decide)
  have trap := other "llvm.ubsantrap" (by decide)
  simp [classifySanitizerName, isASanCheckName, isUBSanCheckName, isMemSanCheckName,
    startsWith, equal, asan, trap]

namespace WrittenRow

variable {Cost : Type*} {doubles : Doubles Cost} {written : WrittenRow Cost}
  (readable : written.Readable doubles)
include readable

namespace Readable

theorem isField : ∀ field ∈ written.fields, IsField field := by
  intro field member
  rw [fields] at member
  split at member
  · simp only [List.mem_cons, List.not_mem_nil, or_false] at member
    rcases member with rfl | rfl | rfl
    · exact isField_sanitizerKindName _
    · exact readable.checkType
    · exact readable.costText
  · rcases List.mem_pair.mp member with rfl | rfl
    · exact readable.checkType
    · exact readable.costText

theorem profileFields_line : profileFields written.line = written.fields := by
  have some' : written.fields ≠ [] := by
    rw [fields]
    split <;> exact List.cons_ne_nil _ _
  have lineChars : written.line.toList =
      [written.separator].intercalate (written.fields.map String.toList) :=
    String.toList_ofList
  rcases readable.separator with comma | blank
  · have hasComma : written.line.toList.contains ',' = true := by
      rw [List.contains_iff_mem, lineChars, comma, fields]
      split
      · simp
      · simp
    rw [profileFields, if_pos hasComma, line]
    apply map_trim_pieces (by rw [comma]; rfl) some' readable.isField
    intro field member char inside
    simpa using ((readable.isField field member).chars char inside).2
  · have noComma : ¬written.line.toList.contains ',' = true := by
      rw [List.contains_iff_mem, lineChars]
      intro inside
      rcases mem_intercalate inside with isSeparator | ⟨part, partMember, inPart⟩
      · rw [← isSeparator] at blank
        exact absurd blank (by decide)
      · rcases List.mem_map.mp partMember with ⟨field, member, rfl⟩
        exact ((readable.isField field member).chars ',' inPart).2 rfl
    rw [profileFields, if_neg noComma, line]
    apply map_trim_pieces _ some' readable.isField
    · intro field member char inside
      simpa using ((readable.isField field member).chars char inside).1
    · rcases List.mem_pair.mp blank with same | same <;> rw [same] <;> decide

/-- A line begins with its first field, and ends with the text of the cost. -/
theorem exists_ends :
    (∃ first front, written.line.toList = first :: front ∧ first ∉ trimmedChars ∧ first ≠ '#') ∧
      ∃ back last, written.line.toList = back ++ [last] ∧ last ∉ trimmedChars := by
  rcases readable.checkType.exists_cons with ⟨first, front, starts, keepsFirst⟩
  rcases readable.costText.exists_append with ⟨back, last, ends, keepsLast⟩
  cases names : written.namesSanitizer with
  | true =>
      have whole : written.line.toList = (sanitizerKindName written.row.sanitizer).toList ++
          written.separator :: (written.row.checkType.toList ++
            written.separator :: written.costText.toList) := by
        simp [line, fields, names]
      have head : ∃ letter rest, (sanitizerKindName written.row.sanitizer).toList =
          letter :: rest ∧ letter ∉ trimmedChars ∧ letter ≠ '#' := by
        cases written.row.sanitizer <;> exact ⟨_, _, rfl, by decide, by decide⟩
      rcases head with ⟨letter, rest, equal, keeps, noHash⟩
      refine ⟨⟨letter, rest ++ written.separator :: (written.row.checkType.toList ++
          written.separator :: written.costText.toList), ?_, keeps, noHash⟩,
        (sanitizerKindName written.row.sanitizer).toList ++ written.separator ::
          (written.row.checkType.toList ++ written.separator :: back), last, ?_, keepsLast⟩
      · rw [whole, equal, List.cons_append]
      · rw [whole, ends]
        simp
  | false =>
      have whole : written.line.toList = written.row.checkType.toList ++
          written.separator :: written.costText.toList := by
        simp [line, fields, names]
      refine ⟨⟨first, front ++ written.separator :: written.costText.toList, ?_, keepsFirst, ?_⟩,
        written.row.checkType.toList ++ written.separator :: back, last, ?_, keepsLast⟩
      · rw [whole, starts, List.cons_append]
      · intro isHash
        apply readable.known
        rw [← readable.ownSanitizer names]
        exact classify_of_hash (isHash ▸ starts)
      · rw [whole, ends]
        simp

theorem parseFields_fields : parseFields doubles written.fields = some written.row := by
  have kind : parseSanitizerKind (sanitizerKindName written.row.sanitizer) =
      written.row.sanitizer := by
    cases found : written.row.sanitizer with
    | Unknown => exact absurd found readable.known
    | _ => decide
  rw [fields]
  cases names : written.namesSanitizer with
  | true =>
      rw [if_pos rfl, parseFields, readable.value, readable.canonical, kind, Option.map_some]
  | false =>
      rw [if_neg Bool.false_ne_true, parseFields, readable.value, readable.canonical,
        readable.ownSanitizer names, Option.map_some]

theorem acceptedRow_line : acceptedRow doubles written.line = some written.row := by
  rcases readable.exists_ends with ⟨⟨first, front, starts, keepsFirst, noHash⟩,
    ⟨back, last, ends, keepsLast⟩⟩
  have trimmed := trim_of_ends starts ends keepsFirst keepsLast
  have notEmpty : written.line.isEmpty = false := by
    rw [Bool.eq_false_iff, ne_eq, String.isEmpty_iff, ← String.toList_inj, starts]
    exact List.cons_ne_nil _ _
  have noComment : startsWith written.line "#" = false := by
    rw [startsWith, starts]
    simp [List.isPrefixOf, Ne.symm noHash]
  have typed : written.row.checkType.isEmpty = false := by
    rw [Bool.eq_false_iff, ne_eq, String.isEmpty_iff, ← String.toList_inj]
    exact readable.checkType.notEmpty
  rw [acceptedRow, trimmed, notEmpty, noComment, Bool.or_false, if_neg Bool.false_ne_true,
    readable.profileFields_line, readable.parseFields_fields]
  simp [Option.filter, readable.known, readable.notNegative, typed]

theorem noBreak : '\n' ∉ written.line.toList := by
  intro inside
  have lineChars : written.line.toList =
      [written.separator].intercalate (written.fields.map String.toList) :=
    String.toList_ofList
  rw [lineChars] at inside
  rcases mem_intercalate inside with isSeparator | ⟨part, partMember, inPart⟩
  · rcases readable.separator with comma | blank
    · rw [comma] at isSeparator
      exact absurd isSeparator (by decide)
    · rw [← isSeparator] at blank
      exact absurd blank (by decide)
  · rcases List.mem_map.mp partMember with ⟨field, member, rfl⟩
    exact ((readable.isField field member).chars '\n' inPart).1 (by decide)

end Readable

end WrittenRow

namespace ProfileLine

variable {Cost : Type*} {doubles : Doubles Cost} {line : ProfileLine Cost}
  (readable : line.Readable doubles)
include readable

theorem acceptedRow_text : acceptedRow doubles line.text = line.row? := by
  cases line with
  | row written => exact readable.acceptedRow_line
  | blank => rfl
  | comment text =>
      have starts : ("#" ++ text).toList = '#' :: text.toList := by
        rw [String.toList_append]
        rfl
      have comment : startsWith (trim ("#" ++ text)) "#" = true := by
        rw [trim_of_cons starts (by decide)]
        simp [startsWith]
      rw [ProfileLine.text, acceptedRow, comment, Bool.or_true, if_pos rfl]
      rfl

theorem noBreak : '\n' ∉ line.text.toList := by
  cases line with
  | row written => exact WrittenRow.Readable.noBreak readable
  | blank => exact List.not_mem_nil
  | comment text =>
      rw [ProfileLine.text, String.toList_append, List.mem_append]
      intro either
      rcases either with isHash | inside
      · exact absurd isHash (by decide)
      · exact readable inside

end ProfileLine

section Readback

variable {Cost : Type*}

/-- A table of rows in any of the layouts, with comments and empty lines between them, is
read as the sums of its rows. -/
theorem readProfile_profileText (doubles : Doubles Cost) (lines : List (ProfileLine Cost))
    (readable : ∀ line ∈ lines, line.Readable doubles) :
    readProfile doubles (profileText lines) =
      (lines.filterMap ProfileLine.row?).foldl (Profile.addRow doubles)
        (emptyProfile doubles) := by
  rw [readProfile_eq]
  congr 1
  by_cases empty : lines = []
  · rw [empty]
    rfl
  · have apart : ∀ part ∈ lines.map fun line => line.text.toList, ∀ char ∈ part,
        (char == '\n') = false := by
      intro part member char inside
      rcases List.mem_map.mp member with ⟨line, lineMember, rfl⟩
      apply beq_eq_false_iff_ne.mpr
      intro isBreak
      exact ProfileLine.noBreak (readable line lineMember) (isBreak ▸ inside)
    rw [acceptedRows, profileText, String.toList_ofList,
      splitOnP_intercalate (by decide) (by simpa using empty) apart, List.map_map,
      List.filterMap_map]
    apply List.filterMap_congr
    intro line member
    rw [Function.comp_apply, Function.comp_apply, String.ofList_toList]
    exact ProfileLine.acceptedRow_text (readable line member)

/-- Costs that are whole numbers. -/
def wholeNumbers : Doubles Nat where
  zero := 0
  add := (· + ·)
  isNegative _ := false
  strtod text :=
    if (text.takeWhile Char.isDigit).isEmpty then none
    else
      some ((text.takeWhile Char.isDigit).foldl
        (fun number digit => 10 * number + (digit.toNat - '0'.toNat)) 0,
        text.dropWhile Char.isDigit)

def costTable : List (ProfileLine Nat) :=
  [.comment " check type, cost",
   .row ⟨⟨.ASan, "__asan_load4", 12⟩, "12", ',', false⟩,
   .blank,
   .row ⟨⟨.MemSan, "__msan_warning", 5⟩, "5", '\t', true⟩,
   .row ⟨⟨.ASan, "__asan_load4", 30⟩, "30", ',', true⟩]

theorem costTable_read :
    (readProfile wholeNumbers (profileText costTable)).totalRuntimeCost = 47 ∧
      (readProfile wholeNumbers (profileText costTable)).cost? .ASan "__asan_load4" =
        some 42 := by
  have readable : ∀ line ∈ costTable, line.Readable wholeNumbers := by
    intro line member
    simp only [costTable, List.mem_cons, List.not_mem_nil, or_false] at member
    rcases member with rfl | rfl | rfl | rfl | rfl
    · exact (by decide : '\n' ∉ " check type, cost".toList)
    · exact ⟨.inl rfl, by decide, by decide, by decide, fun _ => by decide, by decide,
        by decide, rfl⟩
    · trivial
    · exact ⟨.inr (by decide), by decide, by decide, by decide, fun _ => by decide, by decide,
        by decide, rfl⟩
    · exact ⟨.inl rfl, by decide, by decide, by decide, fun _ => by decide, by decide,
        by decide, rfl⟩
  rw [readProfile_profileText wholeNumbers costTable readable]
  decide

end Readback

end Desan
