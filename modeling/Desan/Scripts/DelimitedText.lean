import Mathlib.Data.List.Basic

/-! # Delimited text

`csv.reader` with one delimiter and its other settings left alone: a field may be quoted,
a quote in quotes is doubled, and a field has a largest length. A row of plain fields that
is written with the delimiter between them is read back as that row. -/

namespace Desan

/-! ## Lines that keep their ends -/

/-- The lines of a file opened with `newline=""`. -/
def brokenLinesFrom : List Char → List Char → List (List Char)
  | [], [] => []
  | current, [] => [current.reverse]
  | current, '\r' :: '\n' :: rest =>
      ('\n' :: '\r' :: current).reverse :: brokenLinesFrom [] rest
  | current, char :: rest =>
      if char = '\n' ∨ char = '\r' then (char :: current).reverse :: brokenLinesFrom [] rest
      else brokenLinesFrom (char :: current) rest

def brokenLines (text : String) : List (List Char) := brokenLinesFrom [] text.toList

/-! ## The reader -/

inductive ReaderState where
  | startRecord | startField | inField | inQuotedField | quoteInQuotedField | eatNewline
deriving DecidableEq, Repr

/-- A row that is being read. -/
structure RowReader where
  state : ReaderState := .startRecord
  fields : List String := []
  field : List Char := []
deriving DecidableEq, Repr

namespace RowReader

def isBreak (char : Char) : Bool := char = '\n' || char = '\r'

def saveField (reader : RowReader) (next : ReaderState) : RowReader where
  state := next
  fields := reader.fields ++ [String.ofList reader.field]

section Reader

variable (delimiter : Char) (limit : Nat)

/-- Nothing where the reader raises `Error`. -/
def addChar (reader : RowReader) (char : Char) (next : ReaderState) : Option RowReader :=
  if limit ≤ reader.field.length then none
  else some { reader with state := next, field := reader.field ++ [char] }

def openField (reader : RowReader) (char : Char) : Option RowReader :=
  if isBreak char then some (reader.saveField .eatNewline)
  else if char = '"' then some { reader with state := .inQuotedField }
  else if char = delimiter then some (reader.saveField .startField)
  else reader.addChar limit char .inField

def readChar (reader : RowReader) (char : Char) : Option RowReader :=
  match reader.state with
  | .startRecord =>
      if isBreak char then some { reader with state := .eatNewline }
      else reader.openField delimiter limit char
  | .startField => reader.openField delimiter limit char
  | .inField =>
      if isBreak char then some (reader.saveField .eatNewline)
      else if char = delimiter then some (reader.saveField .startField)
      else reader.addChar limit char .inField
  | .inQuotedField =>
      if char = '"' then some { reader with state := .quoteInQuotedField }
      else reader.addChar limit char .inQuotedField
  | .quoteInQuotedField =>
      if char = '"' then reader.addChar limit char .inQuotedField
      else if char = delimiter then some (reader.saveField .startField)
      else if isBreak char then some (reader.saveField .eatNewline)
      else reader.addChar limit char .inField
  | .eatNewline => if isBreak char then some reader else none

/-- The end of a line as it was handed to the reader. -/
def endLine (reader : RowReader) : RowReader :=
  match reader.state with
  | .startRecord | .inQuotedField => reader
  | .startField | .inField | .quoteInQuotedField => reader.saveField .startRecord
  | .eatNewline => { reader with state := .startRecord }

/-- The rows of the lines, when some of them have been read for the next row. -/
def readRows : List (List Char) → RowReader → Option (List (List String))
  | [], reader =>
      if reader.field = [] ∧ reader.state ≠ .inQuotedField then some []
      else some [(reader.saveField .startRecord).fields]
  | line :: rest, reader =>
      (line.foldlM (readChar delimiter limit) reader).bind fun reader =>
        let reader := reader.endLine
        if reader.state = .startRecord then (readRows rest {}).map (reader.fields :: ·)
        else readRows rest reader

/-- `csv.reader` of a file. -/
def rows (text : String) : Option (List (List String)) :=
  readRows delimiter limit (brokenLines text) {}

end Reader

/-! ## Plain fields -/

/-- A field that needs no quotes, and is not too long. -/
structure Plain (delimiter : Char) (limit : Nat) (field : String) : Prop where
  newline : '\n' ∉ field.toList
  carriage : '\r' ∉ field.toList
  delimiter : delimiter ∉ field.toList
  quote : field.toList.head? ≠ some '"'
  short : field.toList.length ≤ limit

instance (delimiter : Char) (limit : Nat) (field : String) :
    Decidable (Plain delimiter limit field) :=
  decidable_of_iff
    ('\n' ∉ field.toList ∧ '\r' ∉ field.toList ∧ delimiter ∉ field.toList ∧
      field.toList.head? ≠ some '"' ∧ field.toList.length ≤ limit)
    ⟨fun parts => ⟨parts.1, parts.2.1, parts.2.2.1, parts.2.2.2.1, parts.2.2.2.2⟩,
      fun plain => ⟨plain.newline, plain.carriage, plain.delimiter, plain.quote, plain.short⟩⟩

/-- The line of a row. -/
def rowLine (delimiter : Char) : List String → List Char
  | [] => ['\n']
  | [field] => field.toList ++ ['\n']
  | field :: next :: rest => field.toList ++ delimiter :: rowLine delimiter (next :: rest)

variable {delimiter : Char} {limit : Nat}

theorem not_isBreak {letters : List Char} (newline : '\n' ∉ letters) (carriage : '\r' ∉ letters)
    {char : Char} (member : char ∈ letters) : isBreak char = false := by
  rw [isBreak, Bool.or_eq_false_iff, decide_eq_false_iff_not, decide_eq_false_iff_not]
  exact ⟨fun same => newline (same ▸ member), fun same => carriage (same ▸ member)⟩

theorem addChar_eq {reader : RowReader} (room : reader.field.length < limit) (char : Char)
    (next : ReaderState) : reader.addChar limit char next =
      some { reader with state := next, field := reader.field ++ [char] } := by
  rw [addChar, if_neg (Nat.not_le.mpr room)]

/-- Plain letters are added to the field they stand in. -/
theorem foldlM_inField {letters : List Char} {fields : List String} {field : List Char}
    (breaks : ∀ char ∈ letters, isBreak char = false) (plain : delimiter ∉ letters)
    (short : field.length + letters.length ≤ limit) :
    letters.foldlM (readChar delimiter limit) ⟨.inField, fields, field⟩ =
      some ⟨.inField, fields, field ++ letters⟩ := by
  induction letters generalizing field with
  | nil => simp
  | cons char rest induction =>
      rw [List.length_cons] at short
      rw [List.mem_cons, not_or] at plain
      have step : readChar delimiter limit ⟨.inField, fields, field⟩ char =
          some ⟨.inField, fields, field ++ [char]⟩ := by
        simp only [readChar, breaks char (List.mem_cons_self ..), Ne.symm plain.1, if_false,
          Bool.false_eq_true]
        exact addChar_eq (by simp only; omega) char .inField
      have others := @induction (field ++ [char])
        (fun other member => breaks other (List.mem_cons_of_mem _ member)) plain.2
        (by rw [List.length_append, List.length_singleton]; omega)
      rw [List.foldlM_cons, step, Option.bind_eq_bind, Option.bind_some, others,
        List.append_assoc, List.singleton_append]

/-- Where a field begins, a plain one is read up to its end. -/
theorem foldlM_field {field : String} (plain : Plain delimiter limit field)
    (fields : List String) :
    field.toList.foldlM (readChar delimiter limit) ⟨.startField, fields, []⟩ =
      some ⟨if field.toList = [] then .startField else .inField, fields, field.toList⟩ := by
  have newline := plain.newline
  have carriage := plain.carriage
  have notDelimiter := plain.delimiter
  have notQuote := plain.quote
  have short := plain.short
  revert newline carriage notDelimiter notQuote short
  cases field.toList with
  | nil => intros; rfl
  | cons char rest =>
      intro newline carriage notDelimiter notQuote short
      rw [List.length_cons] at short
      rw [List.head?_cons, ne_eq, Option.some_inj] at notQuote
      rw [List.mem_cons, not_or] at notDelimiter
      have breaks : ∀ other ∈ char :: rest, isBreak other = false :=
        fun other member => not_isBreak newline carriage member
      have step : readChar delimiter limit ⟨.startField, fields, []⟩ char =
          some ⟨.inField, fields, [char]⟩ := by
        simp only [readChar, openField, breaks char (List.mem_cons_self ..), notQuote,
          Ne.symm notDelimiter.1, if_false, Bool.false_eq_true]
        exact addChar_eq (by simp only [List.length_nil]; omega) char .inField
      rw [List.foldlM_cons, step, Option.bind_eq_bind, Option.bind_some,
        foldlM_inField (fun other member => breaks other (List.mem_cons_of_mem _ member))
          notDelimiter.2 (by rw [List.length_singleton]; omega)]
      rfl

/-- What stands behind a field ends it. -/
theorem readChar_behind (empty : Prop) [Decidable empty] (fields : List String)
    (field : List Char) :
    (isBreak delimiter = false → delimiter ≠ '"' →
      readChar delimiter limit ⟨if empty then .startField else .inField, fields, field⟩
        delimiter = some ⟨.startField, fields ++ [String.ofList field], []⟩) ∧
    readChar delimiter limit ⟨if empty then .startField else .inField, fields, field⟩ '\n' =
      some ⟨.eatNewline, fields ++ [String.ofList field], []⟩ := by
  by_cases isEmpty : empty
  · simp only [isEmpty, if_true, readChar, openField]
    constructor
    · intro notBreak notQuote
      simp [notBreak, notQuote, saveField]
    · simp [isBreak, saveField]
  · simp only [isEmpty, if_false, readChar]
    constructor
    · intro notBreak notQuote
      simp [notBreak, saveField]
    · simp [isBreak, saveField]

theorem foldlM_rowLine (notBreak : isBreak delimiter = false) (notQuote : delimiter ≠ '"')
    {row : List String} (filled : row ≠ [])
    (plain : ∀ field ∈ row, Plain delimiter limit field) (fields : List String) :
    (rowLine delimiter row).foldlM (readChar delimiter limit) ⟨.startField, fields, []⟩ =
      some ⟨.eatNewline, fields ++ row, []⟩ := by
  induction row generalizing fields with
  | nil => exact absurd rfl filled
  | cons field rest induction =>
      have first := foldlM_field (plain field (List.mem_cons_self ..)) fields
      have behind := @readChar_behind delimiter limit (field.toList = []) _ fields field.toList
      rw [String.ofList_toList] at behind
      cases rest with
      | nil =>
          rw [rowLine, List.foldlM_append, first, Option.bind_eq_bind, Option.bind_some,
            List.foldlM_cons, behind.2]
          rfl
      | cons next rest =>
          rw [rowLine, List.foldlM_append, first, Option.bind_eq_bind, Option.bind_some,
            List.foldlM_cons, behind.1 notBreak notQuote, Option.bind_eq_bind, Option.bind_some,
            induction (List.cons_ne_nil _ _)
              (fun other member => plain other (List.mem_cons_of_mem _ member)),
            List.append_assoc, List.singleton_append]

/-- A row of two fields at least is not taken for an empty line. -/
theorem foldlM_rowLine_start (notBreak : isBreak delimiter = false) (notQuote : delimiter ≠ '"')
    {row : List String} (wide : 2 ≤ row.length)
    (plain : ∀ field ∈ row, Plain delimiter limit field) :
    (rowLine delimiter row).foldlM (readChar delimiter limit) {} =
      some ⟨.eatNewline, row, []⟩ := by
  have filled : row ≠ [] := by
    intro empty
    rw [empty] at wide
    exact absurd wide (by decide)
  have read := foldlM_rowLine notBreak notQuote filled plain []
  have starts : ∃ char rest, rowLine delimiter row = char :: rest ∧ isBreak char = false := by
    cases row with
    | nil => exact absurd rfl filled
    | cons field rest =>
        cases rest with
        | nil => exact absurd wide (by simp)
        | cons next rest =>
            rw [rowLine]
            have breaks := fun char member => @not_isBreak field.toList
              (plain field (List.mem_cons_self ..)).newline
              (plain field (List.mem_cons_self ..)).carriage char member
            revert breaks
            cases field.toList with
            | nil => exact fun _ => ⟨delimiter, _, rfl, notBreak⟩
            | cons char letters => exact fun breaks => ⟨char, _, rfl, breaks char (by simp)⟩
  rcases starts with ⟨char, rest, whole, notBreak⟩
  rw [whole, List.foldlM_cons] at read
  have same : readChar delimiter limit {} char =
      readChar delimiter limit ⟨.startField, [], []⟩ char := by
    simp only [readChar, notBreak, openField, addChar, saveField, if_false, Bool.false_eq_true]
  rw [whole, List.foldlM_cons, same, read, List.nil_append]

/-! ## Rows that are written -/

theorem brokenLinesFrom_char {char : Char} (notBreak : isBreak char = false)
    (current rest : List Char) :
    brokenLinesFrom current (char :: rest) = brokenLinesFrom (char :: current) rest := by
  rw [isBreak, Bool.or_eq_false_iff, decide_eq_false_iff_not, decide_eq_false_iff_not] at notBreak
  rw [brokenLinesFrom]
  · rw [if_neg (not_or.mpr notBreak)]
  · intro rest' same _
    exact notBreak.2 same

theorem brokenLinesFrom_line {letters : List Char}
    (breaks : ∀ char ∈ letters, isBreak char = false) (current rest : List Char) :
    brokenLinesFrom current (letters ++ '\n' :: rest) =
      (current.reverse ++ (letters ++ ['\n'])) :: brokenLinesFrom [] rest := by
  induction letters generalizing current with
  | nil =>
      rw [List.nil_append, brokenLinesFrom]
      · simp
      · intro rest' same _
        exact absurd same (by decide)
  | cons char letters induction =>
      rw [List.cons_append, brokenLinesFrom_char (breaks char (List.mem_cons_self ..)),
        induction fun other member => breaks other (List.mem_cons_of_mem _ member),
        List.reverse_cons]
      simp

/-- The line of a row ends with its only line break. -/
theorem exists_rowLine (notBreak : isBreak delimiter = false) {row : List String}
    (plain : ∀ field ∈ row, Plain delimiter limit field) :
    ∃ letters, rowLine delimiter row = letters ++ ['\n'] ∧
      ∀ char ∈ letters, isBreak char = false := by
  induction row with
  | nil => exact ⟨[], rfl, by simp⟩
  | cons field rest induction =>
      have inField : ∀ char ∈ field.toList, isBreak char = false := fun char member =>
        not_isBreak (plain field (List.mem_cons_self ..)).newline
          (plain field (List.mem_cons_self ..)).carriage member
      cases rest with
      | nil => exact ⟨field.toList, rfl, inField⟩
      | cons next rest =>
          rcases induction fun other member => plain other (List.mem_cons_of_mem _ member) with
            ⟨letters, whole, inRest⟩
          refine ⟨field.toList ++ delimiter :: letters, ?_, ?_⟩
          · rw [rowLine, whole, List.append_assoc, List.cons_append]
          · intro char member
            rcases List.mem_append.mp member with early | late
            · exact inField char early
            · rcases List.mem_cons.mp late with rfl | later
              · exact notBreak
              · exact inRest char later

theorem brokenLinesFrom_rows (notBreak : isBreak delimiter = false) {rows : List (List String)}
    (plain : ∀ row ∈ rows, ∀ field ∈ row, Plain delimiter limit field) :
    brokenLinesFrom [] (rows.flatMap (rowLine delimiter)) = rows.map (rowLine delimiter) := by
  induction rows with
  | nil => rfl
  | cons row rest induction =>
      rcases exists_rowLine notBreak (plain row (List.mem_cons_self ..)) with
        ⟨letters, whole, breaks⟩
      rw [List.flatMap_cons, List.map_cons, whole, List.append_assoc, List.singleton_append,
        brokenLinesFrom_line breaks, List.reverse_nil, List.nil_append,
        induction fun other member => plain other (List.mem_cons_of_mem _ member)]

/-- What is written as a text of rows. -/
def rowsText (delimiter : Char) (rows : List (List String)) : String :=
  String.ofList (rows.flatMap (rowLine delimiter))

/-- Rows of plain fields are read as they were written. -/
theorem rows_rowsText (notBreak : isBreak delimiter = false) (notQuote : delimiter ≠ '"')
    {written : List (List String)} (wide : ∀ row ∈ written, 2 ≤ row.length)
    (plain : ∀ row ∈ written, ∀ field ∈ row, Plain delimiter limit field) :
    rows delimiter limit (rowsText delimiter written) = some written := by
  rw [rows, rowsText, brokenLines, String.toList_ofList, brokenLinesFrom_rows notBreak plain]
  induction written with
  | nil => rfl
  | cons row rest induction =>
      have read := foldlM_rowLine_start notBreak notQuote (wide row (List.mem_cons_self ..))
        (plain row (List.mem_cons_self ..))
      have others := induction
        (fun other member => wide other (List.mem_cons_of_mem _ member))
        (fun other member => plain other (List.mem_cons_of_mem _ member))
      rw [List.map_cons, readRows, read, Option.bind_some]
      simp only [endLine, if_true, others, Option.map_some]

end RowReader

end Desan
