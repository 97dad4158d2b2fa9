import Desan.Scripts.DelimitedText
import Desan.Scripts.SpecAsanSummary

/-! # Compile records

The compiler wrapper appends a record for each unit it compiles, and `parse_records` of
`spec_asan_summary.py` adds up the logs of the records, benchmark by benchmark. -/

namespace Desan

/-! ## The writer -/

/-- What `desan_spec_record_compile` writes of a unit. -/
structure CompileRecord where
  status : String
  sanitizer : String
  benchmark : String
  compiler : String
  cwd : String
  source : String
  output : String
  rawLL : String
  optLL : String
  passLog : String
deriving DecidableEq, Repr

namespace CompileRecord

def columns : List String :=
  ["status", "sanitizer", "benchmark", "compiler", "cwd", "source", "output", "raw_ll",
    "opt_ll", "pass_log"]

def fields (record : CompileRecord) : List String :=
  [record.status, record.sanitizer, record.benchmark, record.compiler, record.cwd,
    record.source, record.output, record.rawLL, record.optLL, record.passLog]

/-- `desan_spec_record_compile`: the records before it, if there is a file yet. -/
def append (file : Option String) (record : CompileRecord) : String :=
  file.getD (RowReader.rowsText '\t' [columns]) ++ RowReader.rowsText '\t' [record.fields]

/-- The file of a wrapper that has recorded the units. -/
def written (records : List CompileRecord) : Option String :=
  records.foldl (fun file record => some (append file record)) none

end CompileRecord

/-! ## The reader -/

namespace SpecAsanSummary

/-- `csv.field_size_limit()`. -/
def fieldSizeLimit : Nat := 131072

/-- A record of `csv.DictReader`; a name that stands twice has its last field. -/
def recordGet (columns row : List String) (name : String) : Option String :=
  (columns.zip row).reverse.lookup name

/-- The records of a file; empty rows are passed over. -/
def dictRecords : List (List String) → List (String → Option String)
  | [] => []
  | columns :: rows => (rows.filter fun row => !row.isEmpty).map (recordGet columns)

structure BenchmarkRow where
  compileUnits : Nat := 0
  fallbackUnits : Nat := 0
  totalChecks : Int := 0
  coreChecks : Int := 0
  removedChecks : Int := 0
deriving DecidableEq, Repr

/-- The rows by benchmark, in the order of their insertion. -/
abbrev BenchmarkRows := List (String × BenchmarkRow)

/-- `setdefault`, and what is done to the row it gives. -/
def BenchmarkRows.update (benchmark : String) (change : BenchmarkRow → BenchmarkRow) :
    BenchmarkRows → BenchmarkRows
  | [] => [(benchmark, change {})]
  | (name, row) :: rest =>
      if name = benchmark then (name, change row) :: rest
      else (name, row) :: BenchmarkRows.update benchmark change rest

variable (tables : UnicodeTables) (corePrefixes : List String)
  -- What is behind a path, if there is a file.
  (files : String → Option String)

/-- What a record adds to its row; nothing where the script raises. -/
def recordChange (record : String → Option String) : Option (BenchmarkRow → BenchmarkRow) :=
  if record "status" = some "pass" then
    (record "pass_log").bind fun log =>
      (parsePassLog tables corePrefixes (files log)).map fun read row =>
        { row with
          compileUnits := row.compileUnits + 1
          totalChecks := row.totalChecks + read.1
          coreChecks := row.coreChecks + read.2.1
          removedChecks := row.removedChecks + read.2.2 }
  else if record "status" = some "pass-fallback" then
    (record "pass_log").bind fun log =>
      (parsePassLog tables corePrefixes (files log)).map fun read row =>
        { row with
          compileUnits := row.compileUnits + 1
          fallbackUnits := row.fallbackUnits + 1
          totalChecks := row.totalChecks + read.1
          coreChecks := row.coreChecks + read.2.1 }
  else
    some fun row =>
      { row with
        compileUnits := row.compileUnits + 1
        fallbackUnits := row.fallbackUnits + 1 }

def benchmarkName (record : String → Option String) : String :=
  match record "benchmark" with
  | none => "<unknown>"
  | some name => if name.isEmpty then "<unknown>" else name

/-- One turn of the loop over the records of a file. -/
def parseRecord (rows : BenchmarkRows) (record : String → Option String) :
    Option BenchmarkRows :=
  if record "status" = some "status" ∨ record "benchmark" = some "benchmark" then some rows
  else
    (recordChange tables corePrefixes files record).map fun change =>
      rows.update (benchmarkName record) change

/-- `parse_records`, given what is behind each of the paths. -/
def parseRecords (texts : List (Option String)) : Option BenchmarkRows :=
  texts.foldlM
    (fun rows text =>
      match text with
      | none => some rows
      | some text =>
          (RowReader.rows '\t' fieldSizeLimit text).bind fun read =>
            (dictRecords read).foldlM (parseRecord tables corePrefixes files) rows) []

/-! ## What the rows should say -/

/-- The line of a heading that was written again, or one that looks like it, is passed
over. -/
def isCounted (record : CompileRecord) : Bool :=
  record.status ≠ "status" && record.benchmark ≠ "benchmark"

def rowName (record : CompileRecord) : String :=
  if record.benchmark.isEmpty then "<unknown>" else record.benchmark

def hasLog (record : CompileRecord) : Bool :=
  record.status = "pass" || record.status = "pass-fallback"

def logOf (record : CompileRecord) : Int × Int × Int :=
  (parsePassLog tables corePrefixes (files record.passLog)).getD (0, 0, 0)

/-- The script raises on the log of the record. -/
def FailsOn (record : CompileRecord) : Prop :=
  isCounted record = true ∧ hasLog record = true ∧
    parsePassLog tables corePrefixes (files record.passLog) = none

def unitsOf (records : List CompileRecord) (name : String) : List CompileRecord :=
  records.filter fun record => isCounted record && rowName record = name

/-- A unit without its own run of the pass is a fallback, and what the pass removed from
such a unit does not count. -/
def tally (units : List CompileRecord) : BenchmarkRow where
  compileUnits := units.length
  fallbackUnits := units.countP fun record => record.status ≠ "pass"
  totalChecks := ((units.filter hasLog).map fun record =>
    (logOf tables corePrefixes files record).1).sum
  coreChecks := ((units.filter hasLog).map fun record =>
    (logOf tables corePrefixes files record).2.1).sum
  removedChecks := ((units.filter fun record => record.status = "pass").map fun record =>
    (logOf tables corePrefixes files record).2.2).sum

/-- The rows are the tallies of the benchmarks that occur, one for each. -/
structure Tallies (records : List CompileRecord) (rows : BenchmarkRows) : Prop where
  names : (rows.map Prod.fst).Nodup
  lookup : ∀ name, rows.lookup name =
    if unitsOf records name = [] then none
    else some (tally tables corePrefixes files (unitsOf records name))

/-! ## Rows that are updated -/

theorem BenchmarkRows.lookup_update (rows : BenchmarkRows) (benchmark name : String)
    (change : BenchmarkRow → BenchmarkRow) :
    (rows.update benchmark change).lookup name =
      if name = benchmark then some (change ((rows.lookup benchmark).getD {}))
      else rows.lookup name := by
  induction rows with
  | nil =>
      by_cases same : name = benchmark
      · simp [update, same]
      · simp [update, same]
  | cons entry rest induction =>
      rcases entry with ⟨other, row⟩
      rw [update]
      by_cases here : other = benchmark
      · rw [if_pos here, here]
        by_cases same : name = benchmark
        · simp [same]
        · have apart : (name == benchmark) = false := by simpa using same
          simp [List.lookup_cons, apart, same]
      · have apart : (benchmark == other) = false := by simpa using Ne.symm here
        rw [if_neg here, List.lookup_cons, induction, List.lookup_cons, List.lookup_cons, apart]
        by_cases same : name = benchmark
        · simp [same, apart]
        · simp [same]

theorem BenchmarkRows.mem_names_update {rows : BenchmarkRows} {benchmark name : String}
    {change : BenchmarkRow → BenchmarkRow} :
    name ∈ (rows.update benchmark change).map Prod.fst ↔
      name ∈ rows.map Prod.fst ∨ name = benchmark := by
  induction rows with
  | nil => simp [update]
  | cons entry rest induction =>
      rcases entry with ⟨other, row⟩
      rw [update]
      split
      · rename_i here
        simp only [List.map_cons, List.mem_cons, here]
        tauto
      · simp only [List.map_cons, List.mem_cons, induction, or_assoc]

theorem BenchmarkRows.nodup_update {rows : BenchmarkRows} (benchmark : String)
    (change : BenchmarkRow → BenchmarkRow) (nodup : (rows.map Prod.fst).Nodup) :
    ((rows.update benchmark change).map Prod.fst).Nodup := by
  induction rows with
  | nil => simp [update]
  | cons entry rest induction =>
      rcases entry with ⟨other, row⟩
      rw [List.map_cons, List.nodup_cons] at nodup
      rw [update]
      split
      · rw [List.map_cons, List.nodup_cons]
        exact nodup
      · rename_i apart
        rw [List.map_cons, List.nodup_cons]
        refine ⟨?_, induction nodup.2⟩
        intro member
        rcases mem_names_update.mp member with old | same
        · exact nodup.1 old
        · exact apart same

/-! ## One record -/

section Record

variable {tables corePrefixes files} {record : CompileRecord} {records : List CompileRecord}
  {rows : BenchmarkRows}

/-- The record that the reader hands to the script. -/
def readBack (record : CompileRecord) : String → Option String :=
  recordGet CompileRecord.columns record.fields

theorem readBack_eq (record : CompileRecord) :
    readBack record "status" = some record.status ∧
      readBack record "benchmark" = some record.benchmark ∧
      readBack record "pass_log" = some record.passLog := by
  refine ⟨?_, ?_, ?_⟩ <;>
    simp [readBack, recordGet, CompileRecord.columns, CompileRecord.fields, List.lookup_cons]

theorem benchmarkName_readBack (record : CompileRecord) :
    benchmarkName (readBack record) = rowName record := by
  rw [benchmarkName, (readBack_eq record).2.1, rowName]

theorem recordChange_eq_none :
    recordChange tables corePrefixes files (readBack record) = none ↔
      hasLog record = true ∧
        parsePassLog tables corePrefixes (files record.passLog) = none := by
  rw [recordChange, (readBack_eq record).1, (readBack_eq record).2.2, hasLog]
  simp only [Option.some_inj, Option.bind_some, Bool.or_eq_true, decide_eq_true_eq]
  split
  · rename_i passed
    simp [passed]
  · rename_i notPassed
    split
    · rename_i fallback
      simp [fallback]
    · rename_i notFallback
      simp [notPassed, notFallback]

theorem parseRecord_eq_none :
    parseRecord tables corePrefixes files rows (readBack record) = none ↔
      FailsOn tables corePrefixes files record := by
  rw [parseRecord, FailsOn, isCounted, (readBack_eq record).1, (readBack_eq record).2.1]
  simp only [Option.some_inj, Bool.and_eq_true, decide_eq_true_eq, ne_eq]
  by_cases heading : record.status = "status" ∨ record.benchmark = "benchmark"
  · rw [if_pos heading]
    constructor
    · intro none
      cases none
    · rintro ⟨⟨notStatus, notBenchmark⟩, -⟩
      exact absurd heading (not_or.mpr ⟨notStatus, notBenchmark⟩)
  · rw [if_neg heading, Option.map_eq_none_iff, recordChange_eq_none]
    rw [not_or] at heading
    exact (and_iff_right heading).symm

/-- A record adds to the tally of its units what it stands for. -/
theorem change_tally {change : BenchmarkRow → BenchmarkRow} (units : List CompileRecord)
    (changes : recordChange tables corePrefixes files (readBack record) = some change) :
    change (tally tables corePrefixes files units) =
      tally tables corePrefixes files (units ++ [record]) := by
  rw [recordChange, (readBack_eq record).1, (readBack_eq record).2.2] at changes
  simp only [Option.some_inj, Option.bind_some] at changes
  simp only [tally, List.length_append, List.length_singleton, List.countP_append,
    List.filter_append, List.map_append, List.sum_append]
  split at changes
  · rename_i passed
    rcases Option.map_eq_some_iff.mp changes with ⟨read, parsed, rfl⟩
    simp [hasLog, passed, logOf, parsed]
  · rename_i notPassed
    split at changes
    · rename_i fallback
      rcases Option.map_eq_some_iff.mp changes with ⟨read, parsed, rfl⟩
      simp [hasLog, fallback, logOf, parsed]
    · rename_i notFallback
      cases changes
      simp [hasLog, notPassed, notFallback]

theorem tallies_parseRecord {next : BenchmarkRows}
    (tallies : Tallies tables corePrefixes files records rows)
    (parsed : parseRecord tables corePrefixes files rows (readBack record) = some next) :
    Tallies tables corePrefixes files (records ++ [record]) next := by
  rw [parseRecord, (readBack_eq record).1, (readBack_eq record).2.1] at parsed
  simp only [Option.some_inj] at parsed
  by_cases heading : record.status = "status" ∨ record.benchmark = "benchmark"
  · rw [if_pos heading] at parsed
    cases parsed
    have skipped : isCounted record = false := by
      rw [isCounted, Bool.and_eq_false_iff, decide_eq_false_iff_not, decide_eq_false_iff_not,
        not_not, not_not]
      exact heading
    have same : ∀ name, unitsOf (records ++ [record]) name = unitsOf records name := by
      intro name
      simp [unitsOf, List.filter_append, skipped]
    refine ⟨tallies.names, fun name => ?_⟩
    rw [same]
    exact tallies.lookup name
  · rw [if_neg heading] at parsed
    rcases Option.map_eq_some_iff.mp parsed with ⟨change, changes, rfl⟩
    rw [benchmarkName_readBack]
    have counted : isCounted record = true := by
      rw [not_or] at heading
      simp [isCounted, heading]
    refine ⟨BenchmarkRows.nodup_update _ _ tallies.names, fun name => ?_⟩
    rw [BenchmarkRows.lookup_update]
    split
    · rename_i same
      have units : unitsOf (records ++ [record]) name = unitsOf records name ++ [record] := by
        simp [unitsOf, List.filter_append, counted, same]
      have row : (rows.lookup name).getD {} =
          tally tables corePrefixes files (unitsOf records name) := by
        rw [tallies.lookup]
        split
        · rename_i none
          rw [none]
          rfl
        · rfl
      rw [← same, row, change_tally _ changes, units, if_neg (by simp)]
    · rename_i apart
      have units : unitsOf (records ++ [record]) name = unitsOf records name := by
        simp [unitsOf, List.filter_append, Ne.symm apart]
      rw [units]
      exact tallies.lookup name

end Record

/-! ## A file of records -/

section Files

variable {tables corePrefixes files}

/-- A record that the reader takes apart as the wrapper put it together. -/
def PlainRecord (record : CompileRecord) : Prop :=
  ∀ field ∈ record.fields, RowReader.Plain '\t' fieldSizeLimit field

instance (record : CompileRecord) : Decidable (PlainRecord record) :=
  inferInstanceAs (Decidable (∀ field ∈ record.fields, RowReader.Plain '\t' fieldSizeLimit field))

theorem rowsText_append (first second : List (List String)) :
    RowReader.rowsText '\t' (first ++ second) =
      RowReader.rowsText '\t' first ++ RowReader.rowsText '\t' second := by
  rw [RowReader.rowsText, List.flatMap_append, String.ofList_append]
  rfl

theorem written_append (text : String) (records : List CompileRecord) :
    records.foldl (fun file record => some (CompileRecord.append file record)) (some text) =
      some (text ++ RowReader.rowsText '\t' (records.map CompileRecord.fields)) := by
  induction records generalizing text with
  | nil => simp [RowReader.rowsText]
  | cons record rest induction =>
      have split : (record :: rest).map CompileRecord.fields =
          [record.fields] ++ rest.map CompileRecord.fields := rfl
      rw [List.foldl_cons, induction, CompileRecord.append, Option.getD_some, split,
        rowsText_append, String.append_assoc]

theorem written_cons (record : CompileRecord) (rest : List CompileRecord) :
    CompileRecord.written (record :: rest) =
      some (RowReader.rowsText '\t'
        (CompileRecord.columns :: (record :: rest).map CompileRecord.fields)) := by
  rw [CompileRecord.written, List.foldl_cons, written_append, CompileRecord.append,
    Option.getD_none, ← rowsText_append, ← rowsText_append]
  rfl

theorem dictRecords_fields (records : List CompileRecord) :
    dictRecords (CompileRecord.columns :: records.map CompileRecord.fields) =
      records.map readBack := by
  have filled : (records.map CompileRecord.fields).filter (fun row => !row.isEmpty) =
      records.map CompileRecord.fields := by
    apply List.filter_eq_self.mpr
    intro row member
    rcases List.mem_map.mp member with ⟨record, -, rfl⟩
    rfl
  rw [dictRecords, filled, List.map_map]
  rfl

/-- The script goes over the records that the wrapper has written. -/
theorem foldlM_written {records : List CompileRecord}
    (plain : ∀ record ∈ records, PlainRecord record) (rows : BenchmarkRows) :
    (match CompileRecord.written records with
      | none => some rows
      | some text =>
          (RowReader.rows '\t' fieldSizeLimit text).bind fun read =>
            (dictRecords read).foldlM (parseRecord tables corePrefixes files) rows) =
      records.foldlM
        (fun rows record => parseRecord tables corePrefixes files rows (readBack record))
        rows := by
  cases records with
  | nil => rfl
  | cons record rest =>
      have headings : ∀ field ∈ CompileRecord.columns,
          RowReader.Plain '\t' fieldSizeLimit field := by decide
      have read := @RowReader.rows_rowsText '\t' fieldSizeLimit (by decide) (by decide)
        (CompileRecord.columns :: (record :: rest).map CompileRecord.fields)
      rw [written_cons]
      simp only
      rw [read, Option.bind_some, dictRecords_fields, List.foldlM_map]
      · intro row member
        rcases List.mem_cons.mp member with rfl | inRecords
        · decide
        · rcases List.mem_map.mp inRecords with ⟨other, -, rfl⟩
          exact Nat.le_add_left 2 8
      · intro row member
        rcases List.mem_cons.mp member with rfl | inRecords
        · exact headings
        · rcases List.mem_map.mp inRecords with ⟨other, inside, rfl⟩
          exact plain other inside

theorem parseRecords_eq {recordFiles : List (List CompileRecord)}
    (plain : ∀ records ∈ recordFiles, ∀ record ∈ records, PlainRecord record) :
    parseRecords tables corePrefixes files (recordFiles.map CompileRecord.written) =
      recordFiles.flatten.foldlM
        (fun rows record => parseRecord tables corePrefixes files rows (readBack record)) [] := by
  rw [parseRecords]
  generalize ([] : BenchmarkRows) = rows
  induction recordFiles generalizing rows with
  | nil => rfl
  | cons records rest induction =>
      have first := @foldlM_written tables corePrefixes files records
        (plain records (List.mem_cons_self ..)) rows
      rw [List.map_cons, List.foldlM_cons, List.flatten_cons, List.foldlM_append]
      rw [← first]
      congr 1
      funext middle
      exact induction (fun other member => plain other (List.mem_cons_of_mem _ member)) middle

/-! ## All records -/

theorem tallies_foldlM {records before : List CompileRecord} {rows : BenchmarkRows}
    (tallies : Tallies tables corePrefixes files before rows) :
    (records.foldlM
        (fun rows record => parseRecord tables corePrefixes files rows (readBack record)) rows =
          none ↔ ∃ record ∈ records, FailsOn tables corePrefixes files record) ∧
    ∀ final, records.foldlM
        (fun rows record => parseRecord tables corePrefixes files rows (readBack record)) rows =
          some final → Tallies tables corePrefixes files (before ++ records) final := by
  induction records generalizing before rows with
  | nil =>
      constructor
      · simp
      · intro final same
        cases same
        rw [List.append_nil]
        exact tallies
  | cons record rest induction =>
      rw [List.foldlM_cons]
      cases parsed : parseRecord tables corePrefixes files rows (readBack record) with
      | none =>
          have fails := parseRecord_eq_none.mp parsed
          constructor
          · exact ⟨fun _ => ⟨record, List.mem_cons_self .., fails⟩, fun _ => rfl⟩
          · intro final none
            cases none
      | some next =>
          have passes : ¬FailsOn tables corePrefixes files record := by
            intro fails
            rw [parseRecord_eq_none.mpr fails] at parsed
            cases parsed
          have others := induction (tallies_parseRecord tallies parsed)
          rw [List.append_assoc, List.singleton_append] at others
          refine ⟨?_, others.2⟩
          rw [Option.bind_eq_bind, Option.bind_some, others.1, List.exists_mem_cons_iff,
            or_iff_right passes]

/-- Read back from the files of the wrappers, the records of a benchmark give its row: the
units compiled and the fallbacks among them, and what the logs say in total. The script
raises where one of the logs makes it raise, and nowhere else. -/
theorem parseRecords_written (tables : UnicodeTables) (corePrefixes : List String)
    (files : String → Option String) {recordFiles : List (List CompileRecord)}
    (plain : ∀ records ∈ recordFiles, ∀ record ∈ records, PlainRecord record) :
    (parseRecords tables corePrefixes files (recordFiles.map CompileRecord.written) = none ↔
      ∃ record ∈ recordFiles.flatten, FailsOn tables corePrefixes files record) ∧
    ∀ rows, parseRecords tables corePrefixes files (recordFiles.map CompileRecord.written) =
        some rows →
      (rows.map Prod.fst).Nodup ∧ ∀ name, rows.lookup name =
        if unitsOf recordFiles.flatten name = [] then none
        else some (tally tables corePrefixes files (unitsOf recordFiles.flatten name)) := by
  have start : Tallies tables corePrefixes files [] [] := ⟨List.nodup_nil, fun _ => rfl⟩
  have run := @tallies_foldlM tables corePrefixes files recordFiles.flatten [] [] start
  rw [parseRecords_eq plain]
  refine ⟨run.1, fun rows parsed => ?_⟩
  have tallies := run.2 rows parsed
  exact ⟨tallies.names, tallies.lookup⟩

end Files

/-- A unit that the pass went over. -/
def passedUnit : CompileRecord where
  status := "pass"
  sanitizer := "asan"
  benchmark := "400.perlbench"
  compiler := "clang"
  cwd := "/run"
  source := "av.c"
  output := "av.o"
  rawLL := "av.ll"
  optLL := "av.opt.ll"
  passLog := "av.pass.log"

/-- A unit that could not be compiled to IR. -/
def directUnit : CompileRecord := { passedUnit with status := "ir-compile-fallback" }

def logFile (path : String) : Option String :=
  if path = "av.pass.log" then some "Total Checks: 3\nDESAN Removed Redundant Checks: 1\n"
  else none

theorem perlbench_row :
    ∃ rows, parseRecords ⟨fun _ => false, fun _ => false, fun _ => none⟩ ["__asan_load"] logFile
        [CompileRecord.written [passedUnit, directUnit]] = some rows ∧
      rows.lookup "400.perlbench" = some ⟨2, 1, 3, 0, 1⟩ := by
  have read := parseRecords_written ⟨fun _ => false, fun _ => false, fun _ => none⟩
    ["__asan_load"] logFile (fun records member record inside => by
      have plain : ∀ records ∈ [[passedUnit, directUnit]], ∀ record ∈ records,
          PlainRecord record := by decide
      exact plain records member record inside)
  have parsed : ¬∃ record ∈ [[passedUnit, directUnit]].flatten,
      FailsOn ⟨fun _ => false, fun _ => false, fun _ => none⟩ ["__asan_load"] logFile record := by
    intro fails
    rcases fails with ⟨record, member, -, -, raises⟩
    have reads : ∀ record ∈ [[passedUnit, directUnit]].flatten,
        parsePassLog ⟨fun _ => false, fun _ => false, fun _ => none⟩ ["__asan_load"]
          (logFile record.passLog) ≠ none := by
      decide +kernel
    exact reads record member raises
  rcases Option.ne_none_iff_exists'.mp fun none => parsed (read.1.mp none) with ⟨rows, whole⟩
  refine ⟨rows, whole, ((read.2 rows whole).2 "400.perlbench").trans ?_⟩
  decide +kernel

end SpecAsanSummary

end Desan
