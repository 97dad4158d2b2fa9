import Mathlib.Data.List.TakeWhile
import Desan.Foundation.ShellWords

/-! # The command behind a prompt

`runPrompt` joins the configured command and the paths of two temporary files to one
command line. The characters of a text stand for its bytes. -/

namespace Desan

open ShellWords

namespace LLMAssistedAnalyzer

def shellQuote (text : String) : String :=
  text.toList.foldl (fun quoted char =>
    if char = singleQuote then quoted ++ "'\\''" else quoted.push char) "'" ++ "'"

/-- The command line that redirects the input and the output of the command. -/
def fullCommand (command promptPath responsePath : String) : String :=
  command ++ " < " ++ shellQuote promptPath ++ " > " ++ shellQuote responsePath

structure LLMQueryResult where
  prompt : String := ""
  response : String := ""
  error : String := ""
  exitCode : Int := 0
  invoked : Bool := false
  succeeded : Bool := false
deriving DecidableEq, Repr

/-- The file system and the command processor that `runPrompt` works with. An error is
known by its message. -/
structure PromptHost (State : Type*) where
  createTemporaryFile : String → String → State → Except String String × State
  remove : String → State → State
  writeFile : String → String → State → State
  /-- The command line as a C string. -/
  system : List Char → State → Int × State
  getFile : String → State → Except String String × State

/-- `c_str`: what a C function sees of a text. -/
def cString (text : String) : List Char := text.toList.takeWhile fun char => char ≠ '\x00'

section Run

variable {State : Type*}

/-- What a run makes of the exit code of the command. -/
def readResponse (host : PromptHost State) (result : LLMQueryResult) (responsePath : String)
    (state : State) : LLMQueryResult × State :=
  if result.exitCode = 0 then
    match host.getFile responsePath state with
    | (.ok response, state) => ({ result with response, succeeded := true }, state)
    | (.error message, state) =>
        ({ result with error := "cannot read response temp file: " ++ message }, state)
  else ({ result with error := "LLM command returned non-zero status" }, state)

/-- The part of `runPrompt` behind the creation of both files. -/
def runCommand (host : PromptHost State) (command prompt promptPath responsePath : String)
    (state : State) : LLMQueryResult × State :=
  let state := host.writeFile promptPath prompt state
  let state := host.writeFile responsePath "" state
  let (exitCode, state) :=
    host.system (cString (fullCommand command promptPath responsePath)) state
  let (result, state) :=
    readResponse host { prompt, invoked := true, exitCode } responsePath state
  (result, host.remove responsePath (host.remove promptPath state))

def runPrompt (host : PromptHost State) (command prompt : String) (state : State) :
    LLMQueryResult × State :=
  if command.isEmpty then ({ prompt }, state)
  else
    match host.createTemporaryFile "desan-llm-prompt" "txt" state with
    | (.error message, state) =>
        ({ prompt, error := "cannot create prompt temp file: " ++ message }, state)
    | (.ok promptPath, state) =>
        match host.createTemporaryFile "desan-llm-response" "json" state with
        | (.error message, state) =>
            ({ prompt, error := "cannot create response temp file: " ++ message },
              host.remove promptPath state)
        | (.ok responsePath, state) =>
            runCommand host command prompt promptPath responsePath state

/-- The host with a list of the command lines it was handed. -/
def PromptHost.recording (host : PromptHost State) : PromptHost (State × List (List Char)) where
  createTemporaryFile stem ending state :=
    let (path, next) := host.createTemporaryFile stem ending state.1
    (path, next, state.2)
  remove path state := (host.remove path state.1, state.2)
  writeFile path text state := (host.writeFile path text state.1, state.2)
  system line state :=
    let (exitCode, next) := host.system line state.1
    (exitCode, next, state.2 ++ [line])
  getFile path state :=
    let (text, next) := host.getFile path state.1
    (text, next, state.2)

/-- The command lines of one run. -/
def handedLines (host : PromptHost State) (command prompt : String) (state : State) :
    List (List Char) :=
  (runPrompt host.recording command prompt (state, [])).2.2

end Run

/-! ## Quoted texts -/

/-- A text that C functions see whole. -/
def Whole (text : String) : Prop := '\x00' ∉ text.toList

instance (text : String) : Decidable (Whole text) :=
  inferInstanceAs (Decidable ('\x00' ∉ text.toList))

/-- What `shellQuote` makes of one character. -/
def quoteChar (char : Char) : List Char :=
  if char = singleQuote then [singleQuote, backslash, singleQuote, singleQuote] else [char]

/-- The word that has the characters of the text and no other meaning. -/
def literalWord (text : String) : List Letter := text.toList.map literal

theorem toList_shellQuote (text : String) :
    (shellQuote text).toList =
      singleQuote :: (text.toList.flatMap quoteChar ++ [singleQuote]) := by
  have pieces : ∀ (chars : List Char) (quoted : String),
      (chars.foldl (fun quoted char =>
        if char = singleQuote then quoted ++ "'\\''" else quoted.push char) quoted).toList =
          quoted.toList ++ chars.flatMap quoteChar := by
    intro chars
    induction chars with
    | nil =>
        intro quoted
        exact (List.append_nil _).symm
    | cons char rest induction =>
        intro quoted
        rw [List.foldl_cons, induction, List.flatMap_cons, quoteChar, ← List.append_assoc]
        split
        · rw [String.toList_append]
          rfl
        · rw [String.toList_push]
  rw [shellQuote, String.toList_append, pieces]
  rfl

theorem read_quoteChar {reader : Reader} (isSingle : reader.quoting = .single) (char : Char) :
    reader.read (quoteChar char) = reader.extend [literal char] := by
  rw [quoteChar]
  split
  · rename_i isQuote
    rw [Reader.read_requote isSingle, isQuote]
  · rename_i different
    exact Reader.step_single isSingle different

/-- Inside the quotes every character is one letter of the word, whatever it is. -/
theorem read_quoteChars {reader : Reader} (isSingle : reader.quoting = .single)
    {letters : List Letter} (begun : reader.word = some letters) (chars : List Char) :
    reader.read (chars.flatMap quoteChar) = reader.extend (chars.map literal) := by
  induction chars generalizing reader letters with
  | nil => exact (Reader.extend_nil begun).symm
  | cons char rest induction =>
      have stays : (reader.extend [literal char]).quoting = .single := isSingle
      have goesOn : (reader.extend [literal char]).word =
          some (reader.word.getD [] ++ [literal char]) := rfl
      rw [List.flatMap_cons, Reader.read_append, read_quoteChar isSingle,
        induction stays goesOn, Reader.extend_extend]
      rfl

/-- Outside quotes a quoted text adds its characters to the word, all of them literal, and
the shell is outside quotes again. -/
theorem read_shellQuote {reader : Reader} (isOutside : reader.quoting = .outside)
    (text : String) :
    reader.read (shellQuote text).toList = reader.extend (literalWord text) := by
  have quoted : ((reader.extend []).enter .single).read (text.toList.flatMap quoteChar) =
      (reader.extend (literalWord text)).enter .single := by
    rw [read_quoteChars rfl rfl, Reader.extend_enter, Reader.extend_extend]
    rfl
  rw [toList_shellQuote, Reader.read_cons, Reader.step_open isOutside, Reader.read_append,
    quoted, Reader.read_cons, Reader.step_close rfl, Reader.enter_enter]
  exact Reader.enter_quoting isOutside

theorem whole_append {first second : String} (left : Whole first) (right : Whole second) :
    Whole (first ++ second) := by
  rw [Whole, String.toList_append]
  intro member
  rcases List.mem_append.mp member with inFirst | inSecond
  · exact left inFirst
  · exact right inSecond

theorem whole_shellQuote {text : String} (whole : Whole text) : Whole (shellQuote text) := by
  rw [Whole, toList_shellQuote]
  intro member
  rcases List.mem_cons.mp member with same | later
  · cases same
  · rcases List.mem_append.mp later with inText | last
    · rcases List.mem_flatMap.mp inText with ⟨char, isChar, isPiece⟩
      rw [quoteChar] at isPiece
      split at isPiece
      · revert isPiece
        decide
      · rw [← List.mem_singleton.mp isPiece] at isChar
        exact whole isChar
    · cases List.mem_singleton.mp last

theorem cString_eq {text : String} (whole : Whole text) : cString text = text.toList := by
  rw [cString, List.takeWhile_eq_self_iff]
  intro char member
  rw [decide_eq_true_eq]
  intro same
  rw [same] at member
  exact whole member

/-! ## The command line of a run -/

/-- The temporary files have paths that C functions see whole. -/
def PromptHost.WholePaths {State : Type*} (host : PromptHost State) : Prop :=
  ∀ stem ending state path next, Whole stem → Whole ending →
    host.createTemporaryFile stem ending state = (.ok path, next) → Whole path

/-- Behind the command the shell is outside quotes and comments. -/
def EndsOutside (command : String) : Prop :=
  (Reader.read {} command.toList).quoting = .outside

instance (command : String) : Decidable (EndsOutside command) :=
  inferInstanceAs (Decidable ((Reader.read {} command.toList).quoting = .outside))

/-- The tokens of the command, and the two redirections. -/
def redirected (command promptPath responsePath : String) : List Token :=
  (Reader.read {} command.toList).delimit.tokens ++
    [.operator '<', .word (literalWord promptPath),
      .operator '>', .word (literalWord responsePath)]

theorem tokens?_shellQuote {text : String} (whole : Whole text) :
    tokens? (cString (shellQuote text)) = some [.word (literalWord text)] := by
  rw [cString_eq (whole_shellQuote whole), tokens?, read_shellQuote rfl]
  rfl

theorem whole_fullCommand {command promptPath responsePath : String} (whole : Whole command)
    (wholePrompt : Whole promptPath) (wholeResponse : Whole responsePath) :
    Whole (fullCommand command promptPath responsePath) := by
  have input : Whole " < " := by decide
  have output : Whole " > " := by decide
  rw [fullCommand]
  exact whole_append (whole_append (whole_append (whole_append whole input)
    (whole_shellQuote wholePrompt)) output) (whole_shellQuote wholeResponse)

/-- The shell reads the command line as the command with the two redirections. -/
theorem tokens?_fullCommand {command promptPath responsePath : String} (whole : Whole command)
    (outside : EndsOutside command) (wholePrompt : Whole promptPath)
    (wholeResponse : Whole responsePath) :
    tokens? (cString (fullCommand command promptPath responsePath)) =
      some (redirected command promptPath responsePath) := by
  let input := ((Reader.read {} command.toList).operate '<').extend (literalWord promptPath)
  have line : (fullCommand command promptPath responsePath).toList =
      command.toList ++ ([' ', '<', ' '] ++ ((shellQuote promptPath).toList ++
        ([' ', '>', ' '] ++ (shellQuote responsePath).toList))) := by
    rw [fullCommand, String.toList_append, String.toList_append, String.toList_append,
      String.toList_append, List.append_assoc, List.append_assoc, List.append_assoc]
    rfl
  have behind : ((Reader.read {} command.toList).operate '<').quoting = .outside :=
    (Reader.quoting_delimit _).trans outside
  have isOutside : input.quoting = .outside := behind
  have last : (input.operate '>').quoting = .outside := isOutside
  rw [cString_eq (whole_fullCommand whole wholePrompt wholeResponse), line, tokens?,
    Reader.read_append, Reader.read_append, Reader.read_operator outside (by decide),
    Reader.read_append, read_shellQuote behind, Reader.read_append,
    Reader.read_operator isOutside (by decide), read_shellQuote last]
  have ended : ((input.operate '>').extend (literalWord responsePath)).finish =
      some ((input.operate '>').tokens ++ [.word (literalWord responsePath)]) := by
    rw [Reader.finish, show ((input.operate '>').extend _).quoting = .outside from last]
    rfl
  have begun : input.word = some (literalWord promptPath) := by
    show some (((Reader.read {} command.toList).operate '<').word.getD [] ++ _) = _
    rw [show ((Reader.read {} command.toList).operate '<').word = none from
      Reader.word_delimit _]
    rfl
  have tokens : (input.operate '>').tokens =
      (Reader.read {} command.toList).delimit.tokens ++
        [.operator '<'] ++ [.word (literalWord promptPath)] ++ [.operator '>'] := by
    rw [Reader.operate, Reader.delimit.eq_def input, begun]
    rfl
  rw [ended, tokens, redirected, List.append_assoc, List.append_assoc, List.append_assoc]
  rfl

section Run

variable {State : Type*} {host : PromptHost State}

theorem log_readResponse (result : LLMQueryResult) (responsePath : String) (state : State)
    (log : List (List Char)) :
    (readResponse host.recording result responsePath (state, log)).2.2 = log := by
  rw [readResponse]
  split
  · rcases got : host.getFile responsePath state with ⟨outcome, next⟩
    have recorded : host.recording.getFile responsePath (state, log) = (outcome, next, log) := by
      simp only [PromptHost.recording, got]
    rw [recorded]
    cases outcome with
    | ok response => rfl
    | error message => rfl
  · rfl

theorem log_runCommand (command prompt promptPath responsePath : String) (state : State)
    (log : List (List Char)) :
    (runCommand host.recording command prompt promptPath responsePath (state, log)).2.2 =
      log ++ [cString (fullCommand command promptPath responsePath)] :=
  log_readResponse _ _ _ _

/-- A run hands over at most the one command line, between the two files it has created. -/
theorem mem_handedLines {command prompt : String} {state : State} {line : List Char}
    (member : line ∈ handedLines host command prompt state) :
    ∃ promptPath middle responsePath next,
      host.createTemporaryFile "desan-llm-prompt" "txt" state = (.ok promptPath, middle) ∧
      host.createTemporaryFile "desan-llm-response" "json" middle = (.ok responsePath, next) ∧
      line = cString (fullCommand command promptPath responsePath) := by
  have recorded : ∀ stem ending before outcome after,
      host.createTemporaryFile stem ending before = (outcome, after) →
        host.recording.createTemporaryFile stem ending (before, []) = (outcome, after, []) := by
    intro stem ending before outcome after created
    simp only [PromptHost.recording, created]
  rw [handedLines, runPrompt] at member
  split at member
  · cases member
  · rcases first : host.createTemporaryFile "desan-llm-prompt" "txt" state with
      ⟨promptOutcome, middle⟩
    rw [recorded _ _ _ _ _ first] at member
    cases promptOutcome with
    | error message => cases member
    | ok promptPath =>
        simp only at member
        rcases second : host.createTemporaryFile "desan-llm-response" "json" middle with
          ⟨responseOutcome, next⟩
        rw [recorded _ _ _ _ _ second] at member
        cases responseOutcome with
        | error message => cases member
        | ok responsePath =>
            simp only at member
            rw [log_runCommand] at member
            exact ⟨promptPath, middle, responsePath, next, rfl, second,
              List.mem_singleton.mp member⟩

/-- A quoted text is read as one word with the characters of the text, none of which the
shell interprets. So it is with both paths in every command line that a run hands over. -/
theorem shellQuote_reads_back (host : PromptHost State) (text : String) (whole : Whole text) :
    tokens? (cString (shellQuote text)) = some [.word (literalWord text)] ∧
    (host.WholePaths → ∀ command, Whole command → EndsOutside command →
      ∀ prompt state, ∀ line ∈ handedLines host command prompt state,
        ∃ promptPath middle responsePath next,
          host.createTemporaryFile "desan-llm-prompt" "txt" state = (.ok promptPath, middle) ∧
          host.createTemporaryFile "desan-llm-response" "json" middle =
            (.ok responsePath, next) ∧
          tokens? line = some (redirected command promptPath responsePath)) := by
  refine ⟨tokens?_shellQuote whole, ?_⟩
  intro paths command wholeCommand outside prompt state line handed
  rcases mem_handedLines handed with
    ⟨promptPath, middle, responsePath, next, first, second, isLine⟩
  refine ⟨promptPath, middle, responsePath, next, first, second, ?_⟩
  rw [isLine]
  exact tokens?_fullCommand wholeCommand outside
    (paths _ _ _ _ _ (by decide) (by decide) first)
    (paths _ _ _ _ _ (by decide) (by decide) second)

/-- A host whose temporary files are in a directory with a blank and a quote in its name. -/
def quotedDirectory : PromptHost Unit where
  createTemporaryFile stem ending state := (.ok ("/tmp/it's mine/" ++ stem ++ "." ++ ending), state)
  remove _ state := state
  writeFile _ _ state := state
  system _ state := (0, state)
  getFile _ state := (.ok "yes", state)

theorem quotedDirectory_wholePaths : quotedDirectory.WholePaths := by
  intro stem ending state path next wholeStem wholeEnding created
  have directory : Whole "/tmp/it's mine/" := by decide
  have dot : Whole "." := by decide
  cases created
  exact whole_append (whole_append (whole_append directory wholeStem) dot) wholeEnding

theorem shellQuote_quotedDirectory :
    tokens? (cString (shellQuote "it's")) = some [.word (literalWord "it's")] ∧
    ∀ line ∈ handedLines quotedDirectory "ask --brief" "Is the check redundant?" (),
      ∃ promptPath middle responsePath next,
        quotedDirectory.createTemporaryFile "desan-llm-prompt" "txt" () =
          (.ok promptPath, middle) ∧
        quotedDirectory.createTemporaryFile "desan-llm-response" "json" middle =
          (.ok responsePath, next) ∧
        tokens? line = some (redirected "ask --brief" promptPath responsePath) := by
  have readsBack := shellQuote_reads_back quotedDirectory "it's" (by decide)
  refine ⟨readsBack.1, ?_⟩
  exact readsBack.2 quotedDirectory_wholePaths "ask --brief" (by decide) (by decide)
    "Is the check redundant?" ()

end Run

end LLMAssistedAnalyzer

end Desan
