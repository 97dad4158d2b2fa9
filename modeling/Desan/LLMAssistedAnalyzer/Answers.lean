import Desan.LLMAssistedAnalyzer.RunPrompt

/-! # What a run of the command leaves behind

A host can keep books of the command lines it was handed and of the temporary files that
there are. A run ends with the files it began with, however it ends. -/

namespace Desan

namespace LLMAssistedAnalyzer

structure Books where
  commands : List (List Char) := []
  temporaryFiles : List String := []
deriving DecidableEq, Repr

def Books.remove (books : Books) (path : String) : Books :=
  { books with temporaryFiles := books.temporaryFiles.filter fun file => file ≠ path }

/-- The results a run of a prompt can have. -/
inductive Outcome (command prompt : String) : LLMQueryResult → Prop where
  | noCommand (empty : command = "") : Outcome command prompt { prompt }
  | noFile {start : String} (present : command ≠ "")
      (isStart : start ∈ ["cannot create prompt temp file: ", "cannot create response temp file: "])
      (message : String) : Outcome command prompt { prompt, error := start ++ message }
  | failed (present : command ≠ "") {exitCode : Int} (failed : exitCode ≠ 0) :
      Outcome command prompt
        { prompt, invoked := true, exitCode, error := "LLM command returned non-zero status" }
  | unread (present : command ≠ "") (message : String) :
      Outcome command prompt
        { prompt, invoked := true, error := "cannot read response temp file: " ++ message }
  | answered (present : command ≠ "") (response : String) :
      Outcome command prompt { prompt, response, invoked := true, succeeded := true }

section Run

variable {State : Type*} (host : PromptHost State)

def PromptHost.withBooks : PromptHost (State × Books) where
  createTemporaryFile stem ending state :=
    match host.createTemporaryFile stem ending state.1 with
    | (.ok path, next) =>
        (.ok path, next, { state.2 with temporaryFiles := path :: state.2.temporaryFiles })
    | (.error message, next) => (.error message, next, state.2)
  remove path state := (host.remove path state.1, state.2.remove path)
  writeFile path text state := (host.writeFile path text state.1, state.2)
  system line state :=
    let (exitCode, next) := host.system line state.1
    (exitCode, next, { state.2 with commands := state.2.commands ++ [line] })
  getFile path state :=
    let (text, next) := host.getFile path state.1
    (text, next, state.2)

variable {host}

theorem remove_both (promptPath responsePath : String) (commands : List (List Char)) :
    (Books.remove (Books.remove ⟨commands, [responsePath, promptPath]⟩ promptPath)
      responsePath) = ⟨commands, []⟩ := by
  by_cases same : responsePath = promptPath
  · simp [Books.remove, same]
  · simp [Books.remove, same]

theorem outcome_readResponse {command prompt responsePath : String} {exitCode : Int}
    (present : command ≠ "") (state : State) :
    Outcome command prompt
      (readResponse host { prompt, invoked := true, exitCode } responsePath state).1 := by
  rw [readResponse]
  by_cases isZero : exitCode = 0
  · subst isZero
    rw [if_pos rfl]
    rcases host.getFile responsePath state with ⟨outcome, next⟩
    cases outcome with
    | ok response => exact .answered present response
    | error message => exact .unread present message
  · rw [if_neg isZero]
    exact .failed present isZero

theorem invoked_readResponse (result : LLMQueryResult) (responsePath : String) (state : State) :
    (readResponse host result responsePath state).1.invoked = result.invoked := by
  rw [readResponse]
  split
  · rcases host.getFile responsePath state with ⟨outcome, next⟩
    cases outcome with
    | ok response => rfl
    | error message => rfl
  · rfl

theorem books_readResponse (result : LLMQueryResult) (responsePath : String) (state : State)
    (books : Books) :
    (readResponse host.withBooks result responsePath (state, books)).2.2 = books := by
  rw [readResponse]
  split
  · rcases got : host.getFile responsePath state with ⟨outcome, next⟩
    have kept : host.withBooks.getFile responsePath (state, books) = (outcome, next, books) := by
      simp only [PromptHost.withBooks, got]
    rw [kept]
    cases outcome with
    | ok response => rfl
    | error message => rfl
  · rfl

theorem outcome_runPrompt (command prompt : String) (state : State) :
    Outcome command prompt (runPrompt host command prompt state).1 := by
  rw [runPrompt]
  split
  · rename_i isEmpty
    exact .noCommand (String.isEmpty_iff.mp isEmpty)
  · rename_i notEmpty
    have present : command ≠ "" := fun empty => notEmpty (String.isEmpty_iff.mpr empty)
    rcases host.createTemporaryFile "desan-llm-prompt" "txt" state with ⟨outcome, middle⟩
    cases outcome with
    | error message => exact .noFile present (List.mem_cons_self ..) message
    | ok promptPath =>
        rcases second : host.createTemporaryFile "desan-llm-response" "json" middle with
          ⟨outcome, next⟩
        simp only [second]
        cases outcome with
        | error message =>
            exact .noFile present (List.mem_cons_of_mem _ (List.mem_cons_self ..)) message
        | ok responsePath => exact outcome_readResponse present _

/-- The books behind the command, with the files removed. -/
theorem books_runCommand (command prompt promptPath responsePath : String) (state : State)
    (commands : List (List Char)) :
    (runCommand host.withBooks command prompt promptPath responsePath
        (state, ⟨commands, [responsePath, promptPath]⟩)).2.2 =
      ⟨commands ++ [cString (fullCommand command promptPath responsePath)], []⟩ := by
  rw [runCommand]
  simp only
  rw [← remove_both promptPath responsePath]
  exact congrArg (fun books : Books => (books.remove promptPath).remove responsePath)
    (books_readResponse _ _ _ _)

/-! ## The books change nothing -/

theorem view_readResponse (result : LLMQueryResult) (responsePath : String) (state : State)
    (books : Books) :
    Prod.map id Prod.fst (readResponse host.withBooks result responsePath (state, books)) =
      readResponse host result responsePath state := by
  rw [readResponse, readResponse]
  split
  · rcases got : host.getFile responsePath state with ⟨outcome, next⟩
    have kept : host.withBooks.getFile responsePath (state, books) = (outcome, next, books) := by
      simp only [PromptHost.withBooks, got]
    rw [kept]
    cases outcome with
    | ok response => rfl
    | error message => rfl
  · rfl

theorem view_runCommand (command prompt promptPath responsePath : String) (state : State)
    (books : Books) :
    Prod.map id Prod.fst
        (runCommand host.withBooks command prompt promptPath responsePath (state, books)) =
      runCommand host command prompt promptPath responsePath state := by
  -- Both files are removed from the state that is left when the response has been read.
  exact congrArg (fun left : LLMQueryResult × State =>
    (left.1, host.remove responsePath (host.remove promptPath left.2)))
    (view_readResponse _ _ _ _)

/-- A host with books answers as the host does. -/
theorem view_runPrompt (command prompt : String) (state : State) (books : Books) :
    Prod.map id Prod.fst (runPrompt host.withBooks command prompt (state, books)) =
      runPrompt host command prompt state := by
  rw [runPrompt, runPrompt]
  split
  · rfl
  · rcases first : host.createTemporaryFile "desan-llm-prompt" "txt" state with
      ⟨outcome, middle⟩
    cases outcome with
    | error message => simp only [PromptHost.withBooks, first, Prod.map, id]
    | ok promptPath =>
        rcases second : host.createTemporaryFile "desan-llm-response" "json" middle with
          ⟨outcome, next⟩
        have created : host.withBooks.createTemporaryFile "desan-llm-prompt" "txt"
            (state, books) = (.ok promptPath, middle,
              { books with temporaryFiles := promptPath :: books.temporaryFiles }) := by
          simp only [PromptHost.withBooks, first]
        rw [created]
        cases outcome with
        | error message => simp only [PromptHost.withBooks, second, Prod.map, id]
        | ok responsePath =>
            have both : host.withBooks.createTemporaryFile "desan-llm-response" "json"
                (middle, { books with temporaryFiles := promptPath :: books.temporaryFiles }) =
                  (.ok responsePath, next, { books with
                    temporaryFiles := responsePath :: promptPath :: books.temporaryFiles }) := by
              simp only [PromptHost.withBooks, second]
            simp only [both, second]
            exact view_runCommand _ _ _ _ _ _

theorem invoked_runCommand (command prompt promptPath responsePath : String) (state : State) :
    (runCommand host command prompt promptPath responsePath state).1.invoked = true :=
  invoked_readResponse _ _ _

/-- A run begun without temporary files ends without any, and it has handed over one
command line if its result says so. -/
theorem books_runPrompt (command prompt : String) (state : State)
    (commands : List (List Char)) :
    ∃ lines, (runPrompt host.withBooks command prompt (state, ⟨commands, []⟩)).2.2 =
        ⟨commands ++ lines, []⟩ ∧
      lines.length =
        if (runPrompt host.withBooks command prompt (state, ⟨commands, []⟩)).1.invoked then 1
        else 0 := by
  rw [runPrompt]
  split
  · exact ⟨[], by simp, rfl⟩
  · rcases first : host.createTemporaryFile "desan-llm-prompt" "txt" state with ⟨outcome, middle⟩
    cases outcome with
    | error message =>
        have created : host.withBooks.createTemporaryFile "desan-llm-prompt" "txt"
            (state, ⟨commands, []⟩) = (.error message, middle, ⟨commands, []⟩) := by
          simp only [PromptHost.withBooks, first]
        rw [created]
        exact ⟨[], by simp, rfl⟩
    | ok promptPath =>
        have created : host.withBooks.createTemporaryFile "desan-llm-prompt" "txt"
            (state, ⟨commands, []⟩) = (.ok promptPath, middle, ⟨commands, [promptPath]⟩) := by
          simp only [PromptHost.withBooks, first]
        rw [created]
        rcases second : host.createTemporaryFile "desan-llm-response" "json" middle with
          ⟨outcome, next⟩
        cases outcome with
        | error message =>
            have refused : host.withBooks.createTemporaryFile "desan-llm-response" "json"
                (middle, ⟨commands, [promptPath]⟩) =
                  (.error message, next, ⟨commands, [promptPath]⟩) := by
              simp only [PromptHost.withBooks, second]
            simp only [refused]
            exact ⟨[], by simp [PromptHost.withBooks, Books.remove], rfl⟩
        | ok responsePath =>
            have both : host.withBooks.createTemporaryFile "desan-llm-response" "json"
                (middle, ⟨commands, [promptPath]⟩) =
                  (.ok responsePath, next, ⟨commands, [responsePath, promptPath]⟩) := by
              simp only [PromptHost.withBooks, second]
            simp only [both]
            refine ⟨[cString (fullCommand command promptPath responsePath)], ?_, ?_⟩
            · exact books_runCommand _ _ _ _ _ _
            · rw [invoked_runCommand]
              rfl

end Run

end LLMAssistedAnalyzer

end Desan
