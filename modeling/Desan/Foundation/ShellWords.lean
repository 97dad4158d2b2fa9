import Mathlib.Data.List.Basic

/-! # Words as the POSIX shell reads them

Token recognition with the quoting rules: single quotes keep every character, a backslash
outside quotes the next one, double quotes all but a few, and pieces without a blank or
an operator between them are one word. No expansion is carried out. Every letter of a
word knows if it is quoted, since the shell interprets the others only. -/

namespace Desan

namespace ShellWords

def singleQuote : Char := '\x27'

def doubleQuote : Char := '\x22'

def backslash : Char := '\x5c'

def lineBreak : Char := '\x0a'

/-- The characters that double quotes leave their meaning. -/
def expansionStarts : List Char := ['$', '\x60']

def blanks : List Char := [' ', '\t']

/-- The characters that operators are made of. -/
def operatorChars : List Char := ['|', '&', ';', '<', '>', '(', ')', lineBreak]

inductive Quoting where
  | outside | single | double | escaped | doubleEscaped | comment
deriving DecidableEq, Repr

structure Letter where
  char : Char
  isLiteral : Bool
deriving DecidableEq, Repr

/-- A letter the shell does not interpret. -/
def literal (char : Char) : Letter := ⟨char, true⟩

/-- An operator of several characters is read as one token for each. -/
inductive Token where
  | word (letters : List Letter)
  | operator (char : Char)
deriving DecidableEq, Repr

structure Reader where
  quoting : Quoting := .outside
  /-- The word that is being read, if one is. -/
  word : Option (List Letter) := none
  tokens : List Token := []
deriving DecidableEq, Repr

namespace Reader

/-- Go on with the word, or begin one. -/
def extend (letters : List Letter) (reader : Reader) : Reader :=
  { reader with word := some (reader.word.getD [] ++ letters) }

def enter (quoting : Quoting) (reader : Reader) : Reader := { reader with quoting }

/-- The end of the word that is being read. -/
def delimit (reader : Reader) : Reader :=
  match reader.word with
  | none => reader
  | some letters =>
      { reader with word := none, tokens := reader.tokens ++ [.word letters] }

def operate (char : Char) (reader : Reader) : Reader :=
  let reader := reader.delimit
  { reader with tokens := reader.tokens ++ [.operator char] }

def step (reader : Reader) (char : Char) : Reader :=
  match reader.quoting with
  | .outside =>
      if char = singleQuote then (reader.extend []).enter .single
      else if char = doubleQuote then (reader.extend []).enter .double
      else if char = backslash then reader.enter .escaped
      else if char ∈ blanks then reader.delimit
      else if char ∈ operatorChars then reader.operate char
      else if char = '#' ∧ reader.word = none then reader.enter .comment
      else reader.extend [⟨char, false⟩]
  | .single =>
      if char = singleQuote then reader.enter .outside else reader.extend [literal char]
  | .double =>
      if char = doubleQuote then reader.enter .outside
      else if char = backslash then reader.enter .doubleEscaped
      else reader.extend [⟨char, decide (char ∉ expansionStarts)⟩]
  | .escaped =>
      -- A backslash joins the lines it stands between.
      if char = lineBreak then reader.enter .outside
      else (reader.extend [literal char]).enter .outside
  | .doubleEscaped =>
      if char = lineBreak then reader.enter .double
      else if char ∈ expansionStarts ∨ char = doubleQuote ∨ char = backslash then
        (reader.extend [literal char]).enter .double
      else (reader.extend [literal backslash, literal char]).enter .double
  | .comment =>
      if char = lineBreak then (reader.operate char).enter .outside else reader

def read (reader : Reader) (text : List Char) : Reader := text.foldl step reader

/-- The tokens at the end of the text; nothing if a quote is open. -/
def finish (reader : Reader) : Option (List Token) :=
  match reader.quoting with
  | .outside | .comment => some reader.delimit.tokens
  | _ => none

theorem read_append (reader : Reader) (first second : List Char) :
    reader.read (first ++ second) = (reader.read first).read second :=
  List.foldl_append

theorem read_cons (reader : Reader) (char : Char) (rest : List Char) :
    reader.read (char :: rest) = (reader.step char).read rest := rfl

theorem extend_extend (reader : Reader) (first second : List Letter) :
    (reader.extend first).extend second = reader.extend (first ++ second) := by
  rw [extend, extend, extend, Option.getD_some, List.append_assoc]

theorem extend_nil {reader : Reader} {letters : List Letter}
    (begun : reader.word = some letters) : reader.extend [] = reader := by
  rw [extend, begun, Option.getD_some, List.append_nil, ← begun]

theorem enter_enter (reader : Reader) (first second : Quoting) :
    (reader.enter first).enter second = reader.enter second := rfl

theorem enter_quoting {reader : Reader} {quoting : Quoting} (same : reader.quoting = quoting) :
    reader.enter quoting = reader := by
  rw [← same]
  rfl

theorem extend_enter (reader : Reader) (letters : List Letter) (quoting : Quoting) :
    (reader.enter quoting).extend letters = (reader.extend letters).enter quoting := rfl

@[simp] theorem quoting_delimit (reader : Reader) :
    reader.delimit.quoting = reader.quoting := by
  rw [delimit]
  split
  · rfl
  · rfl

@[simp] theorem word_delimit (reader : Reader) : reader.delimit.word = none := by
  rw [delimit]
  split
  · rename_i noWord
    exact noWord
  · rfl

theorem delimit_of_none {reader : Reader} (noWord : reader.word = none) :
    reader.delimit = reader := by
  rw [delimit, noWord]

/-! ## Outside quotes -/

section Outside

variable {reader : Reader} (isOutside : reader.quoting = .outside)
include isOutside

theorem step_blank {char : Char} (isBlank : char ∈ blanks) :
    reader.step char = reader.delimit := by
  rw [step, isOutside]
  rcases List.mem_pair.mp isBlank with rfl | rfl <;> rfl

theorem step_operator {char : Char} (isOperator : char ∈ operatorChars) :
    reader.step char = reader.operate char := by
  have all : (operatorChars.all fun char => decide (char ≠ singleQuote ∧
      char ≠ doubleQuote ∧ char ≠ backslash ∧ char ∉ blanks)) = true := by
    decide
  have others := of_decide_eq_true (List.all_eq_true.mp all char isOperator)
  rw [step, isOutside]
  simp only [others, isOperator, if_false, if_true]

theorem step_open : reader.step singleQuote = (reader.extend []).enter .single := by
  rw [step, isOutside]
  rfl

theorem step_backslash : reader.step backslash = reader.enter .escaped := by
  rw [step, isOutside]
  rfl

/-- An operator between blanks ends the word before it and stands for itself. -/
theorem read_operator {char : Char} (isOperator : char ∈ operatorChars) :
    reader.read [' ', char, ' '] = reader.operate char := by
  have inside : reader.delimit.quoting = .outside := (quoting_delimit reader).trans isOutside
  have again : reader.delimit.operate char = reader.operate char := by
    rw [operate, operate, delimit_of_none (word_delimit reader)]
  have behind : (reader.operate char).quoting = .outside := inside
  have ended : (reader.operate char).word = none := word_delimit reader
  have done : (reader.operate char).step ' ' = reader.operate char := by
    rw [step_blank behind (by decide), delimit_of_none ended]
  rw [read_cons, step_blank isOutside (by decide), read_cons, step_operator inside isOperator,
    again, read_cons, done]
  rfl

end Outside

/-! ## Single quotes -/

section Single

variable {reader : Reader}

theorem step_close (isSingle : reader.quoting = .single) :
    reader.step singleQuote = reader.enter .outside := by
  rw [step, isSingle]
  rfl

theorem step_single (isSingle : reader.quoting = .single) {char : Char}
    (different : char ≠ singleQuote) : reader.step char = reader.extend [literal char] := by
  rw [step, isSingle]
  exact if_neg different

theorem step_escaped (isEscaped : reader.quoting = .escaped) {char : Char}
    (different : char ≠ lineBreak) :
    reader.step char = (reader.extend [literal char]).enter .outside := by
  rw [step, isEscaped]
  exact if_neg different

/-- Close the quotes, escape one quote and open them again: a quote between quotes. -/
theorem read_requote (isSingle : reader.quoting = .single) :
    reader.read [singleQuote, backslash, singleQuote, singleQuote] =
      reader.extend [literal singleQuote] := by
  have escapes : (reader.enter .outside).step backslash = reader.enter .escaped :=
    step_backslash rfl
  have quotes : (reader.enter .escaped).step singleQuote =
      (reader.extend [literal singleQuote]).enter .outside :=
    step_escaped rfl (by decide)
  have opens : ((reader.extend [literal singleQuote]).enter .outside).step singleQuote =
      (reader.extend [literal singleQuote]).enter .single := by
    rw [step_open rfl, extend_enter, enter_enter, extend_extend, List.append_nil]
  rw [read_cons, step_close isSingle, read_cons, escapes, read_cons, quotes, read_cons, opens]
  exact enter_quoting isSingle

end Single

end Reader

/-- The tokens of a text. -/
def tokens? (text : List Char) : Option (List Token) := (Reader.read {} text).finish

end ShellWords

end Desan
