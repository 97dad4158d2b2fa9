import Mathlib.Data.List.DropRight
import Desan.Scripts.SanrazorRemovedAccessSummary

/-! # Text files, as the scripts read them

Lines, white space and numbers. What a writer ends with a line break comes back as the
same line, and a number comes back as the number. -/

namespace Desan

/-! ## Lines -/

/-- The lines of a file opened as text: every line break is read as `\n`, which stays at
the end of its line. -/
def fileLinesFrom : List Char → List Char → List String
  | [], [] => []
  | current, [] => [String.ofList current.reverse]
  | current, '\r' :: '\n' :: rest =>
      String.ofList ('\n' :: current).reverse :: fileLinesFrom [] rest
  | current, char :: rest =>
      if char = '\n' ∨ char = '\r' then
        String.ofList ('\n' :: current).reverse :: fileLinesFrom [] rest
      else fileLinesFrom (char :: current) rest

def fileLines (text : String) : List String := fileLinesFrom [] text.toList

/-- A text without a line break. -/
def IsLine (line : String) : Prop := '\n' ∉ line.toList ∧ '\r' ∉ line.toList

instance (line : String) : Decidable (IsLine line) :=
  inferInstanceAs (Decidable (_ ∧ _))

theorem IsLine.append {first second : String} (left : IsLine first) (right : IsLine second) :
    IsLine (first ++ second) := by
  rw [IsLine, String.toList_append, List.mem_append, List.mem_append, not_or, not_or]
  exact ⟨⟨left.1, right.1⟩, left.2, right.2⟩

theorem isLine_number (number : Nat) : IsLine (toString number) := by
  rw [IsLine, Nat.toString_eq_repr, Nat.toList_repr]
  constructor <;> intro member <;>
    exact absurd (Nat.isDigit_of_mem_toDigits (by decide) (by decide) member) (by decide)

/-- The lines with a line break behind each. -/
def unlines (lines : List String) : String := String.join (lines.map (· ++ "\n"))

theorem unlines_append (first second : List String) :
    unlines (first ++ second) = unlines first ++ unlines second := by
  rw [unlines, List.map_append, String.join_append]
  rfl

theorem fileLinesFrom_char {char : Char} (different : char ≠ '\r') (current rest : List Char) :
    fileLinesFrom current (char :: rest) =
      if char = '\n' then
        String.ofList ('\n' :: current).reverse :: fileLinesFrom [] rest
      else fileLinesFrom (char :: current) rest := by
  rw [fileLinesFrom]
  · simp only [different, or_false]
  · intro rest' same _
    exact different same

theorem fileLinesFrom_line {line : List Char} (newline : '\n' ∉ line) (carriage : '\r' ∉ line)
    (current rest : List Char) :
    fileLinesFrom current (line ++ '\n' :: rest) =
      String.ofList (current.reverse ++ (line ++ ['\n'])) :: fileLinesFrom [] rest := by
  induction line generalizing current with
  | nil =>
      rw [List.nil_append, fileLinesFrom_char (by decide), if_pos rfl, List.reverse_cons]
      rfl
  | cons head tail induction =>
      rw [List.mem_cons, not_or] at newline carriage
      rw [List.cons_append, fileLinesFrom_char (Ne.symm carriage.1),
        if_neg (Ne.symm newline.1), induction newline.2 carriage.2, List.reverse_cons]
      simp

/-- Lines that are written one by one are read one by one. -/
theorem fileLines_unlines {lines : List String} (each : ∀ line ∈ lines, IsLine line) :
    fileLines (unlines lines) = lines.map (· ++ "\n") := by
  rw [fileLines, unlines]
  induction lines with
  | nil => rfl
  | cons line rest induction =>
      rcases List.forall_mem_cons.mp each with ⟨first, others⟩
      have read := fileLinesFrom_line first.1 first.2 []
        (String.join (rest.map (· ++ "\n"))).toList
      rw [List.map_cons, String.join_cons, String.toList_append, String.toList_append,
        List.append_assoc]
      rw [induction others] at read
      refine read.trans ?_
      rw [List.reverse_nil, List.nil_append, String.ofList_append, String.ofList_toList]

section Unicode

open SanrazorRemovedAccess

variable (tables : UnicodeTables)

/-! ## White space -/

def strip (text : String) : String :=
  String.ofList ((text.toList.dropWhile (isSpace tables)).rdropWhile (isSpace tables))

/-- What `rsplit` finds behind the last such character, if there is one. -/
def afterLast (separator : Char) (text : String) : Option String :=
  if separator ∈ text.toList then
    some (String.ofList (text.toList.rtakeWhile (· ≠ separator)))
  else none

/-- What `split` finds behind the first such character. -/
def afterFirst (separator : Char) (text : String) : String :=
  String.ofList ((text.toList.dropWhile (· ≠ separator)).drop 1)

theorem rdropWhile_append {α : Type*} (drops : α → Bool) (front back : List α) :
    (front ++ back).rdropWhile drops =
      if back.rdropWhile drops = [] then front.rdropWhile drops
      else front ++ back.rdropWhile drops := by
  rw [List.rdropWhile, List.reverse_append, List.dropWhile_append]
  split
  · rename_i none
    have empty : back.rdropWhile drops = [] := by
      rw [List.rdropWhile, List.isEmpty_iff.mp none]
      rfl
    rw [if_pos empty, List.rdropWhile]
  · rename_i some
    have nonempty : back.rdropWhile drops ≠ [] := by
      intro empty
      rw [List.rdropWhile, List.reverse_eq_nil_iff] at empty
      exact some (List.isEmpty_iff.mpr empty)
    rw [if_neg nonempty, List.reverse_append, List.reverse_reverse, List.rdropWhile]

variable {tables}

theorem head?_append {start rest : String} {first : Char}
    (starts : start.toList.head? = some first) : (start ++ rest).toList.head? = some first := by
  rw [String.toList_append, List.head?_append, starts]
  rfl

theorem dropWhile_of_head? {letters : List Char} {first : Char}
    (starts : letters.head? = some first) (stays : isSpace tables first = false) :
    letters.dropWhile (isSpace tables) = letters := by
  cases letters with
  | nil => rfl
  | cons head tail =>
      apply List.dropWhile_cons_of_neg
      rw [Option.some.inj starts, stays]
      exact Bool.false_ne_true

/-- White space at the ends of a line does not count. -/
theorem strip_line {line : String} {first last : Char} {front : List Char}
    (starts : line.toList.head? = some first) (ends : line.toList = front ++ [last])
    (firstStays : isSpace tables first = false) (lastStays : isSpace tables last = false) :
    strip tables (line ++ "\n") = line := by
  have stays : (line ++ "\n").toList.dropWhile (isSpace tables) = line.toList ++ ['\n'] := by
    rw [dropWhile_of_head? (head?_append starts) firstStays, String.toList_append]
    rfl
  have stop : ¬isSpace tables last = true := by
    rw [lastStays]
    exact Bool.false_ne_true
  rw [strip, stays, List.rdropWhile_concat_pos _ _ _ rfl, ends,
    List.rdropWhile_concat_neg _ _ _ stop, ← ends, String.ofList_toList]

/-- The first character of a stripped line. -/
theorem head?_strip {text : String} {first : Char} (starts : text.toList.head? = some first)
    (stays : isSpace tables first = false) : (strip tables text).toList.head? = some first := by
  rw [strip, String.toList_ofList, dropWhile_of_head? starts stays]
  cases letters : text.toList with
  | nil =>
      rw [letters] at starts
      cases starts
  | cons head tail =>
      rw [letters] at starts
      have stop : ¬isSpace tables head = true := by
        rw [Option.some.inj starts, stays]
        exact Bool.false_ne_true
      have single : [head].rdropWhile (isSpace tables) = [head] := by
        rw [List.rdropWhile_singleton, if_neg stop]
      rw [← List.singleton_append, rdropWhile_append, single]
      split
      · exact starts
      · exact starts

theorem dropWhile_rdropWhile {α : Type*} (drops : α → Bool) (letters : List α) :
    (letters.rdropWhile drops).dropWhile drops = (letters.dropWhile drops).rdropWhile drops := by
  induction letters with
  | nil => rfl
  | cons head tail induction =>
      by_cases dropped : drops head = true
      · rw [List.dropWhile_cons_of_pos dropped, ← induction, ← List.singleton_append,
          rdropWhile_append, List.rdropWhile_singleton, if_pos dropped]
        split
        · rename_i none
          rw [none]
        · exact List.dropWhile_cons_of_pos dropped
      · rw [List.dropWhile_cons_of_neg dropped, ← List.singleton_append, rdropWhile_append,
          List.rdropWhile_singleton, if_neg dropped]
        split
        · exact List.dropWhile_cons_of_neg dropped
        · exact List.dropWhile_cons_of_neg dropped

/-- What stands behind a label on a line, stripped. -/
theorem strip_label {label value : String} {first last : Char} {front : List Char}
    (starts : label.toList.head? = some first) (ends : label.toList = front ++ [last])
    (firstStays : isSpace tables first = false) (lastStays : isSpace tables last = false) :
    strip tables (label ++ value) =
      label ++ String.ofList (value.toList.rdropWhile (isSpace tables)) := by
  have stays : (label ++ value).toList.dropWhile (isSpace tables) =
      label.toList ++ value.toList := by
    rw [dropWhile_of_head? (head?_append starts) firstStays, String.toList_append]
  have stop : ¬isSpace tables last = true := by
    rw [lastStays]
    exact Bool.false_ne_true
  have whole : label.toList.rdropWhile (isSpace tables) = label.toList := by
    rw [ends, List.rdropWhile_concat_neg _ _ _ stop]
  rw [strip, stays, rdropWhile_append, whole]
  split
  · rename_i none
    rw [none, String.ofList_toList, String.ofList_nil, String.append_empty]
  · rw [String.ofList_append, String.ofList_toList]

/-- White space around a value does not count. -/
theorem strip_value (value : String) :
    strip tables (String.ofList ((" " ++ (value ++ "\n")).toList.rdropWhile (isSpace tables))) =
      strip tables value := by
  have space : isSpace tables ' ' = true := rfl
  rw [strip, strip, String.toList_ofList, dropWhile_rdropWhile, List.rdropWhile_idempotent]
  have front : (" " ++ (value ++ "\n")).toList.dropWhile (isSpace tables) =
      (value.toList ++ ['\n']).dropWhile (isSpace tables) := by
    rw [String.toList_append, String.toList_append]
    exact List.dropWhile_cons_of_pos space
  rw [front, ← dropWhile_rdropWhile, List.rdropWhile_concat_pos _ _ _ rfl, dropWhile_rdropWhile]

/-! ## Numbers -/

variable (tables) in
/-- The digits of a number, of which two may have an underscore between them. -/
def readDigits? (number : Nat) (behindDigit : Bool) : List Char → Option Nat
  | [] => if behindDigit then some number else none
  | '_' :: rest => if behindDigit then readDigits? number false rest else none
  | char :: rest =>
      match digit? tables char with
      | none => none
      | some digit => readDigits? (number * 10 + digit) true rest

variable (tables) in
/-- What `int` reads, and nothing where it raises `ValueError`. -/
def readInt? (text : String) : Option Int :=
  match (strip tables text).toList with
  | '-' :: digits => (readDigits? tables 0 false digits).map fun number => -(number : Int)
  | '+' :: digits => (readDigits? tables 0 false digits).map Nat.cast
  | digits => (readDigits? tables 0 false digits).map Nat.cast

theorem toNat_of_isDigit {char : Char} (isDigit : char.isDigit = true) :
    48 ≤ char.toNat ∧ char.toNat ≤ 57 := by
  rw [Char.isDigit, Bool.and_eq_true, decide_eq_true_eq, decide_eq_true_eq] at isDigit
  exact isDigit

theorem digit?_of_isDigit {char : Char} (isDigit : char.isDigit = true) :
    digit? tables char = some (char.toNat - '0'.toNat) := by
  have range := toNat_of_isDigit isDigit
  rw [digit?, if_pos (by omega), if_pos isDigit]

theorem isSpace_of_isDigit {char : Char} (isDigit : char.isDigit = true) :
    isSpace tables char = false := by
  have range := toNat_of_isDigit isDigit
  rw [isSpace, if_pos (by omega), decide_eq_false_iff_not]
  intro member
  simp only [List.mem_cons, List.not_mem_nil, or_false] at member
  rcases member with rfl | rfl | rfl | rfl | rfl | rfl | rfl | rfl | rfl | rfl <;>
    exact absurd isDigit (by decide)

theorem readDigits?_digits {digits : List Char} (all : ∀ char ∈ digits, char.isDigit = true)
    (number : Nat) {behindDigit : Bool} (some' : digits ≠ [] ∨ behindDigit = true) :
    readDigits? tables number behindDigit digits = some (Nat.ofDigitChars 10 digits number) := by
  induction digits generalizing number behindDigit with
  | nil =>
      rw [readDigits?, if_pos (some'.resolve_left (absurd rfl)), Nat.ofDigitChars_nil]
  | cons head tail induction =>
      rcases List.forall_mem_cons.mp all with ⟨first, others⟩
      have different : head ≠ '_' := by
        intro same
        rw [same] at first
        exact absurd first (by decide)
      rw [readDigits?]
      · rw [digit?_of_isDigit first]
        simp only
        rw [induction others _ (.inr rfl), Nat.ofDigitChars_cons, Nat.mul_comm 10]
      · exact different

/-- The number that is written is read. -/
theorem readInt?_toString (number : Nat) :
    readInt? tables (toString number) = some (number : Int) := by
  have digits : (toString number).toList = Nat.toDigits 10 number := by
    rw [Nat.toString_eq_repr, Nat.toList_repr]
  have all : ∀ char ∈ Nat.toDigits 10 number, char.isDigit = true :=
    fun char member => Nat.isDigit_of_mem_toDigits (by decide) (by decide) member
  have nonempty : Nat.toDigits 10 number ≠ [] := Nat.toDigits_ne_nil
  have stripped : (strip tables (toString number)).toList = Nat.toDigits 10 number := by
    have front : (Nat.toDigits 10 number).dropWhile (isSpace tables) = Nat.toDigits 10 number := by
      cases letters : Nat.toDigits 10 number with
      | nil => rfl
      | cons head tail =>
          apply List.dropWhile_cons_of_neg
          rw [isSpace_of_isDigit (all head (letters ▸ List.mem_cons_self ..))]
          exact Bool.false_ne_true
    rw [strip, String.toList_ofList, digits, front, List.rdropWhile_eq_self_iff]
    intro some'
    rw [isSpace_of_isDigit (all _ (List.getLast_mem some'))]
    exact Bool.false_ne_true
  have read : readDigits? tables 0 false (Nat.toDigits 10 number) = some number := by
    rw [readDigits?_digits all 0 (.inl nonempty), Nat.ofDigitChars_toDigits (by decide) (by decide)]
  rw [readInt?, stripped]
  split
  · rename_i rest same
    exact absurd (all '-' (same ▸ List.mem_cons_self ..)) (by decide)
  · rename_i rest same
    exact absurd (all '+' (same ▸ List.mem_cons_self ..)) (by decide)
  · rw [read]
    rfl

end Unicode

end Desan
