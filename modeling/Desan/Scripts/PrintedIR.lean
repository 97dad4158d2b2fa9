import Mathlib.Data.List.Infix
import Desan.Foundation.PatternSearch
import Desan.Scripts.SanrazorRemovedAccessSummary

/-! # Labels, branches and calls in the text of a module

What `llvm-dis` prints of a function, read letter by letter: the labels of its blocks,
its branches on constants and its calls of UBSan handlers. -/

namespace Desan.PrintedIR

/-! ## Readers -/

def isNameChar (char : Char) : Bool := char.isAlphanum || char ∈ ['-', '$', '.', '_']

/-- A name, in quotes where it has other characters, and what follows it. -/
def name? : List Char → Option (String × List Char)
  | '"' :: quoted =>
      match quoted.dropWhile (· != '"') with
      | [] => none
      | _ :: rest => some (String.ofList (quoted.takeWhile (· != '"')), rest)
  | letters =>
      if letters.head?.any isNameChar then
        some (String.ofList (letters.takeWhile isNameChar), letters.dropWhile isNameChar)
      else none

/-- The label that a line starts a block with. -/
def label? (line : String) : Option String :=
  match name? line.toList with
  | some (name, ':' :: rest) =>
      if (rest.dropWhile (· == ' ')).head?.all (· == ';') then some name else none
  | _ => none

/-- What follows a literal text. -/
def following? (literal : String) (letters : List Char) : Option (List Char) :=
  if literal.toList <+: letters then some (letters.drop literal.toList.length) else none

structure ConstBranch where
  const : Bool
  trueSucc : String
  falseSucc : String
  /-- What is attached to the branch. -/
  attached : List Char
deriving DecidableEq, Repr

def const? (letters : List Char) : Option (Bool × List Char) :=
  match following? "true" letters with
  | some rest => some (true, rest)
  | none => (following? "false" letters).map fun rest => (false, rest)

/-- A branch on a constant. -/
def constBranch? (line : String) : Option ConstBranch := do
  let condition ← following? "br i1 " (line.toList.dropWhile (· == ' '))
  let (const, successors) ← const? condition
  let (trueSucc, second) ← (following? ", label %" successors).bind name?
  let (falseSucc, attached) ← (following? ", label %" second).bind name?
  some ⟨const, trueSucc, falseSucc, attached⟩

def ConstBranch.notTaken (branch : ConstBranch) : String :=
  if branch.const then branch.falseSucc else branch.trueSucc

/-- The successor that a branch on a constant does not take, if the branch is tagged. -/
def disabledSucc? (line : String) : Option String :=
  (constBranch? line).bind fun branch =>
    if "!sanitycheck".toList <:+: branch.attached then some branch.notTaken else none

def isHandlerChar (char : Char) : Bool := char.isAlphanum || char == '_'

/-- A UBSan handler is named in the line. -/
def namesHandler (line : String) : Bool :=
  line.toList.tails.any fun letters =>
    (following? "@__ubsan_handle_" letters).any fun name => name.head?.any isHandlerChar

/-- A call or an invocation of a UBSan handler. -/
def callsHandler (line : String) : Bool :=
  (" call ".toList <:+: line.toList || " invoke ".toList <:+: line.toList) && namesHandler line

/-! ## What the readers have read -/

theorem following?_eq_some {literal : String} {letters rest : List Char}
    (follows : following? literal letters = some rest) : letters = literal.toList ++ rest := by
  rw [following?] at follows
  split at follows
  · rename_i isPrefix
    rcases isPrefix with ⟨left, rfl⟩
    rw [List.drop_left] at follows
    rw [Option.some.inj follows]
  · cases follows

/-- A branch does not start with a label. -/
theorem label?_of_disabledSucc? {line succ : String} (disabled : disabledSucc? line = some succ) :
    label? line = none := by
  rcases Option.bind_eq_some_iff.mp disabled with ⟨branch, isBranch, -⟩
  rcases Option.bind_eq_some_iff.mp isBranch with ⟨condition, follows, -⟩
  have printed := following?_eq_some follows
  rw [label?]
  cases letters : line.toList with
  | nil => rfl
  | cons head rest =>
      rw [letters] at printed
      by_cases blank : head = ' '
      · rw [blank]
        rfl
      · rw [List.dropWhile_cons_of_neg (by simpa using blank)] at printed
        rw [printed]
        rfl

theorem stops_dropWhile (accepts : Char → Bool) (letters : List Char) :
    (letters.dropWhile accepts).head?.any accepts = false := by
  have stops := List.head?_dropWhile_not accepts letters
  cases left : letters.dropWhile accepts with
  | nil => rfl
  | cons next rest =>
      rw [left] at stops
      simpa using stops

/-- The script's pattern matches where the name of a handler starts. -/
theorem ends_ubsanCallRe (cursor : Pattern.Cursor) {head : Char} {others : List Char}
    (isHandler : isHandlerChar head = true)
    (next : cursor.after = "@".toList ++ ("__ubsan_handle_".toList ++ head :: others)) :
    SanrazorRemovedAccess.ubsanCallRe.ends cursor ≠ [] := by
  have run : head :: others = head :: others.takeWhile isHandlerChar ++
      others.dropWhile isHandlerChar := by
    rw [List.cons_append, List.takeWhile_append_dropWhile]
  have all : ∀ char ∈ head :: others.takeWhile isHandlerChar, isHandlerChar char = true :=
    List.forall_mem_cons.mpr ⟨isHandler, List.all_eq_true.mp List.all_takeWhile⟩
  let behindSign := cursor.advance "@".toList ("__ubsan_handle_".toList ++ head :: others)
  let behindStart := behindSign.advance "__ubsan_handle_".toList (head :: others)
  have start := @Pattern.endsAt_text behindSign "__ubsan_handle_" (head :: others) rfl
  have name := @Pattern.endsAt_atLeastOne behindStart isHandlerChar head _ _ run all
    (stops_dropWhile isHandlerChar others)
  rcases (start.seq (name.seq Pattern.endsAt_empty)).group 1 with ⟨groups, grouped⟩
  rcases (Pattern.endsAt_text next).seq (grouped.seq Pattern.endsAt_empty) with ⟨found, whole⟩
  have ends : SanrazorRemovedAccess.ubsanCallRe.ends cursor = _ := whole
  rw [ends]
  exact List.cons_ne_nil _ _

/-- The script finds every handler that is named. -/
theorem search_of_namesHandler {line : String} (names : namesHandler line = true) :
    (SanrazorRemovedAccess.ubsanCallRe.search line).isSome = true := by
  rcases List.any_eq_true.mp names with ⟨letters, isTail, named⟩
  rcases (List.mem_tails letters line.toList).mp isTail with ⟨skipped, split⟩
  rcases (Option.any_eq_true _ _).mp named with ⟨name, follows, first⟩
  rcases (Option.any_eq_true _ _).mp first with ⟨head, isHead, isHandler⟩
  rcases List.head?_eq_some_iff.mp isHead with ⟨others, rfl⟩
  have printed := following?_eq_some follows
  apply Pattern.isSome_searchFrom_iff.mpr
  exact ⟨skipped, letters, split.symm, ends_ubsanCallRe _ isHandler printed⟩

end Desan.PrintedIR
