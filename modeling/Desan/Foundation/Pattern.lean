import Mathlib.Data.List.Basic

/-! # Regular expressions

Regular expressions with groups, as a backtracking matcher reads them: the matches of
a pattern from one place are tried in order, and the first one counts. -/

namespace Desan

inductive Pattern where
  | empty
  | char (accepts : Char → Bool)
  | seq (first second : Pattern)
  /-- The first pattern is preferred. -/
  | either (first second : Pattern)
  /-- As many characters as there are, or fewer. -/
  | many (accepts : Char → Bool)
  /-- As few characters as will do. -/
  | fewest (accepts : Char → Bool)
  | group (index : Nat) (inner : Pattern)
  | start
  /-- The end of the text, or of its last line. -/
  | stop
  | wordBoundary (isWord : Char → Bool)

namespace Pattern

/-- A place in a text: what stands before it, latest character first, what stands after
it, and the groups matched so far, latest first. -/
structure Cursor where
  before : List Char
  after : List Char
  groups : List (Nat × String) := []
deriving DecidableEq, Repr

def Cursor.group? (cursor : Cursor) (index : Nat) : Option String :=
  (cursor.groups.find? fun entry => entry.1 = index).map Prod.snd

/-- The places behind characters of a kind, the farthest first. -/
def runs (accepts : Char → Bool) : List Char → List Char → List (List Char × List Char)
  | before, [] => [(before, [])]
  | before, head :: rest =>
      if accepts head then runs accepts (head :: before) rest ++ [(before, head :: rest)]
      else [(before, head :: rest)]

/-- Where a match of the pattern can end, in the order they are tried. -/
def ends : Pattern → Cursor → List Cursor
  | .empty, cursor => [cursor]
  | .char accepts, cursor =>
      match cursor.after with
      | [] => []
      | head :: rest =>
          if accepts head then [{ cursor with before := head :: cursor.before, after := rest }]
          else []
  | .seq first second, cursor => (first.ends cursor).flatMap second.ends
  | .either first second, cursor => first.ends cursor ++ second.ends cursor
  | .many accepts, cursor =>
      (runs accepts cursor.before cursor.after).map fun place =>
        { cursor with before := place.1, after := place.2 }
  | .fewest accepts, cursor =>
      (runs accepts cursor.before cursor.after).reverse.map fun place =>
        { cursor with before := place.1, after := place.2 }
  | .group index inner, cursor =>
      (inner.ends cursor).map fun found =>
        let matched := found.before.take (found.before.length - cursor.before.length)
        { found with groups := (index, String.ofList matched.reverse) :: found.groups }
  | .start, cursor => if cursor.before.isEmpty then [cursor] else []
  | .stop, cursor => if cursor.after = [] ∨ cursor.after = ['\n'] then [cursor] else []
  | .wordBoundary isWord, cursor =>
      if (cursor.before.head?.any isWord) = (cursor.after.head?.any isWord) then []
      else [cursor]

/-- The first match in the text from the place on. -/
def searchFrom (pattern : Pattern) : List Char → List Char → Option Cursor
  | before, after =>
      match pattern.ends ⟨before, after, []⟩ with
      | found :: _ => some found
      | [] =>
          match after with
          | [] => none
          | head :: rest => pattern.searchFrom (head :: before) rest

def search (pattern : Pattern) (text : String) : Option Cursor :=
  pattern.searchFrom [] text.toList

/-- A match at the start of the text. -/
def matchStart (pattern : Pattern) (text : String) : Option Cursor :=
  (pattern.ends ⟨[], text.toList, []⟩).head?

/-- The matches in the text of a pattern that matches no empty text, each behind the one
before. The fuel bounds their number. -/
def findAllFrom (pattern : Pattern) : Nat → List Char → List Char → List Cursor
  | 0, _, _ => []
  | fuel + 1, before, after =>
      match pattern.searchFrom before after with
      | none => []
      | some found => found :: pattern.findAllFrom fuel found.before found.after

def findAll (pattern : Pattern) (text : String) : List Cursor :=
  pattern.findAllFrom (text.toList.length + 1) [] text.toList

/-! ## Ways to write a pattern -/

def sequence : List Pattern → Pattern
  | [] => .empty
  | first :: rest => .seq first (sequence rest)

def text (literal : String) : Pattern :=
  sequence (literal.toList.map fun letter => .char (· == letter))

def atLeastOne (accepts : Char → Bool) : Pattern := .seq (.char accepts) (.many accepts)

def optional (pattern : Pattern) : Pattern := .either pattern .empty

end Pattern

/-- The second text occurs in the first. -/
def occursIn (token line : String) : Bool := ((Pattern.text token).search line).isSome

end Desan
