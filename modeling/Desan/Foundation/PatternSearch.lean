import Desan.Foundation.Pattern

/-! # What a search finds first

The first match of a pattern from one place is the one that counts, so the rules here
are about the heads of the lists of places a match can end. -/

namespace Desan

namespace Pattern

/-- The first of the list, if there is one, is good. -/
def FirstIs {α : Type*} (good : α → Prop) (found : List α) : Prop :=
  ∀ first ∈ found.head?, good first

theorem firstIs_flatMap {α β : Type*} {good : β → Prop} {next : α → List β} {places : List α}
    (each : ∀ place ∈ places, FirstIs good (next place)) :
    FirstIs good (places.flatMap next) := by
  induction places with
  | nil =>
      intro first isFirst
      cases isFirst
  | cons head tail induction =>
      rw [List.flatMap_cons]
      cases ends : next head with
      | nil => exact induction fun place member => each place (List.mem_cons_of_mem _ member)
      | cons first others =>
          intro found isFirst
          rw [List.cons_append, List.head?_cons, Option.mem_some_iff] at isFirst
          rw [← isFirst]
          apply each head (List.mem_cons_self ..)
          rw [ends]
          rfl

theorem flatMap_ne_nil {α β : Type*} {next : α → List β} {places : List α} {place : α}
    (member : place ∈ places) (ends : next place ≠ []) : places.flatMap next ≠ [] := by
  intro none
  exact ends (List.flatMap_eq_nil_iff.mp none place member)

/-- Some characters further. -/
def Cursor.advance (cursor : Cursor) (passed rest : List Char) : Cursor :=
  { cursor with before := passed.reverse ++ cursor.before, after := rest }

/-- What a group takes from the characters before the place: those that were passed. -/
theorem take_passed (passed before : List Char) :
    (passed ++ before).take ((passed ++ before).length - before.length) = passed := by
  rw [List.length_append, Nat.add_sub_cancel]
  exact List.take_left

/-- A literal text matches where it is next, and nowhere else. -/
theorem ends_text (literal : String) (cursor : Cursor) :
    (∃ rest, cursor.after = literal.toList ++ rest ∧
        (text literal).ends cursor = [cursor.advance literal.toList rest]) ∨
      (¬literal.toList <+: cursor.after ∧ (text literal).ends cursor = []) := by
  have general : ∀ (letters : List Char) (cursor : Cursor),
      (∃ rest, cursor.after = letters ++ rest ∧
          (sequence (letters.map fun letter => .char (· == letter))).ends cursor =
            [cursor.advance letters rest]) ∨
        (¬letters <+: cursor.after ∧
          (sequence (letters.map fun letter => .char (· == letter))).ends cursor = []) := by
    intro letters
    induction letters with
    | nil => exact fun cursor => .inl ⟨cursor.after, rfl, rfl⟩
    | cons letter rest induction =>
        intro cursor
        rw [List.map_cons, sequence, ends, ends]
        cases next : cursor.after with
        | nil => exact .inr ⟨by simp, rfl⟩
        | cons head tail =>
            by_cases same : head = letter
            · simp only [same, beq_self_eq_true, if_true, List.flatMap_cons, List.flatMap_nil,
                List.append_nil]
              rcases induction ⟨letter :: cursor.before, tail, cursor.groups⟩ with
                ⟨left, isNext, found⟩ | ⟨different, none⟩
              · left
                refine ⟨left, congrArg (letter :: ·) isNext, ?_⟩
                rw [found]
                simp [Cursor.advance]
              · right
                refine ⟨?_, none⟩
                rw [List.cons_prefix_cons]
                exact fun both => different both.2
            · right
              refine ⟨?_, by simp [same]⟩
              rw [List.cons_prefix_cons]
              exact fun both => same both.1.symm
  exact general literal.toList cursor

/-- The farthest place comes first; at any other place such a character is next. -/
theorem runs_eq (accepts : Char → Bool) (before after : List Char) :
    ∃ shorter, runs accepts before after =
        ((after.takeWhile accepts).reverse ++ before, after.dropWhile accepts) :: shorter ∧
      ∀ place ∈ shorter, place.2.head?.any accepts = true := by
  induction after generalizing before with
  | nil => exact ⟨[], rfl, fun _ member => nomatch member⟩
  | cons head tail induction =>
      rw [runs]
      by_cases accepted : accepts head = true
      · rcases induction (head :: before) with ⟨shorter, whole, next⟩
        refine ⟨shorter ++ [(before, head :: tail)], ?_, ?_⟩
        · rw [if_pos accepted, whole, List.takeWhile_cons_of_pos accepted,
            List.dropWhile_cons_of_pos accepted]
          simp
        · intro place member
          rcases List.mem_append.mp member with earlier | last
          · exact next place earlier
          · rw [List.mem_singleton.mp last]
            exact accepted
      · refine ⟨[], ?_, fun _ member => nomatch member⟩
        rw [if_neg accepted, List.takeWhile_cons_of_neg accepted,
          List.dropWhile_cons_of_neg accepted]
        rfl

/-- What cannot go on with a character of the run starts behind the run. -/
theorem ends_seq_many {accepts : Char → Bool} {next : Pattern} {cursor : Cursor}
    (stops : ∀ found : Cursor, found.after.head?.any accepts = true → next.ends found = []) :
    (Pattern.seq (.many accepts) next).ends cursor =
      next.ends (cursor.advance (cursor.after.takeWhile accepts)
        (cursor.after.dropWhile accepts)) := by
  rcases runs_eq accepts cursor.before cursor.after with ⟨shorter, whole, accepted⟩
  rw [ends, ends, whole, List.map_cons, List.flatMap_cons]
  have none : (shorter.map fun place =>
      { cursor with before := place.1, after := place.2 }).flatMap next.ends = [] := by
    apply List.flatMap_eq_nil_iff.mpr
    intro found member
    rcases List.mem_map.mp member with ⟨place, isPlace, rfl⟩
    exact stops _ (accepted place isPlace)
  rw [none, List.append_nil]
  rfl

theorem searchFrom_found {pattern : Pattern} {before after : List Char} {found : Cursor}
    {others : List Cursor} (ends : pattern.ends ⟨before, after, []⟩ = found :: others) :
    pattern.searchFrom before after = some found := by
  rw [searchFrom.eq_def]
  simp only [ends]

theorem searchFrom_next {pattern : Pattern} {before rest : List Char} {head : Char}
    (none : pattern.ends ⟨before, head :: rest, []⟩ = []) :
    pattern.searchFrom before (head :: rest) = pattern.searchFrom (head :: before) rest := by
  rw [searchFrom.eq_def]
  simp only [none]

/-- If all first matches up to a place are good and there is a match at the place, then the
search finds a good one. -/
theorem exists_searchFrom {pattern : Pattern} {good : Cursor → Prop}
    {before skipped rest : List Char}
    (first : ∀ passed left, skipped = passed ++ left →
      FirstIs good (pattern.ends ⟨passed.reverse ++ before, left ++ rest, []⟩))
    (here : pattern.ends ⟨skipped.reverse ++ before, rest, []⟩ ≠ []) :
    ∃ found, pattern.searchFrom before (skipped ++ rest) = some found ∧ good found := by
  induction skipped generalizing before with
  | nil =>
      have good := first [] [] rfl
      rw [List.reverse_nil, List.nil_append] at good here
      rw [List.nil_append]
      rw [List.nil_append] at good
      cases ends : pattern.ends ⟨before, rest, []⟩ with
      | nil => exact absurd ends here
      | cons found others =>
          rw [ends] at good
          exact ⟨found, searchFrom_found ends, good found rfl⟩
  | cons head tail induction =>
      have atHead := first [] (head :: tail) rfl
      rw [List.reverse_nil, List.nil_append] at atHead
      rw [List.cons_append]
      rw [List.cons_append] at atHead
      cases ends : pattern.ends ⟨before, head :: (tail ++ rest), []⟩ with
      | cons found others =>
          rw [ends] at atHead
          exact ⟨found, searchFrom_found ends, atHead found rfl⟩
      | nil =>
          rw [searchFrom_next ends]
          apply induction
          · intro passed left split
            have later := first (head :: passed) left (by rw [split]; rfl)
            rw [List.reverse_cons, List.append_assoc] at later
            exact later
          · rw [List.reverse_cons, List.append_assoc] at here
            exact here

/-! ## What a match has passed -/

theorem mem_ends_text {literal : String} {cursor found : Cursor}
    (member : found ∈ (text literal).ends cursor) :
    ∃ rest, cursor.after = literal.toList ++ rest ∧
      found = cursor.advance literal.toList rest := by
  rcases ends_text literal cursor with ⟨rest, isNext, matched⟩ | ⟨-, fails⟩
  · rw [matched] at member
    exact ⟨rest, isNext, List.mem_singleton.mp member⟩
  · rw [fails] at member
    cases member

theorem mem_runs {accepts : Char → Bool} {before after : List Char}
    {place : List Char × List Char} (member : place ∈ runs accepts before after) :
    ∃ passed, place.1 = passed.reverse ++ before ∧ after = passed ++ place.2 ∧
      ∀ char ∈ passed, accepts char = true := by
  induction after generalizing before with
  | nil =>
      rw [runs, List.mem_singleton] at member
      rw [member]
      exact ⟨[], rfl, rfl, fun _ inside => nomatch inside⟩
  | cons head tail induction =>
      rw [runs] at member
      by_cases accepted : accepts head = true
      · rw [if_pos accepted] at member
        rcases List.mem_append.mp member with farther | here
        · rcases induction farther with ⟨passed, isBefore, isAfter, all⟩
          refine ⟨head :: passed, ?_, ?_, ?_⟩
          · rw [isBefore, List.reverse_cons, List.append_assoc]
            rfl
          · rw [isAfter]
            rfl
          · exact List.forall_mem_cons.mpr ⟨accepted, all⟩
        · rw [List.mem_singleton.mp here]
          exact ⟨[], rfl, rfl, fun _ inside => nomatch inside⟩
      · rw [if_neg accepted, List.mem_singleton] at member
        rw [member]
        exact ⟨[], rfl, rfl, fun _ inside => nomatch inside⟩

theorem mem_ends_many {accepts : Char → Bool} {cursor found : Cursor}
    (member : found ∈ (Pattern.many accepts).ends cursor) :
    ∃ passed rest, cursor.after = passed ++ rest ∧ (∀ char ∈ passed, accepts char = true) ∧
      found = cursor.advance passed rest := by
  rw [ends] at member
  rcases List.mem_map.mp member with ⟨place, isPlace, rfl⟩
  rcases mem_runs isPlace with ⟨passed, isBefore, isAfter, all⟩
  refine ⟨passed, place.2, isAfter, all, ?_⟩
  rw [isBefore]
  rfl

theorem mem_ends_seq {first second : Pattern} {cursor found : Cursor}
    (member : found ∈ (Pattern.seq first second).ends cursor) :
    ∃ middle ∈ first.ends cursor, found ∈ second.ends middle := by
  rw [ends] at member
  exact List.mem_flatMap.mp member

/-- A search finds a match that starts somewhere in the text. -/
theorem exists_of_searchFrom {pattern : Pattern} {before after : List Char} {found : Cursor}
    (searched : pattern.searchFrom before after = some found) :
    ∃ skipped rest, after = skipped ++ rest ∧
      found ∈ pattern.ends ⟨skipped.reverse ++ before, rest, []⟩ := by
  induction after generalizing before with
  | nil =>
      cases ends : pattern.ends ⟨before, [], []⟩ with
      | nil =>
          rw [searchFrom.eq_def] at searched
          simp only [ends] at searched
          cases searched
      | cons first others =>
          rw [searchFrom_found ends] at searched
          refine ⟨[], [], rfl, ?_⟩
          rw [← Option.some.inj searched, List.reverse_nil, List.nil_append, ends]
          exact List.mem_cons_self ..
  | cons head tail induction =>
      cases ends : pattern.ends ⟨before, head :: tail, []⟩ with
      | nil =>
          rw [searchFrom_next ends] at searched
          rcases induction searched with ⟨skipped, rest, split, member⟩
          refine ⟨head :: skipped, rest, by rw [split]; rfl, ?_⟩
          rw [List.reverse_cons, List.append_assoc]
          exact member
      | cons first others =>
          rw [searchFrom_found ends] at searched
          refine ⟨[], head :: tail, rfl, ?_⟩
          rw [← Option.some.inj searched, List.reverse_nil, List.nil_append, ends]
          exact List.mem_cons_self ..

/-- A search finds something exactly if there is a match somewhere. -/
theorem isSome_searchFrom_iff {pattern : Pattern} {before after : List Char} :
    (pattern.searchFrom before after).isSome = true ↔
      ∃ skipped rest, after = skipped ++ rest ∧
        pattern.ends ⟨skipped.reverse ++ before, rest, []⟩ ≠ [] := by
  constructor
  · intro isSome
    rcases Option.isSome_iff_exists.mp isSome with ⟨found, searched⟩
    rcases exists_of_searchFrom searched with ⟨skipped, rest, split, member⟩
    exact ⟨skipped, rest, split, List.ne_nil_of_mem member⟩
  · intro somewhere
    rcases somewhere with ⟨skipped, rest, rfl, here⟩
    rcases @exists_searchFrom pattern (fun _ => True) before skipped rest
      (fun _ _ _ _ _ => trivial) here with ⟨found, searched, -⟩
    rw [searched]
    rfl

/-! ## Matches at the first try

Where every part of a pattern finds what it looks for on its first try, that is the match
that counts. -/

/-- The first place where a match of the pattern ends. -/
def EndsAt (pattern : Pattern) (cursor found : Cursor) : Prop :=
  ∃ others, pattern.ends cursor = found :: others

section EndsAt

variable {first second pattern : Pattern} {cursor middle found : Cursor}

theorem EndsAt.seq (left : first.EndsAt cursor middle) (right : second.EndsAt middle found) :
    (Pattern.seq first second).EndsAt cursor found := by
  rcases left with ⟨others, firstEnds⟩
  rcases right with ⟨more, secondEnds⟩
  refine ⟨more ++ others.flatMap second.ends, ?_⟩
  rw [ends, firstEnds, List.flatMap_cons, secondEnds]
  rfl

theorem endsAt_empty : Pattern.empty.EndsAt cursor cursor := ⟨[], rfl⟩

theorem endsAt_char {accepts : Char → Bool} {head : Char} {rest : List Char}
    (next : cursor.after = head :: rest) (accepted : accepts head = true) :
    (Pattern.char accepts).EndsAt cursor (cursor.advance [head] rest) := by
  refine ⟨[], ?_⟩
  rw [ends, next]
  simp only [accepted, if_true]
  rfl

theorem endsAt_text {literal : String} {rest : List Char}
    (next : cursor.after = literal.toList ++ rest) :
    (text literal).EndsAt cursor (cursor.advance literal.toList rest) := by
  rcases ends_text literal cursor with ⟨other, isNext, matched⟩ | ⟨fails, -⟩
  · rw [next] at isNext
    rw [List.append_cancel_left isNext]
    exact ⟨[], matched⟩
  · exfalso
    apply fails
    rw [next]
    exact List.prefix_append _ _

/-- A run takes all it can get. -/
theorem endsAt_many {accepts : Char → Bool} {passed rest : List Char}
    (next : cursor.after = passed ++ rest) (all : ∀ char ∈ passed, accepts char = true)
    (stops : rest.head?.any accepts = false) :
    (Pattern.many accepts).EndsAt cursor (cursor.advance passed rest) := by
  have left : rest.takeWhile accepts = [] ∧ rest.dropWhile accepts = rest := by
    cases rest with
    | nil => exact ⟨rfl, rfl⟩
    | cons head tail =>
        have refused : ¬accepts head = true := by
          rw [Bool.not_eq_true]
          exact stops
        exact ⟨List.takeWhile_cons_of_neg refused, List.dropWhile_cons_of_neg refused⟩
  rcases runs_eq accepts cursor.before cursor.after with ⟨shorter, whole, -⟩
  rw [next, List.takeWhile_append_of_pos all, List.dropWhile_append_of_pos all, left.1, left.2,
    List.append_nil] at whole
  refine ⟨shorter.map fun place => { cursor with before := place.1, after := place.2 }, ?_⟩
  rw [ends, next, whole]
  rfl

theorem endsAt_atLeastOne {accepts : Char → Bool} {head : Char} {passed rest : List Char}
    (next : cursor.after = head :: passed ++ rest)
    (all : ∀ char ∈ head :: passed, accepts char = true)
    (stops : rest.head?.any accepts = false) :
    (atLeastOne accepts).EndsAt cursor (cursor.advance (head :: passed) rest) := by
  rcases List.forall_mem_cons.mp all with ⟨accepted, others⟩
  have one := endsAt_char next accepted
  have more := @endsAt_many (cursor.advance [head] (passed ++ rest)) _ _ _ rfl others stops
  have whole := one.seq more
  simp only [Cursor.advance, List.reverse_cons, List.append_assoc] at whole ⊢
  exact whole

theorem EndsAt.group (inner : pattern.EndsAt cursor found) (index : Nat) :
    ∃ groups, (Pattern.group index pattern).EndsAt cursor { found with groups := groups } := by
  rcases inner with ⟨others, innerEnds⟩
  have grouped : (Pattern.group index pattern).ends cursor = _ :=
    ends.eq_def (Pattern.group index pattern) cursor
  simp only [innerEnds, List.map_cons] at grouped
  exact ⟨_, _, grouped⟩

end EndsAt

end Pattern

end Desan
