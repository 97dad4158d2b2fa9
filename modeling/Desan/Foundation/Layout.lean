import Mathlib.Data.List.Nodup
import Mathlib.Logic.Relation

/-! # Places in a list

`[first, second].Sublist values` says that the first value stands before the
second. -/

namespace Desan

variable {α β : Type*}

theorem sublist_pair_of_split {values before middle after : List α} {first second : α}
    (split : values = before ++ first :: middle ++ second :: after) :
    [first, second].Sublist values := by
  rw [split]
  have left : [first].Sublist (before ++ first :: middle) :=
    List.singleton_sublist.mpr (by simp)
  have right : [second].Sublist (second :: after) := List.singleton_sublist.mpr (by simp)
  exact left.append right

/-- Of two values of one segment, the first stands before the second in the segment. -/
theorem sublist_pair_of_segment [DecidableEq α] {before segment after : List α}
    {first second : α} (nodup : (before ++ segment ++ after).Nodup)
    (firstMember : first ∈ segment) (secondMember : second ∈ segment)
    (ordered : [first, second].Sublist (before ++ segment ++ after)) :
    [first, second].Sublist segment := by
  have outer := List.nodup_append'.mp nodup
  have inner := List.nodup_append'.mp outer.1
  have beforeNone : before.filter (fun value => value ∈ segment) = [] := by
    apply List.filter_eq_nil_iff.mpr
    intro value member inside
    exact inner.2.2 member (of_decide_eq_true inside)
  have afterNone : after.filter (fun value => value ∈ segment) = [] := by
    apply List.filter_eq_nil_iff.mpr
    intro value member inside
    exact outer.2.2 (List.mem_append_right _ (of_decide_eq_true inside)) member
  have kept : segment.filter (fun value => value ∈ segment) = segment :=
    List.filter_eq_self.mpr fun value member => decide_eq_true member
  have filtered := ordered.filter fun value => decide (value ∈ segment)
  rw [List.filter_append, List.filter_append, beforeNone, afterNone, kept] at filtered
  simpa [firstMember, secondMember] using filtered

/-- Two values of a flattened list stand in one part, or in two parts in their order. -/
theorem sublist_pair_flatMap {parts : β → List α} {values : List β} {first second : α}
    (ordered : [first, second].Sublist (values.flatMap parts)) :
    (∃ value ∈ values, [first, second].Sublist (parts value)) ∨
      ∃ left right, [left, right].Sublist values ∧ first ∈ parts left ∧
        second ∈ parts right := by
  induction values with
  | nil => simp at ordered
  | cons head tail induction =>
      rw [List.flatMap_cons] at ordered
      rcases List.sublist_append_iff.mp ordered with ⟨inHead, inTail, split, headSub, tailSub⟩
      match inHead, inTail, split with
      | [], pair, split =>
          rw [List.nil_append] at split
          rw [← split] at tailSub
          rcases induction tailSub with one | two
          · rcases one with ⟨value, member, sub⟩
            exact .inl ⟨value, List.mem_cons_of_mem _ member, sub⟩
          · rcases two with ⟨left, right, sub, inLeft, inRight⟩
            exact .inr ⟨left, right, sub.cons _, inLeft, inRight⟩
      | [one], [two], split =>
          cases split
          have inRest := List.singleton_sublist.mp tailSub
          rcases List.mem_flatMap.mp inRest with ⟨right, rightMember, inRight⟩
          exact .inr ⟨head, right,
            (List.singleton_sublist.mpr rightMember).cons_cons _,
            List.singleton_sublist.mp headSub, inRight⟩
      | [one, two], [], split =>
          cases split
          exact .inl ⟨head, List.mem_cons_self .., headSub⟩

/-- In a duplicate-free flattened list a value stands in one part only. -/
theorem eq_of_nodup_flatMap {parts : β → List α} {values : List β}
    (nodup : (values.flatMap parts).Nodup) {left right : β} {value : α}
    (leftMember : left ∈ values) (rightMember : right ∈ values) (inLeft : value ∈ parts left)
    (inRight : value ∈ parts right) : left = right := by
  induction values with
  | nil => simp at leftMember
  | cons head tail induction =>
      rw [List.flatMap_cons] at nodup
      have pieces := List.nodup_append'.mp nodup
      rcases List.mem_cons.mp leftMember with leftHead | leftTail <;>
        rcases List.mem_cons.mp rightMember with rightHead | rightTail
      · rw [leftHead, rightHead]
      · have inTail := List.mem_flatMap.mpr ⟨right, rightTail, inRight⟩
        exact absurd inTail (pieces.2.2 (leftHead ▸ inLeft))
      · have inTail := List.mem_flatMap.mpr ⟨left, leftTail, inLeft⟩
        exact absurd inTail (pieces.2.2 (rightHead ▸ inRight))
      · exact induction pieces.2.1 leftTail rightTail

theorem mem_of_sublist_pair {before after : List α} {first second : α}
    (nodup : (before ++ second :: after).Nodup)
    (ordered : [first, second].Sublist (before ++ second :: after)) : first ∈ before := by
  have parts := List.nodup_append'.mp nodup
  have notAfter : second ∉ after := (List.nodup_cons.mp parts.2.1).1
  rcases List.sublist_append_iff.mp ordered with ⟨left, right, split, leftSub, rightSub⟩
  match left, right, split with
  | [], pair, split =>
      rw [List.nil_append] at split
      rw [← split] at rightSub
      rcases List.cons_sublist_cons'.mp rightSub with inAfter | same
      · exact absurd (inAfter.subset (by simp)) notAfter
      · exact absurd (List.singleton_sublist.mp same.2) notAfter
  | first :: rest, right, split =>
      rw [List.cons_append, List.cons.injEq] at split
      rw [split.1]
      exact leftSub.subset (List.mem_cons_self ..)

/-- A value's index respects the order of a duplicate-free list. -/
theorem idxOf_lt_of_sublist_pair [DecidableEq α] {values : List α} {first second : α}
    (nodup : values.Nodup) (ordered : [first, second].Sublist values) :
    values.idxOf first < values.idxOf second := by
  have increasing : values.Pairwise
      fun left right => values.idxOf left < values.idxOf right := by
    rw [List.pairwise_iff_getElem]
    intro left right leftBound rightBound less
    rw [nodup.idxOf_getElem, nodup.idxOf_getElem]
    exact less
  have pair := increasing.sublist ordered
  exact (List.pairwise_cons.mp pair).1 second (List.mem_singleton_self _)

theorem eq_or_after_head {values : List α} {head value : α}
    (isHead : values.head? = some head) (member : value ∈ values) :
    value = head ∨ [head, value].Sublist values := by
  cases values with
  | nil => cases member
  | cons first rest =>
      cases isHead
      rcases List.mem_cons.mp member with equal | later
      · exact .inl equal
      · exact .inr ((List.singleton_sublist.mpr later).cons_cons head)

/-- Values that stand in order are joined by neighbours. -/
theorem transGen_of_sublist {values : List α} {first second : α}
    (ordered : [first, second].Sublist values) :
    Relation.TransGen (fun left right => [left, right] <:+: values) first second := by
  have widen : ∀ (head : α) (tail : List α) (left right : α), [left, right] <:+: tail →
      [left, right] <:+: head :: tail :=
    fun head tail left right inside => inside.trans (List.suffix_cons head tail).isInfix
  induction values generalizing first with
  | nil => cases ordered
  | cons head tail induction =>
      rcases List.cons_sublist_cons'.mp ordered with inTail | atHead
      · exact Relation.TransGen.mono (widen head tail) _ _ (induction inTail)
      · rcases atHead with ⟨equal, later⟩
        subst equal
        cases tail with
        | nil => cases later
        | cons next rest =>
            have step : [first, next] <:+: first :: next :: rest :=
              (List.prefix_append [first, next] rest).isInfix
            rcases List.mem_cons.mp (List.singleton_sublist.mp later) with rfl | further
            · exact .single step
            · have path := induction ((List.singleton_sublist.mpr further).cons_cons next)
              exact .head step (Relation.TransGen.mono (widen first _) _ _ path)

theorem mem_after_of_sublist_pair {before after : List α} {first second : α}
    (nodup : (before ++ first :: after).Nodup)
    (ordered : [first, second].Sublist (before ++ first :: after)) : second ∈ after := by
  have notBefore : first ∉ before := by
    intro member
    exact (List.nodup_append'.mp nodup).2.2 member (List.mem_cons_self ..)
  have inRest : [first, second].Sublist (first :: after) := by
    rcases List.sublist_append_iff.mp ordered with ⟨front, back, split, frontSub, backSub⟩
    cases front with
    | nil => exact split ▸ backSub
    | cons head tail =>
        have same : first = head := (List.cons.injEq .. ▸ split).1
        exact absurd (frontSub.subset (same ▸ List.mem_cons_self ..)) notBefore
  exact List.singleton_sublist.mp (List.cons_sublist_cons.mp inRest)

/-- What follows a value in a duplicate-free list stands after it. -/
theorem mem_drop_dropWhile_iff [DecidableEq α] {values : List α} {first second : α}
    (nodup : values.Nodup) (member : first ∈ values) :
    second ∈ (values.dropWhile fun value => value ≠ first).drop 1 ↔
      [first, second].Sublist values := by
  rcases List.append_of_mem member with ⟨before, after, rfl⟩
  have others : ∀ value ∈ before, value ≠ first := by
    intro value inBefore equal
    exact (List.nodup_append'.mp nodup).2.2 inBefore (equal ▸ List.mem_cons_self ..)
  have dropped : ((before ++ first :: after).dropWhile fun value => value ≠ first).drop 1 =
      after := by
    rw [List.dropWhile_append_of_pos fun value inBefore => by simpa using others value inBefore]
    simp
  rw [dropped]
  constructor
  · intro later
    have pair : [first, second].Sublist (first :: after) :=
      (List.singleton_sublist.mpr later).cons_cons first
    exact pair.trans (List.sublist_append_right before _)
  · exact mem_after_of_sublist_pair nodup

theorem sublist_trans {values : List α} {first second third : α}
    (nodup : values.Nodup) (left : [first, second].Sublist values)
    (right : [second, third].Sublist values) : [first, third].Sublist values := by
  rcases List.append_of_mem (left.subset (List.mem_cons_of_mem _ (List.mem_singleton_self _)))
    with ⟨before, after, rfl⟩
  have inBefore := mem_of_sublist_pair nodup left
  have later := mem_after_of_sublist_pair nodup right
  exact (List.singleton_sublist.mpr inBefore).append
    (List.singleton_sublist.mpr (List.mem_cons_of_mem second later))

end Desan
