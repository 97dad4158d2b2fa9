import Desan.Foundation.GroupMap
import Mathlib.Data.List.Sort

/-! # Sorting by a rank, and the first of a ranking

A loop over a ranking that stops at a cap and passes over what is not good enough, but
takes the first in any case, takes a prefix of the ranking. -/

namespace Desan

variable {α ρ : Type*}

section Sorting

variable [LinearOrder ρ] {less : α → α → Bool} {rank : α → ρ}

theorem RankedBy.pairwise_insertionSort (ranked : RankedBy less rank) (items : List α) :
    (items.insertionSort fun left right => less right left = false).Pairwise
      fun left right => rank left ≤ rank right := by
  have below : ∀ left right, less right left = false ↔ rank left ≤ rank right := by
    intro left right
    rw [← Bool.not_eq_true, ranked.not_less_iff]
  have total : Std.Total fun left right => less right left = false := by
    constructor
    intro left right
    rw [below, below]
    exact le_total _ _
  have transitive : IsTrans α fun left right => less right left = false := by
    constructor
    intro first second third left right
    rw [below] at left right ⊢
    exact left.trans right
  have sorted := List.pairwise_insertionSort (fun left right => less right left = false) items
  exact sorted.imp fun {left right} before => (below left right).mp before

/-- Two rankings of the same items are equal if only equal items have one rank. -/
theorem eq_of_perm_of_ranked {left right : List α} (permuted : left.Perm right)
    (leftSorted : left.Pairwise fun first second => rank first ≤ rank second)
    (rightSorted : right.Pairwise fun first second => rank first ≤ rank second)
    (distinct : ∀ first ∈ left, ∀ second ∈ right, rank first = rank second → first = second) :
    left = right :=
  permuted.eq_of_pairwise (fun first second firstMember secondMember before after =>
    distinct first firstMember second secondMember (before.antisymm after)) leftSorted rightSorted

end Sorting

/-! ## The first of a ranking -/

/-- One turn of the loop; a cap of 0 is no cap. -/
def selectStep (cap : Nat) (good : α → Bool) (selected : List α) (item : α) : List α :=
  if cap ≠ 0 ∧ cap ≤ selected.length then selected
  else if good item = false ∧ 0 < selected.length then selected
  else selected ++ [item]

/-- How many are taken of a ranking with so many good ones. -/
def selectCount (cap good : Nat) : Nat :=
  if cap = 0 then max 1 good else min cap (max 1 good)

section Select

variable {cap : Nat} {good : α → Bool}

/-- Once something is selected, the good ones are added until the cap is reached. -/
theorem foldl_selectStep (items : List α) {selected : List α} (some : 0 < selected.length) :
    items.foldl (selectStep cap good) selected =
      selected ++ if cap = 0 then items.filter good
        else (items.filter good).take (cap - selected.length) := by
  induction items generalizing selected with
  | nil => simp
  | cons head tail induction =>
      rw [List.foldl_cons, selectStep]
      by_cases full : cap ≠ 0 ∧ cap ≤ selected.length
      · have none : cap - selected.length = 0 := Nat.sub_eq_zero_of_le full.2
        rw [if_pos full, induction some, if_neg full.1, if_neg full.1, none, List.take_zero,
          List.take_zero]
      · rw [if_neg full]
        by_cases bad : good head = false
        · rw [if_pos ⟨bad, some⟩, induction some,
            List.filter_cons_of_neg (Bool.eq_false_iff.mp bad)]
        · have isGood : good head = true := eq_true_of_ne_false bad
          have more : 0 < (selected ++ [head]).length := by
            rw [List.length_append]
            exact Nat.lt_of_lt_of_le some (Nat.le_add_right _ _)
          rw [if_neg fun both => bad both.1, induction more, List.filter_cons_of_pos isGood,
            List.append_assoc, List.singleton_append]
          by_cases unlimited : cap = 0
          · rw [if_pos unlimited, if_pos unlimited]
          · have room : cap - selected.length = cap - (selected ++ [head]).length + 1 := by
              rw [List.length_append, List.length_singleton]
              omega
            rw [if_neg unlimited, if_neg unlimited, room, List.take_succ_cons]

/-- If nothing good stands behind something that is not, the good ones are a prefix. -/
theorem filter_eq_take {items : List α}
    (ranked : items.Pairwise fun first second => good second = true → good first = true) :
    items.filter good = items.take (items.countP good) := by
  induction items with
  | nil => rfl
  | cons head tail induction =>
      rcases List.pairwise_cons.mp ranked with ⟨first, rest⟩
      by_cases isGood : good head = true
      · rw [List.filter_cons_of_pos isGood, List.countP_cons_of_pos isGood, List.take_succ_cons,
          induction rest]
      · have none : tail.countP good = 0 := by
          rw [List.countP_eq_zero]
          intro item member itemGood
          exact isGood (first item member itemGood)
        rw [List.filter_cons_of_neg isGood, List.countP_cons_of_neg isGood, induction rest, none,
          List.take_zero, List.take_zero]

/-- The loop takes the first of the ranking. -/
theorem foldl_selectStep_nil {items : List α}
    (ranked : items.Pairwise fun first second => good second = true → good first = true) :
    items.foldl (selectStep cap good) [] =
      items.take (selectCount cap (items.countP good)) := by
  cases items with
  | nil => rw [List.foldl_nil, List.take_nil]
  | cons head tail =>
      rcases List.pairwise_cons.mp ranked with ⟨first, rest⟩
      have start : selectStep cap good [] head = [head] := by
        rw [selectStep, List.length_nil, if_neg (fun full => full.1 (Nat.le_zero.mp full.2)),
          if_neg (fun bad => Nat.lt_irrefl 0 bad.2), List.nil_append]
      have count : max 1 ((head :: tail).countP good) = tail.countP good + 1 := by
        by_cases isGood : good head = true
        · rw [List.countP_cons_of_pos isGood]
          omega
        · have none : tail.countP good = 0 := by
            rw [List.countP_eq_zero]
            intro item member itemGood
            exact isGood (first item member itemGood)
          rw [List.countP_cons_of_neg isGood, none]
          rfl
      have single : 0 < [head].length := Nat.one_pos
      rw [List.foldl_cons, start, foldl_selectStep tail single, filter_eq_take rest, selectCount,
        count, List.singleton_append, List.length_singleton]
      by_cases unlimited : cap = 0
      · rw [if_pos unlimited, if_pos unlimited, List.take_succ_cons]
      · have both : min cap (tail.countP good + 1) = min (cap - 1) (tail.countP good) + 1 := by
          omega
        rw [if_neg unlimited, if_neg unlimited, both, List.take_succ_cons, List.take_take]

end Select

end Desan
