import Mathlib.Data.List.Basic

/-! # Scans with a shared budget

A scan of blocks of items, one budget for all of them. Within a block the budget is
decremented by the test that ends the scan as well, so a block longer than what is left
of the budget takes it below zero. -/

namespace Desan

variable {α β : Type*}

/-- What a scan has found, the budget it leaves, the number of items it tested, and
whether it decremented a budget of zero. -/
structure BudgetScan (β : Type*) where
  found : Option β := none
  budget : Nat
  tested : Nat := 0
  wrapped : Bool := false
deriving DecidableEq

namespace BudgetScan

/-- The scan with one more test before it. -/
def tally (scan : BudgetScan β) : BudgetScan β := { scan with tested := scan.tested + 1 }

/-- A later scan with what an earlier one did. -/
def after (later earlier : BudgetScan β) : BudgetScan β :=
  { later with
    tested := earlier.tested + later.tested
    wrapped := earlier.wrapped || later.wrapped }

section Scan

variable (test : α → Option β) (decrement : Nat → Nat)

/-- The budget is asked before a test and decremented after it. -/
def guarded : List α → Nat → BudgetScan β
  | [], budget => { budget }
  | item :: rest, budget =>
      if budget = 0 then { budget }
      else
        match test item with
        | some value => { found := some value, budget, tested := 1 }
        | none => (guarded rest (decrement budget)).tally

/-- The budget is asked and decremented at once. -/
def block : List α → Nat → BudgetScan β
  | [], budget => { budget }
  | item :: rest, budget =>
      if budget = 0 then { budget := decrement budget, wrapped := true }
      else
        match test item with
        | some value => { found := some value, budget := decrement budget, tested := 1 }
        | none => (block rest (decrement budget)).tally

/-- One block after the other, as long as there is budget and nothing is found. -/
def blocks : List (List α) → Nat → BudgetScan β
  | [], budget => { budget }
  | items :: rest, budget =>
      if budget = 0 then { budget }
      else
        let scan := block test decrement items budget
        if scan.found.isSome then scan else (blocks rest scan.budget).after scan

end Scan

/-- Nothing is found among the items. -/
abbrev Misses (test : α → Option β) (items : List α) : Prop :=
  ∀ item ∈ items, test item = none

/-- Whenever the scan comes to a block with some of the budget left, the block is not
longer than that or has a match within it. -/
def Fits (test : α → Option β) (before : List α) (blocks : List (List α)) (budget : Nat) :
    Prop :=
  ∀ done items rest, blocks = done ++ items :: rest → Misses test (before ++ done.flatten) →
    (before ++ done.flatten).length < budget →
      Misses test (items.take (budget - (before ++ done.flatten).length)) →
        (before ++ done.flatten).length + items.length ≤ budget

variable {test : α → Option β} {decrement : Nat → Nat}
  (lowers : ∀ budget, budget ≠ 0 → decrement budget = budget - 1)
include lowers

/-! ## One block -/

theorem guarded_of_misses {items : List α} {budget : Nat} (misses : Misses test items)
    (fits : items.length ≤ budget) :
    guarded test decrement items budget =
      { budget := budget - items.length, tested := items.length } := by
  induction items generalizing budget with
  | nil => rfl
  | cons head tail induction =>
      have some : budget ≠ 0 := by
        rw [List.length_cons] at fits
        omega
      have rest : tail.length ≤ budget - 1 := by
        rw [List.length_cons] at fits
        omega
      rw [guarded, if_neg some, misses head (List.mem_cons_self ..), lowers budget some]
      simp only
      rw [induction (fun item member => misses item (List.mem_cons_of_mem _ member)) rest]
      have left : budget - 1 - tail.length = budget - (head :: tail).length := by
        rw [List.length_cons]
        omega
      rw [left]
      rfl

theorem guarded_of_cut {items : List α} {budget : Nat}
    (misses : Misses test (items.take budget)) (cut : budget ≤ items.length) :
    guarded test decrement items budget = { budget := 0, tested := budget } := by
  induction items generalizing budget with
  | nil =>
      have zero : budget = 0 := Nat.le_zero.mp cut
      rw [zero]
      rfl
  | cons head tail induction =>
      cases budget with
      | zero => rfl
      | succ budget =>
          rw [List.take_succ_cons] at misses
          rw [guarded, if_neg (Nat.succ_ne_zero budget), misses head (List.mem_cons_self ..),
            lowers _ (Nat.succ_ne_zero budget)]
          simp only [Nat.succ_sub_one]
          rw [induction (fun item member => misses item (List.mem_cons_of_mem _ member))
            (Nat.le_of_succ_le_succ cut), tally]

theorem guarded_of_match {items : List α} {budget : Nat} {item : α}
    (member : item ∈ items.take budget) (hit : (test item).isSome = true) :
    (guarded test decrement items budget).found.isSome = true ∧
      (guarded test decrement items budget).tested ≤ budget := by
  induction items generalizing budget with
  | nil => cases budget <;> cases member
  | cons head tail induction =>
      cases budget with
      | zero => cases member
      | succ budget =>
          rw [List.take_succ_cons] at member
          rw [guarded, if_neg (Nat.succ_ne_zero budget), lowers _ (Nat.succ_ne_zero budget)]
          simp only [Nat.succ_sub_one]
          cases found : test head with
          | some value => exact ⟨rfl, Nat.succ_le_succ (Nat.zero_le budget)⟩
          | none =>
              rcases List.mem_cons.mp member with rfl | later
              · rw [found] at hit
                cases hit
              · rcases induction later with ⟨isSome, bound⟩
                exact ⟨isSome, Nat.succ_le_succ bound⟩

omit lowers in
theorem wrapped_guarded (items : List α) (budget : Nat) :
    (guarded test decrement items budget).wrapped = false := by
  induction items generalizing budget with
  | nil => rfl
  | cons head tail induction =>
      rw [guarded]
      split
      · rfl
      · cases test head with
        | some value => rfl
        | none => exact induction (decrement budget)

theorem block_of_misses {items : List α} {budget : Nat} (misses : Misses test items)
    (fits : items.length ≤ budget) :
    block test decrement items budget =
      { budget := budget - items.length, tested := items.length } := by
  induction items generalizing budget with
  | nil => rfl
  | cons head tail induction =>
      have some : budget ≠ 0 := by
        rw [List.length_cons] at fits
        omega
      have rest : tail.length ≤ budget - 1 := by
        rw [List.length_cons] at fits
        omega
      rw [block, if_neg some, misses head (List.mem_cons_self ..), lowers budget some]
      simp only
      rw [induction (fun item member => misses item (List.mem_cons_of_mem _ member)) rest]
      have left : budget - 1 - tail.length = budget - (head :: tail).length := by
        rw [List.length_cons]
        omega
      rw [left]
      rfl

theorem block_of_cut {items : List α} {budget : Nat}
    (misses : Misses test (items.take budget)) (cut : budget < items.length) :
    (block test decrement items budget).found = none ∧
      (block test decrement items budget).wrapped = true := by
  induction items generalizing budget with
  | nil => cases cut
  | cons head tail induction =>
      cases budget with
      | zero => exact ⟨rfl, rfl⟩
      | succ budget =>
          rw [List.take_succ_cons] at misses
          rw [block, if_neg (Nat.succ_ne_zero budget), misses head (List.mem_cons_self ..),
            lowers _ (Nat.succ_ne_zero budget)]
          exact induction (fun item member => misses item (List.mem_cons_of_mem _ member))
            (Nat.lt_of_succ_lt_succ cut)

theorem block_of_match {items : List α} {budget : Nat} {item : α}
    (member : item ∈ items.take budget) (hit : (test item).isSome = true) :
    (block test decrement items budget).found.isSome = true ∧
      (block test decrement items budget).wrapped = false ∧
        (block test decrement items budget).tested ≤ budget := by
  induction items generalizing budget with
  | nil => cases budget <;> cases member
  | cons head tail induction =>
      cases budget with
      | zero => cases member
      | succ budget =>
          rw [List.take_succ_cons] at member
          rw [block, if_neg (Nat.succ_ne_zero budget), lowers _ (Nat.succ_ne_zero budget)]
          simp only [Nat.succ_sub_one]
          cases found : test head with
          | some value => exact ⟨rfl, rfl, Nat.succ_le_succ (Nat.zero_le budget)⟩
          | none =>
              rcases List.mem_cons.mp member with rfl | later
              · rw [found] at hit
                cases hit
              · rcases induction later with ⟨isSome, notWrapped, bound⟩
                exact ⟨isSome, notWrapped, Nat.succ_le_succ bound⟩

/-! ## All blocks -/

omit lowers in
theorem misses_or_exists (test : α → Option β) (items : List α) :
    Misses test items ∨ ∃ item ∈ items, (test item).isSome = true := by
  by_cases misses : Misses test items
  · exact .inl misses
  · right
    simp only [not_forall] at misses
    rcases misses with ⟨item, member, hit⟩
    exact ⟨item, member, Option.isSome_iff_ne_none.mpr hit⟩

section Fits

omit lowers

variable {before head : List α} {tail : List (List α)} {budget : Nat}

theorem fits_of_full (full : budget ≤ before.length) (blocks : List (List α)) :
    Fits test before blocks budget := by
  intro done items rest _ _ room
  rw [List.length_append] at room
  omega

theorem fits_of_match {item : α} (member : item ∈ before) (hit : (test item).isSome = true)
    (blocks : List (List α)) : Fits test before blocks budget := by
  intro done items rest _ misses
  rw [misses item (List.mem_append_left _ member)] at hit
  cases hit

/-- The first block fits, and the others do behind it. -/
theorem fits_cons : Fits test before (head :: tail) budget ↔
    (Misses test before → before.length < budget →
      Misses test (head.take (budget - before.length)) →
        before.length + head.length ≤ budget) ∧
      Fits test (before ++ head) tail budget := by
  constructor
  · intro whole
    constructor
    · intro misses room missesHead
      have first := whole [] head tail rfl
      rw [List.flatten_nil, List.append_nil] at first
      exact first misses room missesHead
    · intro done items rest split
      have later := whole (head :: done) items rest (by rw [split, List.cons_append])
      rw [List.flatten_cons, ← List.append_assoc] at later
      exact later
  · intro parts done items rest split
    cases done with
    | nil =>
        rw [List.nil_append] at split
        rw [← (List.cons.inj split).1, List.flatten_nil, List.append_nil]
        exact parts.1
    | cons first done =>
        rw [List.cons_append] at split
        rcases List.cons.inj split with ⟨rfl, onward⟩
        rw [List.flatten_cons, ← List.append_assoc]
        exact parts.2 done items rest onward

end Fits

/-- A scan of blocks takes the budget below zero unless every block it comes to fits, and
otherwise tests no more items than the budget allows. -/
theorem blocks_spec (items : List (List α)) {before : List α} {budget : Nat}
    (misses : Misses test before) (fits : before.length ≤ budget) :
    ((blocks test decrement items (budget - before.length)).wrapped = false ↔
        Fits test before items budget) ∧
      ((blocks test decrement items (budget - before.length)).wrapped = false →
        (blocks test decrement items (budget - before.length)).tested ≤
          budget - before.length) := by
  induction items generalizing before with
  | nil =>
      refine ⟨⟨fun _ done block rest split => ?_, fun _ => rfl⟩, fun _ => Nat.zero_le _⟩
      cases done <;> cases split
  | cons head tail induction =>
      by_cases empty : budget - before.length = 0
      · rw [empty, blocks, if_pos rfl]
        have full : budget ≤ before.length := by omega
        exact ⟨⟨fun _ => fits_of_full full _, fun _ => rfl⟩, fun _ => Nat.le_refl _⟩
      · have room : before.length < budget := by omega
        rw [blocks, if_neg empty, fits_cons]
        simp only
        rcases misses_or_exists test (head.take (budget - before.length)) with none | some
        · by_cases short : head.length ≤ budget - before.length
          · -- The whole block is scanned, and the rest as if it stood before.
            have missesHead : Misses test head := by
              rw [List.take_of_length_le short] at none
              exact none
            have missesBoth : Misses test (before ++ head) :=
              List.forall_mem_append.mpr ⟨misses, missesHead⟩
            have length : (before ++ head).length = before.length + head.length :=
              List.length_append
            have fitsBoth : (before ++ head).length ≤ budget := by omega
            have left : budget - before.length - head.length =
                budget - (before ++ head).length := by omega
            rw [block_of_misses lowers missesHead short, left]
            simp only [Option.isSome_none, Bool.false_eq_true, if_false, after, Bool.false_or]
            rcases induction missesBoth fitsBoth with ⟨iff, bound⟩
            constructor
            · rw [iff]
              exact ⟨fun rest => ⟨fun _ _ _ => length ▸ fitsBoth, rest⟩, And.right⟩
            · intro notWrapped
              have rest := bound notWrapped
              omega
          · have cut := block_of_cut lowers none (Nat.lt_of_not_le short)
            rw [cut.1]
            simp only [Option.isSome_none, Bool.false_eq_true, if_false, after, cut.2,
              Bool.true_or]
            refine ⟨⟨fun wrapped => Bool.noConfusion wrapped, fun whole => ?_⟩,
              fun wrapped => Bool.noConfusion wrapped⟩
            have first := whole.1 misses room none
            omega
        · rcases some with ⟨item, member, hit⟩
          rcases block_of_match lowers member hit with ⟨isSome, notWrapped, bound⟩
          rw [if_pos isSome]
          refine ⟨⟨fun _ => ⟨fun _ _ missesHead => ?_, ?_⟩, fun _ => notWrapped⟩, fun _ => bound⟩
          · rw [missesHead item member] at hit
            cases hit
          · exact fits_of_match (List.mem_append_right _ (List.mem_of_mem_take member)) hit tail

end BudgetScan

end Desan
