import Desan.CheckedVariableAnalyzer.Analysis
import Desan.Foundation.BudgetScan

/-! # The budget of the access search

The search for the access a bounds check guards, with a count of the instructions it
tests. It keeps to its budget unless it comes to a block longer than what is left. -/

namespace Desan

/-- The blocks the search takes from its worklist and scans, if nothing ends it. -/
def Function.scanOrder (function : Function) : Nat → List BlockId → List BlockId → List Block
  | 0, _, _ => []
  | _ + 1, _, [] => []
  | blockBudget + 1, seen, block :: worklist =>
      if block ∈ seen then function.scanOrder blockBudget seen worklist
      else
        match function.block? block with
        | none => function.scanOrder blockBudget seen worklist
        | some found =>
            let seen := block :: seen
            let unseen := found.successors.filter fun successor => successor ∉ seen
            found :: function.scanOrder blockBudget seen (unseen.reverse ++ worklist)

namespace ValueGraph

/-- `searchBlocks`, counting. -/
def tallyBlocks (graph : ValueGraph) (function : Function) (index : Value) :
    Nat → Nat → List BlockId → List BlockId → BudgetScan Value
  | 0, budget, _, _ => { budget }
  | _ + 1, budget, _, [] => { budget }
  | blockBudget + 1, budget, seen, block :: worklist =>
      if budget = 0 then { budget }
      else if block ∈ seen then
        graph.tallyBlocks function index blockBudget budget seen worklist
      else
        match function.block? block with
        | none => graph.tallyBlocks function index blockBudget budget seen worklist
        | some found =>
            let scan := BudgetScan.block (graph.matchesIndex index) decrement
              found.instructions budget
            if scan.found.isSome then scan
            else
              let seen := block :: seen
              let unseen := found.successors.filter fun successor => successor ∉ seen
              (graph.tallyBlocks function index blockBudget scan.budget seen
                (unseen.reverse ++ worklist)).after scan

variable {graph : ValueGraph} {function : Function} {index : Value}

theorem scanAfterCheck_eq (insts : List Inst) (budget : Nat) :
    graph.scanAfterCheck index insts budget =
      ((BudgetScan.guarded (graph.matchesIndex index) decrement insts budget).found,
        (BudgetScan.guarded (graph.matchesIndex index) decrement insts budget).budget) := by
  induction insts generalizing budget with
  | nil => rfl
  | cons inst rest induction =>
      rw [scanAfterCheck, BudgetScan.guarded]
      split
      · rfl
      · cases graph.matchesIndex index inst with
        | some access => rfl
        | none => exact induction (decrement budget)

theorem scanBlock_eq (insts : List Inst) (budget : Nat) :
    graph.scanBlock index insts budget =
      ((BudgetScan.block (graph.matchesIndex index) decrement insts budget).found,
        (BudgetScan.block (graph.matchesIndex index) decrement insts budget).budget) := by
  induction insts generalizing budget with
  | nil => rfl
  | cons inst rest induction =>
      rw [scanBlock, BudgetScan.block]
      split
      · rfl
      · cases graph.matchesIndex index inst with
        | some access => rfl
        | none => exact induction (decrement budget)

/-- The search that counts finds what the search finds. -/
theorem found_tallyBlocks (blockBudget budget : Nat) (seen worklist : List BlockId) :
    (graph.tallyBlocks function index blockBudget budget seen worklist).found =
      graph.searchBlocks function index blockBudget budget seen worklist := by
  induction blockBudget generalizing budget seen worklist with
  | zero => rfl
  | succ blockBudget induction =>
      cases worklist with
      | nil => rfl
      | cons block worklist =>
          rw [tallyBlocks, searchBlocks]
          split
          · rfl
          · split
            · exact induction budget seen worklist
            · cases function.block? block with
              | none => exact induction budget seen worklist
              | some found =>
                  simp only [scanBlock_eq]
                  cases access : (BudgetScan.block (graph.matchesIndex index) decrement
                    found.instructions budget).found with
                  | some value =>
                      simp only [Option.isSome_some, if_true]
                      exact access
                  | none =>
                      simp only [Option.isSome_none, Bool.false_eq_true, if_false]
                      exact induction _ _ _

theorem tallyBlocks_eq (blockBudget budget : Nat) (seen worklist : List BlockId) :
    graph.tallyBlocks function index blockBudget budget seen worklist =
      BudgetScan.blocks (graph.matchesIndex index) decrement
        ((function.scanOrder blockBudget seen worklist).map Block.instructions) budget := by
  induction blockBudget generalizing budget seen worklist with
  | zero => rfl
  | succ blockBudget induction =>
      cases worklist with
      | nil => rfl
      | cons block worklist =>
          rw [tallyBlocks, Function.scanOrder]
          split
          · rename_i empty
            -- Without budget no block is scanned, however many wait.
            have stops : ∀ blocks, BudgetScan.blocks (graph.matchesIndex index) decrement
                blocks budget = { budget } := by
              intro blocks
              cases blocks with
              | nil => rfl
              | cons items rest => rw [BudgetScan.blocks, if_pos empty]
            rw [stops]
          · rename_i some
            split
            · exact induction budget seen worklist
            · cases function.block? block with
              | none => exact induction budget seen worklist
              | some found =>
                  simp only [List.map_cons]
                  rw [BudgetScan.blocks, if_neg some]
                  simp only [induction]

theorem decrement_of_ne {budget : Nat} (some : budget ≠ 0) : decrement budget = budget - 1 :=
  if_neg some

end ValueGraph

namespace CheckContext

open ValueGraph (decrement decrement_of_ne)

variable (context : CheckContext) (index : Value)

/-- The instructions after the check in its own block. -/
def afterCheck (reportBlock : Block) : List Inst :=
  (reportBlock.instructions.dropWhile fun inst => inst.id ≠ context.check).tail

/-- `findUBSanOutOfBoundsAccessOperand`, counting. -/
def tallySearch : BudgetScan Value :=
  match context.function.parent? context.check with
  | none => { budget := instBudget }
  | some reportBlock =>
      let scan := BudgetScan.guarded (context.graph.matchesIndex index) decrement
        (context.afterCheck reportBlock) instBudget
      if scan.found.isSome then scan
      else
        (context.graph.tallyBlocks context.function index blockBudget scan.budget []
          reportBlock.successors.reverse).after scan

theorem found_tallySearch :
    (context.tallySearch index).found = context.findUBSanOutOfBoundsAccessOperand index := by
  rw [tallySearch, findUBSanOutOfBoundsAccessOperand]
  cases context.function.parent? context.check with
  | none => rfl
  | some reportBlock =>
      simp only [ValueGraph.scanAfterCheck_eq]
      cases access : (BudgetScan.guarded (context.graph.matchesIndex index) decrement
        (context.afterCheck reportBlock) instBudget).found with
      | some value =>
          rw [afterCheck] at access
          simp only [afterCheck, access, Option.isSome_some, if_true]
      | none =>
          rw [afterCheck] at access
          simp only [afterCheck, access, Option.isSome_none, Bool.false_eq_true, if_false]
          exact ValueGraph.found_tallyBlocks _ _ _ _

/-- The counter does not go below zero, and no more instructions are tested than it
allows. -/
def KeepsBudget : Prop :=
  (context.tallySearch index).wrapped = false ∧ (context.tallySearch index).tested ≤ instBudget

/-- Whenever the search comes to a block with some of its budget left, the block is not
longer than that or has a match within it. -/
def BlocksFit : Prop :=
  ∀ reportBlock, context.function.parent? context.check = some reportBlock →
    BudgetScan.Fits (context.graph.matchesIndex index) (context.afterCheck reportBlock)
      ((context.function.scanOrder blockBudget [] reportBlock.successors.reverse).map
        Block.instructions) instBudget

/-- The search keeps to its budget exactly if it comes to no block that is too long. -/
theorem keepsBudget_iff_blocksFit : context.KeepsBudget index ↔ context.BlocksFit index := by
  rw [KeepsBudget, BlocksFit, tallySearch]
  cases context.function.parent? context.check with
  | none => exact ⟨fun _ _ found => (nomatch found), fun _ => ⟨rfl, Nat.zero_le _⟩⟩
  | some reportBlock =>
      simp only [Option.some.injEq, forall_eq', ValueGraph.tallyBlocks_eq]
      generalize (context.function.scanOrder blockBudget [] reportBlock.successors.reverse).map
        Block.instructions = blocks
      generalize context.afterCheck reportBlock = before
      rcases BudgetScan.misses_or_exists (context.graph.matchesIndex index)
        (before.take instBudget) with none | some
      · by_cases short : before.length ≤ instBudget
        · rw [List.take_of_length_le short] at none
          rcases BudgetScan.blocks_spec (fun _ => decrement_of_ne) blocks none short with
            ⟨iff, bound⟩
          rw [BudgetScan.guarded_of_misses (fun _ => decrement_of_ne) none short]
          simp only [Option.isSome_none, Bool.false_eq_true, if_false, BudgetScan.after,
            Bool.false_or]
          rw [← iff]
          constructor
          · intro keeps
            exact keeps.1
          · intro notWrapped
            have rest := bound notWrapped
            exact ⟨notWrapped, by omega⟩
        · -- The budget is used up in the block of the check.
          have cut := BudgetScan.guarded_of_cut (fun _ => decrement_of_ne) none
            (Nat.le_of_lt (Nat.lt_of_not_le short))
          have stops : BudgetScan.blocks (context.graph.matchesIndex index) decrement blocks 0 =
              { budget := 0 } := by
            cases blocks <;> rfl
          rw [cut, stops]
          refine ⟨fun _ done items rest _ _ room => ?_, fun _ => ⟨rfl, Nat.le_refl _⟩⟩
          rw [List.length_append] at room
          omega
      · rcases some with ⟨item, member, hit⟩
        rcases BudgetScan.guarded_of_match (fun _ => decrement_of_ne) member hit with
          ⟨isSome, bound⟩
        rw [if_pos isSome]
        refine ⟨fun _ done items rest _ misses => ?_, fun _ => ⟨?_, bound⟩⟩
        · have none := misses item (List.mem_append_left _ (List.mem_of_mem_take member))
          rw [none] at hit
          cases hit
        · exact BudgetScan.wrapped_guarded before instBudget

end CheckContext

namespace Module

/-- A bounds check, a block of 96 instructions behind it, and one more block. -/
def longBlock : Module where
  functions :=
    [{ name := "f"
       blocks :=
         [{ id := 0
            insts :=
              [⟨0, .other 0, .call
                { calledOperand := .other 0, args := [.other 1, .other 2] }⟩]
            terminator := ⟨1, .other 0, .br 1⟩ },
          { id := 1
            insts := (List.range 95).map fun id =>
              ⟨id + 2, .integer 64, .binary .add (.other 2) (.other 2)⟩
            terminator := ⟨97, .other 0, .br 2⟩ },
          { id := 2, insts := [], terminator := ⟨98, .other 0, .ret none⟩ }] }]
  values :=
    { value
        | 0 => ⟨.constant (.function "__ubsan_handle_out_of_bounds" .notIntrinsic), .pointer⟩
        | 1 => ⟨.constant .globalVariable, .pointer⟩
        | _ => ⟨.argument, .integer 64⟩
      count := 3 }
  dataLayout := ⟨64, 8⟩

/-- The test of the last instruction of the long block takes the counter below zero, and
the search goes on to the next block. -/
theorem longBlock_not_keepsBudget :
    ∃ function ∈ longBlock.functions,
      ((longBlock.checkContext function 0).tallySearch (.other 2)).wrapped = true ∧
        ((longBlock.checkContext function 0).tallySearch (.other 2)).tested = 97 ∧
          ¬(longBlock.checkContext function 0).KeepsBudget (.other 2) := by
  have wraps : ∀ function ∈ longBlock.functions,
      ((longBlock.checkContext function 0).tallySearch (.other 2)).wrapped = true ∧
        ((longBlock.checkContext function 0).tallySearch (.other 2)).tested = 97 := by
    decide +kernel
  rcases wraps _ (List.mem_cons_self ..) with ⟨wrapped, tested⟩
  refine ⟨_, List.mem_cons_self .., wrapped, tested, ?_⟩
  intro keeps
  exact absurd (wrapped.symm.trans keeps.1) Bool.noConfusion

end Module

end Desan
