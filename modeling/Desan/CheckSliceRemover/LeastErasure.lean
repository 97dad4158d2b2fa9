import Desan.CheckSliceRemover.SliceErasure
import Desan.IR.Rewrite
import Mathlib.Order.Bounds.Basic

/-! # The sweep ends with the least dead set

Every round but the last takes out an instruction, and a round that takes out none has
found each listed instruction gone or in use. -/

namespace Desan

namespace Function

/-- The set has every listed instruction of an erasable kind whose users it has. -/
def DeadClosed (function : Function) (values : ValueTable) (slice : CheckSlice)
    (dead : Set InstId) : Prop :=
  ∀ inst ∈ function.instructions, inst.id ∈ slice.orderedInstructions →
    values.isErasableKind inst.op = true →
      (∀ user ∈ function.users (.inst inst.id), user ∈ dead) → inst.id ∈ dead

section Sweep

variable {function : Function} {values : ValueTable} {slice : CheckSlice}

theorem isLeast_erasable (function : Function) (values : ValueTable) (slice : CheckSlice) :
    IsLeast {dead | function.DeadClosed values slice dead}
      {id | function.Erasable values slice id} := by
  constructor
  · intro inst member inSlice kind users
    exact .intro member inSlice kind users
  · intro dead closed id erasable
    induction erasable with
    | intro member inSlice kind _ induction => exact closed _ member inSlice kind induction

theorem Erasable.of_subset {other : CheckSlice} {id : InstId}
    (subset : slice.orderedInstructions ⊆ other.orderedInstructions)
    (erasable : function.Erasable values slice id) : function.Erasable values other id := by
  induction erasable with
  | intro member inSlice kind _ induction =>
      exact .intro member (subset inSlice) kind induction

/-! ## Termination -/

theorem length_eraseInst {inst : InstId} (shaped : function.Shaped)
    (dead : function.canEraseInstruction values slice inst = true) :
    (function.eraseInst inst).instructions.length < function.instructions.length := by
  rcases canEraseInstruction_iff.mp dead with ⟨present, found, -, -, kind⟩
  have gone := inst?_eraseInst shaped found (body_of_isErasableKind kind)
  have fewer : (function.eraseInst inst).instructions.Sublist function.instructions := by
    rw [eraseInst_eq_eraseInsts]
    exact instructions_eraseInsts [inst]
  apply lt_of_le_of_ne fewer.length_le
  intro equal
  rcases mem_of_inst? found with ⟨member, rfl⟩
  rw [← fewer.eq_of_length equal] at member
  exact inst?_eq_none.mp gone (List.mem_map_of_mem member)

theorem shaped_eraseInst (shaped : function.Shaped) (inst : InstId) :
    (function.eraseInst inst).Shaped := by
  rw [eraseInst_eq_eraseInsts]
  have keeps : function.KeepsCalls _ (function.eraseInsts [inst]) := keepsCalls_eraseInsts [inst]
  exact keeps.shaped shaped

/-- A round that says it changed something has taken out an instruction, and one that
does not has left the function and found nothing to erase. -/
theorem round_cases (values : ValueTable) (slice : CheckSlice) (insts : List InstId)
    (sweep : Sweep) (shaped : sweep.function.Shaped) :
    (insts.foldl (eraseIfDead values slice) sweep).function.Shaped ∧
      ((insts.foldl (eraseIfDead values slice) sweep).changed = true ∧
          (sweep.changed = true ∧
              (insts.foldl (eraseIfDead values slice) sweep).function.instructions.length ≤
                sweep.function.instructions.length ∨
            (insts.foldl (eraseIfDead values slice) sweep).function.instructions.length <
              sweep.function.instructions.length) ∨
        (insts.foldl (eraseIfDead values slice) sweep).changed = false ∧
          sweep.changed = false ∧
            (insts.foldl (eraseIfDead values slice) sweep).function = sweep.function ∧
              ∀ inst ∈ insts,
                sweep.function.canEraseInstruction values slice inst = false) := by
  induction insts generalizing sweep with
  | nil =>
      refine ⟨shaped, ?_⟩
      cases changed : sweep.changed with
      | true => exact .inl ⟨changed, .inl ⟨rfl, Nat.le_refl _⟩⟩
      | false => exact .inr ⟨changed, rfl, rfl, fun _ member => absurd member List.not_mem_nil⟩
  | cons head tail induction =>
      rw [List.foldl_cons]
      cases dead : sweep.function.canEraseInstruction values slice head with
      | true =>
          have step : eraseIfDead values slice sweep head =
              ⟨sweep.function.eraseInst head,
                sweep.looks ++ [⟨head, (sweep.function.inst? head).isSome⟩], true⟩ := by
            rw [eraseIfDead, if_pos dead]
          have fewer := length_eraseInst shaped dead
          rw [step]
          rcases induction ⟨sweep.function.eraseInst head,
            sweep.looks ++ [⟨head, (sweep.function.inst? head).isSome⟩], true⟩
            (shaped_eraseInst shaped head) with ⟨stillShaped, changed | same⟩
          · refine ⟨stillShaped, .inl ⟨changed.1, .inr ?_⟩⟩
            rcases changed.2 with before | later
            · exact Nat.lt_of_le_of_lt before.2 fewer
            · exact later.trans fewer
          · cases same.2.1
      | false =>
          have step : eraseIfDead values slice sweep head =
              { sweep with
                looks := sweep.looks ++ [⟨head, (sweep.function.inst? head).isSome⟩] } := by
            rw [eraseIfDead, if_neg (Bool.eq_false_iff.mp dead)]
          rw [step]
          rcases induction { sweep with
            looks := sweep.looks ++ [⟨head, (sweep.function.inst? head).isSome⟩] } shaped with
            ⟨stillShaped, changed | same⟩
          · exact ⟨stillShaped, .inl changed⟩
          · refine ⟨stillShaped, .inr ⟨same.1, same.2.1, same.2.2.1, ?_⟩⟩
            intro inst member
            rcases List.mem_cons.mp member with rfl | later
            · exact dead
            · exact same.2.2.2 inst later

/-- The loop comes to a round that changes nothing. -/
theorem eraseDeadSliceLoop_settles (values : ValueTable) (slice : CheckSlice) (fuel : Nat)
    (sweep : Sweep) (shaped : sweep.function.Shaped)
    (enough : sweep.function.instructions.length < fuel) :
    (eraseDeadSliceLoop values slice fuel sweep).changed = false ∧
      ∀ inst ∈ slice.orderedInstructions,
        (eraseDeadSliceLoop values slice fuel sweep).function.canEraseInstruction values slice
          inst = false := by
  induction fuel generalizing sweep with
  | zero => exact absurd enough (Nat.not_lt_zero _)
  | succ fuel induction =>
      have round := round_cases values slice
        slice.orderedInstructions.reverse { sweep with changed := false } shaped
      rcases round with ⟨stillShaped, changed | settled⟩
      · have fewer := changed.2.resolve_left fun before => Bool.noConfusion before.1
        have more : ((slice.orderedInstructions.reverse.foldl (eraseIfDead values slice)
            { sweep with changed := false }).function.instructions.length) < fuel :=
          Nat.lt_of_lt_of_le fewer (Nat.le_of_lt_succ enough)
        rw [eraseDeadSliceLoop]
        simp only [changed.1, if_true]
        exact induction _ stillShaped more
      · rw [eraseDeadSliceLoop]
        simp only [settled.1, Bool.false_eq_true, if_false, true_and]
        intro inst member
        rw [settled.2.2.1]
        exact settled.2.2.2 inst (List.mem_reverse.mpr member)

/-! ## The dead set -/

theorem eraseInsts_congr {left right : List InstId} (same : ∀ id, id ∈ left ↔ id ∈ right) :
    function.eraseInsts left = function.eraseInsts right := by
  have filters : (fun inst : Inst => decide (inst.id ∉ left)) =
      fun inst => decide (inst.id ∉ right) := by
    funext inst
    rw [Bool.eq_iff_iff, decide_eq_true_eq, decide_eq_true_eq, same]
  rw [eraseInsts, eraseInsts, filters]

/-- Terminators are not erased, so an instruction that is left is not among the erased. -/
theorem Erasable.notMem_of_left {id : InstId} (erasable : function.Erasable values slice id)
    (shaped : function.Shaped) {erased : List InstId} {left : Inst}
    (member : left ∈ (function.eraseInsts erased).instructions) (address : left.id = id) :
    id ∉ erased := by
  rcases mem_instructions.mp member with ⟨after, afterMember, inside⟩
  rcases mem_eraseInsts.mp afterMember with ⟨block, blockMember, rfl⟩
  rcases Block.mem_instructions.mp inside with body | last
  · have kept := of_decide_eq_true (List.mem_filter.mp body).2
    exact address ▸ kept
  · rcases erasable.exists_inst with ⟨inst, instMember, sameId, kind, -⟩
    have sameAddress : block.terminator.id = inst.id :=
      (congrArg Inst.id last).symm.trans (address.trans sameId.symm)
    exact absurd sameAddress
      (shaped.terminator_ne instMember (body_of_isErasableKind kind) block blockMember)

/-- What has been erased when the loop ends is all that can be. -/
theorem exists_erased_iff (values : ValueTable) (shaped : function.Shaped) (slice : CheckSlice) :
    ∃ erased, (function.eraseDeadSliceInstructions values slice).function =
        function.eraseInsts erased ∧
      ∀ id, id ∈ erased ↔ function.Erasable values slice id := by
  have swept : function.SweptFrom values slice
      (function.eraseDeadSliceInstructions values slice).function :=
    sweptFrom_eraseDeadSliceInstructions slice
  rcases swept with ⟨erased, whole, allErasable⟩
  refine ⟨erased, whole, fun id => ⟨allErasable id, fun erasable => ?_⟩⟩
  have settled := (eraseDeadSliceLoop_settles values slice
    (function.instructions.length + 1) { function } shaped (Nat.lt_succ_self _)).2
  have left : (eraseDeadSliceLoop values slice (function.instructions.length + 1)
      { function }).function = function.eraseInsts erased := whole
  rw [left] at settled
  induction erasable with
  | @intro inst member inSlice kind users induction =>
      by_contra kept
      have present := mem_instructions_eraseInsts member kept
      have stillShaped : (function.eraseInsts erased).Shaped := by
        have keeps : function.KeepsCalls _ (function.eraseInsts erased) :=
          keepsCalls_eraseInsts erased
        exact keeps.shaped shaped
      have found : (function.eraseInsts erased).inst? inst.id = some inst :=
        stillShaped.inst?_eq present
      have unused : (function.eraseInsts erased).useEmpty inst.id = true := by
        rw [useEmpty_iff]
        intro user userMember operand
        have original := (instructions_eraseInsts erased).subset userMember
        have isUser : user.id ∈ function.users (.inst inst.id) :=
          mem_users.mpr ⟨user, original, rfl, operand⟩
        exact (users user.id isUser).notMem_of_left shaped userMember rfl
          (induction user.id isUser)
      have dead := canEraseInstruction_iff.mpr ⟨inst, found, inSlice, unused, kind⟩
      rw [settled inst.id inSlice] at dead
      cases dead

/-- The loop ends. It has erased the least dead set, whatever the order of the slice, and
no instruction that is left uses an erased one. -/
theorem eraseDeadSliceInstructions_least (function : Function) (values : ValueTable)
    (slice : CheckSlice) (shaped : function.Shaped) :
    (function.eraseDeadSliceInstructions values slice).changed = false ∧
      (∃ erased, (function.eraseDeadSliceInstructions values slice).function =
          function.eraseInsts erased ∧
        IsLeast {dead | function.DeadClosed values slice dead} {id | id ∈ erased}) ∧
      (∀ other : CheckSlice, other.orderedInstructions.Perm slice.orderedInstructions →
        (function.eraseDeadSliceInstructions values other).function =
          (function.eraseDeadSliceInstructions values slice).function) ∧
      ∀ user ∈ (function.eraseDeadSliceInstructions values slice).function.instructions,
        ∀ id ∈ function.ids, .inst id ∈ user.op.operands →
          id ∈ (function.eraseDeadSliceInstructions values slice).function.ids := by
  rcases exists_erased_iff values shaped slice with ⟨erased, whole, iff⟩
  refine ⟨?_, ⟨erased, whole, ?_⟩, ?_, ?_⟩
  · exact (eraseDeadSliceLoop_settles values slice _ { function } shaped (Nat.lt_succ_self _)).1
  · have same : {id | id ∈ erased} = {id | function.Erasable values slice id} :=
      Set.ext iff
    rw [same]
    exact function.isLeast_erasable values slice
  · intro other permuted
    rcases exists_erased_iff values shaped other with
      ⟨otherErased, otherWhole, otherIff⟩
    rw [whole, otherWhole]
    apply eraseInsts_congr
    intro id
    rw [iff, otherIff]
    exact ⟨Erasable.of_subset permuted.subset, Erasable.of_subset permuted.symm.subset⟩
  · rw [whole]
    intro user member id present operand
    rcases List.mem_map.mp present with ⟨used, usedMember, rfl⟩
    apply List.mem_map_of_mem
    apply mem_instructions_eraseInsts usedMember
    intro gone
    -- The users of an erased instruction are erased with it.
    rcases ((iff used.id).mp gone).exists_inst with ⟨-, -, -, -, users⟩
    have isUser : user.id ∈ function.users (.inst used.id) :=
      mem_users.mpr ⟨user, (instructions_eraseInsts erased).subset member, rfl, operand⟩
    have userErasable := users user.id isUser
    exact userErasable.notMem_of_left shaped member rfl ((iff user.id).mpr userErasable)

end Sweep

def shadowValues : ValueTable where
  value
    | 0 => ⟨.argument, .pointer⟩
    | _ => ⟨.constant (.int 1), .integer 8⟩
  count := 2

/-- A shadow load and what is computed from it, and two phis that use each other. -/
def shadowRead : Function where
  name := "f"
  blocks :=
    [{ id := 0
       insts :=
        [⟨0, .integer 8, .load (.other 0) false .notAtomic⟩,
         ⟨1, .integer 8, .binary .add (.inst 0) (.other 1)⟩,
         ⟨2, .integer 1, .cmp "sge" (.inst 1) (.inst 0)⟩]
       terminator := ⟨3, .other 0, .br 1⟩ },
     { id := 1
       insts :=
        [⟨4, .integer 8, .phi [(.other 1, 0), (.inst 5, 1)]⟩,
         ⟨5, .integer 8, .phi [(.other 1, 0), (.inst 4, 1)]⟩]
       terminator := ⟨6, .other 0, .br 1⟩ }]

def shadowSlice : CheckSlice where
  orderedInstructions := [2, 0, 4, 1, 5, 3]

theorem shadowRead_least :
    (shadowRead.eraseDeadSliceInstructions shadowValues shadowSlice).function =
        shadowRead.eraseInsts [0, 1, 2] ∧
      (shadowRead.eraseDeadSliceInstructions shadowValues shadowSlice).changed = false ∧
        ∀ other : CheckSlice,
          other.orderedInstructions.Perm shadowSlice.orderedInstructions →
            (shadowRead.eraseDeadSliceInstructions shadowValues other).function =
              (shadowRead.eraseDeadSliceInstructions shadowValues shadowSlice).function := by
  have least := eraseDeadSliceInstructions_least shadowRead shadowValues shadowSlice (by decide)
  exact ⟨by decide +kernel, least.1, least.2.2.1⟩

end Function

end Desan
