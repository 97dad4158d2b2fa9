import Desan.RedundantCheckEliminator.ErasureRun
import Desan.RedundantCheckEliminator.Policy

/-! # What the erasure looks at

The marked calls and the slices are pointers. A look at one is good if it still
points to an instruction of the module. -/

namespace Desan

namespace Function

variable {function : Function} {values : ValueTable} {check : InstId}

/-- Unless the call is erased where it stands, no slice is swept. -/
theorem looks_removeCheckSlice {utilities : CleanupUtilities} (shaped : function.Shaped)
    (notDirect : ¬function.ErasesDirectly values check) :
    (function.removeCheckSlice utilities values check).looks = [] := by
  have none : (function.eraseCheckSlice values check).looks = [] := by
    rcases eraseCheckSlice_cases shaped with bypass | direct | refused
    · rcases bypass with ⟨report, -, equal⟩
      rw [equal]
    · exact absurd direct.1 notDirect
    · rw [refused.2.2]
  rw [removeCheckSlice]
  split
  · exact none
  · exact none

/-- A direct erasure hands the erased call itself to `canEraseInstruction`. -/
theorem dead_mem_looks_removeCheckSlice {utilities : CleanupUtilities}
    (shaped : function.Shaped) (holds : function.HoldsCheck values check)
    (direct : function.ErasesDirectly values check) :
    ⟨check, false⟩ ∈ (function.removeCheckSlice utilities values check).looks ∧
      (function.removeCheckSlice utilities values check).removed = true := by
  rcases Option.isSome_iff_exists.mp direct.erased with ⟨erased, erasedEqual⟩
  rcases (eraseDirectCheckCall_eq_some erasedEqual).2.2 with ⟨inst, site, found, kind⟩
  have isCheck : values.isCheck inst.op = true := by
    rcases holds with ⟨block, blockMember, -, other, inside, equal, isCheck, -⟩
    rcases mem_of_inst? found with ⟨member, address⟩
    rw [shaped.inst_eq member (mem_instructions.mpr ⟨block, blockMember, inside⟩)
      (address.trans equal.symm)]
    exact isCheck
  have sanitizerOnly : values.isSanitizerOnlyInstruction inst.op = true := by
    rw [kind] at isCheck ⊢
    simp [ValueTable.isSanitizerOnlyInstruction, isCheck]
  rcases parent?_of_inst? found with ⟨parent, inside⟩
  have inSlice := mem_collectCheckSlice found inside sanitizerOnly
  have gone := inst?_eraseInst shaped found (by rw [kind]; rfl)
  have dead : (⟨check, false⟩ : Look) ∈
      ((function.eraseInst check).eraseDeadSliceInstructions values
        (function.collectCheckSlice values check)).looks := dead_mem_looks inSlice gone
  rcases eraseCheckSlice_cases shaped with bypass | swept | refused
  · rcases bypass with ⟨report, bypassable, -⟩
    exact absurd ⟨report, bypassable⟩ direct.notBypassed
  · rw [removeCheckSlice, swept.2]
    exact ⟨dead, rfl⟩
  · rw [refused.2.1] at erasedEqual
    cases erasedEqual

end Function

namespace Erasure

variable {erasure : Erasure} {utilities : CleanupUtilities} {values : ValueTable}

/-- A removal that does not erase directly looks at its call only. -/
theorem looks_removeCheckSlice {check : InstId} (shaped : erasure.Shaped)
    (notDirect : ∀ function, erasure.functionOf? check = some function →
      ¬function.ErasesDirectly values check) :
    (erasure.removeCheckSlice utilities values check).looks =
      erasure.looks ++ [⟨check, erasure.isLive check⟩] := by
  cases found : erasure.functionOf? check with
  | none => simp [removeCheckSlice, found]
  | some function =>
      rcases mem_of_functionOf? found with ⟨member, -⟩
      have none : (function.removeCheckSlice utilities values check).looks = [] :=
        Function.looks_removeCheckSlice (shaped.functions function member)
          (notDirect function found)
      simp only [removeCheckSlice, found]
      split
      · simp only [none, List.append_nil, tidyTouched, setFunction, touch]
        split <;> rfl
      · simp only [setFunction, touch]
        split <;> rfl

theorem looks_subset_removeCheckSlice (check : InstId) :
    erasure.looks ⊆ (erasure.removeCheckSlice utilities values check).looks := by
  have looked : erasure.looks ⊆ erasure.looks ++ [⟨check, erasure.isLive check⟩] :=
    List.subset_append_left _ _
  rw [removeCheckSlice]
  cases erasure.functionOf? check with
  | none => exact looked
  | some function =>
      simp only
      split
      · simp only [tidyTouched, setFunction, touch]
        split <;> exact List.Subset.trans looked (List.subset_append_left _ _)
      · simp only [setFunction, touch]
        split <;> exact looked

theorem looks_subset_eraseCalls (calls : List InstId) :
    erasure.looks ⊆ (erasure.eraseCalls utilities values calls).looks := by
  induction calls generalizing erasure with
  | nil => exact List.Subset.refl _
  | cons check rest induction =>
      exact List.Subset.trans (looks_subset_removeCheckSlice check) induction

theorem dead_mem_looks_removeCheckSlice {check : InstId} {function : Function}
    (shaped : erasure.Shaped) (found : erasure.functionOf? check = some function)
    (holds : function.HoldsCheck values check)
    (direct : function.ErasesDirectly values check) :
    ⟨check, false⟩ ∈ (erasure.removeCheckSlice utilities values check).looks := by
  rcases mem_of_functionOf? found with ⟨member, -⟩
  have dead : (⟨check, false⟩ : Look) ∈
        (function.removeCheckSlice utilities values check).looks ∧
      (function.removeCheckSlice utilities values check).removed = true :=
    Function.dead_mem_looks_removeCheckSlice (shaped.functions function member) holds direct
  simp only [removeCheckSlice, found]
  rw [if_pos dead.2]
  exact List.mem_append_right _ dead.1

theorem Shaped.holdsCheck_functionOf? (shaped : erasure.Shaped) {check : InstId}
    {function : Function} (found : erasure.functionOf? check = some function)
    (holds : erasure.HoldsCheck values check) : function.HoldsCheck values check := by
  rcases mem_of_functionOf? found with ⟨member, isSome⟩
  rcases holds with ⟨other, otherMember, inside⟩
  have present : ∀ candidate : Function, (candidate.inst? check).isSome = true →
      check ∈ candidate.instructions.map Inst.id := by
    intro candidate isSome
    rcases Option.isSome_iff_exists.mp isSome with ⟨inst, equal⟩
    rcases Function.mem_of_inst? equal with ⟨instMember, rfl⟩
    exact List.mem_map_of_mem instMember
  have sameName := shaped.apart function member other otherMember check
    (present function isSome) (present other (Function.isSome_inst?_of_holdsCheck inside))
  exact (shaped.function_eq member otherMember sameName) ▸ inside

theorem careful_of_notDirect {check : InstId} {function : Function}
    (keepsEntry : function.KeepsEntry values check)
    (notDirect : ¬function.ErasesDirectly values check) : Careful values function check :=
  ⟨keepsEntry, fun direct => absurd direct notDirect⟩

/-- Without a direct erasure every new look is good. -/
theorem live_of_mem_looks {calls : List InstId} (keep : utilities.KeepCalls)
    (pending : erasure.Pending values calls)
    (keepsEntry : EveryStep utilities values
      (fun function check => function.KeepsEntry values check) erasure calls)
    (notDirect : EveryStep utilities values
      (fun function check => ¬function.ErasesDirectly values check) erasure calls)
    {look : Look} (member : look ∈ (erasure.eraseCalls utilities values calls).looks) :
    look ∈ erasure.looks ∨ look.live = true := by
  induction calls generalizing erasure with
  | nil => exact .inl member
  | cons check rest induction =>
      have live := isLive_of_holdsCheck (pending.held check (List.mem_cons_self ..))
      have next := pending.step keep fun function found =>
        careful_of_notDirect (keepsEntry.1 function found) (notDirect.1 function found)
      rcases induction next keepsEntry.2 notDirect.2 member with earlier | live
      · rw [looks_removeCheckSlice pending.shaped notDirect.1] at earlier
        rcases List.mem_append.mp earlier with old | new
        · exact .inl old
        · rw [List.mem_singleton.mp new]
          exact .inr live
      · exact .inr live

/-- If every look is good, no call was erased directly. -/
theorem everyStep_notDirect {calls : List InstId} (keep : utilities.KeepCalls)
    (pending : erasure.Pending values calls)
    (keepsEntry : EveryStep utilities values
      (fun function check => function.KeepsEntry values check) erasure calls)
    (live : ∀ look ∈ (erasure.eraseCalls utilities values calls).looks, look.live = true) :
    EveryStep utilities values
      (fun function check => ¬function.ErasesDirectly values check) erasure calls := by
  induction calls generalizing erasure with
  | nil => trivial
  | cons check rest induction =>
      have notDirect : ∀ function, erasure.functionOf? check = some function →
          ¬function.ErasesDirectly values check := by
        intro function found direct
        have holds := pending.shaped.holdsCheck_functionOf? found
          (pending.held check (List.mem_cons_self ..))
        have dead : (⟨check, false⟩ : Look) ∈
            (erasure.removeCheckSlice utilities values check).looks :=
          dead_mem_looks_removeCheckSlice pending.shaped found holds direct
        have bad := live _ (looks_subset_eraseCalls rest dead)
        cases bad
      have next := pending.step keep fun function found =>
        careful_of_notDirect (keepsEntry.1 function found) (notDirect function found)
      exact ⟨notDirect, induction next keepsEntry.2 live⟩

end Erasure

namespace Module

/-- Every call taken from the marked set, and every instruction of a slice handed to
`canEraseInstruction`, is an instruction of the module at that moment. -/
def LooksLive (module : Module) (utilities : CleanupUtilities) (calls : List InstId) : Prop :=
  ∀ look ∈ (module.eraseMarkedChecks utilities calls).looks, look.live = true

/-- As long as no entry block is bypassed, all looks are good exactly if no call is
erased where it stands. -/
theorem looksLive_iff (module : Module) (utilities : CleanupUtilities)
    (calls : List InstId) (keep : utilities.KeepCalls)
    (pending : module.erasure.Pending module.values calls)
    (keepsEntry : Erasure.EveryStep utilities module.values
      (fun function check => function.KeepsEntry module.values check) module.erasure calls) :
    module.LooksLive utilities calls ↔
      Erasure.EveryStep utilities module.values
        (fun function check => ¬function.ErasesDirectly module.values check)
        module.erasure calls := by
  constructor
  · exact Erasure.everyStep_notDirect keep pending keepsEntry
  · intro notDirect look member
    rcases Erasure.live_of_mem_looks keep pending keepsEntry notDirect member with old | live
    · cases old
    · exact live

/-- A second load of an address, in a block of its own that a branch guards. -/
def guardedReadFunction : Function where
  name := "f"
  blocks :=
    [{ id := 0, insts := [sampleCall 0 0 3], terminator := ⟨10, .other 0, .condBr (.other 4) 1 3⟩ },
     { id := 1, insts := [], terminator := ⟨11, .other 0, .condBr (.other 4) 2 3⟩ },
     { id := 2, insts := [sampleCall 1 0 3], terminator := ⟨12, .other 0, .br 3⟩ },
     { id := 3, insts := [], terminator := ⟨13, .other 0, .ret none⟩ }]

def guardedReadBlock : Block :=
  { id := 2, insts := [sampleCall 1 0 3], terminator := ⟨12, .other 0, .br 3⟩ }

def guardedRead : Module where
  functions := [guardedReadFunction]
  values := sampleValues
  dataLayout := ⟨64, 8⟩

theorem guardedRead_pending : guardedRead.erasure.Pending guardedRead.values [1] where
  shaped := by decide
  nodup := by decide
  held := by
    intro check member
    have path : guardedReadFunction.Path [1, 0] 2 :=
      .step (.step (.start rfl) (by decide)) (by decide)
    rw [List.mem_singleton.mp member]
    exact ⟨guardedReadFunction, by decide, guardedReadBlock, by decide, ⟨_, path⟩,
      sampleCall 1 0 3, by decide, rfl, isCheck_sampleCall 1, rfl⟩

theorem guardedRead_bypassable :
    guardedReadFunction.Bypassable guardedRead.values 1 guardedReadBlock := by
  decide +kernel

theorem guardedRead_functionOf? {function : Function}
    (found : guardedRead.erasure.functionOf? 1 = some function) :
    function = guardedReadFunction := by
  have known : guardedRead.erasure.functionOf? 1 = some guardedReadFunction := by decide
  rw [known] at found
  exact (Option.some.inj found).symm

theorem guardedRead_keepsEntry :
    Erasure.EveryStep .inert guardedRead.values
      (fun function check => function.KeepsEntry guardedRead.values check)
      guardedRead.erasure [1] := by
  refine ⟨?_, trivial⟩
  intro function found report bypassable isEntry
  rw [guardedRead_functionOf? found] at bypassable isEntry
  have parent := bypassable.parent.symm.trans guardedRead_bypassable.parent
  rw [Option.some.inj parent] at isEntry
  exact absurd isEntry (by decide)

theorem guardedRead_looksLive :
    (guardedRead.markRedundantChecks .byId {} []).markedCalls = [1] ∧
      guardedRead.LooksLive .inert [1] := by
  refine ⟨by decide +kernel, (looksLive_iff guardedRead .inert [1]
    CleanupUtilities.keepCalls_inert guardedRead_pending guardedRead_keepsEntry).mpr ?_⟩
  refine ⟨?_, trivial⟩
  intro function found direct
  rw [guardedRead_functionOf? found] at direct
  exact direct.notBypassed ⟨guardedReadBlock, guardedRead_bypassable⟩

def sampleBlock : Block where
  id := 0
  insts := [sampleCall 0 0 3, sampleCall 1 1 3, sampleCall 2 0 3, sampleCall 3 0 3]
  terminator := ⟨4, .other 0, .ret none⟩

def sampleFunction : Function where
  name := "f"
  blocks := [sampleBlock]

theorem sample_holdsCheck : sampleFunction.HoldsCheck sample.values 3 :=
  ⟨sampleBlock, by decide, ⟨[], .start rfl⟩, sampleCall 3 0 3, by decide, rfl,
    isCheck_sampleCall 3, rfl⟩

/-- A block that returns is no report block. -/
theorem sample_notBypassable :
    ¬∃ report, sampleFunction.Bypassable sample.values 3 report := by
  intro bypass
  rcases bypass with ⟨report, bypassable⟩
  have parent : sampleFunction.parent? 3 = some sampleBlock := by decide
  rw [bypassable.parent] at parent
  have sanitizerOnly := bypassable.sanitizerOnly
  rw [Option.some.inj parent] at sanitizerOnly
  exact absurd sanitizerOnly (by decide +kernel)

/-- The last load is erased directly, and is then the first instruction of its slice
that is looked at. -/
theorem sample_looksDead :
    (sample.markRedundantChecks .byId {} []).markedCalls = [3] ∧
      ∀ utilities, ¬sample.LooksLive utilities [3] := by
  refine ⟨by decide +kernel, ?_⟩
  intro utilities live
  have dead : (⟨3, false⟩ : Look) ∈
      (sample.erasure.removeCheckSlice utilities sample.values 3).looks :=
    Erasure.dead_mem_looks_removeCheckSlice (by decide) (by decide : _ = some sampleFunction)
      sample_holdsCheck ⟨sample_notBypassable, by decide⟩
  have bad := live ⟨3, false⟩ dead
  cases bad

end Module

end Desan
