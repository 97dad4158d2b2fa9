import Desan.RedundantCheckEliminator.Atomicity

/-! # Only the marked checks disappear -/

namespace Desan

namespace Function

variable {function : Function} {values : ValueTable} {check : InstId}

/-- A removal that answers false has not touched the check. -/
theorem not_loses_of_refused {utilities : CleanupUtilities} (shaped : function.Shaped)
    (refused : (function.removeCheckSlice utilities values check).removed = false) :
    ¬function.Loses values check check := by
  have same : (function.eraseCheckSlice values check).removed = false :=
    removed_removeCheckSlice.symm.trans refused
  intro loses
  rcases eraseCheckSlice_cases shaped with bypass | direct | outcome
  · rcases bypass with ⟨report, -, equal⟩
    rw [equal] at same
    cases same
  · rw [direct.2] at same
    cases same
  · rcases loses with ⟨report, bypassable, -⟩ | ⟨direct, -⟩
    · exact outcome.1 ⟨report, bypassable⟩
    · have erased := direct.erased
      rw [outcome.2.1] at erased
      cases erased

end Function

namespace Erasure

variable {erasure : Erasure} {utilities : CleanupUtilities} {values : ValueTable}
  {check : InstId}

/-- No edit brings an instruction back. -/
theorem KeepsCalls.isLive {lost : Function → InstId → Prop} {before after : Erasure}
    (keeps : before.KeepsCalls lost after) (live : after.isLive check = true) :
    before.isLive check = true := by
  rcases keeps with ⟨transform, equal, kept⟩
  rcases isLive_iff.mp live with ⟨function, member, inside⟩
  rw [equal] at member
  rcases List.mem_map.mp member with ⟨original, originalMember, rfl⟩
  exact isLive_iff.mpr ⟨original, originalMember, (kept original originalMember).old check inside⟩

theorem isLive_of_eraseCalls {calls : List InstId} (keep : utilities.KeepCalls)
    (shaped : erasure.Shaped)
    (careful : EveryStep utilities values (Careful values) erasure calls)
    (live : (erasure.eraseCalls utilities values calls).isLive check = true) :
    erasure.isLive check = true := by
  induction calls generalizing erasure with
  | nil => exact live
  | cons first rest induction =>
      have keeps := keepsCalls_removeCheckSlice keep shaped fun function found =>
        (careful.1 function found).1
      exact keeps.isLive
        (induction (shaped_removeCheckSlice keep shaped careful.1) careful.2 live)

theorem removed_removeCheckSlice {function : Function}
    (found : erasure.functionOf? check = some function) :
    (erasure.removeCheckSlice utilities values check).removed =
      if (function.removeCheckSlice utilities values check).removed then erasure.removed + 1
      else erasure.removed := by
  simp only [removeCheckSlice, found]
  split
  · simp only [tidyTouched, setFunction, touch]
    split <;> rfl
  · simp only [setFunction, touch]
    split <;> rfl

/-- A refused call stays a check that control can reach. -/
theorem holdsCheck_of_refused {function : Function} (keep : utilities.KeepCalls)
    (shaped : erasure.Shaped) (found : erasure.functionOf? check = some function)
    (keepsEntry : function.KeepsEntry values check) (holds : erasure.HoldsCheck values check)
    (refused : (function.removeCheckSlice utilities values check).removed = false) :
    (erasure.removeCheckSlice utilities values check).HoldsCheck values check := by
  have keepsEntries : ∀ other, erasure.functionOf? check = some other →
      other.KeepsEntry values check := by
    intro other isOther
    rw [found] at isOther
    exact Option.some.inj isOther ▸ keepsEntry
  apply (keepsCalls_removeCheckSlice keep shaped keepsEntries).holdsCheck holds
  intro other otherMember _ lost
  rw [found] at lost
  rcases lost with ⟨same, loses⟩
  rw [← Option.some.inj same] at loses
  exact Function.not_loses_of_refused
    (shaped.functions function (mem_of_functionOf? found).1) refused loses

/-- The count is the number of calls that are gone in the end. -/
theorem removed_eraseCalls {calls : List InstId} (keep : utilities.KeepCalls)
    (pending : erasure.Pending values calls)
    (careful : EveryStep utilities values (Careful values) erasure calls) :
    (erasure.eraseCalls utilities values calls).removed = erasure.removed +
      (calls.filter fun call =>
        !((erasure.eraseCalls utilities values calls).tidy utilities).isLive call).length := by
  induction calls generalizing erasure with
  | nil => rfl
  | cons check rest induction =>
      have holds := pending.held check (List.mem_cons_self ..)
      have next := pending.step keep careful.1
      have count := induction next careful.2
      have final : erasure.eraseCalls utilities values (check :: rest) =
          (erasure.removeCheckSlice utilities values check).eraseCalls utilities values
            rest := rfl
      rw [final, count]
      rcases Option.isSome_iff_exists.mp (isLive_of_holdsCheck holds) with ⟨function, found⟩
      rw [removed_removeCheckSlice found]
      cases removed : (function.removeCheckSlice utilities values check).removed with
      | true =>
          have gone : (((erasure.removeCheckSlice utilities values check).eraseCalls utilities
              values rest).tidy utilities).isLive check = false := by
            apply Bool.eq_false_iff.mpr
            intro live
            have early := isLive_of_eraseCalls keep next.shaped careful.2
              ((keepsCalls_tidy keep _).isLive live)
            rw [not_isLive_of_removed keep.addNothing pending.shaped found removed] at early
            cases early
          rw [List.filter_cons_of_pos (by simp [gone])]
          simp only [if_true, List.length_cons]
          omega
      | false =>
          have stays := holdsCheck_of_refused keep pending.shaped found
            (careful.1 function found).1 holds removed
          have last := holdsCheck_eraseCalls keep next.shaped careful.2 stays
            (List.nodup_cons.mp pending.nodup).1
          have live : (((erasure.removeCheckSlice utilities values check).eraseCalls utilities
              values rest).tidy utilities).isLive check = true :=
            isLive_of_holdsCheck
              ((keepsCalls_tidy keep _).holdsCheck last fun _ _ _ => False.elim)
          rw [List.filter_cons_of_neg (by simp [live])]
          simp

end Erasure

namespace Module

/-- Every unmarked check that control could reach is still there, and the count is the
number of marked calls that are gone. -/
def OnlyMarkedDisappear (module : Module) (utilities : CleanupUtilities)
    (calls : List InstId) : Prop :=
  (∀ check, module.erasure.HoldsCheck module.values check → check ∉ calls →
      (module.eraseMarkedChecks utilities calls).isLive check = true) ∧
    (module.eraseMarkedChecks utilities calls).removed =
      (calls.filter fun call =>
        !(module.eraseMarkedChecks utilities calls).isLive call).length

theorem onlyMarkedDisappear_of_careful (module : Module) (utilities : CleanupUtilities)
    (calls : List InstId) (keep : utilities.KeepCalls)
    (pending : module.erasure.Pending module.values calls)
    (careful : Erasure.EveryStep utilities module.values (Erasure.Careful module.values)
      module.erasure calls) : module.OnlyMarkedDisappear utilities calls := by
  constructor
  · intro check holds unmarked
    have last := Erasure.holdsCheck_eraseCalls keep pending.shaped careful holds unmarked
    exact Erasure.isLive_of_holdsCheck
      ((Erasure.keepsCalls_tidy keep _).holdsCheck last fun _ _ _ => False.elim)
  · have count := Erasure.removed_eraseCalls keep pending careful
    rw [show module.erasure.removed = 0 from rfl, Nat.zero_add] at count
    exact count

theorem sample_careful :
    Erasure.EveryStep .inert sample.values (Erasure.Careful sample.values) sample.erasure
      [3] := by
  refine ⟨?_, trivial⟩
  intro function found
  have known : sample.erasure.functionOf? 3 = some sampleFunction := by decide
  rw [known] at found
  rw [← Option.some.inj found]
  refine ⟨fun report bypassable => absurd ⟨report, bypassable⟩ sample_notBypassable, ?_⟩
  intro _ other _ different erasable
  have slice : sampleFunction.collectCheckSlice sample.values 3 = ⟨[3], []⟩ := by
    decide +kernel
  cases erasable with
  | intro member inSlice kind users =>
      rw [slice] at inSlice
      exact different (List.mem_singleton.mp inSlice)

theorem sample_onlyMarkedDisappear : sample.OnlyMarkedDisappear .inert [3] :=
  onlyMarkedDisappear_of_careful sample .inert [3] CleanupUtilities.keepCalls_inert
    ⟨by decide, by decide, fun check member => List.mem_singleton.mp member ▸
      ⟨sampleFunction, by decide, sample_holdsCheck⟩⟩
    sample_careful

/-- The address of a second load comes from the result of a checked copy. -/
def copyBlock : Block where
  id := 0
  insts :=
    [⟨0, .pointer, .call { calledOperand := .other 1, args := [.other 2, .other 2, .other 3] }⟩,
     ⟨1, .integer 64, .cast .ptrToInt (.inst 0)⟩,
     ⟨2, .integer 64, .binary .add (.other 3) (.inst 1)⟩,
     ⟨3, .other 0, .call { calledOperand := .other 0, args := [.other 3] }⟩,
     ⟨4, .other 0, .call { calledOperand := .other 0, args := [.inst 2] }⟩]
  terminator := ⟨5, .other 0, .ret none⟩

def copy : Module where
  functions := [{ name := "f", blocks := [copyBlock] }]
  values :=
    { value
        | 0 => ⟨.constant (.function "__asan_load4" .notIntrinsic), .pointer⟩
        | 1 => ⟨.constant (.function "__asan_memcpy" .notIntrinsic), .pointer⟩
        | 2 => ⟨.constant .globalVariable, .pointer⟩
        | _ => ⟨.argument, .integer 64⟩
      count := 4 }
  dataLayout := ⟨64, 8⟩

/-- The copy is a recognised call, is not marked, and goes with the second load. -/
theorem copy_loses_unmarked :
    (copy.markRedundantChecks .byId {} []).markedCalls = [4] ∧
      ¬copy.OnlyMarkedDisappear .inert [4] := by
  refine ⟨by decide +kernel, ?_⟩
  intro only
  have holds : copy.erasure.HoldsCheck copy.values 0 :=
    ⟨{ name := "f", blocks := [copyBlock] }, List.mem_singleton_self _, copyBlock,
      List.mem_singleton_self _, ⟨[], .start rfl⟩,
      ⟨0, .pointer, .call { calledOperand := .other 1, args := [.other 2, .other 2, .other 3] }⟩,
      by decide, rfl, by decide +kernel, rfl⟩
  have live := only.1 0 holds (by decide)
  have gone : (copy.eraseMarkedChecks .inert [4]).isLive 0 = false := by decide +kernel
  rw [gone] at live
  cases live

end Module

end Desan
