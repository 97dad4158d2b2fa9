import Desan.RedundantCheckEliminator.WholeErasure

/-! # A run that removes nothing

The count of a run goes up with every removal that answers true. Where it stays, every call
was refused or gone, and the clean-up of the touched functions is all that was done. -/

namespace Desan

namespace Erasure

variable {erasure : Erasure} {utilities : CleanupUtilities} {values : ValueTable}
  {check : InstId}

theorem removed_le_removeCheckSlice (erasure : Erasure) (check : InstId) :
    erasure.removed ≤ (erasure.removeCheckSlice utilities values check).removed := by
  cases found : erasure.functionOf? check with
  | none => simp only [removeCheckSlice, found, le_refl]
  | some function =>
      rw [removed_removeCheckSlice found]
      split
      · exact Nat.le_succ _
      · exact le_refl _

theorem removed_le_eraseCalls (erasure : Erasure) (calls : List InstId) :
    erasure.removed ≤ (erasure.eraseCalls utilities values calls).removed := by
  induction calls generalizing erasure with
  | nil => exact le_refl _
  | cons check rest induction =>
      exact (removed_le_removeCheckSlice erasure check).trans (induction _)

/-- A removal touches the function that holds the call. -/
theorem mem_touched_removeCheckSlice (shaped : erasure.Shaped) {name : String} :
    name ∈ (erasure.removeCheckSlice utilities values check).touchedFunctions ↔
      name ∈ erasure.touchedFunctions ∨
        ∃ function ∈ erasure.functions, check ∈ function.ids ∧ function.name = name := by
  cases found : erasure.functionOf? check with
  | none =>
      simp only [removeCheckSlice, found]
      constructor
      · exact .inl
      · intro either
        rcases either with old | ⟨function, member, inside, -⟩
        · exact old
        · have absent := List.find?_eq_none.mp found function member
          exact absurd (Function.inst?_isSome.mpr inside) absent
  | some function =>
      have touched : (erasure.removeCheckSlice utilities values check).touchedFunctions =
          (erasure.touch function.name).touchedFunctions := by
        simp only [removeCheckSlice, found, tidyTouched, setFunction, touch]
        split <;> split <;> rfl
      rcases mem_of_functionOf? found with ⟨member, present⟩
      rw [touched, mem_touch, or_comm]
      apply or_congr_right
      constructor
      · intro isName
        exact ⟨function, member, Function.inst?_isSome.mp present, isName.symm⟩
      · intro holder
        rcases holder with ⟨other, otherMember, inside, rfl⟩
        exact (mem_ids_iff_of_functionOf? shaped found otherMember).mp inside

/-- A removal that does not count has left the functions alone. -/
theorem functions_of_uncounted (shaped : erasure.Shaped)
    (uncounted : (erasure.removeCheckSlice utilities values check).removed = erasure.removed) :
    (erasure.removeCheckSlice utilities values check).functions = erasure.functions := by
  cases found : erasure.functionOf? check with
  | none => simp only [removeCheckSlice, found]
  | some function =>
      have refused : (function.removeCheckSlice utilities values check).removed = false := by
        rw [removed_removeCheckSlice found] at uncounted
        by_contra removed
        rw [Bool.not_eq_false] at removed
        rw [if_pos removed] at uncounted
        exact Nat.succ_ne_self _ uncounted
      exact functions_of_refused shaped found refused

/-- A whole run that does not count. -/
theorem functions_of_uncountedCalls {calls : List InstId} (shaped : erasure.Shaped)
    (uncounted : (erasure.eraseCalls utilities values calls).removed = erasure.removed) :
    (erasure.eraseCalls utilities values calls).functions = erasure.functions ∧
      ∀ name, name ∈ (erasure.eraseCalls utilities values calls).touchedFunctions ↔
        name ∈ erasure.touchedFunctions ∨
          ∃ check ∈ calls, ∃ function ∈ erasure.functions,
            check ∈ function.ids ∧ function.name = name := by
  induction calls generalizing erasure with
  | nil => exact ⟨rfl, fun name => by simp [eraseCalls]⟩
  | cons check rest induction =>
      let next := erasure.removeCheckSlice utilities values check
      have early : next.removed = erasure.removed :=
        le_antisymm ((removed_le_eraseCalls next rest).trans uncounted.le)
          (removed_le_removeCheckSlice erasure check)
      have step := functions_of_uncounted shaped early
      have nextShaped : next.Shaped := by
        refine ⟨?_, ?_, ?_⟩
        · rw [step]
          exact shaped.names
        · rw [step]
          exact shaped.functions
        · rw [step]
          exact shaped.apart
      have later := induction nextShaped (uncounted.trans early.symm)
      refine ⟨later.1.trans step, ?_⟩
      intro name
      rw [show (erasure.eraseCalls utilities values (check :: rest)).touchedFunctions =
        (next.eraseCalls utilities values rest).touchedFunctions from rfl, later.2, step,
        mem_touched_removeCheckSlice shaped, or_assoc, List.exists_mem_cons_iff]

/-- What a run has erased stays erased. -/
theorem isLive_of_run {calls : List InstId} (keep : utilities.KeepCalls)
    (shaped : erasure.Shaped)
    (live : (erasure.eraseCalls utilities values calls).isLive check = true) :
    erasure.isLive check = true := by
  induction calls generalizing erasure with
  | nil => exact live
  | cons first rest induction =>
      exact isLive_of_removal keep shaped
        (induction (shaped_of_removal values keep shaped first) live)

/-- A run that counts has erased a call that it still found. -/
theorem exists_gone_of_counted {calls : List InstId} (keep : utilities.KeepCalls)
    (shaped : erasure.Shaped)
    (counted : (erasure.eraseCalls utilities values calls).removed ≠ erasure.removed) :
    ∃ check ∈ calls, erasure.isLive check = true ∧
      (erasure.eraseCalls utilities values calls).isLive check = false := by
  induction calls generalizing erasure with
  | nil => exact absurd rfl counted
  | cons check rest induction =>
      let next := erasure.removeCheckSlice utilities values check
      have nextShaped : next.Shaped := shaped_of_removal values keep shaped check
      by_cases early : next.removed = erasure.removed
      · have later : (next.eraseCalls utilities values rest).removed ≠ next.removed :=
          fun same => counted (same.trans early)
        rcases induction nextShaped later with ⟨gone, member, live, dead⟩
        exact ⟨gone, List.mem_cons_of_mem _ member, isLive_of_removal keep shaped live, dead⟩
      · cases found : erasure.functionOf? check with
        | none =>
            have still : next.removed = erasure.removed := by
              simp only [next, removeCheckSlice, found]
            exact absurd still early
        | some function =>
            have removed : (function.removeCheckSlice utilities values check).removed = true := by
              by_contra refused
              have still : next.removed = erasure.removed := by
                rw [removed_removeCheckSlice found, if_neg refused]
              exact early still
            have gone := not_isLive_of_removed keep.addNothing shaped found removed
            refine ⟨check, List.mem_cons_self .., ?_, ?_⟩
            · rw [isLive, found]
              rfl
            · rw [← Bool.not_eq_true]
              intro live
              have back := isLive_of_run keep nextShaped live
              rw [gone] at back
              cases back

end Erasure

namespace Module

variable {utilities : CleanupUtilities} {calls : List InstId}

theorem functions_eraseMarkedChecks_of_uncounted (module : Module)
    (shaped : module.erasure.Shaped)
    (uncounted : (module.eraseMarkedChecks utilities calls).removed = 0) :
    (module.eraseMarkedChecks utilities calls).functions =
      module.functions.map fun function =>
        if ∃ check ∈ calls, check ∈ function.ids then utilities.tidy function else function := by
  rcases Erasure.functions_of_uncountedCalls shaped uncounted with ⟨same, touched⟩
  rw [eraseMarkedChecks, Erasure.tidy, same]
  apply List.map_congr_left
  intro function member
  have holder : function.name ∈ (module.erasure.eraseCalls utilities module.values
      calls).touchedFunctions ↔ ∃ check ∈ calls, check ∈ function.ids := by
    rw [touched]
    constructor
    · intro either
      rcases either with none | ⟨check, marked, other, otherMember, inside, sameName⟩
      · exact absurd none List.not_mem_nil
      · rw [shaped.function_eq otherMember member sameName] at inside
        exact ⟨check, marked, inside⟩
    · intro held
      rcases held with ⟨check, marked, inside⟩
      exact .inr ⟨check, marked, function, member, inside, rfl⟩
  by_cases held : ∃ check ∈ calls, check ∈ function.ids
  · rw [if_pos held, if_pos (holder.mpr held)]
  · rw [if_neg held, if_neg fun inside => held (holder.mp inside)]

theorem exists_erased_of_counted (module : Module) (keep : utilities.KeepCalls)
    (shaped : module.erasure.Shaped)
    (counted : (module.eraseMarkedChecks utilities calls).removed ≠ 0) :
    ∃ check ∈ calls, module.erasure.isLive check = true ∧
      (module.eraseMarkedChecks utilities calls).isLive check = false := by
  rcases Erasure.exists_gone_of_counted keep shaped counted with ⟨check, member, live, gone⟩
  refine ⟨check, member, live, ?_⟩
  rw [← Bool.not_eq_true]
  intro back
  have before := (Erasure.keepsCalls_tidy keep _).isLive back
  rw [gone] at before
  cases before

end Module

end Desan
