import Desan.RedundantCheckEliminator.Candidates

/-! # The order of the marked calls

The marked calls come in the order of a set of pointers. What becomes of a function
depends on the order of its own calls: a removal may take the ground for the bypass of
another block from under it. How the calls of different functions are mixed makes no
difference where the clean-ups leave nothing for one another to do. -/

namespace Desan

namespace Function

variable {function : Function} {utilities : CleanupUtilities} {values : ValueTable}

/-- What becomes of one function when the given calls are removed in order. -/
def removeCalls (function : Function) (utilities : CleanupUtilities) (values : ValueTable)
    (calls : List InstId) : Function :=
  calls.foldl (fun function check =>
    (function.removeCheckSlice utilities values check).function) function

/-- Whenever the turn of a call of the function is over, another clean-up of the function
would change nothing. -/
def SettledRun (utilities : CleanupUtilities) (values : ValueTable) :
    Function → List InstId → Prop
  | _, [] => True
  | function, check :: rest =>
      (check ∈ function.ids →
        utilities.tidy (function.removeCheckSlice utilities values check).function =
          (function.removeCheckSlice utilities values check).function) ∧
        SettledRun utilities values
          (function.removeCheckSlice utilities values check).function rest

/-- Utilities that find nothing to clean up settle every run. -/
theorem settledRun_of_tidy (stays : ∀ function : Function, utilities.tidy function = function)
    (function : Function) (calls : List InstId) :
    SettledRun utilities values function calls := by
  induction calls generalizing function with
  | nil => trivial
  | cons check rest induction => exact ⟨fun _ => stays _, induction _⟩

theorem tidy_inert (function : Function) : CleanupUtilities.inert.tidy function = function := by
  apply @CleanupUtilities.tidy_of_steps .inert fun before after => after = before
  · exact fun _ => rfl
  · exact fun left right => right.trans left
  · exact fun _ => rfl
  · exact fun _ => rfl
  · intro before merged block _ isMerged
    cases isMerged

/-- A call that is not in the function leaves it as it is. -/
theorem function_of_absent {check : InstId} (absent : check ∉ function.ids) :
    (function.removeCheckSlice utilities values check).function = function := by
  have noInst : function.inst? check = none := inst?_eq_none.mpr absent
  have noParent : function.parent? check = none := by
    cases found : function.parent? check with
    | none => rfl
    | some block =>
        exfalso
        rw [parent?] at found
        have member := List.mem_of_find?_eq_some found
        have defined : check ∈ block.definitions := by
          simpa using List.find?_some found
        exact absent (mem_ids_of_definition member defined)
  have refused : function.eraseCheckSlice values check = ⟨function, [], false⟩ := by
    rw [eraseCheckSlice]
    simp only [bypassReportBlock, noParent, eraseDirectCheckCall, noInst, Option.map_none]
    rfl
  rw [removeCheckSlice, refused]
  rfl

/-- A removal with its clean-up keeps the name and adds no instruction. -/
theorem old_removeCheckSlice (values : ValueTable) (keep : utilities.KeepCalls)
    (shaped : function.Shaped) (check : InstId) :
    (function.removeCheckSlice utilities values check).function.name = function.name ∧
      (function.removeCheckSlice utilities values check).function.Shaped ∧
        ∀ id ∈ (function.removeCheckSlice utilities values check).function.ids,
          id ∈ function.ids := by
  have erased : (function.eraseCheckSlice values check).function.name = function.name ∧
      (function.eraseCheckSlice values check).function.Shaped ∧
        ∀ id ∈ (function.eraseCheckSlice values check).function.ids, id ∈ function.ids :=
    old_eraseCheckSlice shaped
  rw [removeCheckSlice]
  split
  · have tidied := CleanupUtilities.keepsCalls_tidy keep
      (function.eraseCheckSlice values check).function
    refine ⟨tidied.name.trans erased.1, tidied.shaped erased.2.1, ?_⟩
    intro id member
    exact erased.2.2 id (tidied.old id member)
  · exact erased

/-- Calls of other functions make no difference. -/
theorem removeCalls_filter (values : ValueTable) (keep : utilities.KeepCalls)
    (shaped : function.Shaped) {own : List InstId} (subset : ∀ id ∈ function.ids, id ∈ own) (calls : List InstId) :
    function.removeCalls utilities values (calls.filter fun check => check ∈ own) =
        function.removeCalls utilities values calls ∧
      (SettledRun utilities values function (calls.filter fun check => check ∈ own) ↔
        SettledRun utilities values function calls) := by
  induction calls generalizing function with
  | nil => exact ⟨rfl, Iff.rfl⟩
  | cons check rest induction =>
      have kept := old_removeCheckSlice values keep shaped check
      by_cases isOwn : check ∈ own
      · have next := induction kept.2.1 fun id member => subset id (kept.2.2 id member)
        rw [List.filter_cons_of_pos (by simpa using isOwn)]
        refine ⟨next.1, ?_⟩
        rw [SettledRun, SettledRun, next.2]
      · have absent : check ∉ function.ids := fun member => isOwn (subset check member)
        have next := induction shaped subset
        rw [List.filter_cons_of_neg (by simpa using isOwn), SettledRun]
        constructor
        · rw [next.1, removeCalls, removeCalls, List.foldl_cons, function_of_absent absent]
        · rw [next.2, function_of_absent absent]
          exact ⟨fun run => ⟨fun member => absurd member absent, run⟩, And.right⟩

end Function

namespace Erasure

variable {erasure : Erasure} {utilities : CleanupUtilities} {values : ValueTable}

/-- Another clean-up of a touched function would change nothing. -/
def Settled (utilities : CleanupUtilities) (erasure : Erasure) : Prop :=
  ∀ function ∈ erasure.functions, function.name ∈ erasure.touchedFunctions →
    utilities.tidy function = function

theorem mem_touch {name other : String} :
    other ∈ (erasure.touch name).touchedFunctions ↔
      other = name ∨ other ∈ erasure.touchedFunctions := by
  rw [touch]
  split
  · rename_i known
    constructor
    · exact .inr
    · intro either
      rcases either with rfl | old
      · exact known
      · exact old
  · rw [List.mem_append, List.mem_singleton]
    exact or_comm

/-- The function of a call, and no other function, has the call. -/
theorem mem_ids_iff_of_functionOf? (shaped : erasure.Shaped) {check : InstId}
    {function : Function} (found : erasure.functionOf? check = some function)
    {candidate : Function} (member : candidate ∈ erasure.functions) :
    check ∈ candidate.ids ↔ candidate.name = function.name := by
  rcases mem_of_functionOf? found with ⟨functionMember, present⟩
  have inside : check ∈ function.ids := Function.inst?_isSome.mp present
  constructor
  · intro isIn
    exact shaped.apart candidate member function functionMember check isIn inside
  · intro same
    rw [shaped.function_eq member functionMember same]
    exact inside

theorem absent_of_functionOf? {check : InstId} (notFound : erasure.functionOf? check = none)
    {candidate : Function} (member : candidate ∈ erasure.functions) :
    check ∉ candidate.ids := by
  intro inside
  have none' := List.find?_eq_none.mp notFound candidate member
  exact none' (Function.inst?_isSome.mpr inside)

/-- Where another clean-up of the touched functions changes nothing, a removal changes the
function of its call only. -/
theorem functions_removeCheckSlice_of_settled (keep : utilities.KeepCalls)
    (shaped : erasure.Shaped) (settled : erasure.Settled utilities) (check : InstId) :
    (erasure.removeCheckSlice utilities values check).functions =
      erasure.functions.map fun function =>
        (function.removeCheckSlice utilities values check).function := by
  cases found : erasure.functionOf? check with
  | none =>
      have same : (erasure.removeCheckSlice utilities values check).functions =
          erasure.functions := by
        rw [removeCheckSlice]
        simp only [found]
      have stays : erasure.functions.map (fun function =>
          (function.removeCheckSlice utilities values check).function) =
            erasure.functions.map id := by
        apply List.map_congr_left
        intro candidate member
        exact Function.function_of_absent (absent_of_functionOf? found member)
      rw [same, stays, List.map_id]
  | some function =>
      rcases mem_of_functionOf? found with ⟨functionMember, -⟩
      have name := (Function.old_removeCheckSlice values keep
        (shaped.functions function functionMember) check).1
      have own : ∀ candidate ∈ erasure.functions,
          (if candidate.name = function.name then
            (function.removeCheckSlice utilities values check).function else candidate) =
          (candidate.removeCheckSlice utilities values check).function := by
        intro candidate member
        split
        · rename_i same
          rw [shaped.function_eq member functionMember same]
        · rename_i different
          exact (Function.function_of_absent fun inside =>
            different ((mem_ids_iff_of_functionOf? shaped found member).mp inside)).symm
      simp only [removeCheckSlice, found]
      split
      · simp only [tidyTouched, setFunction, functions_touch, List.map_map]
        apply List.map_congr_left
        intro candidate member
        rw [← own candidate member, Function.comp_apply, name]
        by_cases same : candidate.name = function.name
        · simp [same, name]
        · rw [if_neg same]
          split
          · rename_i touched
            rcases mem_touch.mp touched.1 with isOwn | earlier
            · exact absurd isOwn same
            · exact settled candidate member earlier
          · rfl
      · simp only [setFunction, functions_touch, name]
        exact List.map_congr_left own

theorem settled_removeCheckSlice (values : ValueTable) (keep : utilities.KeepCalls)
    (shaped : erasure.Shaped) (settled : erasure.Settled utilities) {check : InstId}
    (clean : ∀ function ∈ erasure.functions, check ∈ function.ids →
      utilities.tidy (function.removeCheckSlice utilities values check).function =
        (function.removeCheckSlice utilities values check).function) :
    (erasure.removeCheckSlice utilities values check).Settled utilities := by
  have touches : ∀ name ∈ (erasure.removeCheckSlice utilities values check).touchedFunctions,
      name ∈ erasure.touchedFunctions ∨
        ∃ function, erasure.functionOf? check = some function ∧ name = function.name := by
    intro name touched
    cases found : erasure.functionOf? check with
    | none =>
        rw [removeCheckSlice] at touched
        simp only [found] at touched
        exact .inl touched
    | some function =>
        have either : name = function.name ∨ name ∈ erasure.touchedFunctions := by
          rw [removeCheckSlice] at touched
          simp only [found] at touched
          have looked : name ∈ (Erasure.touch { erasure with
              looks := erasure.looks ++ [⟨check, erasure.isLive check⟩] }
                function.name).touchedFunctions := by
            split at touched
            · exact touched
            · exact touched
          rcases mem_touch.mp looked with isOwn | earlier
          · exact .inl isOwn
          · exact .inr earlier
        rcases either with isOwn | earlier
        · exact .inr ⟨function, rfl, isOwn⟩
        · exact .inl earlier
  intro after member touched
  rw [functions_removeCheckSlice_of_settled keep shaped settled] at member
  rcases List.mem_map.mp member with ⟨function, functionMember, rfl⟩
  by_cases inside : check ∈ function.ids
  · exact clean function functionMember inside
  · rw [Function.function_of_absent inside] at touched ⊢
    rcases touches _ touched with earlier | own
    · exact settled function functionMember earlier
    · rcases own with ⟨other, found, same⟩
      exact absurd ((mem_ids_iff_of_functionOf? shaped found functionMember).mpr same) inside

/-- Every function goes its own way. -/
theorem functions_eraseCalls (keep : utilities.KeepCalls) (shaped : erasure.Shaped)
    (settled : erasure.Settled utilities) (calls : List InstId)
    (runs : ∀ function ∈ erasure.functions,
      Function.SettledRun utilities values function calls) :
    (erasure.eraseCalls utilities values calls).functions =
        erasure.functions.map (fun function => function.removeCalls utilities values calls) ∧
      (erasure.eraseCalls utilities values calls).Settled utilities := by
  induction calls generalizing erasure with
  | nil => exact ⟨(List.map_id _).symm, settled⟩
  | cons check rest induction =>
      have step : (erasure.removeCheckSlice utilities values check).functions = _ :=
        functions_removeCheckSlice_of_settled keep shaped settled check
      have next : (erasure.removeCheckSlice utilities values check).Shaped := by
        apply shaped.map step
        intro function member
        exact Function.old_removeCheckSlice values keep (shaped.functions function member) check
      have still := settled_removeCheckSlice values keep shaped settled
        fun function member => (runs function member).1
      have later : ∀ function ∈ (erasure.removeCheckSlice utilities values check).functions,
          Function.SettledRun utilities values function rest := by
        rw [step]
        intro after member
        rcases List.mem_map.mp member with ⟨function, functionMember, rfl⟩
        exact (runs function functionMember).2
      rcases induction next still later with ⟨functions, done⟩
      refine ⟨?_, done⟩
      have whole : (erasure.eraseCalls utilities values (check :: rest)).functions =
          ((erasure.removeCheckSlice utilities values check).eraseCalls utilities values
            rest).functions := rfl
      rw [whole, functions, step, List.map_map]
      rfl

/-- The last clean-up changes nothing. -/
theorem functions_tidy_of_settled (settled : erasure.Settled utilities) :
    (erasure.tidy utilities).functions = erasure.functions := by
  have stays : erasure.functions.map (fun function =>
      if function.name ∈ erasure.touchedFunctions then utilities.tidy function
      else function) = erasure.functions.map id := by
    apply List.map_congr_left
    intro function member
    split
    · rename_i touched
      exact settled function member touched
    · rfl
  rw [List.map_id] at stays
  exact stays

end Erasure

namespace Module

/-- Orders that list the calls of every function alike leave the same module. -/
theorem functions_eraseMarkedChecks_of_filter (module : Module) (utilities : CleanupUtilities)
    (keep : utilities.KeepCalls) (shaped : module.erasure.Shaped) {first second : List InstId}
    (alike : ∀ function ∈ module.functions,
      (first.filter fun check => check ∈ function.ids) =
        second.filter fun check => check ∈ function.ids)
    (runs : ∀ function ∈ module.functions,
      Function.SettledRun utilities module.values function first) :
    (module.eraseMarkedChecks utilities first).functions =
      (module.eraseMarkedChecks utilities second).functions := by
  have untouched : module.erasure.Settled utilities :=
    fun _ _ touched => absurd touched List.not_mem_nil
  have other : ∀ function ∈ module.functions,
      function.removeCalls utilities module.values second =
          function.removeCalls utilities module.values first ∧
        Function.SettledRun utilities module.values function second := by
    intro function member
    have subset : ∀ id ∈ function.ids, id ∈ function.ids := fun _ inside => inside
    have own := shaped.functions function member
    have onFirst := Function.removeCalls_filter module.values keep own subset first
    have onSecond := Function.removeCalls_filter module.values keep own subset second
    rw [alike function member] at onFirst
    exact ⟨onSecond.1.symm.trans onFirst.1,
      onSecond.2.mp (onFirst.2.mpr (runs function member))⟩
  have left := Erasure.functions_eraseCalls keep shaped untouched first runs
  have right := Erasure.functions_eraseCalls keep shaped untouched second
    fun function member => (other function member).2
  rw [eraseMarkedChecks, eraseMarkedChecks, Erasure.functions_tidy_of_settled left.2,
    Erasure.functions_tidy_of_settled right.2, left.1, right.1]
  apply List.map_congr_left
  intro function member
  exact (other function member).1.symm

/-! ## A sample

Two functions that load the same global twice, and one function in which the order of its
own calls decides. -/

def loadTwice (name : String) (first second terminator : InstId) : Function where
  name := name
  blocks :=
    [{ id := 0
       insts := [sampleCall first 0 2, sampleCall second 0 2]
       terminator := ⟨terminator, .other 0, .ret none⟩ }]

def twoReaders : Module where
  functions := [loadTwice "f" 0 1 2, loadTwice "g" 3 4 5]
  values := sampleValues
  dataLayout := ⟨64, 8⟩

theorem twoReaders_orders_agree :
    (twoReaders.eraseMarkedChecks .inert [1, 4]).functions =
      (twoReaders.eraseMarkedChecks .inert [4, 1]).functions := by
  apply functions_eraseMarkedChecks_of_filter twoReaders .inert
    CleanupUtilities.keepCalls_inert (by decide) (by decide)
  intro function _
  exact Function.settledRun_of_tidy (fun _ => Function.tidy_inert _) function [1, 4]

/-- The first check leads to the second one, and both may leave for a block of the
program. -/
def branchingReader : Function where
  name := "f"
  blocks :=
    [{ id := 0, insts := [sampleCall 0 0 3]
       terminator := ⟨10, .other 0, .condBr (.other 4) 1 4⟩ },
     { id := 1, insts := [⟨20, .other 0, .store (.other 3) (.other 2)⟩]
       terminator := ⟨11, .other 0, .condBr (.other 5) 2 3⟩ },
     { id := 2, insts := [sampleCall 1 0 3], terminator := ⟨12, .other 0, .br 3⟩ },
     { id := 3, insts := [sampleCall 2 0 3], terminator := ⟨13, .other 0, .br 5⟩ },
     { id := 4, insts := [⟨21, .other 0, .store (.other 3) (.other 2)⟩]
       terminator := ⟨14, .other 0, .condBr (.other 6) 3 5⟩ },
     { id := 5, insts := [], terminator := ⟨15, .other 0, .ret none⟩ }]

def branching : Module where
  functions := [branchingReader]
  values := sampleValues
  dataLayout := ⟨64, 8⟩

/-- After the block of the first call the block of the second one is bypassed. -/
theorem branching_orders_differ :
    (branching.markRedundantChecks .byId {} []).markedCalls = [1, 2] ∧
      (branching.eraseMarkedChecks .inert [1, 2]).functions ≠
        (branching.eraseMarkedChecks .inert [2, 1]).functions := by
  decide +kernel

end Module

end Desan
