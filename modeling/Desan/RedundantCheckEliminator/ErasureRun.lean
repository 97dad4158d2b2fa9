import Desan.CheckSliceRemover.SliceErasure
import Desan.RedundantCheckEliminator.Erasure

/-! # Runs of the erasure

What one removal loses of its function and keeps of the others, and from it what is
left after any number of removals. -/

namespace Desan

namespace Function

section Loses

variable {function : Function} {values : ValueTable} {check : InstId}

/-- The instructions a removal may take out of its function. -/
def Loses (function : Function) (values : ValueTable) (check id : InstId) : Prop :=
  (∃ report, function.Bypassable values check report ∧ id ∈ report.definitions) ∨
    function.ErasesDirectly values check ∧
      (id = check ∨ Erasable (function.eraseInst check) values
        (function.collectCheckSlice values check) id)

/-- The report block of a check that is bypassed is not the entry of its function. -/
def KeepsEntry (function : Function) (values : ValueTable) (check : InstId) : Prop :=
  ∀ report, function.Bypassable values check report → ¬function.IsEntry report.id

theorem keepsCalls_erased (direct : function.ErasesDirectly values check) :
    function.KeepsCalls (function.Loses values check)
      ((function.eraseInst check).eraseDeadSliceInstructions values
        (function.collectCheckSlice values check)).function := by
  rcases function.exists_erased values check with ⟨erased, whole, takes⟩
  rw [whole]
  apply (keepsCalls_eraseInsts erased).mono
  intro id member
  exact .inr ⟨direct, takes id member⟩

theorem keepsCalls_eraseCheckSlice (shaped : function.Shaped)
    (keepsEntry : function.KeepsEntry values check) :
    function.KeepsCalls (function.Loses values check)
      (function.eraseCheckSlice values check).function := by
  rcases eraseCheckSlice_cases shaped with bypass | direct | refused
  · rcases bypass with ⟨report, bypassable, equal⟩
    rw [equal]
    apply (bypassable.keepsCalls _ shaped (keepsEntry report bypassable)).mono
    intro id member
    exact .inl ⟨report, bypassable, member⟩
  · rw [direct.2]
    exact keepsCalls_erased direct.1
  · rw [refused.2.2]
    exact .refl _ function

theorem keepsCalls_removeCheckSlice {utilities : CleanupUtilities}
    (keep : utilities.KeepCalls) (shaped : function.Shaped)
    (keepsEntry : function.KeepsEntry values check) :
    function.KeepsCalls (function.Loses values check)
      (function.removeCheckSlice utilities values check).function := by
  have erased := keepsCalls_eraseCheckSlice shaped keepsEntry
  rw [removeCheckSlice]
  split
  · exact erased.trans ((CleanupUtilities.keepsCalls_tidy keep _).mono fun _ => False.elim)
  · exact erased

/-- A bypassed block has no recognised check but its own. -/
theorem Bypassable.eq_of_holdsCheck {report : Block} {other : InstId}
    (bypassable : function.Bypassable values check report) (shaped : function.Shaped)
    (holds : function.HoldsCheck values other) (member : other ∈ report.definitions) :
    other = check := by
  rcases holds with ⟨block, blockMember, -, inst, inside, rfl, isCheck, -⟩
  rcases List.mem_map.mp member with ⟨found, foundInside, equal⟩
  have same := shaped.inst_eq
    (mem_instructions.mpr ⟨report, bypassable.report_mem.1, foundInside⟩)
    (mem_instructions.mpr ⟨block, blockMember, inside⟩) equal
  have only := List.all_eq_true.mp bypassable.sanitizerOnly found foundInside
  rw [same] at only
  simpa [isCheck] using (Bool.and_eq_true_iff.mp only).1

theorem isSome_inst?_of_holdsCheck (holds : function.HoldsCheck values check) :
    (function.inst? check).isSome = true := by
  rcases holds with ⟨block, blockMember, -, inst, inside, rfl, -, -⟩
  rw [inst?, List.find?_isSome]
  exact ⟨inst, mem_instructions.mpr ⟨block, blockMember, inside⟩, by simp⟩

end Loses

end Function

namespace Erasure

variable {erasure : Erasure} {utilities : CleanupUtilities} {values : ValueTable}
  {check : InstId}

/-- Functions have distinct names, and no two instructions have one address. -/
structure Shaped (erasure : Erasure) : Prop where
  names : (erasure.functions.map Function.name).Nodup
  functions : ∀ function ∈ erasure.functions, function.Shaped
  apart : ∀ first ∈ erasure.functions, ∀ second ∈ erasure.functions,
    ∀ id ∈ first.instructions.map Inst.id, id ∈ second.instructions.map Inst.id →
      first.name = second.name

instance (erasure : Erasure) : Decidable erasure.Shaped :=
  decidable_of_iff
    ((erasure.functions.map Function.name).Nodup ∧
      (∀ function ∈ erasure.functions, function.Shaped) ∧
      ∀ first ∈ erasure.functions, ∀ second ∈ erasure.functions,
        ∀ id ∈ first.instructions.map Inst.id, id ∈ second.instructions.map Inst.id →
          first.name = second.name)
    ⟨fun parts => ⟨parts.1, parts.2.1, parts.2.2⟩,
      fun shaped => ⟨shaped.names, shaped.functions, shaped.apart⟩⟩

theorem Shaped.map {after : Erasure} {transform : Function → Function}
    (shaped : erasure.Shaped) (equal : after.functions = erasure.functions.map transform)
    (kept : ∀ function ∈ erasure.functions, (transform function).name = function.name ∧
      (transform function).Shaped ∧
        ∀ id ∈ (transform function).instructions.map Inst.id,
          id ∈ function.instructions.map Inst.id) : after.Shaped := by
  refine ⟨?_, ?_, ?_⟩
  · rw [equal, List.map_map]
    have same : erasure.functions.map (Function.name ∘ transform) =
        erasure.functions.map Function.name :=
      List.map_congr_left fun function member => (kept function member).1
    rw [same]
    exact shaped.names
  · rw [equal]
    intro function member
    rcases List.mem_map.mp member with ⟨original, inside, rfl⟩
    exact (kept original inside).2.1
  · rw [equal]
    intro first firstMember second secondMember id inFirst inSecond
    rcases List.mem_map.mp firstMember with ⟨left, leftMember, rfl⟩
    rcases List.mem_map.mp secondMember with ⟨right, rightMember, rfl⟩
    rw [(kept left leftMember).1, (kept right rightMember).1]
    exact shaped.apart left leftMember right rightMember id
      ((kept left leftMember).2.2 id inFirst) ((kept right rightMember).2.2 id inSecond)

def HoldsCheck (erasure : Erasure) (values : ValueTable) (check : InstId) : Prop :=
  ∃ function ∈ erasure.functions, function.HoldsCheck values check

/-- Every function keeps its calls, but for those the function itself may lose. -/
def KeepsCalls (lost : Function → InstId → Prop) (before after : Erasure) : Prop :=
  ∃ transform : Function → Function, after.functions = before.functions.map transform ∧
    ∀ function ∈ before.functions, function.KeepsCalls (lost function) (transform function)

theorem KeepsCalls.shaped {lost : Function → InstId → Prop} {before after : Erasure}
    (keeps : before.KeepsCalls lost after) (shaped : before.Shaped) :
    after.Shaped := by
  rcases keeps with ⟨transform, equal, kept⟩
  apply shaped.map equal
  intro function member
  exact ⟨(kept function member).name,
    (kept function member).shaped (shaped.functions function member),
    (kept function member).old⟩

theorem KeepsCalls.holdsCheck {lost : Function → InstId → Prop} {before after : Erasure}
    (keeps : before.KeepsCalls lost after) (holds : before.HoldsCheck values check)
    (kept : ∀ function ∈ before.functions, function.HoldsCheck values check →
      ¬lost function check) : after.HoldsCheck values check := by
  rcases keeps with ⟨transform, equal, functionKept⟩
  rcases holds with ⟨function, member, inside⟩
  refine ⟨transform function, ?_, ?_⟩
  · rw [equal]
    exact List.mem_map_of_mem member
  · exact (functionKept function member).holdsCheck inside (kept function member inside)

theorem Shaped.function_eq (shaped : erasure.Shaped) {first second : Function}
    (firstMember : first ∈ erasure.functions) (secondMember : second ∈ erasure.functions)
    (equal : first.name = second.name) : first = second :=
  List.inj_on_of_nodup_map shaped.names firstMember secondMember equal

theorem mem_of_functionOf? {function : Function}
    (found : erasure.functionOf? check = some function) :
    function ∈ erasure.functions ∧ (function.inst? check).isSome = true := by
  rw [functionOf?] at found
  exact ⟨List.mem_of_find?_eq_some found, by simpa using List.find?_some found⟩

theorem isLive_of_holdsCheck (holds : erasure.HoldsCheck values check) :
    erasure.isLive check = true := by
  rcases holds with ⟨function, member, inside⟩
  rw [isLive, functionOf?, List.find?_isSome]
  exact ⟨function, member, Function.isSome_inst?_of_holdsCheck inside⟩

@[simp] theorem functions_touch (erasure : Erasure) (name : String) :
    (erasure.touch name).functions = erasure.functions := by
  rw [touch]
  split <;> rfl

/-- One removal changes the function of its check, and cleans up the others. -/
theorem functions_removeCheckSlice {function : Function}
    (found : erasure.functionOf? check = some function)
    (name : (function.removeCheckSlice utilities values check).function.name =
      function.name) :
    ∃ cleans : Function → Bool,
      (erasure.removeCheckSlice utilities values check).functions =
        erasure.functions.map fun candidate =>
          if candidate.name = function.name then
            (function.removeCheckSlice utilities values check).function
          else if cleans candidate then utilities.tidy candidate
          else candidate := by
  simp only [removeCheckSlice, found]
  split
  · refine ⟨fun candidate => candidate.name ∈
      (Erasure.touch { erasure with looks := erasure.looks ++ [⟨check, erasure.isLive check⟩] }
        function.name).touchedFunctions, ?_⟩
    simp only [tidyTouched, setFunction, functions_touch, List.map_map]
    apply List.map_congr_left
    intro candidate _
    rw [Function.comp_apply, name]
    by_cases same : candidate.name = function.name
    · simp [same, name]
    · simp [same]
  · refine ⟨fun _ => false, ?_⟩
    simp [setFunction, name]

theorem keepsCalls_removeCheckSlice (keep : utilities.KeepCalls)
    (shaped : erasure.Shaped)
    (keepsEntry : ∀ function, erasure.functionOf? check = some function →
      function.KeepsEntry values check) :
    erasure.KeepsCalls
      (fun function id => erasure.functionOf? check = some function ∧
        function.Loses values check id)
      (erasure.removeCheckSlice utilities values check) := by
  cases found : erasure.functionOf? check with
  | none =>
      refine ⟨id, ?_, fun function _ => .refl _ function⟩
      simp [removeCheckSlice, found]
  | some function =>
      rcases mem_of_functionOf? found with ⟨member, -⟩
      have keeps := Function.keepsCalls_removeCheckSlice keep
        (shaped.functions function member) (keepsEntry function found)
      rcases functions_removeCheckSlice found keeps.name with ⟨cleans, equal⟩
      refine ⟨_, equal, ?_⟩
      intro candidate candidateMember
      simp only
      split
      · rename_i same
        have equal := shaped.function_eq candidateMember member same
        rw [equal]
        exact keeps.mono fun id lost => ⟨rfl, lost⟩
      · split
        · exact (CleanupUtilities.keepsCalls_tidy keep candidate).mono fun _ => False.elim
        · exact .refl _ candidate

theorem keepsCalls_tidy (keep : utilities.KeepCalls) (erasure : Erasure) :
    erasure.KeepsCalls (fun _ _ => False) (erasure.tidy utilities) := by
  refine ⟨_, rfl, ?_⟩
  intro function _
  split
  · exact CleanupUtilities.keepsCalls_tidy keep function
  · exact .refl _ function

/-! ## Runs -/

/-- The condition holds of the function of every call when its turn has come. -/
def EveryStep (utilities : CleanupUtilities) (values : ValueTable)
    (condition : Function → InstId → Prop) : Erasure → List InstId → Prop
  | _, [] => True
  | erasure, check :: rest =>
      (∀ function, erasure.functionOf? check = some function → condition function check) ∧
        EveryStep utilities values condition
          (erasure.removeCheckSlice utilities values check) rest

end Erasure

namespace Function

/-- A direct erasure spares the recognised checks of the slice: each of them has a
user that stays. -/
def SparesChecks (function : Function) (values : ValueTable) (check : InstId) : Prop :=
  function.ErasesDirectly values check → ∀ other, function.HoldsCheck values other →
    other ≠ check → ¬Erasable (function.eraseInst check) values
      (function.collectCheckSlice values check) other

theorem not_loses {function : Function} {values : ValueTable} {check other : InstId}
    (shaped : function.Shaped) (spares : function.SparesChecks values check)
    (holds : function.HoldsCheck values other) (different : other ≠ check) :
    ¬function.Loses values check other := by
  intro loses
  rcases loses with ⟨report, bypassable, member⟩ | ⟨direct, same | erasable⟩
  · exact different (bypassable.eq_of_holdsCheck shaped holds member)
  · exact different same
  · exact spares direct other holds different erasable

end Function

namespace Erasure

variable {erasure : Erasure} {utilities : CleanupUtilities} {values : ValueTable}

/-- What a removal needs so that it takes no other recognised check with it. -/
def Careful (values : ValueTable) (function : Function) (check : InstId) : Prop :=
  function.KeepsEntry values check ∧ function.SparesChecks values check

theorem holdsCheck_removeCheckSlice {check other : InstId} (keep : utilities.KeepCalls)
    (shaped : erasure.Shaped)
    (careful : ∀ function, erasure.functionOf? check = some function →
      Careful values function check)
    (holds : erasure.HoldsCheck values other) (different : other ≠ check) :
    (erasure.removeCheckSlice utilities values check).HoldsCheck values other := by
  have keeps := keepsCalls_removeCheckSlice keep shaped fun function found =>
    (careful function found).1
  apply keeps.holdsCheck holds
  intro function member inside lost
  exact Function.not_loses (shaped.functions function member)
    (careful function lost.1).2 inside different lost.2

theorem shaped_removeCheckSlice {check : InstId} (keep : utilities.KeepCalls)
    (shaped : erasure.Shaped)
    (careful : ∀ function, erasure.functionOf? check = some function →
      Careful values function check) :
    (erasure.removeCheckSlice utilities values check).Shaped :=
  (keepsCalls_removeCheckSlice keep shaped fun function found =>
    (careful function found).1).shaped shaped

/-- A check that is not among the calls survives a careful run. -/
theorem holdsCheck_eraseCalls {calls : List InstId} {other : InstId}
    (keep : utilities.KeepCalls) (shaped : erasure.Shaped)
    (careful : EveryStep utilities values (Careful values) erasure calls)
    (holds : erasure.HoldsCheck values other) (unmarked : other ∉ calls) :
    (erasure.eraseCalls utilities values calls).HoldsCheck values other := by
  induction calls generalizing erasure with
  | nil => exact holds
  | cons check rest induction =>
      have different : other ≠ check := fun equal =>
        unmarked (equal ▸ List.mem_cons_self ..)
      have inRest : other ∉ rest := fun member =>
        unmarked (List.mem_cons_of_mem _ member)
      exact induction (shaped_removeCheckSlice keep shaped careful.1) careful.2
        (holdsCheck_removeCheckSlice keep shaped careful.1 holds different) inRest

/-- Calls that are yet to be removed: each once, and each a check that control can
reach. -/
structure Pending (erasure : Erasure) (values : ValueTable) (calls : List InstId) : Prop where
  shaped : erasure.Shaped
  nodup : calls.Nodup
  held : ∀ check ∈ calls, erasure.HoldsCheck values check

theorem Pending.step {check : InstId} {rest : List InstId}
    (pending : erasure.Pending values (check :: rest)) (keep : utilities.KeepCalls)
    (careful : ∀ function, erasure.functionOf? check = some function →
      Careful values function check) :
    (erasure.removeCheckSlice utilities values check).Pending values rest where
  shaped := shaped_removeCheckSlice keep pending.shaped careful
  nodup := (List.nodup_cons.mp pending.nodup).2
  held := by
    intro other inRest
    apply holdsCheck_removeCheckSlice keep pending.shaped careful
      (pending.held other (List.mem_cons_of_mem _ inRest))
    intro equal
    exact (List.nodup_cons.mp pending.nodup).1 (equal ▸ inRest)

end Erasure

end Desan
