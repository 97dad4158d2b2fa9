import Desan.CheckSliceRemover.Spared
import Desan.RedundantCheckEliminator.MarkedOnly

/-! # The recorded candidates

A candidate forgets its check and its address, but keeps the base and the offsets it is
printed with. They are values of the module, and the erasure may take them with it. -/

namespace Desan

/-- The values a checked variable is printed with, the address aside. -/
def CheckedVariable.printedValues (checked : CheckedVariable) : List Value :=
  checked.base.toList ++ checked.offsets

namespace Erasure

variable {erasure : Erasure} {utilities : CleanupUtilities} {values : ValueTable}
  {check id : InstId}

/-- The value is still there: only instructions are ever deleted. -/
def HoldsValue (erasure : Erasure) (value : Value) : Prop :=
  ∀ id, value = .inst id → erasure.isLive id = true

/-- Everything the candidates are printed with is still there. -/
def Prints (erasure : Erasure) (marks : Marks) : Prop :=
  ∀ candidate ∈ marks.removalCandidates, ∀ value ∈ candidate.checked.printedValues,
    erasure.HoldsValue value

/-- Some function needs the instruction. -/
def Needs (erasure : Erasure) (id : InstId) : Prop :=
  ∃ function ∈ erasure.functions, function.Needs id

theorem Needs.isLive (needs : erasure.Needs id) : erasure.isLive id = true := by
  rcases needs with ⟨function, member, needs⟩
  apply isLive_iff.mpr
  refine ⟨function, member, ?_⟩
  cases needs.needed with
  | root present _ _ => exact List.mem_map_of_mem present.mem
  | operand present _ _ _ _ _ _ => exact List.mem_map_of_mem present.mem

/-- The marks record the instruction for printing. -/
def Recorded (marks : Marks) (id : InstId) : Prop :=
  ∃ candidate ∈ marks.removalCandidates, Value.inst id ∈ candidate.checked.printedValues

instance (marks : Marks) (id : InstId) : Decidable (Recorded marks id) :=
  inferInstanceAs (Decidable (∃ candidate ∈ marks.removalCandidates,
    Value.inst id ∈ candidate.checked.printedValues))

theorem prints_of_needs {marks : Marks}
    (needs : ∀ id, Recorded marks id → erasure.Needs id) : erasure.Prints marks := by
  intro candidate member value inside id equal
  exact (needs id ⟨candidate, member, equal ▸ inside⟩).isLive

/-! ## One removal -/

/-- The removal of the check spares every recorded instruction that its function needs. -/
def SparesRecorded (marks : Marks) (values : ValueTable) (function : Function)
    (check : InstId) : Prop :=
  ∀ id, Recorded marks id → function.Needs id → function.Spares values check id

variable {marks : Marks}

/-- What a removal does to every function. -/
theorem exists_keepsNeeded (keep : utilities.KeepNeeded) (shaped : erasure.Shaped)
    (spares : ∀ function, erasure.functionOf? check = some function →
      SparesRecorded marks values function check) :
    ∃ transform, (erasure.removeCheckSlice utilities values check).functions =
        erasure.functions.map transform ∧
      ∀ function ∈ erasure.functions,
        function.KeepsNeeded (Recorded marks) (transform function) := by
  have weaken : ∀ {before after : Function}, before.KeepsNeeded (fun _ => True) after →
      before.KeepsNeeded (Recorded marks) after := fun keeps =>
    ⟨keeps.name, keeps.shaped, keeps.old, fun before id _ => keeps.needs before id trivial⟩
  cases found : erasure.functionOf? check with
  | none =>
      refine ⟨fun function => function, ?_, fun function _ => .refl _ function⟩
      unfold removeCheckSlice
      rw [found, List.map_id']
  | some function =>
      rcases mem_of_functionOf? found with ⟨member, -⟩
      have own : function.KeepsNeeded
          (fun id => function.Needs id → function.Spares values check id)
          (function.removeCheckSlice utilities values check).function :=
        Function.keepsNeeded_removeCheckSlice keep (shaped.functions function member)
      rcases functions_removeCheckSlice found own.name with ⟨cleans, equal⟩
      refine ⟨_, equal, ?_⟩
      intro candidate candidateMember
      split
      · rename_i same
        rw [shaped.function_eq candidateMember member same]
        exact ⟨own.name, own.shaped, own.old, fun before id recorded needs =>
          own.needs before id (fun _ => spares function found id recorded needs) needs⟩
      · split
        · exact weaken (CleanupUtilities.keepsNeeded_tidy keep candidate)
        · exact .refl _ candidate

theorem shaped_of_sparesRecorded (keep : utilities.KeepNeeded) (shaped : erasure.Shaped)
    (spares : ∀ function, erasure.functionOf? check = some function →
      SparesRecorded marks values function check) :
    (erasure.removeCheckSlice utilities values check).Shaped := by
  rcases exists_keepsNeeded keep shaped spares with ⟨transform, equal, keeps⟩
  apply shaped.map equal
  intro function member
  exact ⟨(keeps function member).name,
    (keeps function member).shaped (shaped.functions function member),
    (keeps function member).old⟩

theorem needs_of_sparesRecorded (keep : utilities.KeepNeeded) (shaped : erasure.Shaped)
    (spares : ∀ function, erasure.functionOf? check = some function →
      SparesRecorded marks values function check)
    (recorded : Recorded marks id) (needs : erasure.Needs id) :
    (erasure.removeCheckSlice utilities values check).Needs id := by
  rcases exists_keepsNeeded keep shaped spares with ⟨transform, equal, keeps⟩
  rcases needs with ⟨function, member, needs⟩
  refine ⟨transform function, ?_, ?_⟩
  · rw [equal]
    exact List.mem_map_of_mem member
  · exact (keeps function member).needs (shaped.functions function member) id recorded needs

/-! ## Runs -/

theorem needs_eraseCalls {calls : List InstId} (keep : utilities.KeepNeeded)
    (shaped : erasure.Shaped)
    (spared : EveryStep utilities values (SparesRecorded marks values) erasure calls)
    (needs : ∀ id, Recorded marks id → erasure.Needs id) :
    (erasure.eraseCalls utilities values calls).Shaped ∧
      ∀ id, Recorded marks id → (erasure.eraseCalls utilities values calls).Needs id := by
  induction calls generalizing erasure with
  | nil => exact ⟨shaped, needs⟩
  | cons check rest induction =>
      apply induction (shaped_of_sparesRecorded keep shaped spared.1) spared.2
      intro id recorded
      exact needs_of_sparesRecorded keep shaped spared.1 recorded (needs id recorded)

theorem EveryStep.of_append {condition : Function → InstId → Prop} {done rest : List InstId}
    (every : EveryStep utilities values condition erasure (done ++ rest)) :
    EveryStep utilities values condition erasure done := by
  induction done generalizing erasure with
  | nil => trivial
  | cons check done induction => exact ⟨every.1, induction every.2⟩

theorem needs_tidy (keep : utilities.KeepNeeded) (shaped : erasure.Shaped)
    (needs : erasure.Needs id) : (erasure.tidy utilities).Needs id := by
  rcases needs with ⟨function, member, needs⟩
  refine ⟨_, List.mem_map_of_mem member, ?_⟩
  split
  · exact (CleanupUtilities.keepsNeeded_tidy keep function).needs
      (shaped.functions function member) id trivial needs
  · exact needs

end Erasure

namespace Module

/-- After the erasure every value a candidate is printed with is still there. -/
def CandidatesPrintable (module : Module) (utilities : CleanupUtilities)
    (addresses : Addresses) (options : GroupingOptions) (coreCheckSet : List CoreCheckKey)
    (calls : List InstId) : Prop :=
  (module.eraseMarkedChecks utilities calls).Prints
    (module.markRedundantChecks addresses options coreCheckSet)

/-- A run that takes out no recorded value that is still needed leaves them all. -/
theorem candidatesPrintable_of_spared (module : Module) (utilities : CleanupUtilities)
    (addresses : Addresses) (options : GroupingOptions) (coreCheckSet : List CoreCheckKey)
    (calls : List InstId) (keep : utilities.KeepNeeded) (shaped : module.erasure.Shaped)
    (needed : ∀ id, Erasure.Recorded (module.markRedundantChecks addresses options
      coreCheckSet) id → module.erasure.Needs id)
    (spared : Erasure.EveryStep utilities module.values
      (Erasure.SparesRecorded (module.markRedundantChecks addresses options coreCheckSet)
        module.values) module.erasure calls) :
    (∀ done rest, calls = done ++ rest →
        (module.erasure.eraseCalls utilities module.values done).Prints
          (module.markRedundantChecks addresses options coreCheckSet)) ∧
      module.CandidatesPrintable utilities addresses options coreCheckSet calls := by
  constructor
  · intro done rest split
    rw [split] at spared
    exact Erasure.prints_of_needs
      (Erasure.needs_eraseCalls keep shaped spared.of_append needed).2
  · apply Erasure.prints_of_needs
    intro id recorded
    rcases Erasure.needs_eraseCalls keep shaped spared needed with ⟨stillShaped, needs⟩
    exact Erasure.needs_tidy keep stillShaped (needs id recorded)

/-- Two loads of neighbouring elements. The index of the second is computed for its
check, and used once more if the element is written too. -/
def indexedBlock (used : Bool) : Block where
  id := 0
  insts :=
    [⟨0, .pointer, .getElementPtr (.other 1) [⟨.other 2, .element 4⟩]⟩,
     ⟨1, .other 0, .call { calledOperand := .other 0, args := [.inst 0] }⟩,
     ⟨2, .integer 64, .binary .add (.other 2) (.other 3)⟩,
     ⟨3, .pointer, .getElementPtr (.other 1) [⟨.inst 2, .element 4⟩]⟩,
     ⟨4, .other 0, .call { calledOperand := .other 0, args := [.inst 3] }⟩] ++
    if used then [⟨5, .other 0, .store (.other 2) (.inst 3)⟩] else []
  terminator := ⟨6, .other 0, .ret none⟩

def indexedFunction (used : Bool) : Function where
  name := "f"
  blocks := [indexedBlock used]

def indexed (used : Bool) : Module where
  functions := [indexedFunction used]
  values :=
    { value
        | 0 => ⟨.constant (.function "__asan_load4" .notIntrinsic), .pointer⟩
        | 1 => ⟨.argument, .pointer⟩
        | 2 => ⟨.argument, .integer 64⟩
        | _ => ⟨.constant (.int 1), .integer 64⟩
      count := 4 }
  dataLayout := ⟨64, 8⟩

/-- The second check is marked, and the index it is recorded with goes with it. -/
theorem indexed_not_candidatesPrintable :
    ((indexed false).markRedundantChecks .byId {} []).markedCalls = [4] ∧
      ¬(indexed false).CandidatesPrintable .inert .byId {} [] [4] := by
  refine ⟨by decide +kernel, ?_⟩
  intro printable
  have recorded : Erasure.Recorded ((indexed false).markRedundantChecks .byId {} []) 2 := by
    decide +kernel
  rcases recorded with ⟨candidate, member, inside⟩
  have live := printable candidate member (.inst 2) inside 2 rfl
  have gone : ((indexed false).eraseMarkedChecks .inert [4]).isLive 2 = false := by
    decide +kernel
  rw [gone] at live
  cases live

theorem indexed_reachable : (indexedFunction true).Reachable 0 := ⟨[], .start rfl⟩

/-- The write needs its address, and the address its index. -/
theorem indexed_needsWithout {lost : InstId → Prop}
    (kept : ∀ id : InstId, id = 2 ∨ id = 3 ∨ id = 5 → ¬lost id) :
    (indexedFunction true).NeedsWithout lost 2 where
  needed := by
    have present : ∀ inst ∈ (indexedBlock true).insts,
        (indexedFunction true).Present inst := fun inst member =>
      ⟨indexedBlock true, List.mem_singleton_self _, indexed_reachable,
        Block.mem_instructions.mpr (.inl member)⟩
    have write : (indexedFunction true).Needed lost 5 :=
      .root (present ⟨5, .other 0, .store (.other 2) (.inst 3)⟩ (by decide)) rfl
        (kept 5 (.inr (.inr rfl)))
    have address : (indexedFunction true).Needed lost 3 :=
      .operand (present ⟨3, .pointer, .getElementPtr (.other 1) [⟨.inst 2, .element 4⟩]⟩
          (by decide))
        (present ⟨5, .other 0, .store (.other 2) (.inst 3)⟩ (by decide)).mem rfl write
        (by decide) .self (kept 3 (.inr (.inl rfl)))
    exact .operand (present ⟨2, .integer 64, .binary .add (.other 2) (.other 3)⟩ (by decide))
      (present ⟨3, .pointer, .getElementPtr (.other 1) [⟨.inst 2, .element 4⟩]⟩
        (by decide)).mem rfl address (by decide) .self (kept 2 (.inl rfl))
  firm := by
    intro inst member _ incoming isPhi
    have noPhi : ∀ inst ∈ (indexedFunction true).instructions, inst.op.isPhi = false := by
      decide
    have contradiction := noPhi inst member
    rw [isPhi] at contradiction
    cases contradiction

theorem indexed_spares :
    (indexedFunction true).Spares (indexed true).values 4 2 where
  bypassed := by
    intro report bypassable
    have parent : (indexedFunction true).parent? 4 = some (indexedBlock true) := by decide
    rw [bypassable.parent] at parent
    have terminator := bypassable.terminator
    rw [Option.some.inj parent] at terminator
    cases terminator
  erased := by
    intro _
    have write : ¬((indexedFunction true).eraseInst 4).Erasable (indexed true).values
        ((indexedFunction true).collectCheckSlice (indexed true).values 4) 5 := by
      intro erasable
      rcases erasable.exists_inst with ⟨inst, member, address, kind, -⟩
      have noWrite : ∀ inst ∈ ((indexedFunction true).eraseInst 4).instructions,
          inst.id = 5 → (indexed true).values.isErasableKind inst.op = false := by
        decide +kernel
      rw [noWrite inst member address] at kind
      cases kind
    have address : ¬((indexedFunction true).eraseInst 4).Erasable (indexed true).values
        ((indexedFunction true).collectCheckSlice (indexed true).values 4) 3 := by
      intro erasable
      rcases erasable.exists_inst with ⟨-, -, -, -, users⟩
      exact write (users 5 (by decide))
    apply indexed_needsWithout
    intro id isOne lost
    rcases isOne with rfl | rfl | rfl
    · rcases lost with same | erasable
      · cases same
      · rcases erasable.exists_inst with ⟨-, -, -, -, users⟩
        exact address (users 3 (by decide))
    · rcases lost with same | erasable
      · cases same
      · exact address erasable
    · rcases lost with same | erasable
      · cases same
      · exact write erasable

theorem indexed_recorded {id : InstId}
    (recorded : Erasure.Recorded ((indexed true).markRedundantChecks .byId {} []) id) :
    id = 2 := by
  have all : ∀ candidate ∈
      ((indexed true).markRedundantChecks .byId {} []).removalCandidates,
      ∀ value ∈ candidate.checked.printedValues, value = .other 1 ∨ value = .inst 2 := by
    decide +kernel
  rcases recorded with ⟨candidate, member, inside⟩
  rcases all candidate member (.inst id) inside with same | same
  · cases same
  · exact Value.inst.inj same

theorem indexed_candidatesPrintable :
    (indexed true).CandidatesPrintable .inert .byId {} [] [4] := by
  have shaped : (indexed true).erasure.Shaped := by decide
  have needed : ∀ id,
      Erasure.Recorded ((indexed true).markRedundantChecks .byId {} []) id →
        (indexed true).erasure.Needs id := by
    intro id recorded
    rw [indexed_recorded recorded]
    exact ⟨indexedFunction true, List.mem_singleton_self _,
      indexed_needsWithout fun _ _ lost => lost⟩
  have spared : Erasure.EveryStep .inert (indexed true).values
      (Erasure.SparesRecorded ((indexed true).markRedundantChecks .byId {} [])
        (indexed true).values) (indexed true).erasure [4] := by
    refine ⟨?_, trivial⟩
    intro function found id recorded _
    have known : (indexed true).erasure.functionOf? 4 = some (indexedFunction true) := by
      decide
    rw [known] at found
    rw [← Option.some.inj found, indexed_recorded recorded]
    exact indexed_spares
  exact (candidatesPrintable_of_spared (indexed true) .inert .byId {} [] [4]
    CleanupUtilities.keepNeeded_inert shaped needed spared).2

end Module

end Desan
