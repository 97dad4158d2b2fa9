import Desan.CheckSliceRemover.SliceErasure
import Desan.CheckSliceRemover.Splice
import Desan.IR.Needs

/-! # What a removal spares

A value that the function needs without what a removal takes out is needed afterwards. -/

namespace Desan

namespace Function

/-! ## Erased instructions -/

section Erase

variable {function : Function} {lost : InstId → Prop} {erased : List InstId}
  (takes : ∀ id ∈ erased, lost id)
include takes

omit takes in
theorem reachable_eraseInsts {block : BlockId} (reachable : function.Reachable block) :
    (function.eraseInsts erased).Reachable block := by
  rcases reachable with ⟨done, path⟩
  refine ⟨done, path.mono ?_ fun source target => edge_eraseInsts⟩
  intro entry isEntry
  rw [IsEntry, entry?_eraseInsts]
  exact isEntry

theorem present_eraseInsts {inst : Inst} (present : function.Present inst)
    (kept : ¬lost inst.id) : (function.eraseInsts erased).Present inst := by
  rcases present with ⟨block, member, reachable, inside⟩
  refine ⟨_, mem_eraseInsts.mpr ⟨block, member, rfl⟩, reachable_eraseInsts reachable, ?_⟩
  rcases Block.mem_instructions.mp inside with body | last
  · exact Block.mem_instructions.mpr (.inl (List.mem_filter.mpr
      ⟨body, decide_eq_true fun gone => kept (takes _ gone)⟩))
  · exact Block.mem_instructions.mpr (.inr last)

omit takes in
theorem Needed.kept {id : InstId} (needed : function.Needed lost id) : ¬lost id := by
  cases needed with
  | root _ _ kept => exact kept
  | operand _ _ _ _ _ _ kept => exact kept

theorem yields_eraseInsts {source value : Value} (yields : function.Yields lost source value) :
    (function.eraseInsts erased).Yields (fun _ => False) source value := by
  induction yields with
  | self => exact .self
  | phi member isPhi inside allowed _ induction =>
      exact .phi (mem_instructions_eraseInsts member fun gone => allowed.1 (takes _ gone)) isPhi
        inside ⟨id, reachable_eraseInsts allowed.2⟩ induction

omit takes in
theorem mayYield_of_eraseInsts {source value : Value}
    (yields : (function.eraseInsts erased).MayYield source value) :
    function.MayYield source value := by
  induction yields with
  | self => exact .self
  | phi member isPhi inside allowed _ induction =>
      exact .phi ((instructions_eraseInsts erased).subset member) isPhi inside allowed induction

theorem apart_eraseInsts {first second : Value} (apart : function.Apart lost first second) :
    (function.eraseInsts erased).Apart (fun _ => False) first second where
  exists_origin := by
    rcases apart.exists_origin with ⟨source, origin, yields, never⟩
    refine ⟨source, ⟨origin.notPoison, ?_⟩, yields_eraseInsts takes yields,
      fun may => never (mayYield_of_eraseInsts may)⟩
    intro id equal
    rcases origin.present id equal with ⟨kept, inst, present, address, notPhi⟩
    exact ⟨fun no => no, inst, present_eraseInsts takes present (address ▸ kept), address,
      notPhi⟩
  known := by
    intro id may
    rcases apart.known id (mayYield_of_eraseInsts may) with ⟨member, kept⟩
    rcases List.mem_map.mp member with ⟨inst, instMember, rfl⟩
    exact ⟨List.mem_map_of_mem (mem_instructions_eraseInsts instMember
      fun gone => kept (takes _ gone)), fun no => no⟩

theorem needed_eraseInsts {id : InstId} (needed : function.Needed lost id) :
    (function.eraseInsts erased).Needed (fun _ => False) id := by
  induction needed with
  | root present root kept =>
      exact .root (present_eraseInsts takes present kept) root fun no => no
  | @operand inst user value present isUser notPhi userNeeded operand yields kept induction =>
      have userKept : user.id ∉ erased := by
        intro gone
        exact userNeeded.kept (takes _ gone)
      exact .operand (present_eraseInsts takes present kept)
        (mem_instructions_eraseInsts isUser userKept) notPhi induction operand
        (yields_eraseInsts takes yields) fun no => no

theorem NeedsWithout.eraseInsts {id : InstId} (needs : function.NeedsWithout lost id) :
    (function.eraseInsts erased).Needs id where
  needed := needed_eraseInsts takes needs.needed
  firm := by
    intro inst member address incoming isPhi
    rcases needs.firm inst ((instructions_eraseInsts erased).subset member) address incoming
      isPhi with
      ⟨first, firstMember, second, secondMember, firstReachable, secondReachable, apart⟩
    exact ⟨first, firstMember, second, secondMember, reachable_eraseInsts firstReachable,
      reachable_eraseInsts secondReachable, apart_eraseInsts takes apart⟩

end Erase

/-! ## The function without the report block -/

theorem Shaped.splice {function : Function} (shaped : function.Shaped) (report : Block) :
    (function.splice report).Shaped := by
  have dropped : function.Edits (fun _ _ => True) (function.dropReportEntry report) := by
    rw [dropReportEntry]
    split
    · exact edits_dropEntries _ report.id
    · exact .refl function fun _ => trivial
  have redirected : (function.detach report).Edits (fun _ _ => True)
      (function.splice report) := by
    refine ⟨_, rfl, ?_⟩
    intro block _
    refine ⟨?_, trivial⟩
    rw [Block.redirect]
    split
    · split
      · exact Block.carries_setTerminator rfl block
      · exact .refl block
    · exact .refl block
  exact redirected.shaped ((dropped.shaped shaped).dropBlock report.id)

theorem Forgets.shaped {before after : Function} (forgets : before.Forgets after)
    (shaped : before.Shaped) : after.Shaped := by
  rcases forgets with ⟨transform, keeps, -, rfl⟩
  have edits : before.Edits (fun _ _ => True)
      (before.mapBlocks (Block.mapInsts (Inst.mapOperands transform))) :=
    ⟨_, rfl, fun block _ => ⟨Block.carries_mapOperands keeps block, trivial⟩⟩
  exact edits.shaped shaped

/-! ## Removals -/

section Removal

variable {function : Function} {values : ValueTable} {check id : InstId}

/-- The function needs the instruction also without what the removal of the check takes
out: the report block, or the call and what dies with it. -/
structure Spares (function : Function) (values : ValueTable) (check id : InstId) : Prop where
  bypassed : ∀ report, function.Bypassable values check report →
    (function.splice report).Needs id
  erased : function.ErasesDirectly values check →
    function.NeedsWithout (fun other => other = check ∨
      Erasable (function.eraseInst check) values (function.collectCheckSlice values check)
        other) id

theorem needs_eraseCheckSlice (shaped : function.Shaped) (needs : function.Needs id)
    (spares : function.Spares values check id) :
    (function.eraseCheckSlice values check).function.Needs id := by
  rcases eraseCheckSlice_cases shaped with bypass | direct | refused
  · rcases bypass with ⟨report, bypassable, equal⟩
    rw [equal]
    rcases bypassable.folds shaped (function.collectCheckSlice values check) with
      ⟨forgotten, forgets, folds⟩
    have spliced := (spares.bypassed report bypassable).forgets forgets
    exact spliced.folds (forgets.shaped (shaped.splice report)) folds
  · rcases function.exists_erased values check with ⟨erased, whole, takes⟩
    rw [direct.2]
    simp only [whole]
    exact (spares.erased direct.1).eraseInsts takes
  · rw [refused.2.2]
    exact needs

/-- An erasure takes out blocks and instructions and adds none. -/
theorem old_eraseCheckSlice (shaped : function.Shaped) :
    (function.eraseCheckSlice values check).function.name = function.name ∧
      (function.eraseCheckSlice values check).function.Shaped ∧
        ∀ other ∈ (function.eraseCheckSlice values check).function.ids,
          other ∈ function.ids := by
  rcases eraseCheckSlice_cases shaped with bypass | direct | refused
  · rcases bypass with ⟨report, bypassable, equal⟩
    rcases bypassable.exists_edited (function.collectCheckSlice values check) shaped with
      ⟨edited, edits, dropped⟩
    rw [equal]
    simp only [dropped]
    refine ⟨edits.name_eq, (edits.shaped shaped).dropBlock report.id, ?_⟩
    intro other member
    exact edits.instructions.subset
      (((instructions_dropBlock edited report.id).map _).subset member)
  · rcases function.exists_erased values check with ⟨erased, whole, -⟩
    rw [direct.2]
    simp only [whole]
    have keeps : function.KeepsCalls _ (function.eraseInsts erased) :=
      keepsCalls_eraseInsts erased
    exact ⟨keeps.name, keeps.shaped shaped, keeps.old⟩
  · rw [refused.2.2]
    exact ⟨rfl, shaped, fun _ member => member⟩

end Removal

/-- No instruction is new, and what was needed and is kept is still needed. -/
structure KeepsNeeded (kept : InstId → Prop) (before after : Function) : Prop where
  name : after.name = before.name
  shaped : before.Shaped → after.Shaped
  old : ∀ id ∈ after.ids, id ∈ before.ids
  needs : before.Shaped → ∀ id, kept id → before.Needs id → after.Needs id

theorem KeepsNeeded.refl (kept : InstId → Prop) (function : Function) :
    function.KeepsNeeded kept function where
  name := rfl
  shaped := fun shaped => shaped
  old := fun _ member => member
  needs := fun _ _ _ needs => needs

theorem KeepsNeeded.trans {kept : InstId → Prop} {first second third : Function}
    (left : first.KeepsNeeded kept second) (right : second.KeepsNeeded kept third) :
    first.KeepsNeeded kept third where
  name := right.name.trans left.name
  shaped := fun shaped => right.shaped (left.shaped shaped)
  old := fun id member => left.old id (right.old id member)
  needs := fun shaped id isKept needs =>
    right.needs (left.shaped shaped) id isKept (left.needs shaped id isKept needs)

end Function

/-- What LLVM promises of its clean-up utilities: they take out only what nothing needs,
in place of phis that are left with one value they use this value, and they make no
instruction. -/
structure CleanupUtilities.KeepNeeded (utilities : CleanupUtilities) : Prop where
  deleteTriviallyDead : ∀ function : Function,
    function.KeepsNeeded (fun _ => True)
      (utilities.deleteTriviallyDead function.deadInsts function)
  eliminateUnreachableBlocks : ∀ function : Function,
    function.KeepsNeeded (fun _ => True) (utilities.eliminateUnreachableBlocks function)
  mergeBlockIntoPredecessor : ∀ (function merged : Function),
    ∀ block ∈ function.blockIds.tail,
      utilities.mergeBlockIntoPredecessor block function = some merged →
        function.KeepsNeeded (fun _ => True) merged

namespace CleanupUtilities

theorem keepNeeded_inert : inert.KeepNeeded where
  deleteTriviallyDead := fun function => .refl _ function
  eliminateUnreachableBlocks := fun function => .refl _ function
  mergeBlockIntoPredecessor := by
    intro function merged block _ isMerged
    cases isMerged

theorem keepsNeeded_tidy {utilities : CleanupUtilities} (keep : utilities.KeepNeeded)
    (function : Function) : function.KeepsNeeded (fun _ => True) (utilities.tidy function) :=
  tidy_of_steps (.refl _) (fun left right => left.trans right) keep.deleteTriviallyDead
    keep.eliminateUnreachableBlocks keep.mergeBlockIntoPredecessor function

end CleanupUtilities

namespace Function

/-- A removal keeps what it spares. -/
theorem keepsNeeded_removeCheckSlice {utilities : CleanupUtilities} {function : Function}
    {values : ValueTable} {check : InstId} (keep : utilities.KeepNeeded)
    (shaped : function.Shaped) :
    function.KeepsNeeded (fun id => function.Needs id → function.Spares values check id)
      (function.removeCheckSlice utilities values check).function := by
  have erased : function.KeepsNeeded
      (fun id => function.Needs id → function.Spares values check id)
      (function.eraseCheckSlice values check).function := by
    have parts : (function.eraseCheckSlice values check).function.name = function.name ∧
        (function.eraseCheckSlice values check).function.Shaped ∧
          ∀ other ∈ (function.eraseCheckSlice values check).function.ids,
            other ∈ function.ids := old_eraseCheckSlice shaped
    rcases parts with ⟨name, stillShaped, old⟩
    exact ⟨name, fun _ => stillShaped, old,
      fun _ id spares needs => needs_eraseCheckSlice shaped needs (spares needs)⟩
  rw [removeCheckSlice]
  split
  · have tidied := CleanupUtilities.keepsNeeded_tidy keep
      (function.eraseCheckSlice values check).function
    refine ⟨tidied.name.trans erased.name, fun before => tidied.shaped (erased.shaped before),
      fun id member => erased.old id (tidied.old id member), ?_⟩
    intro before id spares needs
    exact tidied.needs (erased.shaped before) id trivial (erased.needs before id spares needs)
  · exact erased

end Function

end Desan
