import Desan.CheckedVariableAnalyzer.UseWalk

/-! # The access that tells the size

The size of a checked access is taken from the uses of the checked value. The walk over
them goes one level after the other and ends with the first access it meets. -/

namespace Desan

namespace CheckContext

variable (context : CheckContext)

/-- The size of the first access among the users of a value. -/
def accessSize? (current : Value) : Option Nat :=
  (context.users current).findSome? (context.userAccessSize? current)

/-- A user that accesses so many bytes is at the end of a chain of so many uses. -/
def AccessAt (value : Value) (count size : Nat) : Prop :=
  ∃ met, StepsTo context.traceThroughUsers count value met ∧
    ∃ user ∈ context.users met, context.userAccessSize? met user = some size

/-- An access at the end of a chain, where no shorter chain ends at an access. -/
def NearestAccess (value : Value) (count size : Nat) : Prop :=
  context.AccessAt value count size ∧
    ∀ shorter < count, ∀ other, ¬context.AccessAt value shorter other

variable {context}

/-! ## The walk is a search for the nearest hit -/

theorem sizeLevel_eq (worklist : List Value) (sweep : LevelSweep Value) :
    (context.sizeLevel worklist sweep.visited sweep.next).1 =
        LevelSweep.hit? context.accessSize? sweep.visited worklist ∧
      (LevelSweep.hit? context.accessSize? sweep.visited worklist = none →
        (context.sizeLevel worklist sweep.visited sweep.next).2 =
          ((worklist.foldl (LevelSweep.visit context.traceThroughUsers) sweep).visited,
            (worklist.foldl (LevelSweep.visit context.traceThroughUsers) sweep).next)) := by
  induction worklist generalizing sweep with
  | nil => exact ⟨rfl, fun _ => rfl⟩
  | cons current rest induction =>
      rw [sizeLevel, LevelSweep.hit?, List.foldl_cons, LevelSweep.visit]
      split
      · exact induction sweep
      · rw [accessSize?]
        cases (context.users current).findSome? (context.userAccessSize? current) with
        | some size =>
            refine ⟨rfl, fun noHit => ?_⟩
            cases noHit
        | none => exact induction ⟨_, _⟩

theorem sizeLevels_eq (fuel : Nat) (visited worklist : List Value) :
    context.sizeLevels fuel visited worklist =
      (LevelSweep.nearest? context.traceThroughUsers context.accessSize? fuel visited
        worklist).getD 0 := by
  induction fuel generalizing visited worklist with
  | zero => rfl
  | succ fuel induction =>
      cases worklist with
      | nil => rfl
      | cons current rest =>
          have level := @sizeLevel_eq context (current :: rest) ⟨visited, []⟩
          simp only [sizeLevels, LevelSweep.nearest?]
          cases swept : context.sizeLevel (current :: rest) visited [] with
          | mk size state =>
              rw [swept] at level
              rw [← level.1]
              cases size with
              | some size => rfl
              | none =>
                  have next := level.2 level.1.symm
                  simp only at next
                  rw [next]
                  exact induction _ _

/-! ## Accesses and hits -/

theorem exists_user_of_accessSize? {met : Value} {size : Nat}
    (first : context.accessSize? met = some size) :
    ∃ user ∈ context.users met, context.userAccessSize? met user = some size :=
  List.exists_of_findSome?_eq_some first

theorem accessSize?_eq_none {met : Value} :
    context.accessSize? met = none ↔
      ∀ user ∈ context.users met, ∀ size, context.userAccessSize? met user ≠ some size := by
  rw [accessSize?, List.findSome?_eq_none_iff]
  simp only [Option.eq_none_iff_forall_ne_some]

theorem not_accessAt {value : Value} {count : Nat}
    (noHit : ∀ met, StepsTo context.traceThroughUsers count value met →
      context.accessSize? met = none) (size : Nat) : ¬context.AccessAt value count size := by
  intro access
  rcases access with ⟨met, chain, user, isUser, reads⟩
  exact accessSize?_eq_none.mp (noHit met chain) user isUser size reads

theorem NearestAccess.of_nearestAt {value : Value} {count size : Nat}
    (nearest : LevelSweep.NearestAt context.traceThroughUsers context.accessSize? value count
      size) : context.NearestAccess value count size := by
  rcases nearest with ⟨⟨met, chain, first⟩, noShorter⟩
  exact ⟨⟨met, chain, exists_user_of_accessSize? first⟩,
    fun shorter less other => not_accessAt (noShorter shorter less) other⟩

/-- The size is that of an access nearest to the checked value, if one is near enough. -/
theorem nearestAccess_or_zero (context : CheckContext) (value : Value) :
    (∃ count < maxUseTraceDepth,
      context.NearestAccess value count (context.inferAccessSizeFromUses value)) ∨
    (context.inferAccessSizeFromUses value = 0 ∧
      ∀ count < maxUseTraceDepth, ∀ size, ¬context.AccessAt value count size) := by
  have search := @LevelSweep.nearest?_eq _ _ context.traceThroughUsers value _
    context.accessSize? maxUseTraceDepth
  rw [inferAccessSizeFromUses, sizeLevels_eq]
  cases outcome : LevelSweep.nearest? context.traceThroughUsers context.accessSize?
      maxUseTraceDepth [] [value] with
  | some size =>
      rcases search.1 size outcome with ⟨count, less, nearest⟩
      exact .inl ⟨count, less, .of_nearestAt nearest⟩
  | none =>
      exact .inr ⟨rfl, fun count less => not_accessAt (search.2 outcome count less)⟩

/-! ## The order of the use lists -/

section Permuted

variable {users : Value → List InstId}
  (permuted : ∀ value, (users value).Perm (context.users value))
include permuted

theorem accessAt_withUsers {value : Value} {count size : Nat} :
    (context.withUsers users).AccessAt value count size ↔
      context.AccessAt value count size := by
  have same : ∀ met, ((context.withUsers users).traceThroughUsers met).Perm
      (context.traceThroughUsers met) := fun met =>
    ((permuted met).filter _).map Value.inst
  have isUser : ∀ met user, user ∈ (context.withUsers users).users met ↔
      user ∈ context.users met := fun met _ => (permuted met).mem_iff
  have reads : (context.withUsers users).userAccessSize? = context.userAccessSize? := rfl
  simp only [AccessAt, stepsTo_congr same, isUser, reads]

theorem nearestAccess_withUsers {value : Value} {count size : Nat} :
    (context.withUsers users).NearestAccess value count size ↔
      context.NearestAccess value count size := by
  simp only [NearestAccess, accessAt_withUsers permuted]

end Permuted

/-- No chain is shorter than the nearest one. -/
theorem NearestAccess.count_eq {value : Value} {first second size other : Nat}
    (nearest : context.NearestAccess value first size)
    (also : context.NearestAccess value second other) : first = second := by
  rcases Nat.lt_trichotomy first second with less | same | more
  · exact absurd nearest.1 (also.2 first less size)
  · exact same
  · exact absurd also.1 (nearest.2 second more other)

/-- The size is that of an access nearest to the checked value, for any order of the use
lists, and zero when none is near enough. Where the nearest accesses agree on it, the
order has no say. -/
theorem inferAccessSizeFromUses_nearest (context : CheckContext)
    {users : Value → List InstId} (permuted : ∀ value, (users value).Perm (context.users value))
    (value : Value) :
    ((∃ count < maxUseTraceDepth, context.NearestAccess value count
        ((context.withUsers users).inferAccessSizeFromUses value)) ∨
      ((context.withUsers users).inferAccessSizeFromUses value = 0 ∧
        ∀ count < maxUseTraceDepth, ∀ size, ¬context.AccessAt value count size)) ∧
    ((∀ count first second, context.NearestAccess value count first →
        context.NearestAccess value count second → first = second) →
      (context.withUsers users).inferAccessSizeFromUses value =
        context.inferAccessSizeFromUses value) := by
  have other := nearestAccess_or_zero (context.withUsers users) value
  simp only [nearestAccess_withUsers permuted, accessAt_withUsers permuted] at other
  refine ⟨other, fun agree => ?_⟩
  rcases nearestAccess_or_zero context value with ⟨count, less, nearest⟩ | ⟨zero, noAccess⟩
  · rcases other with ⟨otherCount, -, otherNearest⟩ | ⟨-, noAccess⟩
    · have same := otherNearest.count_eq nearest
      exact agree count _ _ (same ▸ otherNearest) nearest
    · exact absurd nearest.1 (noAccess count less _)
  · rcases other with ⟨otherCount, less, otherNearest⟩ | ⟨otherZero, -⟩
    · exact absurd otherNearest.1 (noAccess otherCount less _)
    · rw [zero, otherZero]

end CheckContext

namespace Module

theorem accessModule_nearestAccess :
    ∃ count < maxUseTraceDepth,
      ((accessModule (storeChain 2)).checkContext (storeChain 2) 200).NearestAccess (.other 0) count 4 := by
  have size : (((accessModule (storeChain 2)).checkContext (storeChain 2) 200).withUsers fun value =>
      ((accessModule (storeChain 2)).users value).reverse).inferAccessSizeFromUses (.other 0) = 4 := by
    decide +kernel
  have nearest := (CheckContext.inferAccessSizeFromUses_nearest
    ((accessModule (storeChain 2)).checkContext (storeChain 2) 200)
    (fun value => List.reverse_perm ((accessModule (storeChain 2)).users value)) (.other 0)).1
  rw [size] at nearest
  exact nearest.resolve_right fun parts => absurd parts.1 (by decide)

end Module

end Desan
