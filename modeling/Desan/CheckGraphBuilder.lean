import Mathlib.Data.Prod.Lex
import Mathlib.Data.List.Lex
import Desan.CheckedVariableAnalyzer.Analysis
import Desan.Foundation.GroupMap

/-! # Grouping checks by the variable they check -/

namespace Desan

/-- Where the values of one run lie in memory; the null pointer has an address too. -/
structure Addresses where
  valueAddress : Option Value → Nat
  injective : Function.Injective valueAddress

/-- The command line options that decide what a key distinguishes. -/
structure GroupingOptions where
  groupDynamicOffsetsByBase : Bool := true
  distinguishStaticOffsets : Bool := false
deriving DecidableEq, Repr

structure VariableKey where
  sanitizer : SanitizerKind := .Unknown
  base : Option Value := none
  offsets : List Value := []
  hasStaticByteOffset : Bool := false
  staticByteOffset : Int := 0
deriving DecidableEq, Repr

def SanitizerKind.index : SanitizerKind → Nat
  | .ASan => 0
  | .UBSan => 1
  | .MemSan => 2
  | .Unknown => 3

/-! ## The comparator -/

/-- The first position at which two address lists differ. -/
def firstDifference : List Nat → List Nat → Option (Nat × Nat)
  | left :: lefts, right :: rights =>
      if left ≠ right then some (left, right) else firstDifference lefts rights
  | _, _ => none

namespace Addresses

/-- Instructions at even addresses, other values at odd ones. -/
def addressById : Option Value → Nat
  | none => 0
  | some .poison => 1
  | some (.inst id) => 2 * id + 2
  | some (.other id) => 2 * id + 3

theorem addressById_injective : Function.Injective addressById := by
  intro left right equal
  match left, right with
  | none, none => rfl
  | none, some right => cases right <;> simp only [addressById] at equal <;> omega
  | some left, none => cases left <;> simp only [addressById] at equal <;> omega
  | some (.inst left), some (.inst right) =>
      have ids : left = right := by
        change 2 * left + 2 = 2 * right + 2 at equal
        exact Nat.eq_of_mul_eq_mul_left Nat.two_pos (Nat.add_right_cancel equal)
      rw [ids]
  | some (.other left), some (.other right) =>
      have ids : left = right := by
        simp only [addressById] at equal
        omega
      rw [ids]
  | some .poison, some .poison => rfl
  | some (.inst _), some (.other _) | some (.other _), some (.inst _)
  | some (.inst _), some .poison | some .poison, some (.inst _)
  | some (.other _), some .poison | some .poison, some (.other _) =>
      simp only [addressById] at equal
      omega

def byId : Addresses := ⟨addressById, addressById_injective⟩

variable (addresses : Addresses)

def offsetAddresses (key : VariableKey) : List Nat :=
  key.offsets.map fun offset => addresses.valueAddress (some offset)

/-- `VariableKeyLess`. -/
def variableKeyLess (left right : VariableKey) : Bool :=
  if left.sanitizer ≠ right.sanitizer then left.sanitizer.index < right.sanitizer.index
  else if addresses.valueAddress left.base ≠ addresses.valueAddress right.base then
    addresses.valueAddress left.base < addresses.valueAddress right.base
  else if left.offsets.length ≠ right.offsets.length then
    left.offsets.length < right.offsets.length
  else
    match firstDifference (addresses.offsetAddresses left)
        (addresses.offsetAddresses right) with
    | some (leftAddress, rightAddress) => leftAddress < rightAddress
    | none =>
        if left.hasStaticByteOffset ≠ right.hasStaticByteOffset then
          left.hasStaticByteOffset < right.hasStaticByteOffset
        else if left.hasStaticByteOffset = true ∧
            left.staticByteOffset ≠ right.staticByteOffset then
          left.staticByteOffset < right.staticByteOffset
        else false

/-- A key as a tuple in the order the comparator looks at its parts. -/
def keyRank (key : VariableKey) : Nat ×ₗ Nat ×ₗ Nat ×ₗ List Nat ×ₗ Bool ×ₗ Int :=
  toLex (key.sanitizer.index,
    toLex (addresses.valueAddress key.base,
      toLex (key.offsets.length,
        toLex (addresses.offsetAddresses key,
          toLex (key.hasStaticByteOffset,
            if key.hasStaticByteOffset then key.staticByteOffset else 0)))))

end Addresses

theorem SanitizerKind.index_injective : Function.Injective SanitizerKind.index := by
  intro left right equal
  cases left <;> cases right <;> first | rfl | cases equal

theorem eq_of_firstDifference_eq_none : ∀ {left right : List Nat},
    left.length = right.length → firstDifference left right = none → left = right
  | [], [], _, _ => rfl
  | left :: lefts, right :: rights, lengths, agree => by
      have heads : left = right := by
        by_contra different
        simp [firstDifference, different] at agree
      subst heads
      have tails : firstDifference lefts rights = none := by
        simpa [firstDifference] using agree
      rw [eq_of_firstDifference_eq_none (by simpa using lengths) tails]

theorem firstDifference_self (addresses : List Nat) :
    firstDifference addresses addresses = none := by
  induction addresses with
  | nil => rfl
  | cons head tail induction => simp [firstDifference, induction]

theorem lt_iff_of_firstDifference_eq_some : ∀ {left right : List Nat} {first second : Nat},
    firstDifference left right = some (first, second) →
      first ≠ second ∧ (left < right ↔ first < second)
  | [], _, _, _, found => by simp [firstDifference] at found
  | _ :: _, [], _, _, found => by simp [firstDifference] at found
  | left :: lefts, right :: rights, first, second, found => by
      by_cases heads : left = right
      · subst heads
        have tails : firstDifference lefts rights = some (first, second) := by
          simpa [firstDifference] using found
        have later := lt_iff_of_firstDifference_eq_some tails
        refine ⟨later.1, ?_⟩
        rw [← later.2]
        simp
      · have pair : (left, right) = (first, second) := by
          simpa [firstDifference, heads] using found
        cases pair
        refine ⟨heads, ?_⟩
        simp [List.cons_lt_cons_iff, heads]

namespace Addresses

/-- The comparator compares ranks, so it is a strict weak order. -/
theorem rankedBy_variableKeyLess (addresses : Addresses) :
    RankedBy addresses.variableKeyLess addresses.keyRank where
  less_iff := by
    intro left right
    simp only [variableKeyLess, keyRank, Prod.Lex.toLex_lt_toLex]
    by_cases kinds : left.sanitizer = right.sanitizer
    · by_cases bases :
          addresses.valueAddress left.base = addresses.valueAddress right.base
      · by_cases lengths : left.offsets.length = right.offsets.length
        · cases found : firstDifference (addresses.offsetAddresses left)
              (addresses.offsetAddresses right) with
          | some pair =>
              have later := lt_iff_of_firstDifference_eq_some found
              have different :
                  addresses.offsetAddresses left ≠ addresses.offsetAddresses right := by
                intro equal
                rw [equal, firstDifference_self] at found
                cases found
              simp [kinds, bases, lengths, later.2, different]
          | none =>
              have equal : addresses.offsetAddresses left =
                  addresses.offsetAddresses right :=
                eq_of_firstDifference_eq_none (by simpa [offsetAddresses] using lengths)
                  found
              cases leftFlag : left.hasStaticByteOffset <;>
                cases rightFlag : right.hasStaticByteOffset <;>
                simp [kinds, bases, lengths, equal]
              exact fun less => less.ne
        · simp [kinds, bases, lengths]
      · simp [kinds, bases]
    · have indices : left.sanitizer.index ≠ right.sanitizer.index :=
        fun equal => kinds (SanitizerKind.index_injective equal)
      simp [kinds, indices]

/-- What two keys of one rank share: a static offset counts only under its flag. -/
theorem keyRank_eq_iff (addresses : Addresses) (left right : VariableKey) :
    addresses.keyRank left = addresses.keyRank right ↔
      left.sanitizer = right.sanitizer ∧ left.base = right.base ∧
        left.offsets = right.offsets ∧
          left.hasStaticByteOffset = right.hasStaticByteOffset ∧
            (left.hasStaticByteOffset = true →
              left.staticByteOffset = right.staticByteOffset) := by
  constructor
  · intro tie
    simp only [keyRank, EmbeddingLike.apply_eq_iff_eq, Prod.mk.injEq] at tie
    rcases tie with ⟨kinds, bases, -, offsets, flags, statics⟩
    refine ⟨SanitizerKind.index_injective kinds, addresses.injective bases, ?_, flags, ?_⟩
    · apply List.map_injective_iff.mpr _ offsets
      intro first second equal
      exact Option.some.inj (addresses.injective equal)
    · intro flag
      rw [if_pos flag, if_pos (flags ▸ flag)] at statics
      exact statics
  · intro parts
    rcases parts with ⟨kinds, bases, offsets, flags, statics⟩
    have bytes : (if left.hasStaticByteOffset then left.staticByteOffset else 0) =
        if right.hasStaticByteOffset then right.staticByteOffset else 0 := by
      rw [← flags]
      split
      · rename_i flag
        exact statics flag
      · rfl
    rw [keyRank, keyRank, offsetAddresses, offsetAddresses, kinds, bases, offsets, bytes, flags]

/-- The comparator is a strict weak order, and two keys tie exactly when they agree in
all that they distinguish. -/
theorem variableKeyLess_isStrictWeakOrder (addresses : Addresses) :
    IsStrictWeakOrder VariableKey
        (fun left right => addresses.variableKeyLess left right = true) ∧
      ∀ left right : VariableKey,
        (¬addresses.variableKeyLess left right = true ∧
            ¬addresses.variableKeyLess right left = true) ↔
          left.sanitizer = right.sanitizer ∧ left.base = right.base ∧
            left.offsets = right.offsets ∧
              left.hasStaticByteOffset = right.hasStaticByteOffset ∧
                (left.hasStaticByteOffset = true →
                  left.staticByteOffset = right.staticByteOffset) := by
  refine ⟨addresses.rankedBy_variableKeyLess.isStrictWeakOrder, ?_⟩
  intro left right
  rw [addresses.rankedBy_variableKeyLess.tie_iff, keyRank_eq_iff]

end Addresses

/-! ## Keys of checked variables -/

def makeVariableKey (options : GroupingOptions) (checked : CheckedVariable) :
    VariableKey where
  sanitizer := checked.sanitizer
  base := checked.base
  hasStaticByteOffset := options.distinguishStaticOffsets && checked.hasStaticByteOffset
  staticByteOffset :=
    if options.distinguishStaticOffsets && checked.hasStaticByteOffset then
      checked.staticByteOffset
    else 0
  offsets :=
    if !checked.hasStaticByteOffset && !options.groupDynamicOffsetsByBase then
      checked.offsets
    else []

/-- Without the flag the key's static offset is left 0. -/
theorem makeVariableKey_staticByteOffset (options : GroupingOptions)
    (checked : CheckedVariable) :
    (if (makeVariableKey options checked).hasStaticByteOffset then
        (makeVariableKey options checked).staticByteOffset
      else 0) = (makeVariableKey options checked).staticByteOffset := by
  cases flag : (makeVariableKey options checked).hasStaticByteOffset with
  | true => rfl
  | false =>
      simp only [makeVariableKey] at flag ⊢
      simp [flag]

/-- Keys of checked variables tie only when they are equal: the comparator
ignores a static offset only where `makeVariableKey` has left it 0. -/
theorem makeVariableKey_rank_eq_iff (addresses : Addresses) (options : GroupingOptions)
    (left right : CheckedVariable) :
    addresses.keyRank (makeVariableKey options left) =
        addresses.keyRank (makeVariableKey options right) ↔
      makeVariableKey options left = makeVariableKey options right := by
  constructor
  · intro tie
    rcases (addresses.keyRank_eq_iff _ _).mp tie with ⟨kinds, bases, offsets, flags, statics⟩
    have bytes : (makeVariableKey options left).staticByteOffset =
        (makeVariableKey options right).staticByteOffset := by
      rw [← makeVariableKey_staticByteOffset, ← makeVariableKey_staticByteOffset options right,
        ← flags]
      split
      · rename_i flag
        exact statics flag
      · rfl
    cases leftKey : makeVariableKey options left
    cases rightKey : makeVariableKey options right
    simp_all
  · intro equal
    rw [equal]

/-! ## Grouping -/

abbrev CoreCheckKey := SanitizerKind × String

/-- An empty set of core checks makes every check a core check. -/
def isCoreCheck (coreCheckSet : List CoreCheckKey) (check : ClassifiedCheck) : Bool :=
  coreCheckSet.isEmpty || coreCheckSet.contains (check.sanitizer, check.checkType)

def coreCheckKeys (coreChecks : List CheckStat) : List CoreCheckKey :=
  coreChecks.map fun stat => (stat.sanitizer, stat.checkType)

namespace Module

/-- The checked variable of an instruction that is a core check. -/
def coreVariable? (module : Module) (coreCheckSet : List CoreCheckKey)
    (function : Function) (inst : Inst) : Option CheckedVariable :=
  match module.values.classifyCheck inst.op with
  | none => none
  | some check =>
      if isCoreCheck coreCheckSet check then module.analyzeCheck function inst else none

/-- The checked variables of a function's core checks, in layout order. -/
def functionVariables (module : Module) (coreCheckSet : List CoreCheckKey)
    (function : Function) : List CheckedVariable :=
  if function.isDeclaration then []
  else function.instructions.filterMap (module.coreVariable? coreCheckSet function)

/-- The checked variables in module order: functions in order, instructions in
layout order. -/
def moduleVariables (module : Module) (coreCheckSet : List CoreCheckKey) :
    List CheckedVariable :=
  module.functions.flatMap (module.functionVariables coreCheckSet)

def groupChecksByVariable (module : Module) (addresses : Addresses)
    (options : GroupingOptions) (coreCheckSet : List CoreCheckKey) :
    List (VariableKey × List CheckedVariable) :=
  groupBy addresses.variableKeyLess (makeVariableKey options)
    (module.moduleVariables coreCheckSet)

end Module

end Desan
