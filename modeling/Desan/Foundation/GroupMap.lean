import Mathlib.Order.Lattice
import Mathlib.Data.List.Nodup

/-! # Ordered maps from keys to groups

An ordered map under a user-written comparator, filled by appending each value
to the group of its key. The map is the list of its entries in key order. -/

namespace Desan

variable {κ β ρ : Type*}

/-- `map[key].push_back(value)`. -/
def pushBack (less : κ → κ → Bool) (key : κ) (value : β) :
    List (κ × List β) → List (κ × List β)
  | [] => [(key, [value])]
  | (other, group) :: rest =>
      if less key other then (key, [value]) :: (other, group) :: rest
      else if less other key then (other, group) :: pushBack less key value rest
      else (other, group ++ [value]) :: rest

def groupBy (less : κ → κ → Bool) (key : β → κ) (values : List β) : List (κ × List β) :=
  values.foldl (fun map value => pushBack less (key value) value map) []

/-- The comparator orders the keys by a rank, so that two keys tie exactly when
their ranks are equal. Every strict weak order is of this form. -/
structure RankedBy [LinearOrder ρ] (less : κ → κ → Bool) (rank : κ → ρ) : Prop where
  less_iff : ∀ left right, less left right = true ↔ rank left < rank right

section Ranked

variable [LinearOrder ρ] {less : κ → κ → Bool} {rank : κ → ρ}

theorem RankedBy.not_less_iff (ranked : RankedBy less rank) (left right : κ) :
    ¬less left right = true ↔ rank right ≤ rank left := by
  rw [ranked.less_iff, not_lt]

theorem RankedBy.tie_iff (ranked : RankedBy less rank) (left right : κ) :
    (¬less left right = true ∧ ¬less right left = true) ↔ rank left = rank right := by
  rw [ranked.not_less_iff, ranked.not_less_iff, and_comm, ← le_antisymm_iff]

theorem RankedBy.isStrictWeakOrder (ranked : RankedBy less rank) :
    IsStrictWeakOrder κ fun left right => less left right = true where
  irrefl := by
    intro key smaller
    exact lt_irrefl (rank key) ((ranked.less_iff key key).mp smaller)
  trans := by
    intro first second third left right
    rw [ranked.less_iff] at left right ⊢
    exact left.trans right
  incomp_trans := by
    intro first second third left right
    rw [ranked.tie_iff] at left right ⊢
    exact left.trans right

/-- Appending loses no value and adds no other. -/
theorem perm_pushBack (less : κ → κ → Bool) (key : κ) (value : β) (map : List (κ × List β)) :
    ((pushBack less key value map).flatMap Prod.snd).Perm (value :: map.flatMap Prod.snd) := by
  induction map with
  | nil => exact List.Perm.refl _
  | cons head tail induction =>
      rcases head with ⟨other, group⟩
      rw [pushBack]
      split
      · exact List.Perm.refl _
      · split
        · exact (induction.append_left group).trans List.perm_middle
        · simp only [List.flatMap_cons, List.append_assoc]
          exact List.perm_middle

theorem perm_groupBy (less : κ → κ → Bool) (key : β → κ) (values : List β) :
    ((groupBy less key values).flatMap Prod.snd).Perm values := by
  have general : ∀ (rest : List β) (map : List (κ × List β)),
      ((rest.foldl (fun map value => pushBack less (key value) value map) map).flatMap
        Prod.snd).Perm (rest ++ map.flatMap Prod.snd) := by
    intro rest
    induction rest with
    | nil =>
        intro map
        exact List.Perm.refl _
    | cons value rest induction =>
        intro map
        apply (induction _).trans
        exact ((perm_pushBack less (key value) value map).append_left rest).trans
          List.perm_middle
  have whole := general values []
  rw [List.flatMap_nil, List.append_nil] at whole
  exact whole

/-- Entries in strict key order. -/
def KeysSorted (rank : κ → ρ) (map : List (κ × List β)) : Prop :=
  map.Pairwise fun left right => rank left.1 < rank right.1

theorem KeysSorted.eq_of_rank {map : List (κ × List β)} (sorted : KeysSorted rank map)
    {left right : κ × List β} (leftMember : left ∈ map) (rightMember : right ∈ map)
    (same : rank left.1 = rank right.1) : left = right := by
  have distinct : (map.map fun entry => rank entry.1).Nodup := by
    rw [List.Nodup, List.pairwise_map]
    exact sorted.imp fun {_ _} less => less.ne
  exact List.inj_on_of_nodup_map distinct leftMember rightMember same

section Equations

variable {key other : κ}

theorem pushBack_of_before (ranked : RankedBy less rank) (before : rank key < rank other)
    (value : β) (group : List β) (rest : List (κ × List β)) :
    pushBack less key value ((other, group) :: rest) =
      (key, [value]) :: (other, group) :: rest := by
  rw [pushBack, if_pos ((ranked.less_iff key other).mpr before)]

theorem pushBack_of_after (ranked : RankedBy less rank) (after : rank other < rank key)
    (value : β) (group : List β) (rest : List (κ × List β)) :
    pushBack less key value ((other, group) :: rest) =
      (other, group) :: pushBack less key value rest := by
  rw [pushBack, if_neg ((ranked.not_less_iff key other).mpr after.le),
    if_pos ((ranked.less_iff other key).mpr after)]

theorem pushBack_of_tie (ranked : RankedBy less rank) (tie : rank other = rank key)
    (value : β) (group : List β) (rest : List (κ × List β)) :
    pushBack less key value ((other, group) :: rest) = (other, group ++ [value]) :: rest := by
  rw [pushBack, if_neg ((ranked.not_less_iff key other).mpr tie.le),
    if_neg ((ranked.not_less_iff other key).mpr tie.ge)]

end Equations

/-- Appending touches the entries of the key's rank only. -/
theorem mem_pushBack (ranked : RankedBy less rank) (key : κ) (value : β)
    {map : List (κ × List β)} (sorted : KeysSorted rank map) (entry : κ × List β) :
    entry ∈ pushBack less key value map ↔
      (entry ∈ map ∧ rank entry.1 ≠ rank key) ∨
      (∃ group, (entry.1, group) ∈ map ∧ rank entry.1 = rank key ∧
        entry.2 = group ++ [value]) ∨
      ((∀ other ∈ map, rank other.1 ≠ rank key) ∧ entry = (key, [value])) := by
  induction map with
  | nil => simp [pushBack]
  | cons head tail induction =>
      rcases head with ⟨other, group⟩
      rcases List.pairwise_cons.mp sorted with ⟨headLess, tailSorted⟩
      rcases lt_trichotomy (rank key) (rank other) with before | tie | after
      · -- The key comes first, and no entry has its rank.
        have apart : ∀ entry ∈ (other, group) :: tail, rank entry.1 ≠ rank key :=
          List.forall_mem_cons.mpr ⟨before.ne', fun entry member =>
            (before.trans (headLess entry member)).ne'⟩
        rw [pushBack_of_before ranked before, List.mem_cons]
        constructor
        · intro either
          rcases either with fresh | member
          · exact .inr (.inr ⟨apart, fresh⟩)
          · exact .inl ⟨member, apart entry member⟩
        · intro either
          rcases either with kept | appended | fresh
          · exact .inr kept.1
          · rcases appended with ⟨old, member, equal, -⟩
            exact absurd equal (apart (entry.1, old) member)
          · exact .inl fresh.2
      · -- The first entry takes the value, and no later one has its rank.
        have apart : ∀ entry ∈ tail, rank entry.1 ≠ rank key := fun entry member =>
          tie ▸ (headLess entry member).ne'
        rw [pushBack_of_tie ranked tie.symm, List.mem_cons]
        constructor
        · intro either
          rcases either with first | member
          · rw [first]
            exact .inr (.inl ⟨group, List.mem_cons_self .., tie.symm, rfl⟩)
          · exact .inl ⟨List.mem_cons_of_mem _ member, apart entry member⟩
        · intro either
          rcases either with kept | appended | fresh
          · rcases List.mem_cons.mp kept.1 with first | member
            · exact absurd (first ▸ tie.symm) kept.2
            · exact .inr member
          · rcases appended with ⟨old, member, equal, extended⟩
            rcases List.mem_cons.mp member with first | member
            · rcases Prod.mk.inj first with ⟨sameKey, sameGroup⟩
              exact .inl (Prod.ext sameKey (sameGroup ▸ extended))
            · exact absurd equal (apart (entry.1, old) member)
          · exact absurd tie.symm (fresh.1 _ (List.mem_cons_self ..))
      · rw [pushBack_of_after ranked after, List.mem_cons, induction tailSorted]
        constructor
        · intro either
          rcases either with first | kept | appended | fresh
          · rw [first]
            exact .inl ⟨List.mem_cons_self .., after.ne⟩
          · exact .inl ⟨List.mem_cons_of_mem _ kept.1, kept.2⟩
          · rcases appended with ⟨old, member, rest⟩
            exact .inr (.inl ⟨old, List.mem_cons_of_mem _ member, rest⟩)
          · exact .inr (.inr ⟨List.forall_mem_cons.mpr ⟨after.ne, fresh.1⟩, fresh.2⟩)
        · intro either
          rcases either with kept | appended | fresh
          · rcases List.mem_cons.mp kept.1 with first | member
            · exact .inl first
            · exact .inr (.inl ⟨member, kept.2⟩)
          · rcases appended with ⟨old, member, equal, extended⟩
            rcases List.mem_cons.mp member with first | member
            · rw [(Prod.mk.inj first).1] at equal
              exact absurd equal after.ne
            · exact .inr (.inr (.inl ⟨old, member, equal, extended⟩))
          · exact .inr (.inr (.inr ⟨(List.forall_mem_cons.mp fresh.1).2, fresh.2⟩))

theorem keysSorted_pushBack (ranked : RankedBy less rank) (key : κ) (value : β)
    {map : List (κ × List β)} (sorted : KeysSorted rank map) :
    KeysSorted rank (pushBack less key value map) := by
  induction map with
  | nil => simp [pushBack, KeysSorted]
  | cons head tail induction =>
      rcases head with ⟨other, group⟩
      rcases List.pairwise_cons.mp sorted with ⟨headLess, tailSorted⟩
      rcases lt_trichotomy (rank key) (rank other) with before | tie | after
      · rw [pushBack_of_before ranked before]
        refine List.pairwise_cons.mpr ⟨?_, sorted⟩
        exact List.forall_mem_cons.mpr ⟨before, fun entry member =>
          before.trans (headLess entry member)⟩
      · rw [pushBack_of_tie ranked tie.symm]
        exact List.pairwise_cons.mpr ⟨headLess, tailSorted⟩
      · rw [pushBack_of_after ranked after]
        refine List.pairwise_cons.mpr ⟨?_, induction tailSorted⟩
        intro entry member
        rcases (mem_pushBack ranked key value tailSorted entry).mp member with
          kept | appended | fresh
        · exact headLess entry kept.1
        · rcases appended with ⟨old, oldMember, -⟩
          exact headLess (entry.1, old) oldMember
        · rw [fresh.2]
          exact after

/-- What a grouped map holds of the values appended so far: every group is the
non-empty sublist of the values whose key ties with its own, in order. -/
structure Grouped (rank : κ → ρ) (key : β → κ) (values : List β)
    (map : List (κ × List β)) : Prop where
  sorted : KeysSorted rank map
  group_eq : ∀ entry ∈ map,
    entry.2 = values.filter fun value => rank (key value) = rank entry.1
  group_ne_nil : ∀ entry ∈ map, entry.2 ≠ []
  covers : ∀ value ∈ values, ∃ entry ∈ map, rank entry.1 = rank (key value)

theorem Grouped.pushBack (ranked : RankedBy less rank) {key : β → κ} {values : List β}
    {map : List (κ × List β)} (grouped : Grouped rank key values map) (value : β) :
    Grouped rank key (values ++ [value]) (pushBack less (key value) value map) where
  sorted := keysSorted_pushBack ranked _ _ grouped.sorted
  group_eq := by
    intro entry member
    rw [List.filter_append]
    rcases (mem_pushBack ranked _ _ grouped.sorted entry).mp member with
      kept | appended | fresh
    · have different : rank (key value) ≠ rank entry.1 := kept.2.symm
      rw [grouped.group_eq entry kept.1]
      simp [different]
    · rcases appended with ⟨old, oldMember, equal, extended⟩
      have oldGroup : old = values.filter fun value => rank (key value) = rank entry.1 :=
        grouped.group_eq _ oldMember
      rw [extended, oldGroup]
      simp [equal]
    · have none : values.filter (fun other => rank (key other) = rank entry.1) = [] := by
        apply List.filter_eq_nil_iff.mpr
        intro other inside tie
        rcases grouped.covers other inside with ⟨found, foundMember, foundRank⟩
        apply fresh.1 found foundMember
        rw [foundRank, of_decide_eq_true tie, fresh.2]
      rw [none, fresh.2]
      simp
  group_ne_nil := by
    intro entry member
    rcases (mem_pushBack ranked _ _ grouped.sorted entry).mp member with
      kept | appended | fresh
    · exact grouped.group_ne_nil entry kept.1
    · rcases appended with ⟨old, -, -, extended⟩
      rw [extended]
      simp
    · rw [fresh.2]
      simp
  covers := by
    intro other member
    have present : ∀ entry ∈ map, ∃ found ∈ Desan.pushBack less (key value) value map,
        rank found.1 = rank entry.1 := by
      intro entry inside
      by_cases tie : rank entry.1 = rank (key value)
      · exact ⟨(entry.1, entry.2 ++ [value]),
          (mem_pushBack ranked _ _ grouped.sorted _).mpr
            (.inr (.inl ⟨entry.2, inside, tie, rfl⟩)), rfl⟩
      · exact ⟨entry,
          (mem_pushBack ranked _ _ grouped.sorted _).mpr (.inl ⟨inside, tie⟩), rfl⟩
    rcases List.mem_append.mp member with earlier | last
    · rcases grouped.covers other earlier with ⟨entry, inside, entryRank⟩
      rcases present entry inside with ⟨found, foundMember, foundRank⟩
      exact ⟨found, foundMember, foundRank.trans entryRank⟩
    · have equal : other = value := by simpa using last
      rw [equal]
      by_cases known : ∃ entry ∈ map, rank entry.1 = rank (key value)
      · rcases known with ⟨entry, inside, entryRank⟩
        rcases present entry inside with ⟨found, foundMember, foundRank⟩
        exact ⟨found, foundMember, foundRank.trans entryRank⟩
      · refine ⟨(key value, [value]),
          (mem_pushBack ranked _ _ grouped.sorted _).mpr (.inr (.inr ⟨?_, rfl⟩)), rfl⟩
        exact fun entry inside tie => known ⟨entry, inside, tie⟩

/-- Grouping a list splits it by the ties of the comparator. -/
theorem grouped_groupBy (ranked : RankedBy less rank) (key : β → κ) (values : List β) :
    Grouped rank key values (groupBy less key values) := by
  have general : ∀ (rest done : List β) (map : List (κ × List β)),
      Grouped rank key done map →
        Grouped rank key (done ++ rest)
          (rest.foldl (fun map value => Desan.pushBack less (key value) value map) map) := by
    intro rest
    induction rest with
    | nil =>
        intro done map grouped
        rw [List.append_nil]
        exact grouped
    | cons value rest induction =>
        intro done map grouped
        have extended := induction _ _ (grouped.pushBack ranked value)
        rw [List.append_assoc] at extended
        exact extended
  have empty : Grouped rank key ([] : List β) [] :=
    ⟨.nil, by simp, by simp, by simp⟩
  exact general values [] [] empty

end Ranked

end Desan
