import Mathlib.Data.List.Basic

/-! # A search by levels

A search that visits the vertices of one level after the other, up to a number of
levels. It visits what lies on a chain of fewer steps than there are levels, however
the graph shares vertices or runs in cycles. -/

namespace Desan

variable {α : Type*}

/-- A chain of exactly that many steps. -/
def StepsTo (successors : α → List α) : Nat → α → α → Prop
  | 0, source, target => source = target
  | count + 1, source, target =>
      ∃ last, StepsTo successors count source last ∧ target ∈ successors last

/-- Chains do not depend on the order of the successors. -/
theorem stepsTo_congr {first second : α → List α}
    (same : ∀ vertex, (first vertex).Perm (second vertex)) {count : Nat} {source target : α} :
    StepsTo first count source target ↔ StepsTo second count source target := by
  induction count generalizing target with
  | zero => exact Iff.rfl
  | succ count induction =>
      rw [StepsTo, StepsTo]
      simp only [induction, (same _).mem_iff]

structure LevelSweep (α : Type*) where
  visited : List α := []
  next : List α := []

namespace LevelSweep

variable [DecidableEq α] (successors : α → List α)

def visit (sweep : LevelSweep α) (current : α) : LevelSweep α :=
  if current ∈ sweep.visited then sweep
  else ⟨current :: sweep.visited, sweep.next ++ successors current⟩

def levels : Nat → LevelSweep α → List α → LevelSweep α
  | 0, sweep, _ => sweep
  | _ + 1, sweep, [] => sweep
  | fuel + 1, sweep, worklist =>
      let swept := worklist.foldl (visit successors) ⟨sweep.visited, []⟩
      levels fuel swept swept.next

variable {successors} {sweep : LevelSweep α} {worklist : List α} {vertex : α}

/-- A level visits its worklist. -/
theorem mem_visited_foldl :
    vertex ∈ (worklist.foldl (visit successors) sweep).visited ↔
      vertex ∈ sweep.visited ∨ vertex ∈ worklist := by
  induction worklist generalizing sweep with
  | nil => simp
  | cons current rest induction =>
      rw [List.foldl_cons, induction, visit, List.mem_cons]
      split
      · rename_i seen
        constructor
        · intro member
          rcases member with old | later
          · exact .inl old
          · exact .inr (.inr later)
        · intro member
          rcases member with old | rfl | later
          · exact .inl old
          · exact .inl seen
          · exact .inr later
      · simp only [List.mem_cons]
        tauto

/-- What waits after a level are the successors of what it visits first. -/
theorem mem_next_foldl :
    vertex ∈ (worklist.foldl (visit successors) sweep).next ↔
      vertex ∈ sweep.next ∨
        ∃ current ∈ worklist, current ∉ sweep.visited ∧ vertex ∈ successors current := by
  induction worklist generalizing sweep with
  | nil => simp
  | cons current rest induction =>
      rw [List.foldl_cons, induction, visit]
      split
      · rename_i seen
        constructor
        · intro member
          rcases member with old | ⟨other, later, fresh, isNext⟩
          · exact .inl old
          · exact .inr ⟨other, List.mem_cons_of_mem _ later, fresh, isNext⟩
        · intro member
          rcases member with old | ⟨other, inside, fresh, isNext⟩
          · exact .inl old
          · rcases List.mem_cons.mp inside with rfl | later
            · exact absurd seen fresh
            · exact .inr ⟨other, later, fresh, isNext⟩
      · rename_i unseen
        simp only [List.mem_append, List.mem_cons, not_or]
        constructor
        · intro member
          rcases member with (old | isNext) | ⟨other, later, fresh, isNext⟩
          · exact .inl old
          · exact .inr ⟨current, .inl rfl, unseen, isNext⟩
          · exact .inr ⟨other, .inr later, fresh.2, isNext⟩
        · intro member
          rcases member with old | ⟨other, inside, fresh, isNext⟩
          · exact .inl (.inl old)
          · by_cases same : other = current
            · exact .inl (.inr (same ▸ isNext))
            · exact .inr ⟨other, inside.resolve_left same, ⟨same, fresh⟩, isNext⟩

/-- What holds before a level: what has been visited lies on shorter chains, and the
worklist holds what is still to be visited at the end of chains of this length. -/
structure AtLevel (successors : α → List α) (start : α) (level : Nat)
    (seen waiting : List α) : Prop where
  visited : ∀ vertex, vertex ∈ seen ↔ ∃ count < level, StepsTo successors count start vertex
  reached : ∀ vertex, StepsTo successors level start vertex →
    vertex ∈ seen ∨ vertex ∈ waiting
  chains : ∀ vertex ∈ waiting, StepsTo successors level start vertex

variable {start : α} {level : Nat}

theorem AtLevel.step (holds : AtLevel successors start level sweep.visited worklist) :
    AtLevel successors start (level + 1)
      (worklist.foldl (visit successors) ⟨sweep.visited, []⟩).visited
      (worklist.foldl (visit successors) ⟨sweep.visited, []⟩).next where
  visited := by
    intro vertex
    rw [mem_visited_foldl]
    constructor
    · intro member
      rcases member with old | inside
      · rcases (holds.visited vertex).mp old with ⟨count, less, chain⟩
        exact ⟨count, by omega, chain⟩
      · exact ⟨level, by omega, holds.chains vertex inside⟩
    · intro some
      rcases some with ⟨count, less, chain⟩
      by_cases same : count = level
      · exact holds.reached vertex (same ▸ chain)
      · exact .inl ((holds.visited vertex).mpr ⟨count, by omega, chain⟩)
  reached := by
    intro vertex some
    rcases some with ⟨last, chain, isNext⟩
    rw [mem_visited_foldl, mem_next_foldl]
    by_cases old : last ∈ sweep.visited
    · -- The successor of a vertex of an earlier level is not new.
      rcases (holds.visited last).mp old with ⟨count, less, shorter⟩
      have early : StepsTo successors (count + 1) start vertex := ⟨last, shorter, isNext⟩
      by_cases same : count + 1 = level
      · exact .inl (holds.reached vertex (same ▸ early))
      · exact .inl (.inl ((holds.visited vertex).mpr ⟨count + 1, by omega, early⟩))
    · have inside := (holds.reached last chain).resolve_left old
      exact .inr (.inr ⟨last, inside, old, isNext⟩)
  chains := by
    intro vertex member
    rcases mem_next_foldl.mp member with none | ⟨last, inside, -, isNext⟩
    · exact absurd none List.not_mem_nil
    · exact ⟨last, holds.chains last inside, isNext⟩

theorem mem_visited_levels_iff {bound : Nat}
    (holds : AtLevel successors start level sweep.visited worklist) :
    vertex ∈ (levels successors bound sweep worklist).visited ↔
      ∃ count < level + bound, StepsTo successors count start vertex := by
  induction bound generalizing sweep worklist level with
  | zero => exact holds.visited vertex
  | succ bound induction =>
      have next := induction holds.step
      have same : level + (bound + 1) = level + 1 + bound := by omega
      rw [same, ← next]
      cases worklist with
      | nil =>
          rw [levels]
          cases bound <;> rfl
      | cons current rest => rfl

omit [DecidableEq α] in
theorem atLevel_start (start : α) : AtLevel successors start 0 [] [start] where
  visited := by simp
  reached := fun _ same => .inr (List.mem_singleton.mpr (Eq.symm same))
  chains := fun _ member => (List.mem_singleton.mp member).symm

/-- A search of some levels visits what lies on shorter chains. -/
theorem mem_levels_iff {bound : Nat} :
    vertex ∈ (levels successors bound {} [start]).visited ↔
      ∃ count < bound, StepsTo successors count start vertex := by
  rw [mem_visited_levels_iff (atLevel_start start), Nat.zero_add]

/-! ## The nearest hit -/

section Nearest

variable {β : Type*} (found : α → Option β)

/-- The first hit among the vertices of a worklist that are new. -/
def hit? : List α → List α → Option β
  | _, [] => none
  | visited, current :: rest =>
      if current ∈ visited then hit? visited rest
      else
        match found current with
        | some result => some result
        | none => hit? (current :: visited) rest

variable (successors) in
/-- A search of some levels that ends with its first hit. -/
def nearest? : Nat → List α → List α → Option β
  | 0, _, _ => none
  | _ + 1, _, [] => none
  | fuel + 1, visited, current :: rest =>
      match hit? found visited (current :: rest) with
      | some result => some result
      | none =>
          let swept := (current :: rest).foldl (visit successors) ⟨visited, []⟩
          nearest? fuel swept.visited swept.next

variable {found} {visited : List α} {result : β}

theorem exists_of_hit? (isHit : hit? found visited worklist = some result) :
    ∃ vertex ∈ worklist, found vertex = some result := by
  induction worklist generalizing visited with
  | nil => cases isHit
  | cons current rest induction =>
      rw [hit?] at isHit
      split at isHit
      · rcases induction isHit with ⟨vertex, member, isFound⟩
        exact ⟨vertex, List.mem_cons_of_mem _ member, isFound⟩
      · split at isHit
        · rename_i isFound
          exact ⟨current, List.mem_cons_self .., isFound.trans isHit⟩
        · rcases induction isHit with ⟨vertex, member, isFound⟩
          exact ⟨vertex, List.mem_cons_of_mem _ member, isFound⟩

/-- Where nothing visited before is a hit, a level without a hit has none. -/
theorem eq_none_of_hit? (clean : ∀ vertex ∈ visited, found vertex = none)
    (noHit : hit? found visited worklist = none) :
    ∀ vertex ∈ worklist, found vertex = none := by
  induction worklist generalizing visited with
  | nil => simp
  | cons current rest induction =>
      rw [hit?] at noHit
      split at noHit
      · rename_i old
        intro vertex member
        rcases List.mem_cons.mp member with rfl | later
        · exact clean vertex old
        · exact induction clean noHit vertex later
      · split at noHit
        · cases noHit
        · rename_i none
          intro vertex member
          rcases List.mem_cons.mp member with rfl | later
          · exact none
          · apply induction _ noHit vertex later
            intro other inside
            rcases List.mem_cons.mp inside with rfl | old
            · exact none
            · exact clean other old

/-- At a chain of so many steps there is such a hit, and at no shorter chain any. -/
def NearestAt (successors : α → List α) (found : α → Option β) (start : α) (count : Nat)
    (result : β) : Prop :=
  (∃ vertex, StepsTo successors count start vertex ∧ found vertex = some result) ∧
    ∀ shorter < count, ∀ vertex, StepsTo successors shorter start vertex →
      found vertex = none

theorem nearest?_from {bound : Nat} (holds : AtLevel successors start level visited worklist)
    (clean : ∀ vertex ∈ visited, found vertex = none) :
    (∀ result, nearest? successors found bound visited worklist = some result →
      ∃ count < level + bound, NearestAt successors found start count result) ∧
    (nearest? successors found bound visited worklist = none →
      ∀ count < level + bound, ∀ vertex, StepsTo successors count start vertex →
        found vertex = none) := by
  induction bound generalizing visited worklist level with
  | zero =>
      constructor
      · intro result isHit
        cases isHit
      · intro _ count less vertex chain
        exact clean vertex ((holds.visited vertex).mpr ⟨count, less, chain⟩)
  | succ bound induction =>
      have noneNear : ∀ count < level, ∀ vertex, StepsTo successors count start vertex →
          found vertex = none := fun count less vertex chain =>
        clean vertex ((holds.visited vertex).mpr ⟨count, less, chain⟩)
      have further : level + (bound + 1) = level + 1 + bound := by omega
      have step : AtLevel successors start (level + 1)
          (worklist.foldl (visit successors) ⟨visited, []⟩).visited
          (worklist.foldl (visit successors) ⟨visited, []⟩).next :=
        @AtLevel.step _ _ _ ⟨visited, []⟩ _ _ _ holds
      cases hit : hit? found visited worklist with
      | some first =>
          have search : nearest? successors found (bound + 1) visited worklist = some first := by
            cases worklist with
            | nil => cases hit
            | cons current rest => rw [nearest?, hit]
          rw [search]
          constructor
          · intro result same
            cases same
            rcases exists_of_hit? hit with ⟨vertex, member, isFound⟩
            exact ⟨level, by omega, ⟨vertex, holds.chains vertex member, isFound⟩, noneNear⟩
          · intro noHit
            cases noHit
      | none =>
          have search : nearest? successors found (bound + 1) visited worklist =
              nearest? successors found bound
                (worklist.foldl (visit successors) ⟨visited, []⟩).visited
                (worklist.foldl (visit successors) ⟨visited, []⟩).next := by
            cases worklist with
            | nil => cases bound <;> rfl
            | cons current rest => rw [nearest?, hit]
          rw [search, further]
          apply induction step
          intro vertex member
          rcases mem_visited_foldl.mp member with old | inside
          · exact clean vertex old
          · exact eq_none_of_hit? clean hit vertex inside

/-- The search finds a hit of the nearest level that has one. -/
theorem nearest?_eq {bound : Nat} :
    (∀ result, nearest? successors found bound [] [start] = some result →
      ∃ count < bound, NearestAt successors found start count result) ∧
    (nearest? successors found bound [] [start] = none →
      ∀ count < bound, ∀ vertex, StepsTo successors count start vertex →
        found vertex = none) := by
  have clean : ∀ vertex ∈ ([] : List α), found vertex = none := by simp
  have search := @nearest?_from _ _ successors _ _ _ _ found _ bound (atLevel_start start) clean
  rw [Nat.zero_add] at search
  exact search

end Nearest

end LevelSweep

end Desan
