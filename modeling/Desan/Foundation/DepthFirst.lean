import Mathlib.Data.Finset.Card
import Mathlib.Data.Finset.SDiff

/-! # Depth-first collection

The vertices to keep that a walk into the depth comes to, appended to those that
earlier walks have come to. A walk stops at a vertex that is there already. -/

namespace Desan

variable {α : Type*} [DecidableEq α]

def depthFirst (keep : α → Bool) (next : α → List α) : Nat → List α → α → List α
  | 0, seen, _ => seen
  | fuel + 1, seen, vertex =>
      if keep vertex = false then seen
      else if vertex ∈ seen then seen
      else (next vertex).foldl (depthFirst keep next fuel) (seen ++ [vertex])

namespace DepthFirst

variable {keep : α → Bool} {next : α → List α}

/-! ## What a walk adds -/

/-- What holds of the vertices walked from and passes to the next vertex kept holds
of all that is collected. -/
theorem forall_of_depthFirst {holds : α → Prop}
    (passes : ∀ vertex, holds vertex → ∀ successor ∈ next vertex,
      keep successor = true → holds successor)
    {fuel : Nat} {seen : List α} {vertex : α} (start : keep vertex = true → holds vertex)
    (before : ∀ old ∈ seen, holds old) :
    ∀ found ∈ depthFirst keep next fuel seen vertex, holds found := by
  induction fuel generalizing seen vertex with
  | zero => exact before
  | succ fuel induction =>
      rw [depthFirst]
      split
      · exact before
      · rename_i kept
        split
        · exact before
        · have here : holds vertex := start (Bool.eq_true_of_not_eq_false kept)
          have longer : ∀ old ∈ seen ++ [vertex], holds old := by
            intro old member
            rcases List.mem_append.mp member with inSeen | isVertex
            · exact before old inSeen
            · rw [List.mem_singleton.mp isVertex]
              exact here
          exact List.foldlRecOn (motive := fun seen => ∀ old ∈ seen, holds old)
            (next vertex) (depthFirst keep next fuel) longer
            fun seen before successor member =>
              induction (passes vertex here successor member) before

theorem nodup_depthFirst {fuel : Nat} {seen : List α} {vertex : α} (nodup : seen.Nodup) :
    (depthFirst keep next fuel seen vertex).Nodup := by
  induction fuel generalizing seen vertex with
  | zero => exact nodup
  | succ fuel induction =>
      rw [depthFirst]
      split
      · exact nodup
      · split
        · exact nodup
        · rename_i fresh
          have longer : (seen ++ [vertex]).Nodup := by
            rw [List.nodup_append]
            refine ⟨nodup, List.nodup_singleton vertex, ?_⟩
            intro old member other isVertex equal
            rw [List.mem_singleton.mp isVertex] at equal
            exact fresh (equal ▸ member)
          exact List.foldlRecOn (next vertex) (depthFirst keep next fuel) longer
            fun seen before successor _ => induction before

/-! ## What a walk has to come to -/

/-- What a walk from the roots owes: it has the roots, and what it added is closed
under the successors to keep. -/
structure Settles (keep : α → Bool) (next : α → List α) (roots seen found : List α) :
    Prop where
  subset : seen ⊆ found
  roots : ∀ root ∈ roots, keep root = true → root ∈ found
  closed : ∀ vertex ∈ found, vertex ∉ seen → ∀ successor ∈ next vertex,
    keep successor = true → successor ∈ found

omit [DecidableEq α] in
theorem Settles.refl (seen : List α) : Settles keep next [] seen seen where
  subset := List.Subset.refl seen
  roots := by simp
  closed := fun _ member fresh => absurd member fresh

omit [DecidableEq α] in
theorem Settles.cons {root : α} {roots seen middle found : List α}
    (first : Settles keep next [root] seen middle) (rest : Settles keep next roots middle found) :
    Settles keep next (root :: roots) seen found where
  subset := List.Subset.trans first.subset rest.subset
  roots := by
    intro other member kept
    rcases List.mem_cons.mp member with rfl | later
    · exact rest.subset (first.roots other (List.mem_singleton_self other) kept)
    · exact rest.roots other later kept
  closed := by
    intro vertex member fresh successor isNext kept
    by_cases early : vertex ∈ middle
    · exact rest.subset (first.closed vertex early fresh successor isNext kept)
    · exact rest.closed vertex member early successor isNext kept

/-- The vertices that are still to be come to. -/
def unseen (vertices : Finset α) (seen : List α) : Nat :=
  (vertices \ seen.toFinset).card

theorem unseen_le {vertices : Finset α} {seen found : List α} (subset : seen ⊆ found) :
    unseen vertices found ≤ unseen vertices seen := by
  apply Finset.card_le_card
  apply Finset.sdiff_subset_sdiff (Finset.Subset.refl vertices)
  intro vertex member
  exact List.mem_toFinset.mpr (subset (List.mem_toFinset.mp member))

theorem unseen_append_lt {vertices : Finset α} {seen : List α} {vertex : α}
    (member : vertex ∈ vertices) (fresh : vertex ∉ seen) :
    unseen vertices (seen ++ [vertex]) < unseen vertices seen := by
  apply Finset.card_lt_card
  rw [Finset.ssubset_iff_of_subset]
  · refine ⟨vertex, ?_, ?_⟩
    · simpa using ⟨member, fresh⟩
    · simp
  · apply Finset.sdiff_subset_sdiff (Finset.Subset.refl vertices)
    intro old member
    rw [List.mem_toFinset] at member ⊢
    exact List.mem_append_left [vertex] member

/-- A walk from each root in turn, where there is fuel for the first. -/
theorem settles_foldl {vertices : Finset α} {fuel : Nat}
    (walk : ∀ (seen : List α) (root : α), unseen vertices seen < fuel →
      Settles keep next [root] seen (depthFirst keep next fuel seen root))
    (roots : List α) (seen : List α) (enough : unseen vertices seen < fuel) :
    Settles keep next roots seen (roots.foldl (depthFirst keep next fuel) seen) := by
  induction roots generalizing seen with
  | nil => exact Settles.refl seen
  | cons root roots induction =>
      have first := walk seen root enough
      have less := Nat.lt_of_le_of_lt (unseen_le first.subset) enough
      exact Settles.cons first (induction _ less)

/-- As many turns as there are vertices left, and one more, settle the walk. -/
theorem settles_depthFirst {vertices : Finset α}
    (inside : ∀ vertex, keep vertex = true → vertex ∈ vertices) {fuel : Nat} {seen : List α}
    {vertex : α} (enough : unseen vertices seen < fuel) :
    Settles keep next [vertex] seen (depthFirst keep next fuel seen vertex) := by
  induction fuel generalizing seen vertex with
  | zero => exact absurd enough (Nat.not_lt_zero _)
  | succ fuel induction =>
      rw [depthFirst]
      split
      · rename_i dropped
        refine ⟨List.Subset.refl seen, ?_, fun _ member fresh => absurd member fresh⟩
        intro root member kept
        rw [List.mem_singleton.mp member, dropped] at kept
        cases kept
      · rename_i kept
        split
        · rename_i old
          refine ⟨List.Subset.refl seen, ?_, fun _ member fresh => absurd member fresh⟩
          intro root member _
          rw [List.mem_singleton.mp member]
          exact old
        · rename_i fresh
          have less : unseen vertices (seen ++ [vertex]) < fuel := by
            have drops := unseen_append_lt
              (inside vertex (Bool.eq_true_of_not_eq_false kept)) fresh
            omega
          have settled : Settles keep next (next vertex) (seen ++ [vertex])
              ((next vertex).foldl (depthFirst keep next fuel) (seen ++ [vertex])) :=
            settles_foldl (fun seen root enough => induction enough) _ _ less
          refine ⟨?_, ?_, ?_⟩
          · exact List.Subset.trans (List.subset_append_left seen [vertex]) settled.subset
          · intro root member _
            rw [List.mem_singleton.mp member]
            exact settled.subset (List.mem_append_right seen (List.mem_singleton_self vertex))
          · intro found member new successor isNext keeps
            by_cases isVertex : found = vertex
            · rw [isVertex] at isNext
              exact settled.roots successor isNext keeps
            · apply settled.closed found member _ successor isNext keeps
              intro early
              rcases List.mem_append.mp early with inSeen | last
              · exact new inSeen
              · exact isVertex (List.mem_singleton.mp last)

end DepthFirst

end Desan
