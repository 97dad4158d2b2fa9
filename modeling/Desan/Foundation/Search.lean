import Mathlib.Algebra.BigOperators.Group.Finset.Basic
import Mathlib.Algebra.GroupWithZero.Nat
import Mathlib.Data.Finset.SDiff
import Mathlib.Logic.Relation

/-! # Breadth-first search

A search of a graph from a worklist, with a set of visited vertices. The fuel bounds
the turns of the loop; what remains to be pushed is measured on a finite vertices
outside which no vertex has a successor. -/

namespace Desan

variable {α : Type*} [DecidableEq α]

/-- Whether the search pops the goal. -/
def search (next : α → List α) (goal : α) : Nat → List α → List α → Bool
  | 0, _, _ => false
  | _ + 1, _, [] => false
  | fuel + 1, visited, current :: rest =>
      if current ∈ visited then search next goal fuel visited rest
      else if current = goal then true
      else search next goal fuel (current :: visited) (rest ++ next current)

namespace Search

variable {next : α → List α} {goal : α}

abbrev Reaches (next : α → List α) : α → α → Prop :=
  Relation.ReflTransGen fun source target => target ∈ next source

theorem exists_reaches_of_search {fuel : Nat} {visited worklist : List α}
    (found : search next goal fuel visited worklist = true) :
    ∃ source ∈ worklist, Reaches next source goal := by
  induction fuel generalizing visited worklist with
  | zero => cases found
  | succ fuel induction =>
      cases worklist with
      | nil => cases found
      | cons current rest =>
          rw [search] at found
          split at found
          · rcases induction found with ⟨source, member, path⟩
            exact ⟨source, List.mem_cons_of_mem _ member, path⟩
          · split at found
            · rename_i atGoal
              exact ⟨current, List.mem_cons_self .., atGoal ▸ .refl⟩
            · rcases induction found with ⟨source, member, path⟩
              rcases List.mem_append.mp member with inRest | isNext
              · exact ⟨source, List.mem_cons_of_mem _ inRest, path⟩
              · exact ⟨current, List.mem_cons_self .., .head isNext path⟩

/-- What the loop keeps: the goal is not visited, and every successor of a visited
vertex is visited or waits. -/
structure Frontier (next : α → List α) (goal : α) (visited worklist : List α) : Prop where
  goal : goal ∉ visited
  closed : ∀ vertex ∈ visited, ∀ successor ∈ next vertex,
    successor ∈ visited ∨ successor ∈ worklist

omit [DecidableEq α] in
/-- Once nothing waits, the visited vertices are closed and the goal is not among them. -/
theorem Frontier.not_reaches {visited : List α} (frontier : Frontier next goal visited [])
    {source : α} (member : source ∈ visited) : ¬Reaches next source goal := by
  intro path
  have stays : ∀ vertex, Reaches next source vertex → vertex ∈ visited := by
    intro vertex reaches
    induction reaches with
    | refl => exact member
    | tail _ step inside =>
        exact (frontier.closed _ inside _ step).resolve_right List.not_mem_nil
  exact frontier.goal (stays goal path)

/-- The edges that the loop may still push, and the vertices it has to pop. -/
def pending (next : α → List α) (vertices : Finset α) (visited worklist : List α) : Nat :=
  worklist.length + ∑ vertex ∈ vertices \ visited.toFinset, (next vertex).length

theorem pending_visit {vertices : Finset α} {visited rest : List α} {current : α}
    (outside : ∀ vertex, vertex ∉ vertices → next vertex = [])
    (fresh : current ∉ visited) :
    pending next vertices (current :: visited) (rest ++ next current) + 1 =
      pending next vertices visited (current :: rest) := by
  have removed : vertices \ (current :: visited).toFinset =
      (vertices \ visited.toFinset).erase current := by
    rw [List.toFinset_cons, Finset.sdiff_insert]
  simp only [pending, removed, List.length_append, List.length_cons]
  by_cases inside : current ∈ vertices
  · have member : current ∈ vertices \ visited.toFinset :=
      Finset.mem_sdiff.mpr ⟨inside, fun seen => fresh (List.mem_toFinset.mp seen)⟩
    rw [← Finset.add_sum_erase _ _ member]
    omega
  · have notMember : current ∉ vertices \ visited.toFinset :=
      fun member => inside (Finset.mem_sdiff.mp member).1
    rw [Finset.erase_eq_of_notMem notMember, outside current inside]
    simp only [List.length_nil]
    omega

section Steps

variable {visited rest : List α} {current vertex : α}

omit [DecidableEq α] in
theorem known_of_skip (seen : current ∈ visited)
    (known : vertex ∈ visited ∨ vertex ∈ current :: rest) : vertex ∈ visited ∨ vertex ∈ rest := by
  rcases known with old | waits
  · exact .inl old
  · rcases List.mem_cons.mp waits with rfl | later
    · exact .inl seen
    · exact .inr later

omit [DecidableEq α] in
theorem known_of_visit (known : vertex ∈ visited ∨ vertex ∈ current :: rest) :
    vertex ∈ current :: visited ∨ vertex ∈ rest ++ next current := by
  rcases known with old | waits
  · exact .inl (List.mem_cons_of_mem _ old)
  · rcases List.mem_cons.mp waits with rfl | later
    · exact .inl (List.mem_cons_self ..)
    · exact .inr (List.mem_append_left _ later)

omit [DecidableEq α] in
theorem Frontier.skip (frontier : Frontier next goal visited (current :: rest))
    (seen : current ∈ visited) : Frontier next goal visited rest where
  goal := frontier.goal
  closed := fun vertex member successor isNext =>
    known_of_skip seen (frontier.closed vertex member successor isNext)

omit [DecidableEq α] in
theorem Frontier.visit (frontier : Frontier next goal visited (current :: rest))
    (notGoal : current ≠ goal) :
    Frontier next goal (current :: visited) (rest ++ next current) where
  goal := by
    intro member
    rcases List.mem_cons.mp member with equal | old
    · exact notGoal equal.symm
    · exact frontier.goal old
  closed := by
    intro vertex member successor isNext
    rcases List.mem_cons.mp member with rfl | old
    · exact .inr (List.mem_append_right _ isNext)
    · exact known_of_visit (frontier.closed vertex old successor isNext)

end Steps

/-- A search that ends without the goal has closed off everything it could reach. -/
theorem not_reaches_of_search_eq_false {vertices : Finset α} {fuel : Nat}
    {visited worklist : List α} (outside : ∀ vertex, vertex ∉ vertices → next vertex = [])
    (enough : pending next vertices visited worklist ≤ fuel)
    (frontier : Frontier next goal visited worklist)
    (missed : search next goal fuel visited worklist = false) :
    ∀ source, source ∈ visited ∨ source ∈ worklist → ¬Reaches next source goal := by
  induction fuel generalizing visited worklist with
  | zero =>
      have empty : worklist = [] := by
        apply List.eq_nil_of_length_eq_zero
        rw [pending] at enough
        omega
      rw [empty] at frontier
      intro source member
      exact frontier.not_reaches (member.resolve_right (by simp [empty]))
  | succ fuel induction =>
      cases worklist with
      | nil =>
          intro source member
          exact frontier.not_reaches (member.resolve_right List.not_mem_nil)
      | cons current rest =>
          rw [search] at missed
          split at missed
          · rename_i seen
            have less : pending next vertices visited rest ≤ fuel := by
              rw [pending, List.length_cons] at enough
              rw [pending]
              omega
            intro source known
            exact induction less (frontier.skip seen) missed source (known_of_skip seen known)
          · rename_i fresh
            split at missed
            · cases missed
            · rename_i notGoal
              have less : pending next vertices (current :: visited) (rest ++ next current) ≤
                  fuel := by
                have visit : pending next vertices (current :: visited)
                    (rest ++ next current) + 1 = pending next vertices visited
                      (current :: rest) := pending_visit outside fresh
                omega
              intro source known
              exact induction less (frontier.visit notGoal) missed source (known_of_visit known)

/-- With enough fuel the search answers whether the worklist reaches the goal. -/
theorem search_iff {vertices : Finset α} {fuel : Nat} {worklist : List α}
    (outside : ∀ vertex, vertex ∉ vertices → next vertex = [])
    (enough : worklist.length + ∑ vertex ∈ vertices, (next vertex).length ≤ fuel) :
    search next goal fuel [] worklist = true ↔
      ∃ source ∈ worklist, Reaches next source goal := by
  constructor
  · exact exists_reaches_of_search
  · intro reaches
    rcases reaches with ⟨source, member, path⟩
    cases outcome : search next goal fuel [] worklist with
    | true => rfl
    | false =>
        have enough : pending next vertices [] worklist ≤ fuel := by
          rw [pending, List.toFinset_nil, Finset.sdiff_empty]
          exact enough
        have frontier : Frontier next goal [] worklist := ⟨by simp, by simp⟩
        exact absurd path
          (not_reaches_of_search_eq_false outside enough frontier outcome source (.inr member))

end Search

end Desan
