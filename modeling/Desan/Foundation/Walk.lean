import Mathlib.Data.List.Basic
import Mathlib.Logic.Relation

/-! # Walks of a rooted graph

A walk is what a control-flow path is to a program point: the vertices already
left behind, latest first, and the vertex control has reached. -/

namespace Desan

variable {α : Type*}

/-- `Walk start edge done vertex`: some walk from a start vertex left the vertices
of `done`, latest first, and has arrived at `vertex`. -/
inductive Walk (start : α → Prop) (edge : α → α → Prop) : List α → α → Prop where
  | start {vertex : α} : start vertex → Walk start edge [] vertex
  | step {done : List α} {source target : α} :
      Walk start edge done source → edge source target →
        Walk start edge (source :: done) target

namespace Walk

variable {start : α → Prop} {edge : α → α → Prop}

/-- The part of a walk up to a vertex it left is a walk to that vertex. -/
theorem prefix_of_append {before after : List α} {middle vertex : α}
    (walk : Walk start edge (after ++ middle :: before) vertex) :
    Walk start edge before middle := by
  induction after generalizing vertex with
  | nil =>
      cases walk with
      | step walk _ => exact walk
  | cons head tail induction =>
      cases walk with
      | step walk _ => exact induction walk

theorem exists_prefix {done : List α} {middle vertex : α}
    (walk : Walk start edge done vertex) (member : middle ∈ done) :
    ∃ after before, done = after ++ middle :: before ∧ Walk start edge before middle := by
  obtain ⟨after, before, rfl⟩ := List.append_of_mem member
  exact ⟨after, before, rfl, walk.prefix_of_append⟩

/-- A walk may come to a vertex it left in another way. -/
theorem replace_prefix {before other after : List α} {middle vertex : α}
    (walk : Walk start edge (after ++ middle :: before) vertex)
    (arrived : Walk start edge other middle) :
    Walk start edge (after ++ middle :: other) vertex := by
  induction after generalizing vertex with
  | nil =>
      cases walk with
      | step _ step => exact .step arrived step
  | cons head tail induction =>
      cases walk with
      | step walk step => exact .step (induction walk) step

/-- A walk that meets a vertex has a first visit of it. -/
theorem exists_first {done : List α} {middle vertex : α}
    (walk : Walk start edge done vertex) (member : middle ∈ vertex :: done) :
    ∃ before, before <:+ done ∧ middle ∉ before ∧ Walk start edge before middle := by
  induction walk with
  | start root =>
      obtain rfl : middle = _ := by simpa using member
      exact ⟨[], List.nil_suffix, by simp, .start root⟩
  | @step done source target walk step induction =>
      by_cases earlier : middle ∈ source :: done
      · obtain ⟨before, suffix, fresh, arrived⟩ := induction earlier
        exact ⟨before, suffix.trans (List.suffix_cons _ _), fresh, arrived⟩
      · obtain rfl : middle = target := by
          rcases List.mem_cons.mp member with equal | later
          · exact equal
          · exact absurd later earlier
        exact ⟨source :: done, List.suffix_refl _, earlier, .step walk step⟩

/-- If every walk to `home` leaves `source` before, and every walk to a vertex leaves
`home` before, then no walk to the vertex comes by `source` after its latest visit of
`home`. -/
theorem source_notMem_of_latest {source home vertex : α}
    (toHome : ∀ done, Walk start edge done home → source ∈ done)
    (toVertex : ∀ done, Walk start edge done vertex → home ∈ done) {recent earlier : List α}
    (walk : Walk start edge (recent ++ home :: earlier) vertex) (latest : home ∉ recent) :
    source ∉ recent ∧ vertex ≠ source ∧ source ≠ home := by
  rcases walk.prefix_of_append.exists_first (List.mem_cons_self ..) with
    ⟨before, -, fresh, arrived⟩
  have inside := toHome before arrived
  rcases arrived.exists_prefix inside with ⟨after, older, split, toSource⟩
  have different : source ≠ home := fun same => fresh (same ▸ inside)
  have clear : home ∉ older := by
    intro member
    apply fresh
    rw [split]
    exact List.mem_append_right _ (List.mem_cons_of_mem _ member)
  refine ⟨?_, ?_, different⟩
  · intro member
    rcases List.append_of_mem member with ⟨newer, rest, rfl⟩
    rw [List.append_assoc, List.cons_append] at walk
    have around := toVertex _ (walk.replace_prefix toSource)
    rcases List.mem_append.mp around with isNewer | isOlder
    · exact latest (List.mem_append_left _ isNewer)
    · rcases List.mem_cons.mp isOlder with same | isOlder
      · exact different same.symm
      · exact clear isOlder
  · intro same
    exact clear (toVertex older (same ▸ toSource))

/-- A walk goes on from every vertex it left. -/
theorem transGen_of_mem {done : List α} {middle vertex : α}
    (walk : Walk start edge done vertex) (member : middle ∈ done) :
    Relation.TransGen edge middle vertex := by
  induction walk with
  | start _ => cases member
  | step _ step induction =>
      rcases List.mem_cons.mp member with rfl | earlier
      · exact .single step
      · exact .tail (induction earlier) step

/-- A walk from at most some level to above it leaves a vertex on that level or
takes an edge over it. -/
theorem crosses {rank : α → Nat} {level : Nat} {done : List α} {vertex : α}
    (walk : Walk start edge done vertex)
    (starts : ∀ root, start root → rank root ≤ level) (above : level < rank vertex) :
    (∃ middle ∈ done, rank middle = level) ∨
      ∃ newer source target older, vertex :: done = newer ++ target :: source :: older ∧
        edge source target ∧ rank source < level ∧ level < rank target := by
  induction walk with
  | start root => exact absurd (starts _ root) (Nat.not_le_of_lt above)
  | @step done source target walk step induction =>
      by_cases equal : rank source = level
      · exact .inl ⟨source, List.mem_cons_self .., equal⟩
      · by_cases below : rank source < level
        · exact .inr ⟨[], source, target, done, rfl, step, below, above⟩
        · rcases induction (by omega) with visited | jumped
          · rcases visited with ⟨middle, member, same⟩
            exact .inl ⟨middle, List.mem_cons_of_mem _ member, same⟩
          · rcases jumped with ⟨newer, from_, to_, older, split, rest⟩
            refine .inr ⟨target :: newer, from_, to_, older, ?_, rest⟩
            rw [split]
            rfl

theorem mono {start' : α → Prop} {edge' : α → α → Prop} {done : List α} {vertex : α}
    (walk : Walk start edge done vertex)
    (starts : ∀ vertex, start vertex → start' vertex)
    (edges : ∀ source target, edge source target → edge' source target) :
    Walk start' edge' done vertex := by
  induction walk with
  | start root => exact .start (starts _ root)
  | step _ step induction => exact .step induction (edges _ _ step)

/-! ## Taking a vertex out of a graph

`Splices hole` relates a graph to the one in which every vertex that led to `hole`
leads to where `hole` led. -/

structure Splices [DecidableEq α] (hole : α) (start : α → Prop) (edge : α → α → Prop)
    (start' : α → Prop) (edge' : α → α → Prop) : Prop where
  start_iff : ∀ vertex, start' vertex ↔ start vertex
  notStart : ¬start hole
  edge_iff : ∀ source target, edge' source target ↔
    source ≠ hole ∧ target ≠ hole ∧
      (edge source target ∨ edge source hole ∧ edge hole target)
  noLoop : ¬edge hole hole

section Splices

variable [DecidableEq α] {hole : α} {start' : α → Prop} {edge' : α → α → Prop}

/-- A walk of the new graph is a walk of the old one with the hole deleted. -/
theorem exists_of_splices (splices : Splices hole start edge start' edge')
    {done : List α} {vertex : α} (walk : Walk start' edge' done vertex) :
    vertex ≠ hole ∧ ∃ old, Walk start edge old vertex ∧
      old.filter (fun visited => visited ≠ hole) = done := by
  induction walk with
  | @start root isStart =>
      have isOld := (splices.start_iff root).mp isStart
      exact ⟨fun equal => splices.notStart (equal ▸ isOld), [], .start isOld, rfl⟩
  | @step done source target walk step induction =>
      rcases induction with ⟨sourceNot, old, oldWalk, deleted⟩
      rcases (splices.edge_iff source target).mp step with ⟨-, targetNot, direct | through⟩
      · refine ⟨targetNot, source :: old, .step oldWalk direct, ?_⟩
        rw [List.filter_cons_of_pos (by simpa using sourceNot), deleted]
      · refine ⟨targetNot, hole :: source :: old,
          .step (.step oldWalk through.1) through.2, ?_⟩
        rw [List.filter_cons_of_neg (by simp),
          List.filter_cons_of_pos (by simpa using sourceNot), deleted]

/-- A walk of the old graph with the hole deleted is a walk of the new one. While it
stands in the hole, the walk has come from a vertex the new one has reached. -/
theorem deleted_of_splices (splices : Splices hole start edge start' edge')
    {done : List α} {vertex : α} (walk : Walk start edge done vertex) :
    (vertex ≠ hole →
        Walk start' edge' (done.filter fun visited => visited ≠ hole) vertex) ∧
      (vertex = hole → ∃ source before, done = source :: before ∧ source ≠ hole ∧
        edge source hole ∧
          Walk start' edge' (before.filter fun visited => visited ≠ hole) source) := by
  induction walk with
  | @start root isStart =>
      have notHole : root ≠ hole := fun equal => splices.notStart (equal ▸ isStart)
      exact ⟨fun _ => .start ((splices.start_iff root).mpr isStart),
        fun equal => absurd equal notHole⟩
  | @step done source target walk step induction =>
      by_cases atHole : source = hole
      · rcases induction.2 atHole with ⟨origin, before, rfl, originNot, into, arrived⟩
        have targetNot : target ≠ hole := by
          intro equal
          rw [atHole, equal] at step
          exact splices.noLoop step
        refine ⟨fun _ => ?_, fun equal => absurd equal targetNot⟩
        have past : edge' origin target := (splices.edge_iff origin target).mpr
          ⟨originNot, targetNot, .inr ⟨into, atHole ▸ step⟩⟩
        rw [List.filter_cons_of_neg (by simpa using atHole),
          List.filter_cons_of_pos (by simpa using originNot)]
        exact .step arrived past
      · have arrived := induction.1 atHole
        constructor
        · intro targetNot
          rw [List.filter_cons_of_pos (by simpa using atHole)]
          exact .step arrived
            ((splices.edge_iff source target).mpr ⟨atHole, targetNot, .inl step⟩)
        · intro equal
          exact ⟨source, done, rfl, atHole, equal ▸ step, arrived⟩

end Splices

end Walk

end Desan
