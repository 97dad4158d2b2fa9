import Mathlib.Data.List.Basic
import Mathlib.Logic.Relation

/-! # Walks that mark their own path

The outcome at a vertex comes from the outcomes at its targets. A vertex that is on its
own path already, or past the depth limit, answers for itself. -/

namespace Desan

structure PathWalk (α β : Type*) where
  leaf : α → β
  targets : α → List α
  rule : (α → β) → α → β
  /-- The rule asks for the targets only. -/
  rule_congr : ∀ first second vertex,
    (∀ target ∈ targets vertex, first target = second target) →
      rule first vertex = rule second vertex

namespace PathWalk

variable {α β : Type*} [DecidableEq α]

def run (walk : PathWalk α β) : Nat → List α → α → β
  | 0, _, vertex => walk.leaf vertex
  | fuel + 1, path, vertex =>
      if vertex ∈ path then walk.leaf vertex
      else walk.rule (walk.run fuel (vertex :: path)) vertex

/-- No path of the walk comes to the depth limit. -/
def EndsWithin (walk : PathWalk α β) : Nat → List α → α → Prop
  | 0, _, _ => False
  | fuel + 1, path, vertex =>
      vertex ∈ path ∨
        ∀ target ∈ walk.targets vertex, walk.EndsWithin fuel (vertex :: path) target

instance decidableEndsWithin (walk : PathWalk α β) :
    ∀ fuel path vertex, Decidable (walk.EndsWithin fuel path vertex)
  | 0, _, _ => .isFalse id
  | fuel + 1, path, vertex =>
      have : ∀ target, Decidable (walk.EndsWithin fuel (vertex :: path) target) :=
        walk.decidableEndsWithin fuel (vertex :: path)
      inferInstanceAs (Decidable (vertex ∈ path ∨
        ∀ target ∈ walk.targets vertex, walk.EndsWithin fuel (vertex :: path) target))

/-- The outcome is one and the same at every depth and after every path. -/
def Settled (walk : PathWalk α β) (vertex : α) : Prop :=
  ∃ outcome, ∀ fuel path, vertex ∈ path → walk.rule (walk.run fuel path) vertex = outcome

/-- A step on which the outcome may depend on the path. -/
def Step (walk : PathWalk α β) (source target : α) : Prop :=
  ¬walk.Settled source ∧ target ∈ walk.targets source

/-- The walk does not come to the mark other than through a settled vertex. -/
def Avoids (walk : PathWalk α β) (mark vertex : α) : Prop :=
  ¬Relation.ReflTransGen walk.Step vertex mark

variable {walk : PathWalk α β} {mark vertex : α}

theorem Avoids.ne (avoids : walk.Avoids mark vertex) : vertex ≠ mark := by
  intro same
  rw [same] at avoids
  exact avoids .refl

theorem Avoids.step {target : α} (avoids : walk.Avoids mark vertex)
    (step : walk.Step vertex target) : walk.Avoids mark target :=
  fun path => avoids (.head step path)

/-- Deeper walks find the same below the limit. -/
theorem run_eq_of_endsWithin {less more : Nat} {path : List α}
    (ends : walk.EndsWithin less path vertex) (bound : less ≤ more) :
    walk.run more path vertex = walk.run less path vertex := by
  induction less generalizing more path vertex with
  | zero => cases ends
  | succ less induction =>
      cases more with
      | zero => omega
      | succ more =>
          rw [run, run]
          by_cases onPath : vertex ∈ path
          · rw [if_pos onPath, if_pos onPath]
          · rw [if_neg onPath, if_neg onPath]
            apply walk.rule_congr
            intro target member
            exact induction ((ends.resolve_left onPath) target member) (by omega)

/-- A mark that the walk avoids makes no difference on the path. -/
theorem run_eq_of_avoids {fuel : Nat} {first second : List α}
    (avoids : walk.Avoids mark vertex)
    (same : ∀ other, other ≠ mark → (other ∈ first ↔ other ∈ second)) :
    walk.run fuel first vertex = walk.run fuel second vertex := by
  induction fuel generalizing first second vertex with
  | zero => rfl
  | succ fuel induction =>
      have here := same vertex avoids.ne
      rw [run, run]
      by_cases onPath : vertex ∈ first
      · rw [if_pos onPath, if_pos (here.mp onPath)]
      · rw [if_neg onPath, if_neg (fun member => onPath (here.mpr member))]
        by_cases settled : walk.Settled vertex
        · rcases settled with ⟨outcome, always⟩
          rw [always fuel _ (List.mem_cons_self ..), always fuel _ (List.mem_cons_self ..)]
        · apply walk.rule_congr
          intro target member
          apply induction (avoids.step ⟨settled, member⟩)
          intro other different
          rw [List.mem_cons, List.mem_cons, same other different]

/-- One vertex earlier, the walk finds the same. -/
theorem run_after {fuel : Nat} (ends : walk.EndsWithin fuel [] vertex)
    (avoids : walk.Avoids mark vertex) :
    walk.run fuel [mark] vertex = walk.run (fuel + 1) [] vertex := by
  rw [run_eq_of_endsWithin ends (Nat.le_succ fuel)]
  apply run_eq_of_avoids avoids
  intro other different
  rw [List.mem_singleton]
  exact ⟨fun same => absurd same different, fun member => absurd member List.not_mem_nil⟩

end PathWalk

end Desan
