import Mathlib.Data.List.Basic
import Mathlib.Logic.Relation

/-! # Walking a graph with joins to its roots

A vertex stands for another one it is stripped to, and that one stops the walk, goes on
to one vertex or joins several. The root of a join whose arms have one root is that
root. -/

namespace Desan

/-- Every chain of steps from the vertex is shorter than the bound. -/
def ChainsBelow {α : Type*} (step : α → α → Prop) : Nat → α → Prop
  | 0, _ => False
  | bound + 1, vertex => ∀ target, step vertex target → ChainsBelow step bound target

namespace ChainsBelow

variable {α : Type*} {step : α → α → Prop} {vertex : α}

theorem mono {more less : Nat} (shallow : ChainsBelow step less vertex)
    (bound : less ≤ more) : ChainsBelow step more vertex := by
  induction less generalizing more vertex with
  | zero => cases shallow
  | succ less induction =>
      cases more with
      | zero => omega
      | succ more =>
          intro target isNext
          exact induction (shallow target isNext) (by omega)

theorem lower {bound : Nat} {target : α} (shallow : ChainsBelow step bound vertex)
    (path : Relation.TransGen step vertex target) :
    ∃ less < bound, ChainsBelow step less target := by
  induction path with
  | single isNext =>
      cases bound with
      | zero => cases shallow
      | succ bound => exact ⟨bound, by omega, shallow _ isNext⟩
  | tail _ isNext induction =>
      rcases induction with ⟨less, smaller, middle⟩
      cases less with
      | zero => cases middle
      | succ less => exact ⟨less, by omega, middle _ isNext⟩

theorem not_cycle {bound : Nat} (shallow : ChainsBelow step bound vertex) :
    ¬Relation.TransGen step vertex vertex := by
  intro cycle
  induction bound using Nat.strongRecOn with
  | ind bound induction =>
      rcases shallow.lower cycle with ⟨less, smaller, again⟩
      exact induction less smaller again

/-- Steps that are paths of other steps make no longer chains. -/
theorem of_paths {other : α → α → Prop} {bound : Nat}
    (paths : ∀ source target, other source target → Relation.TransGen step source target)
    (shallow : ChainsBelow step bound vertex) : ChainsBelow other bound vertex := by
  induction bound generalizing vertex with
  | zero => cases shallow
  | succ bound induction =>
      intro target isNext
      rcases shallow.lower (paths vertex target isNext) with ⟨less, smaller, below⟩
      exact induction (below.mono (by omega))

theorem of_rank (rank : α → Nat)
    (decreases : ∀ source target, step source target → rank target < rank source)
    {bound : Nat} (small : rank vertex < bound) : ChainsBelow step bound vertex := by
  induction bound generalizing vertex with
  | zero => omega
  | succ bound induction =>
      intro target isNext
      have less := decreases vertex target isNext
      exact induction (by omega)

end ChainsBelow

inductive Onward (α : Type*) where
  | stop
  | follow (next : α)
  | join (arms : List α)

namespace Onward

variable {α : Type*}

def targets : Onward α → List α
  | .stop => []
  | .follow next => [next]
  | .join arms => arms

end Onward

structure JoinGraph (α : Type*) where
  strip : α → α
  onward : α → Onward α

/-- The one value of a list, if it has one. -/
def agreed {α : Type*} [DecidableEq α] (default : α) : List α → α
  | [] => default
  | first :: rest => if rest.all fun other => other = first then first else default

section Agreed

variable {α : Type*} [DecidableEq α] {default value : α} {values : List α}

theorem agreed_of_all (some : values ≠ []) (all : ∀ other ∈ values, other = value) :
    agreed default values = value := by
  cases values with
  | nil => exact absurd rfl some
  | cons first rest =>
      have atFirst := all first (List.mem_cons_self ..)
      have same : (rest.all fun other => other = first) = true := by
        apply List.all_eq_true.mpr
        intro other member
        exact decide_eq_true ((all other (List.mem_cons_of_mem _ member)).trans atFirst.symm)
      rw [agreed, if_pos same, atFirst]

theorem agreed_cases (default : α) (values : List α) :
    agreed default values = default ∨
      values ≠ [] ∧ ∀ other ∈ values, other = agreed default values := by
  cases values with
  | nil => exact .inl rfl
  | cons first rest =>
      rw [agreed]
      split
      · rename_i same
        refine .inr ⟨by simp, fun other member => ?_⟩
        rcases List.mem_cons.mp member with rfl | later
        · rfl
        · exact of_decide_eq_true (List.all_eq_true.mp same other later)
      · exact .inl rfl

end Agreed

namespace JoinGraph

variable {α : Type*}

def targets (graph : JoinGraph α) (vertex : α) : List α :=
  (graph.onward (graph.strip vertex)).targets

def Step (graph : JoinGraph α) (source target : α) : Prop := target ∈ graph.targets source

abbrev Shallow (graph : JoinGraph α) : Nat → α → Prop := ChainsBelow graph.Step

/-- No chain of steps is as long as the bound, and a stripped vertex stays as it is. -/
structure Bounded (graph : JoinGraph α) (bound : Nat) : Prop where
  shallow : ∀ vertex, graph.Shallow bound vertex
  strip_strip : ∀ vertex, graph.strip (graph.strip vertex) = graph.strip vertex

/-- `graph.OnWay root vertex met`: the walk from the vertex to the root meets `met`. -/
inductive OnWay (graph : JoinGraph α) (root : α) : α → α → Prop where
  | here (vertex : α) : OnWay graph root vertex vertex
  | step {vertex target met : α} : graph.strip vertex ≠ root → graph.Step vertex target →
      OnWay graph root target met → OnWay graph root vertex met

/-- Two arms share nothing but the root on their ways. -/
def Apart (graph : JoinGraph α) (root left right : α) : Prop :=
  ∀ met, graph.OnWay root left met → graph.OnWay root right met → met = root

/-- The arms of every join on the way to the root are apart. -/
def Clean (graph : JoinGraph α) (root vertex : α) : Prop :=
  ∀ met, graph.OnWay root vertex met → graph.strip met ≠ root → ∀ arms,
    graph.onward (graph.strip met) = .join arms → arms.Pairwise (graph.Apart root)

variable {graph : JoinGraph α} {root vertex : α}

theorem OnWay.reaches {met : α} (onWay : graph.OnWay root vertex met) :
    Relation.ReflTransGen graph.Step vertex met := by
  induction onWay with
  | here => exact .refl
  | step _ step _ induction => exact .head step induction

theorem OnWay.eq_of_strip {met : α} (onWay : graph.OnWay root vertex met)
    (atRoot : graph.strip vertex = root) : met = vertex := by
  cases onWay with
  | here => rfl
  | step different _ _ => exact absurd atRoot different

theorem targets_strip {bound : Nat} (bounded : graph.Bounded bound) (vertex : α) :
    graph.targets (graph.strip vertex) = graph.targets vertex := by
  rw [targets, bounded.strip_strip, targets]

section Roots

variable [DecidableEq α]

/-- What the walk looks for, without any marks. -/
def rootWithin (graph : JoinGraph α) : Nat → α → α
  | 0, vertex => vertex
  | fuel + 1, vertex =>
      match graph.onward (graph.strip vertex) with
      | .stop => graph.strip vertex
      | .follow next => graph.rootWithin fuel next
      | .join arms => agreed (graph.strip vertex) (arms.map (graph.rootWithin fuel))

/-! ## Roots of a bounded graph -/

theorem rootWithin_eq_of_shallow {bound first second : Nat}
    (shallow : graph.Shallow bound vertex) (left : bound ≤ first) (right : bound ≤ second) :
    graph.rootWithin first vertex = graph.rootWithin second vertex := by
  induction bound generalizing first second vertex with
  | zero => cases shallow
  | succ bound induction =>
      cases first with
      | zero => omega
      | succ first =>
          cases second with
          | zero => omega
          | succ second =>
              rw [rootWithin, rootWithin]
              cases kind : graph.onward (graph.strip vertex) with
              | stop => rfl
              | follow next =>
                  have member : next ∈ graph.targets vertex := by
                    rw [targets, kind]
                    exact List.mem_singleton_self _
                  exact induction (shallow next member) (by omega) (by omega)
              | join arms =>
                  have same : arms.map (graph.rootWithin first) =
                      arms.map (graph.rootWithin second) := by
                    apply List.map_congr_left
                    intro arm member
                    have isTarget : arm ∈ graph.targets vertex := by
                      rw [targets, kind]
                      exact member
                    exact induction (shallow arm isTarget) (by omega) (by omega)
                  simp only [same]

section Bounded

variable {bound : Nat} (bounded : graph.Bounded bound)
include bounded

theorem rootWithin_strip : graph.rootWithin bound (graph.strip vertex) =
    graph.rootWithin bound vertex := by
  cases bound with
  | zero => exact (bounded.shallow vertex).elim
  | succ bound => rw [rootWithin, rootWithin, bounded.strip_strip]

theorem rootWithin_stop (kind : graph.onward (graph.strip vertex) = .stop) :
    graph.rootWithin bound vertex = graph.strip vertex := by
  cases bound with
  | zero => exact (bounded.shallow vertex).elim
  | succ bound => rw [rootWithin, kind]

theorem rootWithin_follow {next : α}
    (kind : graph.onward (graph.strip vertex) = .follow next) :
    graph.rootWithin bound vertex = graph.rootWithin bound next := by
  have shallow := bounded.shallow vertex
  cases bound with
  | zero => exact shallow.elim
  | succ bound =>
      have member : next ∈ graph.targets vertex := by
        rw [targets, kind]
        exact List.mem_singleton_self _
      rw [rootWithin, kind]
      exact rootWithin_eq_of_shallow (shallow next member) (by omega) (by omega)

theorem rootWithin_join {arms : List α}
    (kind : graph.onward (graph.strip vertex) = .join arms) :
    graph.rootWithin bound vertex =
      agreed (graph.strip vertex) (arms.map (graph.rootWithin bound)) := by
  have shallow := bounded.shallow vertex
  cases bound with
  | zero => exact shallow.elim
  | succ bound =>
      have same : arms.map (graph.rootWithin bound) =
          arms.map (graph.rootWithin (bound + 1)) := by
        apply List.map_congr_left
        intro arm member
        have isTarget : arm ∈ graph.targets vertex := by
          rw [targets, kind]
          exact member
        exact rootWithin_eq_of_shallow (shallow arm isTarget) (by omega) (by omega)
      rw [rootWithin, kind]
      simp only [same]

/-- Every root is what some vertex below is stripped to. -/
theorem exists_strip_eq_root (vertex : α) :
    ∃ below, Relation.ReflTransGen graph.Step vertex below ∧
      graph.strip below = graph.rootWithin bound vertex := by
  have general : ∀ (depth : Nat) (vertex : α), graph.Shallow depth vertex →
      ∃ below, Relation.ReflTransGen graph.Step vertex below ∧
        graph.strip below = graph.rootWithin bound vertex := by
    intro depth
    induction depth with
    | zero => exact fun _ shallow => shallow.elim
    | succ depth induction =>
        intro vertex shallow
        cases kind : graph.onward (graph.strip vertex) with
        | stop => exact ⟨vertex, .refl, (rootWithin_stop bounded kind).symm⟩
        | follow next =>
            have step : graph.Step vertex next := by
              rw [Step, targets, kind]
              exact List.mem_singleton_self _
            rcases induction next (shallow next step) with ⟨below, path, equal⟩
            exact ⟨below, .head step path, equal.trans (rootWithin_follow bounded kind).symm⟩
        | join arms =>
            have whole := rootWithin_join bounded kind
            rcases agreed_cases (graph.strip vertex) (arms.map (graph.rootWithin bound)) with
              itself | all
            · exact ⟨vertex, .refl, (whole.trans itself).symm⟩
            · cases arms with
              | nil => exact absurd rfl all.1
              | cons arm rest =>
                  have step : graph.Step vertex arm := by
                    rw [Step, targets, kind]
                    exact List.mem_cons_self ..
                  rcases induction arm (shallow arm step) with ⟨below, path, equal⟩
                  refine ⟨below, .head step path, equal.trans ?_⟩
                  rw [whole]
                  exact all.2 _ (List.mem_map_of_mem (List.mem_cons_self ..))
  exact general bound vertex (bounded.shallow vertex)

theorem strip_root (vertex : α) :
    graph.strip (graph.rootWithin bound vertex) = graph.rootWithin bound vertex := by
  rcases exists_strip_eq_root bounded vertex with ⟨below, -, equal⟩
  rw [← equal, bounded.strip_strip]

/-- A vertex strictly below a root has another root. -/
theorem not_below_root {below : α} (path : Relation.TransGen graph.Step root below)
    (equal : graph.rootWithin bound below = root) : False := by
  rcases exists_strip_eq_root bounded below with ⟨last, onward, stripped⟩
  rcases Relation.TransGen.head'_iff.mp path with ⟨first, step, rest⟩
  have back : graph.Step last first := by
    rw [Step, ← targets_strip bounded, stripped, equal]
    exact step
  have around : Relation.TransGen graph.Step first first :=
    Relation.TransGen.tail' (rest.trans onward) back
  exact (bounded.shallow first).not_cycle around

/-- If the root is not the vertex itself, every step leads to the same root. -/
theorem rootWithin_step {target : α} (equal : graph.rootWithin bound vertex = root)
    (different : graph.strip vertex ≠ root) (step : graph.Step vertex target) :
    graph.rootWithin bound target = root := by
  rw [Step, targets] at step
  cases kind : graph.onward (graph.strip vertex) with
  | stop => exact absurd ((rootWithin_stop bounded kind).symm.trans equal) different
  | follow next =>
      rw [kind] at step
      rw [List.mem_singleton.mp step, ← rootWithin_follow bounded kind]
      exact equal
  | join arms =>
      rw [kind] at step
      have whole := rootWithin_join bounded kind
      rcases agreed_cases (graph.strip vertex) (arms.map (graph.rootWithin bound)) with
        itself | all
      · exact absurd (itself.symm.trans (whole.symm.trans equal)) different
      · rw [← equal, whole]
        exact all.2 _ (List.mem_map_of_mem step)

theorem OnWay.rootWithin_eq {met : α} (onWay : graph.OnWay root vertex met)
    (equal : graph.rootWithin bound vertex = root) : graph.rootWithin bound met = root := by
  induction onWay with
  | here => exact equal
  | step different step _ induction =>
      exact induction (rootWithin_step bounded equal different step)

end Bounded

end Roots

end JoinGraph

end Desan
