import Desan.Foundation.JoinGraph

/-! # Walking with marks

A walk that marks what it has visited and gives up on a second visit finds the root of
a vertex exactly if the arms of every join on the way share nothing but the root. -/

namespace Desan

namespace JoinGraph

variable {α : Type*} [DecidableEq α]

/-- The loop over the arms of a join; nothing if two of them have different values,
which ends the loop early. -/
def walkArms (walk : List α → α → α × List α) :
    List α → Option α → List α → Option (Option α) × List α
  | [], common, visited => (some common, visited)
  | arm :: rest, common, visited =>
      let (value, visited) := walk visited arm
      match common with
      | none => walkArms walk rest (some value) visited
      | some base =>
          if base ≠ value then (none, visited) else walkArms walk rest common visited

/-- The walk with marks; it returns what it has visited. -/
def walk (graph : JoinGraph α) : Nat → List α → α → α × List α
  | 0, visited, vertex => (vertex, visited)
  | fuel + 1, visited, vertex =>
      if vertex ∈ visited then (vertex, visited)
      else
        match graph.onward (graph.strip vertex) with
        | .stop => (graph.strip vertex, vertex :: visited)
        | .follow next => graph.walk fuel (vertex :: visited) next
        | .join arms =>
            match walkArms (graph.walk fuel) arms none (vertex :: visited) with
            | (some common, visited) => (common.getD (graph.strip vertex), visited)
            | (none, visited) => (graph.strip vertex, visited)

variable {graph : JoinGraph α} {root vertex : α}

/-- The arms have one value, one after the other. -/
inductive ArmsAgree (walk : List α → α → α × List α) (value : α) :
    List α → List α → List α → Prop where
  | nil (visited : List α) : ArmsAgree walk value [] visited visited
  | cons {arm : α} {rest visited after : List α} : (walk visited arm).1 = value →
      ArmsAgree walk value rest (walk visited arm).2 after →
        ArmsAgree walk value (arm :: rest) visited after

theorem walkArms_cases (walk : List α → α → α × List α) (value : α) (arms visited : List α) :
    (∃ after, ArmsAgree walk value arms visited after ∧
        walkArms walk arms (some value) visited = (some (some value), after)) ∨
      ((walkArms walk arms (some value) visited).1 = none ∧
        ¬∃ after, ArmsAgree walk value arms visited after) := by
  induction arms generalizing visited with
  | nil => exact .inl ⟨visited, .nil visited, rfl⟩
  | cons arm rest induction =>
      by_cases same : (walk visited arm).1 = value
      · rcases induction (walk visited arm).2 with agree | differ
        · rcases agree with ⟨after, agree, equal⟩
          refine .inl ⟨after, .cons same agree, ?_⟩
          simp only [walkArms, same, ne_eq, not_true_eq_false, if_false]
          exact equal
        · refine .inr ⟨?_, ?_⟩
          · simp only [walkArms, same, ne_eq, not_true_eq_false, if_false]
            exact differ.1
          · intro agree
            rcases agree with ⟨after, agree⟩
            cases agree with
            | cons _ rest => exact differ.2 ⟨after, rest⟩
      · refine .inr ⟨?_, ?_⟩
        · have different : value ≠ (walk visited arm).1 := fun equal => same equal.symm
          simp only [walkArms, if_pos different]
        · intro agree
          rcases agree with ⟨after, agree⟩
          cases agree with
          | cons first _ => exact same first

theorem walkArms_of_agree {walk : List α → α → α × List α} {value : α}
    {arms visited after : List α} (agree : ArmsAgree walk value arms visited after) :
    walkArms walk arms (some value) visited = (some (some value), after) := by
  induction agree with
  | nil => rfl
  | cons same _ induction =>
      simp only [walkArms, same, ne_eq, not_true_eq_false, if_false]
      exact induction

/-- A join whose arms agree has their value. -/
theorem walk_of_agree {fuel : Nat} {visited arms after : List α} {value : α}
    (kind : graph.onward (graph.strip vertex) = .join arms) (fresh : vertex ∉ visited)
    (some : arms ≠ [])
    (agree : ArmsAgree (graph.walk fuel) value arms (vertex :: visited) after) :
    graph.walk (fuel + 1) visited vertex = (value, after) := by
  cases agree with
  | nil => exact absurd rfl some
  | @cons first rest _ _ same later =>
      have unfolded : walkArms (graph.walk fuel) (first :: rest) none (vertex :: visited) =
          walkArms (graph.walk fuel) rest (.some (graph.walk fuel (vertex :: visited) first).1)
            (graph.walk fuel (vertex :: visited) first).2 := rfl
      simp only [walk, if_neg fresh, kind, unfolded, same, walkArms_of_agree later,
        Option.getD_some]

/-- A join of at least one arm has the value its arms agree on, or is its own value. -/
theorem walk_join_cases {fuel : Nat} {visited arms : List α}
    (kind : graph.onward (graph.strip vertex) = .join arms) (fresh : vertex ∉ visited) :
    (arms ≠ [] ∧ ∃ value after,
        ArmsAgree (graph.walk fuel) value arms (vertex :: visited) after ∧
          graph.walk (fuel + 1) visited vertex = (value, after)) ∨
      ((graph.walk (fuel + 1) visited vertex).1 = graph.strip vertex ∧
        (arms ≠ [] → ¬∃ value after,
          ArmsAgree (graph.walk fuel) value arms (vertex :: visited) after)) := by
  cases arms with
  | nil =>
      refine .inr ⟨?_, fun some => absurd rfl some⟩
      simp [walk, fresh, kind, walkArms]
  | cons first rest =>
      have unfolded : walkArms (graph.walk fuel) (first :: rest) none (vertex :: visited) =
          walkArms (graph.walk fuel) rest (some (graph.walk fuel (vertex :: visited) first).1)
            (graph.walk fuel (vertex :: visited) first).2 := rfl
      rcases walkArms_cases (graph.walk fuel) (graph.walk fuel (vertex :: visited) first).1 rest
        (graph.walk fuel (vertex :: visited) first).2 with agree | differ
      · rcases agree with ⟨after, agree, equal⟩
        refine .inl ⟨by simp, _, after, .cons rfl agree, ?_⟩
        simp only [walk, if_neg fresh, kind, unfolded, equal, Option.getD_some]
      · refine .inr ⟨?_, fun _ agree => ?_⟩
        · simp only [walk, if_neg fresh, kind, unfolded]
          split
          · rename_i equal
            rw [equal] at differ
            cases differ.1
          · rfl
        · rcases agree with ⟨value, after, agree⟩
          cases agree with
          | cons same later =>
              subst same
              exact differ.2 ⟨after, later⟩

omit [DecidableEq α] in
theorem ArmsAgree.exists_walk {walk : List α → α → α × List α} {value arm : α}
    {arms visited after : List α} (agree : ArmsAgree walk value arms visited after)
    (member : arm ∈ arms) : ∃ before, (walk before arm).1 = value := by
  induction agree with
  | nil => cases member
  | @cons first rest visited _ same _ induction =>
      rcases List.mem_cons.mp member with rfl | later
      · exact ⟨visited, same⟩
      · exact induction later

omit [DecidableEq α] in
theorem step_of_join {arms : List α} {arm : α}
    (kind : graph.onward (graph.strip vertex) = .join arms) (member : arm ∈ arms) :
    graph.Step vertex arm := by
  rw [Step, targets, kind]
  exact member

omit [DecidableEq α] in
theorem step_of_follow {next : α} (kind : graph.onward (graph.strip vertex) = .follow next) :
    graph.Step vertex next := by
  rw [Step, targets, kind]
  exact List.mem_singleton_self _

/-- What the loop over the arms has marked was marked before or by one of the walks. -/
theorem mem_walkArms {walk : List α → α → α × List α} {below : α → α → Prop} {met : α}
    (visits : ∀ marked arm, met ∈ (walk marked arm).2 → met ∈ marked ∨ below arm met)
    {arms : List α} {common : Option α} {marked : List α}
    (member : met ∈ (walkArms walk arms common marked).2) :
    met ∈ marked ∨ ∃ arm ∈ arms, below arm met := by
  induction arms generalizing common marked with
  | nil => exact .inl member
  | cons arm rest induction =>
      have after : met ∈ (walk marked arm).2 ∨ ∃ other ∈ rest, below other met := by
        rw [walkArms] at member
        cases common with
        | none => exact induction member
        | some base =>
            simp only at member
            split at member
            · exact .inl member
            · exact induction member
      rcases after with inWalk | ⟨other, isArm, isBelow⟩
      · exact (visits marked arm inWalk).imp_right fun isBelow =>
          ⟨arm, List.mem_cons_self .., isBelow⟩
      · exact .inr ⟨other, List.mem_cons_of_mem _ isArm, isBelow⟩

/-- The walk visits what its vertex leads to. -/
theorem mem_walk {fuel : Nat} {visited : List α} {met : α}
    (member : met ∈ (graph.walk fuel visited vertex).2) :
    met ∈ visited ∨ Relation.ReflTransGen graph.Step vertex met := by
  induction fuel generalizing visited vertex with
  | zero => exact .inl member
  | succ fuel induction =>
      rw [walk] at member
      split at member
      · exact .inl member
      · have self : met ∈ vertex :: visited →
            met ∈ visited ∨ Relation.ReflTransGen graph.Step vertex met := by
          intro marked
          rcases List.mem_cons.mp marked with rfl | earlier
          · exact .inr .refl
          · exact .inl earlier
        cases kind : graph.onward (graph.strip vertex) with
        | stop =>
            simp only [kind] at member
            exact self member
        | follow next =>
            simp only [kind] at member
            rcases induction member with marked | path
            · exact self marked
            · exact .inr (.head (step_of_follow kind) path)
        | join arms =>
            have inside : met ∈ (walkArms (graph.walk fuel) arms none (vertex :: visited)).2 := by
              simp only [kind] at member
              split at member <;> (rename_i equal; rw [equal]; exact member)
            have visits : ∀ marked arm, met ∈ (graph.walk fuel marked arm).2 →
                met ∈ marked ∨ Relation.ReflTransGen graph.Step arm met :=
              fun _ _ inWalk => induction inWalk
            rcases mem_walkArms visits inside with marked | ⟨arm, isArm, path⟩
            · exact self marked
            · exact .inr (.head (step_of_join kind isArm) path)

theorem walk_visited {fuel : Nat} {visited : List α} (member : vertex ∈ visited) :
    graph.walk fuel visited vertex = (vertex, visited) := by
  cases fuel with
  | zero => rfl
  | succ fuel => rw [walk, if_pos member]

theorem subset_walkArms {walk : List α → α → α × List α}
    (keeps : ∀ marked arm, marked ⊆ (walk marked arm).2) (arms : List α) (common : Option α)
    (visited : List α) : visited ⊆ (walkArms walk arms common visited).2 := by
  induction arms generalizing common visited with
  | nil => exact fun _ member => member
  | cons arm rest induction =>
      intro met member
      have inWalk := keeps visited arm member
      rw [walkArms]
      cases common with
      | none => exact induction _ _ inWalk
      | some base =>
          simp only
          split
          · exact inWalk
          · exact induction _ _ inWalk

theorem subset_walk (fuel : Nat) (visited : List α) (vertex : α) :
    visited ⊆ (graph.walk fuel visited vertex).2 := by
  induction fuel generalizing visited vertex with
  | zero => exact fun _ member => member
  | succ fuel induction =>
      intro met member
      by_cases seen : vertex ∈ visited
      · rw [walk_visited seen]
        exact member
      · have later : met ∈ vertex :: visited := List.mem_cons_of_mem _ member
        rw [walk, if_neg seen]
        cases graph.onward (graph.strip vertex) with
        | stop => exact later
        | follow next => exact induction _ _ later
        | join arms =>
            have inArms := subset_walkArms induction arms none (vertex :: visited) later
            simp only
            split <;> (rename_i equal; rw [equal] at inArms; exact inArms)

/-- A walk visits its vertex. -/
theorem mem_walk_self (fuel : Nat) (visited : List α) (vertex : α) :
    vertex ∈ (graph.walk (fuel + 1) visited vertex).2 := by
  by_cases seen : vertex ∈ visited
  · rw [walk_visited seen]
    exact seen
  · have first : vertex ∈ vertex :: visited := List.mem_cons_self ..
    rw [walk, if_neg seen]
    cases graph.onward (graph.strip vertex) with
    | stop => exact first
    | follow next => exact subset_walk _ _ _ first
    | join arms =>
        have inArms : vertex ∈ (walkArms (graph.walk fuel) arms none (vertex :: visited)).2 :=
          subset_walkArms (subset_walk fuel) arms none (vertex :: visited) first
        simp only
        split <;> (rename_i equal; rw [equal] at inArms; exact inArms)

theorem walk_follow {fuel : Nat} {visited : List α} {next : α}
    (kind : graph.onward (graph.strip vertex) = .follow next) (fresh : vertex ∉ visited) :
    graph.walk (fuel + 1) visited vertex = graph.walk fuel (vertex :: visited) next := by
  rw [walk, if_neg fresh, kind]

theorem walk_stop {fuel : Nat} {visited : List α}
    (kind : graph.onward (graph.strip vertex) = .stop) (fresh : vertex ∉ visited) :
    graph.walk (fuel + 1) visited vertex = (graph.strip vertex, vertex :: visited) := by
  rw [walk, if_neg fresh, kind]

section Bounded

variable {bound : Nat} (bounded : graph.Bounded bound)
include bounded

theorem rootWithin_of_arms {value : α} {arms : List α}
    (kind : graph.onward (graph.strip vertex) = .join arms) (some : arms ≠ [])
    (all : ∀ arm ∈ arms, graph.rootWithin bound arm = value) :
    graph.rootWithin bound vertex = value := by
  rw [rootWithin_join bounded kind]
  apply agreed_of_all
  · simpa using some
  · intro other member
    rcases List.mem_map.mp member with ⟨arm, isArm, rfl⟩
    exact all arm isArm

/-- Whatever is marked, the walk stays on vertices of one root. -/
theorem rootWithin_walk {fuel : Nat} {visited : List α} (shallow : graph.Shallow fuel vertex) :
    graph.rootWithin bound (graph.walk fuel visited vertex).1 =
      graph.rootWithin bound vertex := by
  induction fuel generalizing visited vertex with
  | zero => cases shallow
  | succ fuel induction =>
      by_cases seen : vertex ∈ visited
      · rw [walk_visited seen]
      · cases kind : graph.onward (graph.strip vertex) with
        | stop => rw [walk_stop kind seen, rootWithin_strip bounded]
        | follow next =>
            rw [walk_follow kind seen, induction (shallow next (step_of_follow kind)),
              rootWithin_follow bounded kind]
        | join arms =>
            rcases walk_join_cases kind seen with agreeing | itself
            · rcases agreeing with ⟨some, value, after, agree, equal⟩
              have all : ∀ arm ∈ arms,
                  graph.rootWithin bound arm = graph.rootWithin bound value := by
                intro arm member
                rcases agree.exists_walk member with ⟨before, same⟩
                rw [← same, induction (shallow arm (step_of_join kind member))]
              rw [equal, rootWithin_of_arms bounded kind some all]
            · rw [itself.1, rootWithin_strip bounded]

/-- At its root a walk answers the root, whatever is marked. -/
theorem walk_at_root {fuel : Nat} {visited : List α} (shallow : graph.Shallow fuel vertex)
    (atRoot : graph.rootWithin bound vertex = graph.strip vertex) (fresh : vertex ∉ visited) :
    (graph.walk fuel visited vertex).1 = graph.strip vertex := by
  have notBelow : ∀ target, graph.Step vertex target →
      graph.rootWithin bound target ≠ graph.strip vertex := by
    intro target step equal
    have below : graph.Step (graph.strip vertex) target := by
      rw [Step, targets_strip bounded]
      exact step
    exact not_below_root bounded (.single below) equal
  cases fuel with
  | zero => cases shallow
  | succ fuel =>
      cases kind : graph.onward (graph.strip vertex) with
      | stop => rw [walk_stop kind fresh]
      | follow next =>
          exact absurd ((rootWithin_follow bounded kind).symm.trans atRoot)
            (notBelow next (step_of_follow kind))
      | join arms =>
          rcases walk_join_cases kind fresh with agreeing | itself
          · rcases agreeing with ⟨some, value, after, agree, equal⟩
            have all : ∀ arm ∈ arms,
                graph.rootWithin bound arm = graph.rootWithin bound value := by
              intro arm member
              rcases agree.exists_walk member with ⟨before, same⟩
              rw [← same, rootWithin_walk bounded (shallow arm (step_of_join kind member))]
            have whole := rootWithin_of_arms bounded kind some all
            cases arms with
            | nil => exact absurd rfl some
            | cons first rest =>
                have isArm : first ∈ first :: rest := List.mem_cons_self ..
                exact absurd ((all first isArm).trans (whole.symm.trans atRoot))
                  (notBelow first (step_of_join kind isArm))
          · exact itself.1

/-! ## What a walk to the root has to find -/

/-- Nothing but the root is marked on the way. -/
def Unmarked (graph : JoinGraph α) (root vertex : α) (visited : List α) : Prop :=
  ∀ met ∈ visited, graph.OnWay root vertex met → met = root

omit [DecidableEq α] bounded in
theorem Clean.step {target : α} (clean : graph.Clean root vertex)
    (different : graph.strip vertex ≠ root) (step : graph.Step vertex target) :
    graph.Clean root target :=
  fun met onWay => clean met (.step different step onWay)

omit [DecidableEq α] in
theorem not_onWay_back {target : α} (step : graph.Step vertex target) :
    ¬graph.OnWay root target vertex :=
  fun back => (bounded.shallow vertex).not_cycle (.head' step back.reaches)

omit [DecidableEq α] bounded in
/-- Arms that are apart find the root one after the other, in spite of the marks that
the earlier ones leave. -/
theorem armsAgree_of_apart {walk : List α → α → α × List α} {arms marked : List α}
    (finds : ∀ arm ∈ arms, ∀ marked, graph.Unmarked root arm marked →
      (walk marked arm).1 = root ∧ ∀ met ∈ (walk marked arm).2, met ∈ marked ∨
        graph.OnWay root arm met ∨ Relation.TransGen graph.Step root met)
    (apart : arms.Pairwise (graph.Apart root))
    (above : ∀ arm ∈ arms, ∀ met, graph.OnWay root arm met →
      ¬Relation.TransGen graph.Step root met)
    (unmarked : ∀ arm ∈ arms, graph.Unmarked root arm marked) :
    ∃ after, ArmsAgree walk root arms marked after ∧
      ∀ met ∈ after, met ∈ marked ∨ (∃ arm ∈ arms, graph.OnWay root arm met) ∨
        Relation.TransGen graph.Step root met := by
  induction arms generalizing marked with
  | nil => exact ⟨marked, .nil marked, fun met member => .inl member⟩
  | cons arm rest induction =>
      have isArm : arm ∈ arm :: rest := List.mem_cons_self ..
      have parts := List.pairwise_cons.mp apart
      have found := finds arm isArm marked (unmarked arm isArm)
      have later : ∀ other ∈ rest, graph.Unmarked root other (walk marked arm).2 := by
        intro other member met visited onWay
        have isOther : other ∈ arm :: rest := List.mem_cons_of_mem _ member
        rcases found.2 met visited with old | earlier | below
        · exact unmarked other isOther met old onWay
        · exact parts.1 other member met earlier onWay
        · exact absurd below (above other isOther met onWay)
      rcases induction (fun other member => finds other (List.mem_cons_of_mem _ member)) parts.2
        (fun other member => above other (List.mem_cons_of_mem _ member)) later with
          ⟨after, agree, reached⟩
      refine ⟨after, .cons found.1 agree, fun met member => ?_⟩
      rcases reached met member with old | onWay | below
      · rcases found.2 met old with earlier | onWay | below
        · exact .inl earlier
        · exact .inr (.inl ⟨arm, isArm, onWay⟩)
        · exact .inr (.inr below)
      · rcases onWay with ⟨other, isOther, way⟩
        exact .inr (.inl ⟨other, List.mem_cons_of_mem _ isOther, way⟩)
      · exact .inr (.inr below)

omit [DecidableEq α] bounded in
/-- What was met from a target was met on the way from the vertex. -/
theorem met_of_targets {visited : List α} (notRoot : graph.strip vertex ≠ root) {met : α}
    (either : met ∈ vertex :: visited ∨
      (∃ target, graph.Step vertex target ∧ graph.OnWay root target met) ∨
        Relation.TransGen graph.Step root met) :
    met ∈ visited ∨ graph.OnWay root vertex met ∨ Relation.TransGen graph.Step root met := by
  rcases either with old | ⟨target, step, onWay⟩ | below
  · rcases List.mem_cons.mp old with rfl | earlier
    · exact .inr (.inl (.here _))
    · exact .inl earlier
  · exact .inr (.inl (.step notRoot step onWay))
  · exact .inr (.inr below)

/-- If the arms of every join on the way are apart, the walk finds the root. -/
theorem walk_of_clean {fuel : Nat} {visited : List α} (shallow : graph.Shallow fuel vertex)
    (isRoot : graph.rootWithin bound vertex = root) (clean : graph.Clean root vertex)
    (unmarked : graph.Unmarked root vertex visited) :
    (graph.walk fuel visited vertex).1 = root ∧
      ∀ met ∈ (graph.walk fuel visited vertex).2, met ∈ visited ∨
        graph.OnWay root vertex met ∨ Relation.TransGen graph.Step root met := by
  induction fuel generalizing visited vertex with
  | zero => cases shallow
  | succ fuel induction =>
      by_cases seen : vertex ∈ visited
      · rw [walk_visited seen]
        exact ⟨unmarked vertex seen (.here vertex), fun met member => .inl member⟩
      · by_cases atRoot : graph.strip vertex = root
        · refine ⟨?_, fun met member => ?_⟩
          · rw [walk_at_root bounded shallow (isRoot.trans atRoot.symm) seen, atRoot]
          · rcases mem_walk member with old | path
            · exact .inl old
            · rcases Relation.ReflTransGen.cases_head path with rfl | below
              · exact .inr (.inl (.here _))
              · rcases below with ⟨target, step, rest⟩
                have fromRoot : graph.Step root target := by
                  rw [← atRoot, Step, targets_strip bounded]
                  exact step
                exact .inr (.inr (.head' fromRoot rest))
        · have unmarkedBelow : ∀ target, graph.Step vertex target →
              graph.Unmarked root target (vertex :: visited) := by
            intro target step met member onWay
            rcases List.mem_cons.mp member with rfl | old
            · exact absurd onWay (not_onWay_back bounded step)
            · exact unmarked met old (.step atRoot step onWay)
          have finds : ∀ target, graph.Step vertex target → ∀ marked,
              graph.Unmarked root target marked →
                (graph.walk fuel marked target).1 = root ∧
                  ∀ met ∈ (graph.walk fuel marked target).2, met ∈ marked ∨
                    graph.OnWay root target met ∨ Relation.TransGen graph.Step root met :=
            fun target step marked free => induction (shallow target step)
              (rootWithin_step bounded isRoot atRoot step) (clean.step atRoot step) free
          cases kind : graph.onward (graph.strip vertex) with
          | stop => exact absurd ((rootWithin_stop bounded kind).symm.trans isRoot) atRoot
          | follow next =>
              have step := step_of_follow kind
              have found := finds next step (vertex :: visited) (unmarkedBelow next step)
              rw [walk_follow kind seen]
              refine ⟨found.1, fun met member => met_of_targets atRoot ?_⟩
              rcases found.2 met member with old | onWay | below
              · exact .inl old
              · exact .inr (.inl ⟨next, step, onWay⟩)
              · exact .inr (.inr below)
          | join arms =>
              have some : arms ≠ [] := by
                intro none
                rw [none] at kind
                exact atRoot ((rootWithin_join bounded kind).symm.trans isRoot)
              have above : ∀ arm ∈ arms, ∀ met, graph.OnWay root arm met →
                  ¬Relation.TransGen graph.Step root met := by
                intro arm member met onWay below
                have armRoot := rootWithin_step bounded isRoot atRoot (step_of_join kind member)
                exact not_below_root bounded below (onWay.rootWithin_eq bounded armRoot)
              rcases armsAgree_of_apart
                (fun arm member => finds arm (step_of_join kind member))
                (clean vertex (.here vertex) atRoot arms kind) above
                (fun arm member => unmarkedBelow arm (step_of_join kind member)) with
                  ⟨after, agree, reached⟩
              rw [walk_of_agree kind seen some agree]
              refine ⟨rfl, fun met member => met_of_targets atRoot ?_⟩
              rcases reached met member with old | onWay | below
              · exact .inl old
              · rcases onWay with ⟨arm, isArm, way⟩
                exact .inr (.inl ⟨arm, step_of_join kind isArm, way⟩)
              · exact .inr (.inr below)

/-- What a walk that has found the root tells of the way. -/
structure Found (graph : JoinGraph α) (root vertex : α) (visited after : List α) : Prop where
  clean : graph.Clean root vertex
  unmarked : graph.Unmarked root vertex visited
  marked : ∀ met, graph.OnWay root vertex met → met = root ∨ met ∈ after

omit [DecidableEq α] bounded in
/-- At the root there is nothing on the way but the vertex itself. -/
theorem Found.of_strip {visited after : List α} (atRoot : graph.strip vertex = root)
    (fresh : vertex ∉ visited) (inside : vertex ∈ after) :
    graph.Found root vertex visited after where
  clean := by
    intro met onWay different
    rw [onWay.eq_of_strip atRoot] at different
    exact absurd atRoot different
  unmarked := by
    intro met member onWay
    exact absurd (onWay.eq_of_strip atRoot ▸ member) fresh
  marked := by
    intro met onWay
    exact .inr (onWay.eq_of_strip atRoot ▸ inside)

omit [DecidableEq α] bounded in
/-- What is on the way is the vertex itself, which is unmarked, or behind a target. -/
theorem Found.of_targets {visited after : List α} (fresh : vertex ∉ visited)
    (inside : vertex ∈ after)
    (apart : ∀ arms, graph.onward (graph.strip vertex) = .join arms →
      arms.Pairwise (graph.Apart root))
    (targets : ∀ target, graph.Step vertex target →
      graph.Found root target (vertex :: visited) after) :
    graph.Found root vertex visited after where
  clean := by
    intro met onWay different arms kind
    cases onWay with
    | here => exact apart arms kind
    | step _ step rest => exact (targets _ step).clean met rest different arms kind
  unmarked := by
    intro met member onWay
    cases onWay with
    | here => exact absurd member fresh
    | step _ step rest =>
        exact (targets _ step).unmarked met (List.mem_cons_of_mem _ member) rest
  marked := by
    intro met onWay
    cases onWay with
    | here => exact .inr inside
    | step _ step rest => exact (targets _ step).marked met rest

omit [DecidableEq α] bounded in
theorem apart_of_agree {walk : List α → α → α × List α} {arms visited after : List α}
    (keeps : ∀ marked arm, marked ⊆ (walk marked arm).2)
    (finds : ∀ arm ∈ arms, ∀ marked, (walk marked arm).1 = root →
      graph.Found root arm marked (walk marked arm).2)
    (agree : ArmsAgree walk root arms visited after) :
    visited ⊆ after ∧ arms.Pairwise (graph.Apart root) ∧
      ∀ arm ∈ arms, graph.Found root arm visited after := by
  induction agree with
  | nil visited => exact ⟨fun _ member => member, .nil, fun _ member => nomatch member⟩
  | @cons arm rest visited after same later induction =>
      have isArm : arm ∈ arm :: rest := List.mem_cons_self ..
      have first := finds arm isArm visited same
      rcases induction (fun other member => finds other (List.mem_cons_of_mem _ member)) with
        ⟨inAfter, apart, others⟩
      have visitedAfter : visited ⊆ after := fun met member => inAfter (keeps visited arm member)
      refine ⟨visitedAfter, List.pairwise_cons.mpr ⟨?_, apart⟩, ?_⟩
      · intro other member met left right
        rcases first.marked met left with equal | marked
        · exact equal
        · exact (others other member).unmarked met marked right
      · intro other member
        rcases List.mem_cons.mp member with rfl | inRest
        · exact ⟨first.clean, first.unmarked, fun met onWay =>
            (first.marked met onWay).imp_right fun marked => inAfter marked⟩
        · have found := others other inRest
          exact ⟨found.clean, fun met old => found.unmarked met (keeps visited arm old),
            found.marked⟩

theorem found_of_walk {fuel : Nat} {visited : List α} (shallow : graph.Shallow fuel vertex)
    (isRoot : graph.rootWithin bound vertex = root)
    (found : (graph.walk fuel visited vertex).1 = root) :
    graph.Found root vertex visited (graph.walk fuel visited vertex).2 := by
  have stripped : graph.strip root = root := isRoot ▸ strip_root bounded vertex
  induction fuel generalizing visited vertex with
  | zero => cases shallow
  | succ fuel induction =>
      by_cases seen : vertex ∈ visited
      · rw [walk_visited seen] at found ⊢
        have same : vertex = root := found
        have only : ∀ met, graph.OnWay root vertex met → met = root :=
          fun met onWay => (onWay.eq_of_strip (same ▸ stripped)).trans same
        refine ⟨?_, fun met _ onWay => only met onWay, fun met onWay => .inl (only met onWay)⟩
        intro met onWay different
        exact absurd ((congrArg graph.strip (only met onWay)).trans stripped) different
      · have self : vertex ∈ (graph.walk (fuel + 1) visited vertex).2 :=
          mem_walk_self fuel visited vertex
        by_cases atRoot : graph.strip vertex = root
        · exact .of_strip atRoot seen self
        · cases kind : graph.onward (graph.strip vertex) with
          | stop => exact absurd ((rootWithin_stop bounded kind).symm.trans isRoot) atRoot
          | follow next =>
              have step := step_of_follow kind
              rw [walk_follow kind seen] at found self ⊢
              apply Found.of_targets seen self
              · intro arms other
                rw [kind] at other
                cases other
              · intro target isTarget
                rw [Step, targets, kind] at isTarget
                rw [List.mem_singleton.mp isTarget]
                exact induction (shallow next step)
                  (rootWithin_step bounded isRoot atRoot step) found
          | join arms =>
              rcases walk_join_cases kind seen with agreeing | itself
              · rcases agreeing with ⟨some, value, after, agree, equal⟩
                rw [equal] at found self ⊢
                have same : value = root := found
                rw [same] at agree
                have whole := apart_of_agree (subset_walk fuel) (fun arm member marked onRoot =>
                  induction (shallow arm (step_of_join kind member))
                    (rootWithin_step bounded isRoot atRoot (step_of_join kind member)) onRoot)
                  agree
                apply Found.of_targets seen self
                · intro other isOther
                  rw [kind] at isOther
                  cases isOther
                  exact whole.2.1
                · intro target isTarget
                  rw [Step, targets, kind] at isTarget
                  exact whole.2.2 target isTarget
              · exact absurd (itself.1.symm.trans found) atRoot

/-- The walk without marks to begin with finds the root of a vertex exactly if the arms
of every join on the way are apart. -/
theorem walk_eq_root_iff {fuel : Nat} (shallow : graph.Shallow fuel vertex) :
    (graph.walk fuel [] vertex).1 = graph.rootWithin bound vertex ↔
      graph.Clean (graph.rootWithin bound vertex) vertex := by
  constructor
  · intro found
    exact (found_of_walk bounded shallow rfl found).clean
  · intro clean
    exact (walk_of_clean bounded shallow rfl clean fun _ member =>
      absurd member List.not_mem_nil).1

omit [DecidableEq α] in
/-- A vertex and what it is stripped to have the same way to a root. -/
theorem clean_of_strip (clean : graph.Clean root (graph.strip vertex)) :
    graph.Clean root vertex := by
  intro met onWay notRoot arms kind
  cases onWay with
  | here =>
      apply clean (graph.strip vertex) (.here _)
      · rw [bounded.strip_strip]
        exact notRoot
      · rw [bounded.strip_strip]
        exact kind
  | @step _ target _ different step rest =>
      have stripped : graph.strip (graph.strip vertex) ≠ root := by
        rw [bounded.strip_strip]
        exact different
      have fromStrip : graph.Step (graph.strip vertex) target := by
        rw [Step, targets_strip bounded]
        exact step
      exact clean met (.step stripped fromStrip rest) notRoot arms kind

/-- If joins whose arms agree have the value of their arms, the walk finds every
root. -/
theorem walk_eq_root_of_joins {fuel : Nat} (enough : bound ≤ fuel)
    (sees : ∀ vertex arms, graph.strip vertex = vertex → graph.onward vertex = .join arms →
      arms ≠ [] → ∀ root, (∀ arm ∈ arms, (graph.walk fuel [] arm).1 = root) →
        (graph.walk fuel [] vertex).1 = root)
    (vertex : α) : (graph.walk fuel [] vertex).1 = graph.rootWithin bound vertex := by
  have deep : ∀ vertex, graph.Shallow fuel vertex :=
    fun vertex => (bounded.shallow vertex).mono enough
  have general : ∀ (depth : Nat) (vertex : α), graph.Shallow depth vertex →
      (graph.walk fuel [] vertex).1 = graph.rootWithin bound vertex := by
    intro depth
    induction depth with
    | zero => exact fun _ shallow => shallow.elim
    | succ depth induction =>
        intro vertex shallow
        by_cases atRoot : graph.rootWithin bound vertex = graph.strip vertex
        · rw [atRoot]
          exact walk_at_root bounded (deep vertex) atRoot List.not_mem_nil
        · have different : graph.strip vertex ≠ graph.rootWithin bound vertex :=
            fun equal => atRoot equal.symm
          cases kind : graph.onward (graph.strip vertex) with
          | stop => exact absurd (rootWithin_stop bounded kind) atRoot
          | follow next =>
              have step := step_of_follow kind
              have isRoot := rootWithin_step bounded rfl different step
              have clean := (walk_eq_root_iff bounded (deep next)).mp
                (induction next (shallow next step))
              rw [isRoot] at clean
              refine (walk_eq_root_iff bounded (deep vertex)).mpr ?_
              intro met onWay notRoot arms isJoin
              cases onWay with
              | here =>
                  rw [kind] at isJoin
                  cases isJoin
              | step _ other rest =>
                  rw [Step, targets, kind] at other
                  rw [List.mem_singleton.mp other] at rest
                  exact clean met rest notRoot arms isJoin
          | join arms =>
              have some : arms ≠ [] := by
                intro none
                rw [none] at kind
                exact atRoot (rootWithin_join bounded kind)
              have stripped := sees (graph.strip vertex) arms (bounded.strip_strip vertex) kind
                some (graph.rootWithin bound vertex) (by
                  intro arm member
                  have step := step_of_join kind member
                  rw [induction arm (shallow arm step)]
                  exact rootWithin_step bounded rfl different step)
              have same : graph.rootWithin bound (graph.strip vertex) =
                  graph.rootWithin bound vertex := rootWithin_strip bounded
              rw [← same] at stripped
              have clean := (walk_eq_root_iff bounded (deep _)).mp stripped
              rw [same] at clean
              exact (walk_eq_root_iff bounded (deep vertex)).mpr (clean_of_strip bounded clean)
  exact general bound vertex (bounded.shallow vertex)

/-- Joins whose arms, each walked on its own, have one value have that value, exactly
if the arms of a join that share their root share nothing else on the way. -/
theorem walk_joins_iff {fuel : Nat} (enough : bound ≤ fuel) :
    (∀ vertex arms, graph.strip vertex = vertex → graph.onward vertex = .join arms →
        arms ≠ [] → ∀ root, (∀ arm ∈ arms, (graph.walk fuel [] arm).1 = root) →
          (graph.walk fuel [] vertex).1 = root) ↔
      ∀ vertex arms, graph.strip vertex = vertex → graph.onward vertex = .join arms →
        ∀ root, (∀ arm ∈ arms, graph.rootWithin bound arm = root) →
          arms.Pairwise (graph.Apart root) := by
  have deep : ∀ vertex, graph.Shallow fuel vertex :=
    fun vertex => (bounded.shallow vertex).mono enough
  constructor
  · intro sees vertex arms stripped isJoin root roots
    have kind : graph.onward (graph.strip vertex) = .join arms := by
      rw [stripped]
      exact isJoin
    by_cases some : arms = []
    · rw [some]
      exact .nil
    · have isRoot := rootWithin_of_arms bounded kind some roots
      have clean := (walk_eq_root_iff bounded (deep vertex)).mp
        (walk_eq_root_of_joins bounded enough sees vertex)
      rw [isRoot] at clean
      refine clean vertex (.here vertex) ?_ arms kind
      intro atRoot
      cases arms with
      | nil => exact some rfl
      | cons first rest =>
          have isArm : first ∈ first :: rest := List.mem_cons_self ..
          have below : graph.Step root first := by
            rw [← atRoot, Step, targets_strip bounded]
            exact step_of_join kind isArm
          exact not_below_root bounded (.single below) (roots first isArm)
  · intro apart vertex arms stripped isJoin some root values
    have finds : ∀ vertex, (graph.walk fuel [] vertex).1 = graph.rootWithin bound vertex := by
      intro vertex
      refine (walk_eq_root_iff bounded (deep vertex)).mpr ?_
      intro met onWay notRoot arms kind
      have isRoot := onWay.rootWithin_eq bounded rfl
      apply apart (graph.strip met) arms (bounded.strip_strip met) kind
      intro arm member
      exact rootWithin_step bounded isRoot notRoot (step_of_join kind member)
    have kind : graph.onward (graph.strip vertex) = .join arms := by
      rw [stripped]
      exact isJoin
    rw [finds vertex]
    apply rootWithin_of_arms bounded kind some
    intro arm member
    rw [← finds arm]
    exact values arm member

end Bounded

end JoinGraph

end Desan
