import Desan.CheckedVariableAnalyzer.Tracing
import Desan.Foundation.JoinWalk

/-! # Normalisation and joins

`normalizeVariable` walks the value graph with one set of visited values for all arms
of a phi or select. A later arm that meets a value of an earlier one stops there and
answers the value itself, unless it is the root. -/

namespace Desan

namespace ValueGraph

variable {graph : ValueGraph}

/-- The operands that `normalizeVariable` goes on to from a stripped value. -/
def onward (graph : ValueGraph) (value : Value) : Onward Value :=
  match graph.node value with
  | .instruction (.getElementPtr pointer _)
  | .constant (.getElementPtr pointer _) => .follow pointer
  | .instruction (.cast _ source)
  | .constant (.cast _ source) => .follow source
  | .instruction (.load pointer _ _) => .follow pointer
  | .instruction (.store _ pointer) => .follow pointer
  | .instruction (.phi incoming) => .join (incoming.map Prod.fst)
  | .instruction (.select _ ifTrue ifFalse) => .join [ifTrue, ifFalse]
  | .instruction (.binary _ lhs rhs) => .follow (graph.firstNonConstant lhs rhs)
  | _ => .stop

def joins (graph : ValueGraph) : JoinGraph Value := ⟨graph.stripPointerCasts, graph.onward⟩

/-- An operand that normalisation strips to or goes on to. -/
def Follows (graph : ValueGraph) (source target : Value) : Prop :=
  graph.stripStep source = some target ∨ target ∈ (graph.onward source).targets

/-- Every chain of operands from the value is shorter than the bound. -/
abbrev DepthBelow (graph : ValueGraph) : Nat → Value → Prop := ChainsBelow graph.Follows

/-- A value graph without cycles whose chains stay below the trace depth; no chain is as
long as there are values. -/
structure Acyclic (graph : ValueGraph) : Prop where
  depth : ∀ value, graph.DepthBelow maxTraceDepth value
  count : ∀ value, graph.DepthBelow graph.count value

/-- The arms of a phi or select. -/
def arms? (graph : ValueGraph) (value : Value) : Option (List Value) :=
  match graph.node value with
  | .instruction (.phi incoming) => some (incoming.map Prod.fst)
  | .instruction (.select _ ifTrue ifFalse) => some [ifTrue, ifFalse]
  | _ => none

/-- Every phi and select whose arms normalise to one root normalises to it. -/
def SeesJoins (graph : ValueGraph) : Prop :=
  ∀ value arms, graph.arms? value = some arms → arms ≠ [] →
    ∀ root, (∀ arm ∈ arms, graph.normalizeVariable arm = root) →
      graph.normalizeVariable value = root

/-- What a value comes from: casts, accesses and joins with one origin seen through. -/
def origin (graph : ValueGraph) (value : Value) : Value :=
  graph.joins.rootWithin maxTraceDepth value

/-- Two arms of a phi or select with one origin share no other value on the way
to it. -/
def ArmsApart (graph : ValueGraph) : Prop :=
  ∀ value arms, graph.arms? value = some arms →
    ∀ root, (∀ arm ∈ arms, graph.origin arm = root) →
      arms.Pairwise (graph.joins.Apart root)

/-! ## Normalisation is the walk of a join graph -/

theorem normalizeIncoming_eq (normalize : List Value → Value → Normalized)
    (arms : List Value) (common : Option Value) (visited : List Value) :
    normalizeIncoming normalize arms common visited =
      JoinGraph.walkArms normalize arms common visited := by
  induction arms generalizing common visited with
  | nil => rfl
  | cons arm rest induction =>
      rw [normalizeIncoming, JoinGraph.walkArms]
      cases common with
      | none => exact induction _ _
      | some base =>
          simp only
          split
          · rfl
          · exact induction _ _

theorem normalizeVariableImpl_eq (fuel : Nat) (visited : List Value) (value : Value) :
    graph.normalizeVariableImpl fuel visited value = graph.joins.walk fuel visited value := by
  induction fuel generalizing visited value with
  | zero => rfl
  | succ fuel induction =>
      have walks : graph.normalizeVariableImpl fuel = graph.joins.walk fuel := by
        funext visited value
        exact induction visited value
      rw [normalizeVariableImpl, JoinGraph.walk]
      split
      · rfl
      · have onwardEqual : graph.joins.onward (graph.joins.strip value) =
            graph.onward (graph.stripPointerCasts value) := rfl
        rw [onwardEqual, onward]
        simp only [walks, normalizeIncoming_eq]
        cases kind : graph.node (graph.stripPointerCasts value) with
        | instruction op =>
            cases op with
            | phi incoming =>
                simp only
                rcases JoinGraph.walkArms (graph.joins.walk fuel) (incoming.map Prod.fst) none
                  (value :: visited) with ⟨outcome, after⟩
                cases outcome <;> rfl
            | select condition ifTrue ifFalse =>
                -- Both arms of a select are walked, as two incoming values are.
                simp only [JoinGraph.walkArms]
                rcases graph.joins.walk fuel (value :: visited) ifTrue with ⟨first, marked⟩
                simp only
                rcases graph.joins.walk fuel marked ifFalse with ⟨second, after⟩
                by_cases same : first = second
                · simp only [same, ne_eq, not_true_eq_false, if_true, if_false]
                  rfl
                · simp only [same, ne_eq, not_false_eq_true, if_true, if_false]
                  rfl
            | _ => rfl
        | constant constant => cases constant <;> rfl
        | _ => rfl

theorem normalizeVariable_eq (value : Value) :
    graph.normalizeVariable value = (graph.joins.walk traceFuel [] value).1 := by
  rw [normalizeVariable, normalizeVariableImpl_eq]

/-! ## Stripping settles -/

/-- Without cycles the loop ends where there is nothing left to strip. -/
theorem stripStep_stripLoop {fuel : Nat} {visited : List Value} {value : Value}
    (below : graph.DepthBelow fuel value)
    (behind : ∀ other ∈ visited, Relation.ReflTransGen graph.Follows other value) :
    graph.stripStep (graph.stripLoop fuel visited value) = none ∧
      Relation.ReflTransGen graph.Follows value (graph.stripLoop fuel visited value) := by
  induction fuel generalizing visited value with
  | zero => cases below
  | succ fuel induction =>
      rw [stripLoop]
      cases step : graph.stripStep value with
      | none => exact ⟨step, .refl⟩
      | some next =>
          have follows : graph.Follows value next := .inl step
          have fresh : next ∉ visited := by
            intro member
            exact below.not_cycle (.head' follows (behind next member))
          simp only [if_neg fresh]
          have stillBehind : ∀ other ∈ next :: visited,
              Relation.ReflTransGen graph.Follows other next := by
            intro other member
            rcases List.mem_cons.mp member with rfl | old
            · exact .refl
            · exact .tail (behind other old) follows
          have onward := induction (below next follows) stillBehind
          exact ⟨onward.1, .head follows onward.2⟩

theorem stripPointerCasts_of_stripStep {value : Value} (last : graph.stripStep value = none) :
    graph.stripPointerCasts value = value := by
  rw [stripPointerCasts]
  split
  · cases graph.count with
    | zero => rfl
    | succ count => rw [stripLoop, last]
  · rfl

section Acyclic

variable (acyclic : graph.Acyclic)
include acyclic

theorem stripPointerCasts_reaches (value : Value) :
    Relation.ReflTransGen graph.Follows value (graph.stripPointerCasts value) := by
  rw [stripPointerCasts]
  split
  · apply (stripStep_stripLoop (acyclic.count value) ?_).2
    intro other member
    rw [List.mem_singleton.mp member]
  · exact .refl

theorem stripPointerCasts_idem (value : Value) :
    graph.stripPointerCasts (graph.stripPointerCasts value) = graph.stripPointerCasts value := by
  by_cases pointer : (graph.ty value).isPointer = true
  · apply stripPointerCasts_of_stripStep
    rw [stripPointerCasts, if_pos pointer]
    apply (stripStep_stripLoop (acyclic.count value) ?_).1
    intro other member
    rw [List.mem_singleton.mp member]
  · have same : graph.stripPointerCasts value = value := by
      rw [stripPointerCasts, if_neg pointer]
    rw [same, same]

theorem joins_bounded : graph.joins.Bounded maxTraceDepth where
  shallow := by
    intro value
    have paths : ∀ source target, graph.joins.Step source target →
        Relation.TransGen graph.Follows source target := by
      intro source target step
      exact .tail' (stripPointerCasts_reaches acyclic source) (.inr step)
    exact ChainsBelow.of_paths paths (acyclic.depth value)
  strip_strip := stripPointerCasts_idem acyclic

end Acyclic

/-! ## Joins whose arms agree -/

theorem onward_of_arms? {value : Value} {arms : List Value}
    (isJoin : graph.arms? value = some arms) :
    graph.joins.strip value = value ∧ graph.joins.onward value = .join arms := by
  rw [arms?] at isJoin
  have last : graph.stripStep value = none ∧ graph.onward value = .join arms := by
    rw [stripStep, onward]
    split at isJoin
    · rename_i incoming kind
      rw [kind]
      exact ⟨rfl, congrArg Onward.join (Option.some.inj isJoin)⟩
    · rename_i condition ifTrue ifFalse kind
      rw [kind]
      exact ⟨rfl, congrArg Onward.join (Option.some.inj isJoin)⟩
    · cases isJoin
  exact ⟨stripPointerCasts_of_stripStep last.1, last.2⟩

theorem arms?_of_onward {value : Value} {arms : List Value}
    (isJoin : graph.onward value = .join arms) : graph.arms? value = some arms := by
  rw [onward] at isJoin
  rw [arms?]
  cases kind : graph.node value with
  | instruction op =>
      rw [kind] at isJoin
      cases op <;> cases isJoin <;> rfl
  | constant constant =>
      rw [kind] at isJoin
      cases constant <;> cases isJoin
  | _ =>
      rw [kind] at isJoin
      cases isJoin

/-- Normalisation sees through every join whose arms agree, exactly if the arms of a
join with one origin share nothing else. -/
theorem seesJoins_iff_armsApart (acyclic : graph.Acyclic) :
    graph.SeesJoins ↔ graph.ArmsApart := by
  have enough : maxTraceDepth ≤ traceFuel := Nat.le_succ maxTraceDepth
  have walks := JoinGraph.walk_joins_iff (joins_bounded acyclic) enough
  constructor
  · intro sees value arms isJoin root origins
    have joined := onward_of_arms? isJoin
    refine walks.mp ?_ value arms joined.1 joined.2 root origins
    intro value arms _ isJoin some root normalized
    rw [← normalizeVariable_eq]
    apply sees value arms (arms?_of_onward isJoin) some
    intro arm member
    rw [normalizeVariable_eq]
    exact normalized arm member
  · intro apart value arms isJoin some root normalized
    have joined := onward_of_arms? isJoin
    rw [normalizeVariable_eq]
    refine walks.mpr ?_ value arms joined.1 joined.2 some root ?_
    · intro value arms _ isJoin
      exact apart value arms (arms?_of_onward isJoin)
    · intro arm member
      rw [← normalizeVariable_eq]
      exact normalized arm member

/-- A select of two accesses to an argument; with `second` 0 both arms are the same. -/
def selectGraph (second : Nat) : ValueGraph :=
  Module.functionGraph
    { functions := []
      values :=
        { value
            | 0 => ⟨.argument, .pointer⟩
            | 1 => ⟨.argument, .integer 64⟩
            | _ => ⟨.argument, .integer 1⟩
          count := 3 }
      dataLayout := ⟨64, 8⟩ }
    { name := "mixed_checks"
      blocks :=
        [{ id := 0
           insts :=
             [⟨0, .pointer, .getElementPtr (.other 0) [⟨.other 1, .element 1⟩]⟩,
              ⟨1, .pointer, .getElementPtr (.other 0) [⟨.other 1, .element 1⟩]⟩,
              ⟨2, .pointer, .select (.other 2) (.inst 0) (.inst second)⟩]
           terminator := ⟨3, .other 0, .ret none⟩ }] }

/-- How far a value of the graph is above the arguments. -/
def selectRank : Value → Nat
  | .inst 2 => 2
  | .inst 0 | .inst 1 => 1
  | _ => 0

theorem selectRank_lt (value : Value) : selectRank value < 3 := by
  rw [selectRank.eq_def]
  split <;> omega

theorem selectGraph_acyclic {second : Nat} (before : second < 2) :
    (selectGraph second).Acyclic := by
  have low : second = 0 ∨ second = 1 := by omega
  have decreases : ∀ source target, (selectGraph second).Follows source target →
      selectRank target < selectRank source := by
    intro source target follows
    have goes : ∀ targets, (selectGraph second).stripStep source = none →
        ((selectGraph second).onward source).targets = targets → target ∈ targets := by
      intro targets stays onward
      rw [Follows, stays, onward] at follows
      exact follows.resolve_left nofun
    have stuck : target ∈ ([] : List Value) → False := List.not_mem_nil
    cases source with
    | inst id =>
        rcases id with _ | _ | _ | _ | id
        · rw [List.mem_singleton.mp (goes [.other 0] rfl rfl)]
          exact Nat.zero_lt_one
        · rw [List.mem_singleton.mp (goes [.other 0] rfl rfl)]
          exact Nat.zero_lt_one
        · have arms := goes [.inst 0, .inst second] rfl rfl
          rcases low with rfl | rfl <;>
            simp only [List.mem_cons, List.not_mem_nil] at arms <;>
            rcases arms with rfl | rfl | none <;> first | exact Nat.one_lt_two | cases none
        · exact (stuck (goes [] rfl rfl)).elim
        · exact (stuck (goes [] rfl rfl)).elim
    | other id =>
        rcases id with _ | _ | id
        · exact (stuck (goes [] rfl rfl)).elim
        · exact (stuck (goes [] rfl rfl)).elim
        · exact (stuck (goes [] rfl rfl)).elim
    | poison => exact (stuck (goes [] rfl rfl)).elim
  constructor
  · intro value
    have low := selectRank_lt value
    apply ChainsBelow.of_rank selectRank decreases
    unfold maxTraceDepth
    omega
  · intro value
    exact ChainsBelow.of_rank selectRank decreases
      ((selectRank_lt value).trans (show 3 < 8 by decide))

theorem selectGraph_not_seesJoins :
    (selectGraph 0).Acyclic ∧ ¬(selectGraph 0).SeesJoins := by
  refine ⟨selectGraph_acyclic (by decide), fun sees => ?_⟩
  have seen := sees (.inst 2) [.inst 0, .inst 0] rfl (by decide) (.other 0) (by decide)
  revert seen
  decide

theorem selectGraph_seesJoins : (selectGraph 1).SeesJoins := by
  apply (seesJoins_iff_armsApart (selectGraph_acyclic (by decide))).mpr
  intro value arms isJoin root origins
  have only : value = .inst 2 ∧ arms = [.inst 0, .inst 1] := by
    match value with
    | .inst 0 | .inst 1 | .inst 3 => cases isJoin
    | .inst 2 => exact ⟨rfl, (Option.some.inj isJoin).symm⟩
    | .inst (id + 4) => cases isJoin
    | .other 0 | .other 1 | .other (id + 2) => cases isJoin
    | .poison => cases isJoin
  rcases only with ⟨rfl, rfl⟩
  have isRoot : root = .other 0 := (origins (.inst 0) (by decide)).symm
  have stops : ∀ met, (selectGraph 1).joins.OnWay root (.other 0) met → met = root := by
    intro met onWay
    rw [isRoot] at onWay ⊢
    exact onWay.eq_of_strip rfl
  have ways : ∀ arm, arm = .inst 0 ∨ arm = .inst 1 → ∀ met,
      (selectGraph 1).joins.OnWay root arm met → met = arm ∨ met = root := by
    intro arm isArm met onWay
    cases onWay with
    | here => exact .inl rfl
    | step _ step rest =>
        rcases isArm with rfl | rfl <;>
          exact .inr (stops met (List.mem_singleton.mp step ▸ rest))
  apply List.pairwise_pair.mpr
  intro met left right
  rcases ways (.inst 0) (.inl rfl) met left with atLeft | same
  · rcases ways (.inst 1) (.inr rfl) met right with atRight | same
    · exact absurd (atLeft.symm.trans atRight) (by decide)
    · exact same
  · exact same

end ValueGraph

end Desan
