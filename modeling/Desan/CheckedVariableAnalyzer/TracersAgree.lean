import Desan.CheckedVariableAnalyzer.Normalization

/-! # Where the two tracers agree

On addresses without stores, comparisons and binary operators the tracers differ in one
case: the tracer of ASan addresses has none for a constant expression that is a cast. It
normalises such a cast at once, the other tracer goes on to what is cast. -/

namespace Desan

/-- A value the two tracers have one rule for: no store, comparison or binary operator. -/
def Node.isPlain : Node → Bool
  | .instruction (.store _ _) | .instruction (.cmp _ _ _) | .instruction (.binary _ _ _) => false
  | _ => true

/-- The same base, offsets and static byte offset. -/
structure SameTrace (left right : CheckedVariable) : Prop where
  base : left.base = right.base
  offsets : left.offsets = right.offsets
  hasStaticByteOffset : left.hasStaticByteOffset = right.hasStaticByteOffset
  staticByteOffset : left.staticByteOffset = right.staticByteOffset

namespace ValueGraph

variable {graph : ValueGraph}

/-- A value that the trace of the first may come to. -/
abbrev Meets (graph : ValueGraph) : Value → Value → Prop :=
  Relation.ReflTransGen graph.joins.Step

/-- All that the value is built from has one rule in both tracers. -/
def Plain (graph : ValueGraph) (value : Value) : Prop :=
  ∀ met, graph.Meets value met → (graph.node (graph.stripPointerCasts met)).isPlain = true

/-- The operand of a constant expression that is an address. -/
def constantOperand? (graph : ValueGraph) (value : Value) : Option Value :=
  match graph.node value with
  | .constant (.getElementPtr pointer _) => some pointer
  | .constant (.cast _ source) => some source
  | _ => none

/-- Constant expressions are built from constants, and none from itself. -/
structure ConstantsFounded (graph : ValueGraph) (rank : Value → Nat) : Prop where
  constant : ∀ value operand, graph.constantOperand? value = some operand →
    graph.isConstant operand = true
  lower : ∀ value operand, graph.constantOperand? value = some operand →
    rank operand < rank value

/-- The tracers agree on the value at every depth and with all marks. -/
def TracersAgree (graph : ValueGraph) (layout : Option DataLayout) (value : Value) : Prop :=
  ∀ fuel ≤ traceFuel, ∀ visited,
    SameTrace (graph.traceASanCheckedAddressImpl layout fuel visited value)
      (graph.traceCheckedValueImpl layout fuel visited value)

/-- What a constant expression casts is no constant expression of a GEP or cast itself,
where a trace comes to the cast. -/
def CastsLeaves (graph : ValueGraph) (value : Value) : Prop :=
  ∀ met, graph.Meets value met → ∀ op source,
    graph.node (graph.stripPointerCasts met) = .constant (.cast op source) →
      graph.constantOperand? source = none

/-! ## Constants -/

theorem stripStep_of_constant {value : Value} (isConstant : graph.isConstant value = true)
    {next : Value} (step : graph.stripStep value = some next) :
    graph.constantOperand? value = some next := by
  rw [ValueGraph.isConstant] at isConstant
  rw [stripStep] at step
  rw [constantOperand?]
  cases kind : graph.node value with
  | constant constant =>
      rw [kind] at step
      cases constant with
      | getElementPtr pointer indices => exact (Option.ite_none_right_eq_some.mp step).2
      | cast op source =>
          cases op with
          | bitCast => exact (Option.ite_none_right_eq_some.mp step).2
          | addrSpaceCast => exact step
          | _ => cases step
      | _ => cases step
  | _ =>
      rw [kind] at isConstant
      cases isConstant

theorem onward_leaf {value : Value} (isConstant : graph.isConstant value = true)
    (leaf : graph.constantOperand? value = none) : graph.onward value = .stop := by
  rw [ValueGraph.isConstant] at isConstant
  rw [constantOperand?] at leaf
  rw [onward]
  cases kind : graph.node value with
  | constant constant =>
      rw [kind] at leaf
      cases constant <;> first | rfl | cases leaf
  | instruction op =>
      rw [kind] at isConstant
      cases isConstant
  | _ => rfl

theorem onward_operand {value operand : Value}
    (isOperand : graph.constantOperand? value = some operand) :
    graph.onward value = .follow operand := by
  rw [constantOperand?] at isOperand
  rw [onward]
  split at isOperand
  · rename_i kind
    rw [kind, Option.some.inj isOperand]
  · rename_i kind
    rw [kind, Option.some.inj isOperand]
  · cases isOperand

theorem isConstant_of_constantOperand? {value operand : Value}
    (isOperand : graph.constantOperand? value = some operand) :
    graph.isConstant value = true := by
  rw [constantOperand?] at isOperand
  rw [ValueGraph.isConstant]
  split at isOperand
  · rename_i kind
    rw [kind]
  · rename_i kind
    rw [kind]
  · cases isOperand

theorem constantOperand?_cast {value source : Value} {op : CastOp}
    (isCast : graph.node value = .constant (.cast op source)) :
    graph.constantOperand? value = some source := by
  rw [constantOperand?, isCast]

theorem stripStep_leaf {value : Value} (isConstant : graph.isConstant value = true)
    (leaf : graph.constantOperand? value = none) : graph.stripStep value = none := by
  cases step : graph.stripStep value with
  | none => rfl
  | some next =>
      have operand := stripStep_of_constant isConstant step
      rw [leaf] at operand
      cases operand

theorem stripLoop_leaf (fuel : Nat) (visited : List Value) {value : Value}
    (isConstant : graph.isConstant value = true)
    (leaf : graph.constantOperand? value = none) :
    graph.stripLoop fuel visited value = value := by
  cases fuel with
  | zero => rfl
  | succ fuel => rw [stripLoop, stripStep_leaf isConstant leaf]

theorem strip_leaf {value : Value} (isConstant : graph.isConstant value = true)
    (leaf : graph.constantOperand? value = none) : graph.stripPointerCasts value = value :=
  stripPointerCasts_of_stripStep (stripStep_leaf isConstant leaf)

theorem normalize_leaf (fuel : Nat) (visited : List Value) {value : Value}
    (isConstant : graph.isConstant value = true)
    (leaf : graph.constantOperand? value = none) :
    (graph.joins.walk fuel visited value).1 = value := by
  cases fuel with
  | zero => rfl
  | succ fuel =>
      have strip : graph.joins.strip value = value :=
        stripPointerCasts_of_stripStep (stripStep_leaf isConstant leaf)
      by_cases fresh : value ∈ visited
      · rw [JoinGraph.walk, if_pos fresh]
      · have stops : graph.joins.onward (graph.joins.strip value) = .stop := by
          rw [strip]
          exact onward_leaf isConstant leaf
        rw [JoinGraph.walk_stop stops fresh]
        exact strip

section Founded

variable {rank : Value → Nat} (founded : graph.ConstantsFounded rank)
include founded

/-- What a constant is built from: itself or a constant of a lower rank. -/
abbrev Within (graph : ValueGraph) (rank : Value → Nat) (whole part : Value) : Prop :=
  graph.isConstant part = true ∧ (part = whole ∨ rank part < rank whole)

omit founded in
theorem Within.trans {whole middle part : Value} (left : graph.Within rank whole middle)
    (right : graph.Within rank middle part) : graph.Within rank whole part := by
  refine ⟨right.1, ?_⟩
  rcases left.2 with rfl | lower
  · exact right.2
  · rcases right.2 with rfl | lowest
    · exact .inr lower
    · exact .inr (lowest.trans lower)

omit founded in
theorem Within.rank_le {whole part : Value} (within : graph.Within rank whole part) :
    rank part ≤ rank whole := by
  rcases within.2 with same | lower
  · rw [same]
  · exact Nat.le_of_lt lower

theorem within_operand {value operand : Value}
    (isOperand : graph.constantOperand? value = some operand) :
    graph.Within rank value operand :=
  ⟨founded.constant value operand isOperand, .inr (founded.lower value operand isOperand)⟩

theorem ne_operand {value operand : Value}
    (isOperand : graph.constantOperand? value = some operand) : operand ≠ value := by
  intro same
  have lower := founded.lower value operand isOperand
  rw [same] at lower
  exact Nat.lt_irrefl _ lower

theorem within_stripLoop (fuel : Nat) (visited : List Value) {value : Value}
    (isConstant : graph.isConstant value = true) :
    graph.Within rank value (graph.stripLoop fuel visited value) := by
  induction fuel generalizing visited value with
  | zero => exact ⟨isConstant, .inl rfl⟩
  | succ fuel induction =>
      rw [stripLoop]
      cases step : graph.stripStep value with
      | none => exact ⟨isConstant, .inl rfl⟩
      | some next =>
          have operand := stripStep_of_constant isConstant step
          have below := within_operand founded operand
          simp only
          split
          · exact below
          · exact Within.trans below (induction _ below.1)

theorem within_strip {value : Value} (isConstant : graph.isConstant value = true) :
    graph.Within rank value (graph.stripPointerCasts value) := by
  rw [stripPointerCasts]
  split
  · exact within_stripLoop founded _ _ isConstant
  · exact ⟨isConstant, .inl rfl⟩

omit founded in
/-- Stripping leaves a constant expression, or goes on from its operand. -/
theorem strip_of_operand {value operand : Value}
    (isOperand : graph.constantOperand? value = some operand) :
    graph.stripPointerCasts value = value ∨
      ∃ fuel visited, graph.stripPointerCasts value = graph.stripLoop fuel visited operand := by
  have isConstant := isConstant_of_constantOperand? isOperand
  rw [stripPointerCasts]
  split
  · cases graph.count with
    | zero => exact .inl rfl
    | succ count =>
        rw [stripLoop]
        cases step : graph.stripStep value with
        | none => exact .inl rfl
        | some next =>
            have operandIs := stripStep_of_constant isConstant step
            have same := Option.some.inj (isOperand.symm.trans operandIs)
            subst same
            right
            simp only
            split
            · exact ⟨0, [], rfl⟩
            · exact ⟨_, _, rfl⟩
  · exact .inl rfl

/-- Normalisation of a constant ends in what it is built from. -/
theorem within_normalize (fuel : Nat) (visited : List Value) {value : Value}
    (isConstant : graph.isConstant value = true) :
    graph.Within rank value (graph.joins.walk fuel visited value).1 := by
  induction fuel generalizing visited value with
  | zero => exact ⟨isConstant, .inl rfl⟩
  | succ fuel induction =>
      have stripped := within_strip founded isConstant
      by_cases fresh : value ∈ visited
      · rw [JoinGraph.walk, if_pos fresh]
        exact ⟨isConstant, .inl rfl⟩
      · cases isOperand : graph.constantOperand? (graph.stripPointerCasts value) with
        | none =>
            rw [JoinGraph.walk_stop (onward_leaf stripped.1 isOperand) fresh]
            exact stripped
        | some operand =>
            have below := within_operand founded isOperand
            rw [JoinGraph.walk_follow (onward_operand isOperand) fresh]
            exact Within.trans stripped (Within.trans below (induction _ below.1))

/-- A constant that normalises to itself is no constant expression. -/
theorem leaf_of_normalize {fuel : Nat} {visited : List Value} {value : Value}
    (isConstant : graph.isConstant value = true) (fresh : value ∉ visited)
    (itself : (graph.joins.walk (fuel + 1) visited value).1 = value) :
    graph.constantOperand? value = none := by
  cases isOperand : graph.constantOperand? value with
  | none => rfl
  | some operand =>
      exfalso
      have stripped := within_strip founded isConstant
      cases onStripped : graph.constantOperand? (graph.stripPointerCasts value) with
      | none =>
          rw [JoinGraph.walk_stop (onward_leaf stripped.1 onStripped) fresh] at itself
          have same : graph.stripPointerCasts value = value := itself
          rw [same, isOperand] at onStripped
          cases onStripped
      | some next =>
          rw [JoinGraph.walk_follow (onward_operand onStripped) fresh] at itself
          have lower := founded.lower _ _ onStripped
          have ends := within_normalize founded fuel (value :: visited)
            (founded.constant _ _ onStripped)
          rw [itself] at ends
          have first := stripped.rank_le
          have last := ends.rank_le
          omega

/-- A cast normalises to what it casts exactly if that is no constant expression. -/
theorem normalizeVariable_cast_iff {value source : Value} {op : CastOp}
    (isCast : graph.node value = .constant (.cast op source)) :
    graph.normalizeVariable value = source ↔ graph.constantOperand? source = none := by
  have isOperand := constantOperand?_cast isCast
  have isConstant := founded.constant value source isOperand
  have different := ne_operand founded isOperand
  have fresh : source ∉ [value] := fun member => different (List.mem_singleton.mp member)
  have onValue := isConstant_of_constantOperand? isOperand
  rw [normalizeVariable_eq]
  rcases strip_of_operand isOperand with stays | ⟨fuel, visited, goes⟩
  · have onward : graph.joins.onward (graph.joins.strip value) = .follow source := by
      rw [show graph.joins.strip value = value from stays]
      exact onward_operand isOperand
    rw [traceFuel, JoinGraph.walk_follow onward List.not_mem_nil]
    exact ⟨leaf_of_normalize founded isConstant fresh, fun leaf =>
      normalize_leaf _ _ isConstant leaf⟩
  · have below := within_stripLoop founded fuel visited isConstant
    rw [← goes] at below
    constructor
    · intro same
      cases onStripped : graph.constantOperand? (graph.stripPointerCasts value) with
      | none =>
          rw [traceFuel, JoinGraph.walk_stop (onward_leaf below.1 onStripped)
            List.not_mem_nil] at same
          rw [← same]
          exact onStripped
      | some next =>
          exfalso
          rw [traceFuel, JoinGraph.walk_follow (onward_operand onStripped)
            List.not_mem_nil] at same
          have ends := within_normalize founded maxTraceDepth [value]
            (founded.constant _ _ onStripped)
          rw [same] at ends
          have first := below.rank_le
          have lower := founded.lower _ _ onStripped
          have last := ends.rank_le
          omega
    · intro leaf
      rw [stripLoop_leaf fuel visited isConstant leaf] at goes
      have stops : graph.joins.onward (graph.joins.strip value) = .stop := by
        rw [show graph.joins.strip value = source from goes]
        exact onward_leaf isConstant leaf
      rw [traceFuel, JoinGraph.walk_stop stops List.not_mem_nil]
      exact goes

end Founded

/-! ## The tracers -/

theorem Plain.step {value next : Value} (plain : graph.Plain value)
    (step : graph.joins.Step value next) : graph.Plain next :=
  fun met path => plain met (.head step path)

theorem CastsLeaves.step {value next : Value} (leaves : graph.CastsLeaves value)
    (step : graph.joins.Step value next) : graph.CastsLeaves next :=
  fun met path => leaves met (.head step path)

/-- The trace of a constant that is no constant expression. -/
theorem traceCheckedValueImpl_leaf (layout : Option DataLayout) (fuel : Nat)
    (visited : List Value) {value : Value} (isConstant : graph.isConstant value = true)
    (leaf : graph.constantOperand? value = none) :
    graph.traceCheckedValueImpl layout fuel visited value = graph.makeBaseVariable value := by
  cases fuel with
  | zero => rfl
  | succ fuel =>
      rw [traceCheckedValueImpl]
      split
      · rfl
      · have stays := strip_leaf isConstant leaf
        have normal : graph.normalizeVariable value = value := by
          rw [normalizeVariable_eq]
          exact normalize_leaf _ _ isConstant leaf
        simp only [stays]
        rw [ValueGraph.isConstant] at isConstant
        rw [constantOperand?] at leaf
        cases kind : graph.node value with
        | constant constant =>
            rw [kind] at leaf
            cases constant with
            | getElementPtr pointer indices => cases leaf
            | cast op source => cases leaf
            | _ => simp only [normal]
        | _ =>
            rw [kind] at isConstant
            cases isConstant

/-- On plain values that cast leaves only the two tracers are one. -/
theorem traceASanCheckedAddressImpl_eq {rank : Value → Nat}
    (founded : graph.ConstantsFounded rank) (layout : Option DataLayout) (fuel : Nat)
    (visited : List Value) {value : Value} (plain : graph.Plain value)
    (leaves : graph.CastsLeaves value) :
    graph.traceASanCheckedAddressImpl layout fuel visited value =
      graph.traceCheckedValueImpl layout fuel visited value := by
  induction fuel generalizing visited value with
  | zero => rfl
  | succ fuel induction =>
      have onward : ∀ next ∈ (graph.onward (graph.stripPointerCasts value)).targets,
          graph.traceASanCheckedAddressImpl layout fuel (value :: visited) next =
            graph.traceCheckedValueImpl layout fuel (value :: visited) next := by
        intro next member
        exact induction (value :: visited) (plain.step member) (leaves.step member)
      have isPlain := plain value .refl
      rw [traceASanCheckedAddressImpl, traceCheckedValueImpl]
      split
      · rfl
      · simp only
        rw [ValueGraph.onward] at onward
        cases kind : graph.node (graph.stripPointerCasts value) with
        | constant constant =>
            rw [kind] at onward
            cases constant with
            | getElementPtr pointer indices =>
                simp only [onward pointer (List.mem_singleton_self _)]
            | cast op source =>
                have leaf := leaves value .refl op source kind
                have isOperand := constantOperand?_cast kind
                simp only
                rw [(normalizeVariable_cast_iff founded kind).mpr leaf,
                  traceCheckedValueImpl_leaf _ _ _ (founded.constant _ _ isOperand) leaf]
            | _ => rfl
        | instruction op =>
            rw [kind] at onward isPlain
            cases op with
            | getElementPtr pointer indices =>
                simp only [onward pointer (List.mem_singleton_self _)]
            | load pointer isVolatile ordering =>
                simp only [onward pointer (List.mem_singleton_self _)]
            | cast op source => simp only [onward source (List.mem_singleton_self _)]
            | phi incoming =>
                have arms : incoming.map (fun entry =>
                    graph.traceASanCheckedAddressImpl layout fuel (value :: visited) entry.1) =
                    incoming.map (fun entry =>
                      graph.traceCheckedValueImpl layout fuel (value :: visited) entry.1) := by
                  apply List.map_congr_left
                  intro entry member
                  exact onward entry.1 (List.mem_map_of_mem member)
                simp only [arms]
            | select condition ifTrue ifFalse =>
                have first := onward ifTrue (List.mem_cons_self ..)
                have second := onward ifFalse
                  (List.mem_cons_of_mem _ (List.mem_singleton_self _))
                simp only [first, second]
            | store stored pointer => cases isPlain
            | cmp predicate lhs rhs => cases isPlain
            | binary op lhs rhs => cases isPlain
            | _ => rfl
        | _ => rfl

/-- The tracers agree on all that a plain value is built from, exactly if no constant
expression cast on the way casts a constant expression. -/
theorem tracersAgree_iff_castsLeaves (layout : Option DataLayout) {rank : Value → Nat}
    (founded : graph.ConstantsFounded rank) {value : Value} (plain : graph.Plain value) :
    (∀ met, graph.Meets value met → graph.TracersAgree layout met) ↔
      graph.CastsLeaves value := by
  constructor
  · intro agree met path op source isCast
    -- One step before the depth limit the second tracer answers what is cast.
    have same := (agree met path 1 (by decide) []).base
    rw [traceASanCheckedAddressImpl, traceCheckedValueImpl, if_neg List.not_mem_nil,
      if_neg List.not_mem_nil] at same
    simp only [isCast] at same
    exact (normalizeVariable_cast_iff founded isCast).mp (Option.some.inj same)
  · intro leaves met path fuel _ visited
    rw [traceASanCheckedAddressImpl_eq founded layout fuel visited
      (fun other onward => plain other (path.trans onward))
      (fun other onward => leaves other (path.trans onward))]
    exact ⟨rfl, rfl, rfl, rfl⟩

/-- `ptrtoint` of the global `@g`, or with `source` 2 of eight bytes into it. -/
def castGraph (source : Nat) : ValueGraph :=
  Module.graph
    { functions := []
      values :=
        { value
            | 0 => ⟨.constant .globalVariable, .pointer⟩
            | 1 => ⟨.constant (.int 8), .integer 64⟩
            | 2 => ⟨.constant (.getElementPtr (.other 0) [⟨.other 1, .element 1⟩]), .pointer⟩
            | 3 => ⟨.constant (.cast .ptrToInt (.other source)), .integer 64⟩
            | _ => ⟨.argument, .integer 64⟩
          count := 4 }
      dataLayout := ⟨64, 8⟩ }

def castRank : Value → Nat
  | .other id => id
  | _ => 0

theorem castGraph_founded {source : Nat} (before : source < 3) :
    (castGraph source).ConstantsFounded castRank := by
  have only : ∀ value operand, (castGraph source).constantOperand? value = some operand →
      (value = .other 2 ∧ operand = .other 0) ∨ (value = .other 3 ∧ operand = .other source) := by
    intro value operand isOperand
    cases value with
    | inst id => cases isOperand
    | poison => cases isOperand
    | other id =>
        rcases id with _ | _ | _ | _ | id
        · cases isOperand
        · cases isOperand
        · exact .inl ⟨rfl, (Option.some.inj isOperand).symm⟩
        · exact .inr ⟨rfl, (Option.some.inj isOperand).symm⟩
        · cases isOperand
  have low : source = 0 ∨ source = 1 ∨ source = 2 := by omega
  constructor
  · intro value operand isOperand
    rcases only value operand isOperand with ⟨-, rfl⟩ | ⟨-, rfl⟩
    · rfl
    · rcases low with rfl | rfl | rfl <;> rfl
  · intro value operand isOperand
    rcases only value operand isOperand with ⟨rfl, rfl⟩ | ⟨rfl, rfl⟩
    · exact Nat.zero_lt_two
    · exact before

theorem castGraph_plain (source : Nat) (value : Value) : (castGraph source).Plain value := by
  intro met _
  cases (castGraph source).stripPointerCasts met with
  | inst id => rfl
  | poison => rfl
  | other id => rcases id with _ | _ | _ | _ | id <;> rfl

/-- One tracer drops the eight bytes, the other keeps them. -/
theorem castGraph_traces_differ :
    (castGraph 2).ConstantsFounded castRank ∧ (castGraph 2).Plain (.other 3) ∧
      ¬SameTrace ((castGraph 2).traceASanCheckedAddress (some ⟨64, 8⟩) (.other 3))
        ((castGraph 2).traceCheckedValue (some ⟨64, 8⟩) (.other 3)) := by
  refine ⟨castGraph_founded (by decide), castGraph_plain 2 _, ?_⟩
  intro same
  have offsets := same.offsets
  revert offsets
  decide

theorem castGraph_tracersAgree :
    (castGraph 0).CastsLeaves (.other 3) ∧
      ∀ met, (castGraph 0).Meets (.other 3) met →
        (castGraph 0).TracersAgree (some ⟨64, 8⟩) met := by
  have leaves : (castGraph 0).CastsLeaves (.other 3) := by
    intro met _ op source isCast
    cases stripped : (castGraph 0).stripPointerCasts met with
    | other id =>
        rw [stripped] at isCast
        rcases id with _ | _ | _ | _ | id <;> cases isCast
        rfl
    | _ =>
        rw [stripped] at isCast
        cases isCast
  refine ⟨leaves, ?_⟩
  exact (tracersAgree_iff_castsLeaves (some ⟨64, 8⟩) (castGraph_founded (by decide))
    (castGraph_plain 0 _)).mpr leaves

end ValueGraph

end Desan
