import Desan.CheckedVariableAnalyzer.StaticOffset

/-! # What a trace forgets of an address

A trace keeps the base of an address and the list of its offsets. It forgets the
strides of the accesses, the loads between them, the casts, the operators and their
other operands. Together with what it forgets, the base and the offsets are the
address. -/

namespace Desan

/-- What the trace of an address forgets, outermost step first. -/
inductive Forgotten where
  /-- The value is the base. -/
  | itself
  /-- A value that stands for the base in a way the trace does not tell. -/
  | same (value : Value)
  | gep (steps : List GEPStep) (inner : Forgotten)
  | load (ty : Ty) (inner : Forgotten)
  | cast (op : CastOp) (source target : Nat) (inner : Forgotten)
  /-- An operator on the traced operand and another one: the constant that is the last
  offset if `other` is none. Without `recorded` the operator adds no offset. -/
  | binary (op : BinOp) (width : Nat) (followsRight : Bool) (other : Option Value)
      (recorded : Bool) (inner : Forgotten)
deriving DecidableEq, Repr

namespace ValueGraph

/-! ## States -/

/-- One assignment of the values and one memory; where an operator has no defined
result, a state still has one answer. -/
structure State (graph : ValueGraph) where
  number : Assignment
  memory : Ty → Nat → Nat
  results : BinOp → Nat → Nat → Nat → Nat
  satisfies : graph.Satisfies number
  loads : ∀ value pointer isVolatile ordering,
    graph.node value = .instruction (.load pointer isVolatile ordering) →
      number value = memory (graph.ty value) (number pointer)
  undefined : ∀ value op lhs rhs width, graph.node value = .instruction (.binary op lhs rhs) →
    (graph.ty value).bits = some width → op ≠ .floating →
      op.eval (number.read width lhs) (number.read width rhs) = none →
        number value = results op width (number lhs) (number rhs)

namespace State

variable {graph : ValueGraph} (state : graph.State)

/-- The result of an operator on two numbers. -/
def operate (op : BinOp) (width left right : Nat) : Nat :=
  match op.eval (BitVec.ofNat width left) (BitVec.ofNat width right) with
  | some result => result.toNat
  | none => state.results op width left right

/-- The address that a base, a list of offsets and what is forgotten make up. -/
def rebuild (base : Value) : Forgotten → List Value → Nat
  | .itself, _ => state.number base
  | .same value, _ => state.number value
  | .gep steps inner, offsets =>
      let cut := offsets.length - steps.length
      (BitVec.ofNat 64 (rebuild base inner (offsets.take cut)) +
        graph.gepOffset state.number
          (List.zipWith GEPIndex.mk (offsets.drop cut) steps)).toNat
  | .load ty inner, offsets => state.memory ty (rebuild base inner offsets)
  | .cast op source target inner, offsets =>
      ((op.eval target (BitVec.ofNat source (rebuild base inner offsets))).getD 0).toNat
  | .binary op width followsRight other recorded inner, offsets =>
      let traced := rebuild base inner (if recorded then offsets.dropLast else offsets)
      let another := state.number (other.getD (offsets.getLast?.getD .poison))
      if followsRight then state.operate op width another traced
      else state.operate op width traced another

end State

/-! ## The forgotten part of a trace -/

/-- Stripping from one value to the next keeps the number. -/
def stripKeeps (graph : ValueGraph) (value next : Value) : Bool :=
  (graph.ty value).isPointer && (graph.ty next).isPointer &&
    match graph.node value with
    | .instruction (.cast op _) | .constant (.cast op _) => op == .bitCast
    | .instruction (.getElementPtr _ indices) | .constant (.getElementPtr _ indices) =>
        graph.accumulateConstantOffset 64 indices == some 0
    | _ => true

def stripLoopKeeps (graph : ValueGraph) : Nat → List Value → Value → Bool
  | 0, _, _ => true
  | fuel + 1, visited, value =>
      match graph.stripStep value with
      | none => true
      | some next =>
          graph.stripKeeps value next &&
            (decide (next ∈ visited) || graph.stripLoopKeeps fuel (next :: visited) next)

/-- `stripPointerCasts` keeps the number of the value. -/
def stripsExactly (graph : ValueGraph) (value : Value) : Bool :=
  !(graph.ty value).isPointer || graph.stripLoopKeeps graph.count [value] value

/-- A cast that keeps the number of every value. -/
def castKeeps (op : CastOp) (source target : Nat) : Bool :=
  match op with
  | .trunc | .zext | .ptrToInt | .intToPtr | .bitCast => decide (source ≤ target)
  | _ => false

/-- What the trace forgets of a join: nothing more than of its arms if they are all
the same. -/
def forgottenJoin (join : Value) (merged : CheckedVariable)
    (arms : List (CheckedVariable × Forgotten)) : Forgotten :=
  if merged.base = some join then .itself
  else
    match arms with
    | [] => .same join
    | first :: _ =>
        if arms.all fun arm => arm.1.base = merged.base ∧ arm.1.offsets = merged.offsets ∧
            arm.2 = first.2 then
          first.2
        else .same join

/-- What the trace forgets of an operator on the operand it follows. -/
def forgottenBinary (graph : ValueGraph) (op : BinOp) (lhs rhs : Value) (width : Nat)
    (inner : Forgotten) : Forgotten :=
  let sum := decide (op = .add ∨ op = .sub)
  match graph.isConstant lhs, graph.isConstant rhs with
  | true, false => .binary op width true (if sum then none else some lhs) sum inner
  | true, true => .binary op width false (some rhs) sum inner
  | false, true => .binary op width false (if sum then none else some rhs) sum inner
  | false, false => .binary op width false (some rhs) false inner

/-- What `traceASanCheckedAddress` forgets of an address. -/
def forgottenImpl (graph : ValueGraph) (layout : Option DataLayout) :
    Nat → List Value → Value → Forgotten
  | 0, _, _ => .itself
  | fuel + 1, visited, value =>
      if value ∈ visited then .itself
      else if graph.stripsExactly value = false then .same value
      else
        let visited := value :: visited
        let value := graph.stripPointerCasts value
        match graph.node value with
        | .instruction (.getElementPtr pointer indices)
        | .constant (.getElementPtr pointer indices) =>
            if (graph.ty value).isPointer then
              .gep (indices.map GEPIndex.step) (graph.forgottenImpl layout fuel visited pointer)
            else .same value
        | .instruction (.load pointer _ _) =>
            .load (graph.ty value) (graph.forgottenImpl layout fuel visited pointer)
        | .instruction (.cast op source) =>
            match (graph.ty source).bits, (graph.ty value).bits with
            | some width, some target =>
                if op = .addrSpaceCast ∨ op = .floating then .same value
                else if castKeeps op width target then
                  graph.forgottenImpl layout fuel visited source
                else .cast op width target (graph.forgottenImpl layout fuel visited source)
            | _, _ => .same value
        | .instruction (.phi incoming) =>
            let arms := incoming.map fun entry =>
              (graph.traceASanCheckedAddressImpl layout fuel visited entry.1,
                graph.forgottenImpl layout fuel visited entry.1)
            forgottenJoin value (graph.tracePhi value (arms.map Prod.fst)) arms
        | .instruction (.select _ ifTrue ifFalse) =>
            let arms := [ifTrue, ifFalse].map fun arm =>
              (graph.traceASanCheckedAddressImpl layout fuel visited arm,
                graph.forgottenImpl layout fuel visited arm)
            forgottenJoin value
              (graph.traceSelect value
                (graph.traceASanCheckedAddressImpl layout fuel visited ifTrue)
                (graph.traceASanCheckedAddressImpl layout fuel visited ifFalse)) arms
        | .instruction (.binary op lhs rhs) =>
            match (graph.ty value).bits with
            | some width =>
                if op = .floating then .same value
                else graph.forgottenBinary op lhs rhs width
                  (graph.forgottenImpl layout fuel visited (graph.firstNonConstant lhs rhs))
            | none => .same value
        | _ => if graph.normalizeVariable value = value then .itself else .same value

def forgotten (graph : ValueGraph) (layout : Option DataLayout) (value : Value) : Forgotten :=
  graph.forgottenImpl layout traceFuel [] value

/-! ## Stripping -/

section Numbers

variable {graph : ValueGraph} {layout : Option DataLayout} (state : graph.State)

theorem bits_of_isPointer {ty : Ty} (pointer : ty.isPointer = true) : ty.bits = some 64 := by
  cases ty with
  | pointer => rfl
  | integer bits => cases pointer
  | other size => cases pointer

theorem number_eq_of_word_eq {left right : Value} (leftPointer : (graph.ty left).isPointer = true)
    (rightPointer : (graph.ty right).isPointer = true)
    (words : state.number.word left = state.number.word right) :
    state.number left = state.number right := by
  have small : ∀ {value : Value}, (graph.ty value).isPointer = true →
      (state.number.word value).toNat = state.number value := by
    intro value pointer
    have inRange := state.satisfies.inRange value 64 (bits_of_isPointer pointer)
    rw [Assignment.word, Assignment.read, BitVec.toNat_ofNat, Nat.mod_eq_of_lt inRange]
  rw [← small leftPointer, ← small rightPointer, words]

theorem number_of_stripKeeps {value next : Value} (step : graph.stripStep value = some next)
    (keeps : graph.stripKeeps value next = true) : state.number value = state.number next := by
  rw [stripKeeps, Bool.and_eq_true, Bool.and_eq_true] at keeps
  rcases keeps with ⟨⟨pointer, nextPointer⟩, exact⟩
  apply number_eq_of_word_eq state pointer nextPointer
  apply SameAddress.word_eq state.satisfies
  rw [stripStep] at step
  have ofGep : ∀ {source : Value} {indices : List GEPIndex},
      (graph.node value = .instruction (.getElementPtr source indices) ∨
        graph.node value = .constant (.getElementPtr source indices)) →
      (graph.accumulateConstantOffset 64 indices == some 0) = true →
      (if graph.hasAllZeroIndices indices then some source else none) = some next →
        graph.SameAddress value next := by
    intro source indices node zero goes
    split at goes
    · cases goes
      exact .getElementPtr node (eq_of_beq zero) .refl
    · cases goes
  have ofBitCast : ∀ {source : Value},
      (graph.node value = .instruction (.cast .bitCast source) ∨
        graph.node value = .constant (.cast .bitCast source)) →
      (if (graph.ty source).isPointer then some source else none) = some next →
        graph.SameAddress value next := by
    intro source node goes
    split at goes
    · cases goes
      refine .cast node ?_ .refl
      rw [CastOp.keepsAddress, bits_of_isPointer pointer, bits_of_isPointer nextPointer]
      rfl
    · cases goes
  split at step
  · rename_i source indices node
    rw [node] at exact
    exact ofGep (.inl node) exact step
  · rename_i source indices node
    rw [node] at exact
    exact ofGep (.inr node) exact step
  · rename_i source node
    exact ofBitCast (.inl node) step
  · rename_i source node
    exact ofBitCast (.inr node) step
  · rename_i source node
    rw [node] at exact
    cases exact
  · rename_i source node
    rw [node] at exact
    cases exact
  · rename_i site node
    exact .returned (.inl node) step .refl
  · rename_i site normal unwind node
    exact .returned (.inr ⟨normal, unwind, node⟩) step .refl
  · cases step

theorem number_stripLoop {fuel : Nat} {visited : List Value} {value : Value}
    (keeps : graph.stripLoopKeeps fuel visited value = true) :
    state.number value = state.number (graph.stripLoop fuel visited value) := by
  induction fuel generalizing visited value with
  | zero => rfl
  | succ fuel induction =>
      rw [stripLoopKeeps] at keeps
      rw [stripLoop]
      cases step : graph.stripStep value with
      | none => rfl
      | some next =>
          rw [step] at keeps
          simp only [Bool.and_eq_true, Bool.or_eq_true, decide_eq_true_eq] at keeps
          have first := number_of_stripKeeps state step keeps.1
          simp only
          split
          · exact first
          · rename_i fresh
            exact first.trans (induction (keeps.2.resolve_left fresh))

theorem number_stripPointerCasts {value : Value} (keeps : graph.stripsExactly value = true) :
    state.number value = state.number (graph.stripPointerCasts value) := by
  rw [stripPointerCasts]
  split
  · rename_i pointer
    rw [stripsExactly, pointer] at keeps
    exact number_stripLoop state keeps
  · rfl

/-! ## Offsets of a trace -/

omit state in
theorem offsets_addStaticOffset (checked : CheckedVariable) (delta : Int) :
    (checked.addStaticOffset delta).offsets = checked.offsets := by
  rw [CheckedVariable.addStaticOffset]
  split <;> rfl

omit state in
theorem offsets_appendGEPRegion (checked : CheckedVariable) (indices : List GEPIndex) :
    (graph.appendGEPRegion layout checked indices).offsets =
      checked.offsets ++ indices.map GEPIndex.value := by
  unfold appendGEPRegion
  cases layout with
  | none => rfl
  | some layout =>
      simp only
      split
      · rfl
      · split
        · rfl
        · split
          · rfl
          · exact offsets_addStaticOffset _ _

omit state in
/-- The constant operand that an operator adds to the offsets. -/
theorem offsets_traceASanBinary (op : BinOp) (lhs rhs : Value) (result : CheckedVariable) :
    (graph.traceASanBinary op lhs rhs result).offsets =
      result.offsets ++
        if op = .add ∨ op = .sub then
          if graph.isConstant lhs then [lhs] else if graph.isConstant rhs then [rhs] else []
        else [] := by
  rw [traceASanBinary]
  by_cases sum : op = .add ∨ op = .sub
  · rw [if_pos sum, if_pos sum]
    split
    · split
      · split
        · rfl
        · exact offsets_addStaticOffset _ _
      · rfl
    · split
      · split
        · exact offsets_addStaticOffset _ _
        · rfl
      · exact (List.append_nil _).symm
  · rw [if_neg sum, if_neg sum]
    exact (List.append_nil _).symm

/-! ## Single steps -/

theorem number_gep {value pointer : Value} {indices : List GEPIndex}
    (node : graph.node value = .instruction (.getElementPtr pointer indices) ∨
      graph.node value = .constant (.getElementPtr pointer indices))
    (isPointer : (graph.ty value).isPointer = true) :
    state.number value =
      (BitVec.ofNat 64 (state.number pointer) + graph.gepOffset state.number indices).toNat := by
  have inRange := state.satisfies.inRange value 64 (bits_of_isPointer isPointer)
  have holds : state.number.word value =
      state.number.word pointer + graph.gepOffset state.number indices := by
    have holds := state.satisfies.holds value
    rcases node with node | node
    · rw [NodeHolds, node] at holds
      exact holds
    · rw [NodeHolds, node] at holds
      exact holds
  have small : (state.number.word value).toNat = state.number value := by
    rw [Assignment.word, Assignment.read, BitVec.toNat_ofNat, Nat.mod_eq_of_lt inRange]
  rw [← small, holds]
  rfl

theorem number_cast {value source : Value} {op : CastOp} {width target : Nat}
    (node : graph.node value = .instruction (.cast op source))
    (sourceBits : (graph.ty source).bits = some width)
    (targetBits : (graph.ty value).bits = some target)
    (defined : ¬(op = .addrSpaceCast ∨ op = .floating)) :
    state.number value =
      ((op.eval target (BitVec.ofNat width (state.number source))).getD 0).toNat := by
  have holds := state.satisfies.holds value
  rw [NodeHolds, node] at holds
  cases evaluated : op.eval target (state.number.read width source) with
  | none =>
      rw [not_or] at defined
      cases op with
      | addrSpaceCast => exact absurd rfl defined.1
      | floating => exact absurd rfl defined.2
      | trunc | zext | sext | ptrToInt | intToPtr | bitCast => cases evaluated
  | some result =>
      rw [holds width target result sourceBits targetBits evaluated]
      rw [Assignment.read] at evaluated
      rw [evaluated]
      rfl

/-- A cast to at least as many bits that does not look at the sign. -/
theorem number_cast_of_keeps {value source : Value} {op : CastOp} {width target : Nat}
    (node : graph.node value = .instruction (.cast op source))
    (sourceBits : (graph.ty source).bits = some width)
    (targetBits : (graph.ty value).bits = some target)
    (keeps : castKeeps op width target = true) : state.number value = state.number source := by
  have inRange := state.satisfies.inRange source width sourceBits
  have resized : width ≤ target →
      op.eval target (BitVec.ofNat width (state.number source)) =
        some ((BitVec.ofNat width (state.number source)).setWidth target) →
      state.number value = state.number source := by
    intro grows evaluated
    have holds := state.satisfies.holds value
    rw [NodeHolds, node] at holds
    rw [holds width target _ sourceBits targetBits evaluated, BitVec.toNat_setWidth,
      BitVec.toNat_ofNat, Nat.mod_eq_of_lt inRange]
    exact Nat.mod_eq_of_lt (inRange.trans_le (Nat.pow_le_pow_right Nat.two_pos grows))
  cases op with
  | trunc | zext | ptrToInt | intToPtr | bitCast => exact resized (of_decide_eq_true keeps) rfl
  | sext | addrSpaceCast | floating => cases keeps

theorem number_binary {value lhs rhs : Value} {op : BinOp} {width : Nat}
    (node : graph.node value = .instruction (.binary op lhs rhs))
    (bits : (graph.ty value).bits = some width) (defined : op ≠ .floating) :
    state.number value = state.operate op width (state.number lhs) (state.number rhs) := by
  have holds := state.satisfies.holds value
  rw [NodeHolds, node] at holds
  rw [State.operate]
  cases evaluated : op.eval (BitVec.ofNat width (state.number lhs))
      (BitVec.ofNat width (state.number rhs)) with
  | none => exact state.undefined value op lhs rhs width node bits defined evaluated
  | some result => exact holds width result bits evaluated

/-! ## Rebuilding -/

theorem rebuild_gep (base : Value) (inner : Forgotten) (offsets : List Value)
    (indices : List GEPIndex) :
    state.rebuild base (.gep (indices.map GEPIndex.step) inner)
        (offsets ++ indices.map GEPIndex.value) =
      (BitVec.ofNat 64 (state.rebuild base inner offsets) +
        graph.gepOffset state.number indices).toNat := by
  have cut : (offsets ++ indices.map GEPIndex.value).length -
      (indices.map GEPIndex.step).length = offsets.length := by
    rw [List.length_append, List.length_map, List.length_map]
    omega
  have together : List.zipWith GEPIndex.mk (indices.map GEPIndex.value)
      (indices.map GEPIndex.step) = indices := by
    induction indices with
    | nil => rfl
    | cons index rest induction =>
        rw [List.map_cons, List.map_cons, List.zipWith_cons_cons, induction (by
          rw [List.length_append, List.length_map, List.length_map]
          omega)]
  rw [State.rebuild, cut, List.take_left, List.drop_left, together]

theorem rebuild_join {join base : Value} {merged : CheckedVariable}
    {arms : List (CheckedVariable × Forgotten)} (isBase : merged.base = some base)
    (some : arms ≠ [] → ∃ arm ∈ arms, arm.1.base = merged.base →
      arm.1.offsets = merged.offsets →
        state.number join = state.rebuild base arm.2 merged.offsets) :
    state.number join = state.rebuild base (forgottenJoin join merged arms) merged.offsets := by
  unfold forgottenJoin
  split
  · rename_i itself
    rw [isBase] at itself
    cases itself
    rfl
  · cases arms with
    | nil => rfl
    | cons first rest =>
        simp only
        split
        · rename_i alike
          rcases some (List.cons_ne_nil _ _) with ⟨arm, member, value⟩
          have same := of_decide_eq_true (List.all_eq_true.mp alike arm member)
          rw [← same.2.2]
          exact value same.1 same.2.1
        · rfl

theorem rebuild_binary {op : BinOp} {lhs rhs base : Value} {width : Nat} {inner : Forgotten}
    {traced : CheckedVariable}
    (followed : state.number (graph.firstNonConstant lhs rhs) =
      state.rebuild base inner traced.offsets) :
    state.operate op width (state.number lhs) (state.number rhs) =
      state.rebuild base (graph.forgottenBinary op lhs rhs width inner)
        (graph.traceASanBinary op lhs rhs traced).offsets := by
  rw [offsets_traceASanBinary, forgottenBinary]
  cases leftConstant : graph.isConstant lhs with
  | true =>
      cases rightConstant : graph.isConstant rhs with
      | true =>
          have first : graph.firstNonConstant lhs rhs = lhs := by
            simp [firstNonConstant, leftConstant, rightConstant]
          rw [first] at followed
          by_cases sum : op = .add ∨ op = .sub
          · simp [State.rebuild, sum, followed]
          · simp [State.rebuild, sum, followed]
      | false =>
          have first : graph.firstNonConstant lhs rhs = rhs := by
            simp [firstNonConstant, leftConstant, rightConstant]
          rw [first] at followed
          by_cases sum : op = .add ∨ op = .sub
          · simp [State.rebuild, sum, followed]
          · simp [State.rebuild, sum, followed]
  | false =>
      have first : graph.firstNonConstant lhs rhs = lhs := by
        simp [firstNonConstant, leftConstant]
      rw [first] at followed
      cases rightConstant : graph.isConstant rhs with
      | true =>
          by_cases sum : op = .add ∨ op = .sub
          · simp [State.rebuild, sum, followed]
          · simp [State.rebuild, sum, followed]
      | false =>
          by_cases sum : op = .add ∨ op = .sub
          · simp [State.rebuild, sum, followed]
          · simp [State.rebuild, sum, followed]

theorem rebuild_leaf {value base : Value}
    (isBase : (graph.makeBaseVariable (graph.normalizeVariable value)).base = some base) :
    state.number value =
      state.rebuild base (if graph.normalizeVariable value = value then .itself else .same value)
        (graph.makeBaseVariable (graph.normalizeVariable value)).offsets := by
  cases isBase
  split
  · rename_i itself
    rw [State.rebuild, itself]
  · rfl

/-- Base, offsets and what the trace forgets make up the address. -/
def Rebuilds (layout : Option DataLayout) (fuel : Nat) (visited : List Value)
    (value : Value) : Prop :=
  ∀ base, (graph.traceASanCheckedAddressImpl layout fuel visited value).base = some base →
    state.number value =
      state.rebuild base (graph.forgottenImpl layout fuel visited value)
        (graph.traceASanCheckedAddressImpl layout fuel visited value).offsets

section Rules

variable {fuel : Nat} {visited : List Value} {value base : Value}
  (traced : ∀ value, Rebuilds state layout fuel visited value)
include traced

theorem rebuild_region {pointer : Value} {indices : List GEPIndex}
    (node : graph.node value = .instruction (.getElementPtr pointer indices) ∨
      graph.node value = .constant (.getElementPtr pointer indices))
    (isBase : (graph.appendGEPRegion layout
      (graph.traceASanCheckedAddressImpl layout fuel visited pointer) indices).base =
        some base) :
    state.number value =
      state.rebuild base
        (if (graph.ty value).isPointer then
          .gep (indices.map GEPIndex.step) (graph.forgottenImpl layout fuel visited pointer)
        else .same value)
        (graph.appendGEPRegion layout
          (graph.traceASanCheckedAddressImpl layout fuel visited pointer) indices).offsets := by
  rw [base_appendGEPRegion] at isBase
  split
  · rename_i isPointer
    rw [offsets_appendGEPRegion, rebuild_gep, number_gep state node isPointer,
      traced pointer base isBase]
  · rfl

theorem rebuild_cast {op : CastOp} {source : Value}
    (node : graph.node value = .instruction (.cast op source))
    (isBase : (graph.traceASanCheckedAddressImpl layout fuel visited source).base = some base) :
    state.number value =
      state.rebuild base
        (match (graph.ty source).bits, (graph.ty value).bits with
        | some width, some target =>
            if op = .addrSpaceCast ∨ op = .floating then .same value
            else if castKeeps op width target then
              graph.forgottenImpl layout fuel visited source
            else .cast op width target (graph.forgottenImpl layout fuel visited source)
        | _, _ => .same value)
        (graph.traceASanCheckedAddressImpl layout fuel visited source).offsets := by
  have inner := traced source base isBase
  cases sourceBits : (graph.ty source).bits with
  | none => rfl
  | some width =>
      cases targetBits : (graph.ty value).bits with
      | none => rfl
      | some target =>
          simp only
          split
          · rfl
          · rename_i defined
            split
            · rename_i keeps
              rw [number_cast_of_keeps state node sourceBits targetBits keeps]
              exact inner
            · rw [number_cast state node sourceBits targetBits defined, inner]
              rfl

/-- A join of arms has the number of one of them. -/
theorem rebuild_arms {merged : CheckedVariable} (arms : List Value)
    (isBase : merged.base = some base)
    (taken : arms ≠ [] → ∃ arm ∈ arms, state.number value = state.number arm) :
    state.number value =
      state.rebuild base
        (forgottenJoin value merged
          (arms.map fun arm => (graph.traceASanCheckedAddressImpl layout fuel visited arm,
            graph.forgottenImpl layout fuel visited arm))) merged.offsets := by
  apply rebuild_join state isBase
  intro some
  rcases taken fun none => some (by rw [none]; rfl) with ⟨arm, member, equal⟩
  refine ⟨_, List.mem_map_of_mem member, fun armBase armOffsets => ?_⟩
  rw [equal, ← armOffsets]
  exact traced arm base (armBase.trans isBase)

end Rules

theorem taken_phi {value : Value} {incoming : List (Value × BlockId)}
    (node : graph.node value = .instruction (.phi incoming))
    (nonempty : incoming.map Prod.fst ≠ []) :
    ∃ arm ∈ incoming.map Prod.fst, state.number value = state.number arm := by
  have holds := state.satisfies.holds value
  rw [NodeHolds, node] at holds
  rcases holds fun none => nonempty (by rw [none]; rfl) with ⟨entry, member, equal⟩
  exact ⟨entry.1, List.mem_map_of_mem member, equal⟩

theorem taken_select {value condition ifTrue ifFalse : Value}
    (node : graph.node value = .instruction (.select condition ifTrue ifFalse)) :
    ∃ arm ∈ [ifTrue, ifFalse], state.number value = state.number arm := by
  have holds := state.satisfies.holds value
  simp only [NodeHolds, node] at holds
  by_cases first : state.number condition = 1
  · exact ⟨ifTrue, by simp, by rw [holds, if_pos first]⟩
  · exact ⟨ifFalse, by simp, by rw [holds, if_neg first]⟩

theorem rebuilds (fuel : Nat) (visited : List Value) (value : Value) :
    Rebuilds state layout fuel visited value := by
  induction fuel generalizing visited value with
  | zero =>
      intro base isBase
      cases isBase
      rfl
  | succ fuel induction =>
      intro base isBase
      have traced := induction (value :: visited)
      rw [traceASanCheckedAddressImpl] at isBase ⊢
      rw [forgottenImpl]
      by_cases seen : value ∈ visited
      · rw [if_pos seen] at isBase ⊢
        rw [if_pos seen]
        cases isBase
        rfl
      · rw [if_neg seen] at isBase ⊢
        rw [if_neg seen]
        by_cases exact : graph.stripsExactly value = true
        · rw [if_neg (by simp [exact]), number_stripPointerCasts state exact]
          simp only at isBase ⊢
          cases node : graph.node (graph.stripPointerCasts value) with
          | instruction op =>
              rw [node] at isBase
              cases op with
              | getElementPtr pointer indices =>
                  exact rebuild_region state traced (.inl node) isBase
              | load pointer isVolatile ordering =>
                  simp only [State.rebuild]
                  rw [state.loads _ pointer isVolatile ordering node,
                    traced pointer base isBase]
                  rfl
              | cast op source => exact rebuild_cast state traced node isBase
              | phi incoming =>
                  have whole := rebuild_arms state traced (incoming.map Prod.fst) isBase
                    (taken_phi state node)
                  simp only [List.map_map] at whole ⊢
                  exact whole
              | select condition ifTrue ifFalse =>
                  exact rebuild_arms state traced [ifTrue, ifFalse] isBase fun _ =>
                    taken_select state node
              | binary op lhs rhs =>
                  simp only at isBase ⊢
                  rw [base_traceASanBinary] at isBase
                  have inner := traced _ base isBase
                  cases bits : (graph.ty (graph.stripPointerCasts value)).bits with
                  | none => rfl
                  | some width =>
                      simp only
                      split
                      · rfl
                      · rename_i defined
                        rw [number_binary state node bits defined]
                        exact rebuild_binary state inner
              | _ => exact rebuild_leaf state isBase
          | constant constant =>
              rw [node] at isBase
              cases constant with
              | getElementPtr pointer indices =>
                  exact rebuild_region state traced (.inr node) isBase
              | _ => exact rebuild_leaf state isBase
          | _ =>
              rw [node] at isBase
              exact rebuild_leaf state isBase
        · rw [if_pos (by simpa using exact)]
          rfl

end Numbers

end ValueGraph

end Desan
