import Mathlib.Data.List.Induction
import Desan.CheckedVariableAnalyzer.Tracing
import Desan.IR.Semantics

/-! # What a known static offset is worth

The tracer passes casts, masks and sums of two variables without dropping the static
offset. Where the trace only takes steps that keep the address up to a constant, the
offset it reports is the true one. -/

namespace Desan

/-- A cast that keeps an address: no bit of its low 64 is lost or made up. -/
def CastOp.keepsAddress (op : CastOp) (source target : Ty) : Bool :=
  match source.bits, target.bits with
  | some width, some targetWidth =>
      match op with
      | .trunc | .zext | .ptrToInt | .intToPtr | .bitCast =>
          decide (64 ≤ targetWidth ∨ width ≤ targetWidth)
      | .sext => decide (64 ≤ width ∧ width ≤ targetWidth)
      | .addrSpaceCast | .floating => false
  | _, _ => false

/-- A node the address tracer does not go through. -/
def Node.isLeaf : Node → Bool
  | .instruction (.getElementPtr ..) | .constant (.getElementPtr ..)
  | .instruction (.load ..) | .instruction (.cast ..) | .instruction (.phi _)
  | .instruction (.select ..) | .instruction (.binary ..) => false
  | _ => true

namespace ValueGraph

/-- Two values that are the same address by the instructions between them. -/
inductive SameAddress (graph : ValueGraph) : Value → Value → Prop where
  | refl {value : Value} : SameAddress graph value value
  | cast {value base source : Value} {op : CastOp} :
      graph.node value = .instruction (.cast op source) ∨
        graph.node value = .constant (.cast op source) →
      op.keepsAddress (graph.ty source) (graph.ty value) = true →
      SameAddress graph source base → SameAddress graph value base
  | getElementPtr {value base pointer : Value} {indices : List GEPIndex} :
      graph.node value = .instruction (.getElementPtr pointer indices) ∨
        graph.node value = .constant (.getElementPtr pointer indices) →
      graph.accumulateConstantOffset 64 indices = some 0 →
      SameAddress graph pointer base → SameAddress graph value base
  | returned {value base argument : Value} {site : CallSite} :
      (graph.node value = .instruction (.call site) ∨
        ∃ normal unwind, graph.node value = .instruction (.invoke site normal unwind)) →
      site.returnedArg = some argument →
      SameAddress graph argument base → SameAddress graph value base
  | phi {value base : Value} {incoming : List (Value × BlockId)} :
      graph.node value = .instruction (.phi incoming) → incoming ≠ [] →
      (∀ entry ∈ incoming, SameAddress graph entry.1 base) → SameAddress graph value base
  | select {value base condition ifTrue ifFalse : Value} :
      graph.node value = .instruction (.select condition ifTrue ifFalse) →
      SameAddress graph ifTrue base → SameAddress graph ifFalse base →
      SameAddress graph value base

/-- A binary operator that drops the static offset. -/
def dropsStatic (graph : ValueGraph) (op : BinOp) (lhs rhs : Value) : Bool :=
  (op == .add || op == .sub) &&
    if graph.isConstant lhs then (graph.constantInt? lhs).isNone || op == .sub
    else graph.isConstant rhs && (graph.constantInt? rhs).isNone

/-- A binary operator that adds a known constant to a wide address. -/
def addsConstant (graph : ValueGraph) (op : BinOp) (lhs rhs : Value) (ty : Ty) : Bool :=
  (match ty.bits with
    | some width => decide (64 ≤ width)
    | none => false) &&
    ((op == .add && (graph.constantInt? lhs).isSome && !graph.isConstant rhs &&
        graph.ty lhs == ty) ||
      ((op == .add || op == .sub) && !graph.isConstant lhs &&
        (graph.constantInt? rhs).isSome && graph.ty rhs == ty))

/-- Where a trace that keeps its static offset can end. It is empty if every trace meets
a load, a GEP with a variable index or an operator that drops the offset. -/
def traceEnds (graph : ValueGraph) : Nat → List Value → Value → List Value
  | 0, _, value => [value]
  | fuel + 1, visited, value =>
      if value ∈ visited then [value]
      else
        let visited := value :: visited
        let value := graph.stripPointerCasts value
        match graph.node value with
        | .instruction (.getElementPtr pointer indices)
        | .constant (.getElementPtr pointer indices) =>
            if (graph.accumulateConstantOffset 64 indices).isNone then []
            else graph.traceEnds fuel visited pointer
        | .instruction (.load ..) => []
        | .instruction (.cast _ source) => graph.traceEnds fuel visited source
        | .instruction (.phi incoming) =>
            let ends := incoming.map fun entry => graph.traceEnds fuel visited entry.1
            if ends.any List.isEmpty then [] else ends.flatten.map graph.normalizeVariable
        | .instruction (.select _ ifTrue ifFalse) =>
            let trueEnds := graph.traceEnds fuel visited ifTrue
            let falseEnds := graph.traceEnds fuel visited ifFalse
            if trueEnds.isEmpty || falseEnds.isEmpty then []
            else (trueEnds ++ falseEnds).map graph.normalizeVariable
        | .instruction (.binary op lhs rhs) =>
            if graph.dropsStatic op lhs rhs then []
            else graph.traceEnds fuel visited (graph.firstNonConstant lhs rhs)
        | _ => [graph.normalizeVariable value]

/-- Every step of the traces from a value that keep their static offset keeps the
address up to the constant the step adds. -/
def FaithfulTrace (graph : ValueGraph) : Nat → List Value → Value → Prop
  | 0, _, _ => True
  | fuel + 1, visited, value =>
      graph.traceEnds (fuel + 1) visited value = [] ∨ value ∈ visited ∨
        let visited := value :: visited
        let stripped := graph.stripPointerCasts value
        graph.SameAddress value stripped ∧
        match graph.node stripped with
        | .instruction (.getElementPtr pointer _)
        | .constant (.getElementPtr pointer _) => graph.FaithfulTrace fuel visited pointer
        | .instruction (.cast op source) =>
            op.keepsAddress (graph.ty source) (graph.ty stripped) = true ∧
              graph.FaithfulTrace fuel visited source
        | .instruction (.phi incoming) =>
            ∀ entry ∈ incoming, graph.FaithfulTrace fuel visited entry.1 ∧
              ∀ base ∈ graph.traceEnds fuel visited entry.1,
                graph.SameAddress base (graph.normalizeVariable base)
        | .instruction (.select _ ifTrue ifFalse) =>
            ∀ arm ∈ [ifTrue, ifFalse], graph.FaithfulTrace fuel visited arm ∧
              ∀ base ∈ graph.traceEnds fuel visited arm,
                graph.SameAddress base (graph.normalizeVariable base)
        | .instruction (.binary op lhs rhs) =>
            graph.addsConstant op lhs rhs (graph.ty stripped) = true ∧
              graph.FaithfulTrace fuel visited (graph.firstNonConstant lhs rhs)
        | _ => graph.SameAddress stripped (graph.normalizeVariable stripped)

theorem traceEnds_seen {graph : ValueGraph} {fuel : Nat} {visited : List Value} {value : Value}
    (seen : value ∈ visited) : graph.traceEnds (fuel + 1) visited value = [value] := by
  rw [traceEnds, if_pos seen]

/-- A faithful trace that keeps its offset strips no cast that loses the address. -/
theorem FaithfulTrace.stripped {graph : ValueGraph} {fuel : Nat} {visited : List Value}
    {value base : Value} (unseen : value ∉ visited)
    (faithful : graph.FaithfulTrace (fuel + 1) visited value)
    (ends : base ∈ graph.traceEnds (fuel + 1) visited value) :
    graph.SameAddress value (graph.stripPointerCasts value) := by
  rw [FaithfulTrace] at faithful
  rcases faithful with none | seen | step
  · rw [none] at ends
    cases ends
  · exact absurd seen unseen
  · exact step.1

/-! ## Single steps -/

/-- Constant indices add their accumulated offset. -/
theorem gepOffset_of_constant {graph : ValueGraph} (number : Assignment)
    {indices : List GEPIndex} {offset : BitVec 64}
    (known : graph.accumulateConstantOffset 64 indices = some offset) :
    graph.gepOffset number indices = offset := by
  induction indices generalizing offset with
  | nil => exact Option.some.inj known
  | cons head tail induction =>
      simp only [accumulateConstantOffset, Option.bind_eq_bind,
        Option.bind_eq_some_iff] at known
      rcases known with ⟨int, constant, rest, restKnown, whole⟩
      rw [gepOffset, induction restKnown]
      cases step : head.step with
      | field fieldOffset =>
          rw [step] at whole
          exact Option.some.inj whole
      | element stride =>
          rw [step] at whole
          have value : graph.signed number head.value = int := by
            rw [signed, constant]
          rw [value]
          exact Option.some.inj whole

section Steps

variable {graph : ValueGraph} {number : Assignment} (satisfies : graph.Satisfies number)
include satisfies

theorem word_getElementPtr {value pointer : Value} {indices : List GEPIndex}
    (node : graph.node value = .instruction (.getElementPtr pointer indices) ∨
      graph.node value = .constant (.getElementPtr pointer indices))
    {offset : BitVec 64} (known : graph.accumulateConstantOffset 64 indices = some offset) :
    number.word value = number.word pointer + offset := by
  have holds := satisfies.holds value
  rw [← gepOffset_of_constant number known]
  rcases node with node | node
  · rw [NodeHolds, node] at holds
    exact holds
  · rw [NodeHolds, node] at holds
    exact holds

/-- A cast that keeps addresses keeps the address. -/
theorem word_cast {value source : Value} {op : CastOp}
    (node : graph.node value = .instruction (.cast op source) ∨
      graph.node value = .constant (.cast op source))
    (keeps : op.keepsAddress (graph.ty source) (graph.ty value) = true) :
    number.word value = number.word source := by
  have holds : ∀ width target result, (graph.ty source).bits = some width →
      (graph.ty value).bits = some target →
      op.eval target (number.read width source) = some result →
        number value = result.toNat := by
    have holds := satisfies.holds value
    rcases node with node | node
    · rw [NodeHolds, node] at holds
      exact holds
    · rw [NodeHolds, node] at holds
      exact holds
  rw [CastOp.keepsAddress] at keeps
  cases sourceBits : (graph.ty source).bits with
  | none =>
      rw [sourceBits] at keeps
      cases keeps
  | some width =>
      cases targetBits : (graph.ty value).bits with
      | none =>
          rw [sourceBits, targetBits] at keeps
          cases keeps
      | some target =>
          rw [sourceBits, targetBits] at keeps
          have inRange := satisfies.inRange source width sourceBits
          have resized : 64 ≤ target ∨ width ≤ target →
              op.eval target (number.read width source) =
                some ((number.read width source).setWidth target) →
              number.word value = number.word source := by
            intro sizes result
            have equal := holds width target _ sourceBits targetBits result
            rw [Assignment.read, BitVec.toNat_setWidth, BitVec.toNat_ofNat,
              Nat.mod_eq_of_lt inRange] at equal
            rw [Assignment.word, Assignment.word, Assignment.read, Assignment.read, equal]
            rcases sizes with wide | grows
            · exact ofNat_mod_of_le wide _
            · have small : number source < 2 ^ target :=
                inRange.trans_le (Nat.pow_le_pow_right Nat.two_pos grows)
              rw [Nat.mod_eq_of_lt small]
          cases op with
          | trunc | zext | ptrToInt | intToPtr | bitCast =>
              exact resized (of_decide_eq_true keeps) rfl
          | sext =>
              have sizes := of_decide_eq_true keeps
              have equal := holds width target _ sourceBits targetBits rfl
              have low : ((number.read width source).signExtend target).setWidth 64 =
                  number.word source := by
                rw [← BitVec.signExtend_eq_setWidth_of_le _ (sizes.1.trans sizes.2)]
                apply BitVec.eq_of_toInt_eq
                rw [BitVec.toInt_signExtend, BitVec.toInt_signExtend_of_le sizes.2,
                  Nat.min_eq_left (sizes.1.trans sizes.2), Assignment.read,
                  Assignment.word, Assignment.read, BitVec.toInt_ofNat', BitVec.toInt_ofNat']
                exact Int.bmod_bmod_of_dvd (Nat.pow_dvd_pow 2 sizes.1)
              rw [← low, Assignment.word, Assignment.read, equal]
              exact (BitVec.ofNat_toNat 64 _)
          | addrSpaceCast | floating => cases keeps

theorem word_binary {value lhs rhs : Value} {op : BinOp} {width : Nat} {result : BitVec width}
    (node : graph.node value = .instruction (.binary op lhs rhs))
    (bits : (graph.ty value).bits = some width)
    (evaluated : op.eval (number.read width lhs) (number.read width rhs) = some result) :
    number.word value = result.setWidth 64 := by
  have holds := satisfies.holds value
  rw [NodeHolds, node] at holds
  rw [Assignment.word, Assignment.read, holds width result bits evaluated]
  exact BitVec.ofNat_toNat 64 result

theorem word_constantInt {value : Value} {int : Int} {width : Nat}
    (known : graph.constantInt? value = some int)
    (bits : (graph.ty value).bits = some width) (wide : 64 ≤ width) :
    number.word value = BitVec.ofInt 64 int := by
  have holds := satisfies.holds value
  rw [constantInt?] at known
  split at known
  · rename_i node
    cases known
    rw [NodeHolds, node] at holds
    exact Assignment.word_of_toInt wide (holds width bits)
  · cases known

/-- Two values known to be the same address have the same low bits. -/
theorem SameAddress.word_eq {value base : Value} (same : graph.SameAddress value base) :
    number.word value = number.word base := by
  induction same with
  | refl => rfl
  | cast node keeps _ induction => rw [word_cast satisfies node keeps, induction]
  | getElementPtr node known _ induction =>
      rw [word_getElementPtr satisfies node known, induction]
      exact BitVec.add_zero _
  | @returned value base argument site node returned _ induction =>
      rw [← induction]
      apply Assignment.word_eq_of_number_eq
      have holds := satisfies.holds value
      rcases node with node | node
      · rw [NodeHolds, node] at holds
        exact holds argument returned
      · rcases node with ⟨normal, unwind, node⟩
        rw [NodeHolds, node] at holds
        exact holds argument returned
  | @phi value base incoming node nonempty _ induction =>
      have holds := satisfies.holds value
      rw [NodeHolds, node] at holds
      rcases holds nonempty with ⟨entry, member, equal⟩
      rw [Assignment.word_eq_of_number_eq equal, induction entry member]
  | @select value base condition ifTrue ifFalse node _ _ trueInduction falseInduction =>
      have holds := satisfies.holds value
      simp only [NodeHolds, node] at holds
      by_cases taken : number condition = 1
      · rw [if_pos taken] at holds
        rw [Assignment.word_eq_of_number_eq holds, trueInduction]
      · rw [if_neg taken] at holds
        rw [Assignment.word_eq_of_number_eq holds, falseInduction]

end Steps

theorem isConstant_of_constantInt {graph : ValueGraph} {value : Value}
    (known : (graph.constantInt? value).isSome = true) : graph.isConstant value = true := by
  rw [constantInt?] at known
  rw [isConstant]
  split at known
  · rename_i node
    rw [node]
  · cases known

/-- An operator that adds a known constant is traced as that addition, and is one. -/
theorem exists_delta_of_addsConstant {graph : ValueGraph} {op : BinOp} {value lhs rhs : Value}
    (node : graph.node value = .instruction (.binary op lhs rhs))
    (adds : graph.addsConstant op lhs rhs (graph.ty value) = true) :
    ∃ delta offset, (∀ result, graph.traceASanBinary op lhs rhs result =
        (result.appendOffset offset).addStaticOffset delta) ∧
      ∀ number, graph.Satisfies number →
        number.word value =
          number.word (graph.firstNonConstant lhs rhs) + BitVec.ofInt 64 delta := by
  rw [addsConstant, Bool.and_eq_true] at adds
  rcases adds with ⟨wideTy, shape⟩
  cases bits : (graph.ty value).bits with
  | none =>
      rw [bits] at wideTy
      cases wideTy
  | some width =>
      rw [bits] at wideTy
      have wide : 64 ≤ width := of_decide_eq_true wideTy
      have low : ∀ word : BitVec width, BitVec.ofNat 64 word.toNat = word.setWidth 64 :=
        fun word => BitVec.ofNat_toNat 64 word
      have lowRead : ∀ (number : Assignment) (operand : Value),
          (number.read width operand).setWidth 64 = number.word operand := by
        intro number operand
        rw [← low, Assignment.read, BitVec.toNat_ofNat]
        exact ofNat_mod_of_le wide _
      rw [Bool.or_eq_true] at shape
      rcases shape with left | right
      · simp only [Bool.and_eq_true, beq_iff_eq, Bool.not_eq_true'] at left
        rcases left with ⟨⟨⟨isAdd, known⟩, variableRhs⟩, sameTy⟩
        have constant := isConstant_of_constantInt known
        rcases Option.isSome_iff_exists.mp known with ⟨int, literal⟩
        refine ⟨int, lhs, ?_, ?_⟩
        · intro result
          simp [traceASanBinary, isAdd, constant, literal]
        · intro number satisfies
          have first : graph.firstNonConstant lhs rhs = rhs := by
            simp [firstNonConstant, constant, variableRhs]
          subst isAdd
          rw [word_binary satisfies node bits rfl, first, BitVec.setWidth_add _ _ wide,
            lowRead, lowRead, word_constantInt satisfies literal (sameTy ▸ bits) wide,
            BitVec.add_comm]
      · simp only [Bool.and_eq_true, Bool.or_eq_true, beq_iff_eq, Bool.not_eq_true'] at right
        rcases right with ⟨⟨⟨isSum, variableLhs⟩, known⟩, sameTy⟩
        have constant := isConstant_of_constantInt known
        rcases Option.isSome_iff_exists.mp known with ⟨int, literal⟩
        have first : graph.firstNonConstant lhs rhs = lhs := by
          simp [firstNonConstant, variableLhs]
        refine ⟨if op = .sub then -int else int, rhs, ?_, ?_⟩
        · intro result
          simp [traceASanBinary, isSum, variableLhs, constant, literal]
        · intro number satisfies
          have rhsWord := word_constantInt satisfies literal (sameTy ▸ bits) wide
          rcases isSum with isAdd | isSub
          · subst isAdd
            rw [word_binary satisfies node bits rfl, first, BitVec.setWidth_add _ _ wide,
              lowRead, lowRead, rhsWord]
            rfl
          · subst isSub
            rw [word_binary satisfies node bits rfl, first, if_pos rfl, BitVec.ofInt_neg,
              BitVec.sub_eq_add_neg, BitVec.setWidth_add _ _ wide, lowRead,
              BitVec.setWidth_neg_of_le wide, lowRead, rhsWord]

/-! ## Joins -/

/-- What the merge loop knows of the traces it has merged. -/
structure Merged (graph : ValueGraph) (traces : List CheckedVariable) (state : PhiMerge) :
    Prop where
  some_iff : state.hasIncoming = true ↔ traces ≠ []
  agree : state.sameBase = true → ∀ trace ∈ traces,
    trace.base.map graph.normalizeVariable = state.merged.base ∧
      state.merged.sameRegionStart trace = true

theorem Merged.add {graph : ValueGraph} {traces : List CheckedVariable} {state : PhiMerge}
    (merged : Merged graph traces state) {trace : CheckedVariable} (based : trace.base.isSome) :
    Merged graph (traces ++ [trace]) (PhiMerge.add graph state trace) := by
  rcases Option.isSome_iff_exists.mp based with ⟨base, baseEqual⟩
  rw [PhiMerge.add, baseEqual]
  by_cases first : state.hasIncoming = false
  · have empty : traces = [] := by
      by_contra nonempty
      have has := merged.some_iff.mpr nonempty
      rw [first] at has
      cases has
    simp only [first, if_true]
    refine ⟨by simp, ?_⟩
    intro _ other member
    rw [empty, List.nil_append, List.mem_singleton] at member
    rw [member, baseEqual]
    simp [CheckedVariable.sameRegionStart]
  · have has : state.hasIncoming = true := by simpa using first
    simp only [if_neg first]
    split
    · refine ⟨by simp [has], ?_⟩
      intro same
      cases same
    · rename_i equal
      rw [not_or, not_or, not_not, not_not, Bool.not_eq_false] at equal
      refine ⟨by simp [has], ?_⟩
      intro same other member
      rcases List.mem_append.mp member with earlier | last
      · exact merged.agree same other earlier
      · rw [List.mem_singleton.mp last, baseEqual]
        exact ⟨equal.1.symm, equal.2.2⟩

theorem merged_foldl (graph : ValueGraph) (traces : List CheckedVariable)
    (based : ∀ trace ∈ traces, trace.base.isSome) :
    Merged graph traces (traces.foldl (PhiMerge.add graph) {}) := by
  induction traces using List.reverseRecOn with
  | nil => exact ⟨by simp, by simp⟩
  | append_singleton front last induction =>
      rw [List.foldl_append, List.foldl_cons, List.foldl_nil]
      exact (induction fun trace member => based trace (List.mem_append_left _ member)).add
        (based last (by simp))

theorem sameRegionStart_static {left right : CheckedVariable}
    (same : left.sameRegionStart right = true) (known : left.hasStaticByteOffset = true) :
    right.hasStaticByteOffset = true ∧ right.staticByteOffset = left.staticByteOffset := by
  simp only [CheckedVariable.sameRegionStart, known, Bool.and_eq_true, beq_iff_eq,
    Bool.not_true, Bool.false_or] at same
  exact ⟨same.1.symm, same.2.symm⟩

/-- A phi with a known offset has that offset, to one base, on every incoming value. -/
theorem tracePhi_static {graph : ValueGraph} {phi : Value} {traces : List CheckedVariable}
    (based : ∀ trace ∈ traces, trace.base.isSome)
    (known : (graph.tracePhi phi traces).hasStaticByteOffset = true) :
    traces ≠ [] ∧ ∀ trace ∈ traces,
      trace.base.map graph.normalizeVariable = (graph.tracePhi phi traces).base ∧
      trace.hasStaticByteOffset = true ∧
      trace.staticByteOffset = (graph.tracePhi phi traces).staticByteOffset := by
  have merged := merged_foldl graph traces based
  rw [tracePhi] at known
  rw [tracePhi]
  split at known
  · rename_i both
    have parts := Bool.and_eq_true_iff.mp both
    rw [if_pos both]
    refine ⟨merged.some_iff.mp parts.1, ?_⟩
    intro trace member
    have agree := merged.agree parts.2 trace member
    exact ⟨agree.1, sameRegionStart_static agree.2 known⟩
  · cases known

theorem traceSelect_static {graph : ValueGraph} {select : Value}
    {ifTrue ifFalse : CheckedVariable}
    (known : (graph.traceSelect select ifTrue ifFalse).hasStaticByteOffset = true) :
    ∀ trace ∈ [ifTrue, ifFalse],
      trace.base.map graph.normalizeVariable =
        (graph.traceSelect select ifTrue ifFalse).base ∧
      trace.hasStaticByteOffset = true ∧
      trace.staticByteOffset =
        (graph.traceSelect select ifTrue ifFalse).staticByteOffset := by
  rw [traceSelect] at known
  rw [traceSelect]
  split at known
  · rename_i sameBase
    split at known
    · cases known
    · rename_i sameStart
      rw [if_pos sameBase, if_neg sameStart]
      rw [not_or, not_not, Bool.not_eq_false] at sameStart
      have bases := eq_of_beq (Bool.and_eq_true_iff.mp sameBase).2
      intro trace member
      rcases List.mem_pair.mp member with equal | equal
      · rw [equal]
        exact ⟨rfl, known, rfl⟩
      · rw [equal]
        exact ⟨bases.symm, sameRegionStart_static sameStart.2 known⟩
  · cases known

/-! ## The trace -/

section Regions

variable {graph : ValueGraph} {layout : Option DataLayout} {checked : CheckedVariable}
  {indices : List GEPIndex}

@[simp] theorem base_appendGEPRegion :
    (graph.appendGEPRegion layout checked indices).base = checked.base := by
  unfold appendGEPRegion
  cases layout with
  | none => rfl
  | some layout =>
      simp only
      split
      · rfl
      · split
        · rfl
        · split
          · rfl
          · rw [CheckedVariable.addStaticOffset]
            split <;> rfl

/-- A GEP keeps a known offset only by adding a constant one. -/
theorem appendGEPRegion_static
    (wide : ∀ known, layout = some known → known.indexSizeInBits = 64)
    (known : (graph.appendGEPRegion layout checked indices).hasStaticByteOffset = true) :
    checked.hasStaticByteOffset = true ∧
      ∃ offset, graph.accumulateConstantOffset 64 indices = some offset ∧
        BitVec.ofInt 64 (graph.appendGEPRegion layout checked indices).staticByteOffset =
          BitVec.ofInt 64 checked.staticByteOffset + offset := by
  unfold appendGEPRegion at known ⊢
  cases layout with
  | none => cases known
  | some layout =>
      have width := wide layout rfl
      rcases layout with ⟨indexSize, pointerSize⟩
      simp only at width
      subst width
      simp only at known ⊢
      split at known
      · cases known
      · rename_i keeps
        rw [Bool.not_eq_false] at keeps
        rw [if_neg (by simp [keeps])]
        cases accumulated : graph.accumulateConstantOffset 64 indices with
        | none =>
            rw [accumulated] at known
            cases known
        | some offset =>
            rw [accumulated] at known
            simp only at known ⊢
            split at known
            · cases known
            · rename_i inRange
              rw [if_neg inRange, CheckedVariable.addStaticOffset, if_pos keeps]
              refine ⟨keeps, offset, rfl, ?_⟩
              simp only [addInt64]
              rw [ofInt_bmod, BitVec.ofInt_add, BitVec.ofInt_toInt]

end Regions

section Trace

variable {graph : ValueGraph} {layout : Option DataLayout}

theorem base_traceASanBinary {op : BinOp} {lhs rhs : Value} {result : CheckedVariable} :
    (graph.traceASanBinary op lhs rhs result).base = result.base := by
  rw [traceASanBinary]
  repeat' split
  all_goals
    first
      | rfl
      | (rw [CheckedVariable.addStaticOffset]; split <;> rfl)

@[simp] theorem hasStaticByteOffset_addStaticOffset (checked : CheckedVariable) (delta : Int) :
    (checked.addStaticOffset delta).hasStaticByteOffset = checked.hasStaticByteOffset := by
  rw [CheckedVariable.addStaticOffset]
  split <;> rfl

theorem staticByteOffset_addStaticOffset {checked : CheckedVariable} {delta : Int}
    (known : checked.hasStaticByteOffset = true) :
    (checked.addStaticOffset delta).staticByteOffset =
      addInt64 checked.staticByteOffset delta := by
  rw [CheckedVariable.addStaticOffset, if_pos known]

/-- An operator with a known offset drops none. -/
theorem traceASanBinary_static {op : BinOp} {lhs rhs : Value} {result : CheckedVariable}
    (known : (graph.traceASanBinary op lhs rhs result).hasStaticByteOffset = true) :
    result.hasStaticByteOffset = true ∧ graph.dropsStatic op lhs rhs = false := by
  rw [traceASanBinary] at known
  rw [dropsStatic]
  by_cases isSum : op = .add ∨ op = .sub
  · simp only [if_pos isSum] at known
    by_cases constantLhs : graph.isConstant lhs = true
    · simp only [constantLhs, if_true] at known ⊢
      cases int : graph.constantInt? lhs with
      | none =>
          rw [int] at known
          cases known
      | some int =>
          rw [int] at known
          simp only at known
          by_cases isSub : op = .sub
          · rw [if_pos isSub] at known
            cases known
          · rw [if_neg isSub, hasStaticByteOffset_addStaticOffset] at known
            exact ⟨known, by simp [isSub]⟩
    · rw [Bool.not_eq_true] at constantLhs
      simp only [constantLhs, Bool.false_eq_true, if_false] at known ⊢
      by_cases constantRhs : graph.isConstant rhs = true
      · simp only [constantRhs, if_true] at known
        cases int : graph.constantInt? rhs with
        | none =>
            rw [int] at known
            cases known
        | some int =>
            rw [int] at known
            simp only [hasStaticByteOffset_addStaticOffset] at known
            exact ⟨known, by simp⟩
      · rw [Bool.not_eq_true] at constantRhs
        simp only [constantRhs, Bool.false_eq_true, if_false] at known
        exact ⟨known, by simp [constantRhs]⟩
  · rw [if_neg isSum] at known
    rw [not_or] at isSum
    exact ⟨known, by simp [isSum.1, isSum.2]⟩

theorem base_tracePhi (graph : ValueGraph) (phi : Value) {traces : List CheckedVariable}
    (based : ∀ trace ∈ traces, trace.base.isSome) :
    (graph.tracePhi phi traces).base.isSome := by
  have merged := merged_foldl graph traces based
  rw [tracePhi]
  split
  · rename_i both
    have parts := Bool.and_eq_true_iff.mp both
    rcases List.exists_mem_of_ne_nil _ (merged.some_iff.mp parts.1) with ⟨trace, member⟩
    rw [← (merged.agree parts.2 trace member).1, Option.isSome_map]
    exact based trace member
  · rfl

theorem base_traceSelect (graph : ValueGraph) (select : Value)
    (ifTrue ifFalse : CheckedVariable) :
    (graph.traceSelect select ifTrue ifFalse).base.isSome := by
  rw [traceSelect]
  split
  · rename_i both
    split
    · rfl
    · exact (Bool.and_eq_true_iff.mp both).1
  · rfl

theorem base_isSome_trace (fuel : Nat) (visited : List Value) (value : Value) :
    (graph.traceASanCheckedAddressImpl layout fuel visited value).base.isSome := by
  induction fuel generalizing visited value with
  | zero => rfl
  | succ fuel induction =>
      rw [traceASanCheckedAddressImpl]
      split
      · rfl
      · simp only
        split
        · rw [base_appendGEPRegion]
          exact induction _ _
        · rw [base_appendGEPRegion]
          exact induction _ _
        · exact induction _ _
        · exact induction _ _
        · apply base_tracePhi
          intro trace member
          rcases List.mem_map.mp member with ⟨entry, -, equal⟩
          rw [← equal]
          exact induction _ _
        · exact base_traceSelect ..
        · rw [base_traceASanBinary]
          exact induction _ _
        · rfl

/-- The claim a trace makes: a known offset from a base it can end at, and the true one if
the trace is faithful. -/
def TraceSound (graph : ValueGraph) (layout : Option DataLayout) (fuel : Nat)
    (visited : List Value) (value : Value) : Prop :=
  let trace := graph.traceASanCheckedAddressImpl layout fuel visited value
  trace.hasStaticByteOffset = true →
    ∃ base, trace.base = some base ∧ base ∈ graph.traceEnds fuel visited value ∧
      (graph.FaithfulTrace fuel visited value → ∀ number, graph.Satisfies number →
        number.word value = number.word base + BitVec.ofInt 64 trace.staticByteOffset)

theorem word_makeBaseVariable (number : Assignment) (base value : Value)
    (equal : number.word value = number.word base) :
    number.word value =
      number.word base + BitVec.ofInt 64 (graph.makeBaseVariable base).staticByteOffset := by
  have zero : BitVec.ofInt 64 (graph.makeBaseVariable base).staticByteOffset = 0 := rfl
  rw [zero, equal]
  exact (BitVec.add_zero _).symm

/-- The arms of a join with a known offset all end at values that normalise to its base,
and have its offset from them. -/
theorem exists_armBase {fuel : Nat} {visited : List Value} {arm base : Value}
    {joined : CheckedVariable} (induction : graph.TraceSound layout fuel visited arm)
    (joinedBase : joined.base = some base)
    (agrees : (graph.traceASanCheckedAddressImpl layout fuel visited arm).base.map
        graph.normalizeVariable = joined.base ∧
      (graph.traceASanCheckedAddressImpl layout fuel visited arm).hasStaticByteOffset = true ∧
      (graph.traceASanCheckedAddressImpl layout fuel visited arm).staticByteOffset =
        joined.staticByteOffset) :
    ∃ armBase, graph.normalizeVariable armBase = base ∧
      armBase ∈ graph.traceEnds fuel visited arm ∧
      (graph.FaithfulTrace fuel visited arm →
        graph.SameAddress armBase (graph.normalizeVariable armBase) →
          ∀ number, graph.Satisfies number →
            number.word arm =
              number.word base + BitVec.ofInt 64 joined.staticByteOffset) := by
  rcases agrees with ⟨sameBase, known, sameOffset⟩
  rcases induction known with ⟨armBase, armEqual, ends, sound⟩
  rw [armEqual, joinedBase, Option.map_some, Option.some.injEq] at sameBase
  refine ⟨armBase, sameBase, ends, ?_⟩
  intro faithful same number satisfies
  have normalised := same.word_eq satisfies
  rw [sameBase] at normalised
  rw [sound faithful number satisfies, normalised, sameOffset]

section Step

variable {fuel : Nat} {visited : List Value} {value : Value} (unseen : value ∉ visited)
include unseen

theorem traceSound_getElementPtr
    (wide : ∀ known, layout = some known → known.indexSizeInBits = 64)
    {pointer : Value} {indices : List GEPIndex}
    (node : graph.node (graph.stripPointerCasts value) =
        .instruction (.getElementPtr pointer indices) ∨
      graph.node (graph.stripPointerCasts value) =
        .constant (.getElementPtr pointer indices))
    (induction : graph.TraceSound layout fuel (value :: visited) pointer) :
    graph.TraceSound layout (fuel + 1) visited value := by
  have trace : graph.traceASanCheckedAddressImpl layout (fuel + 1) visited value =
      { graph.appendGEPRegion layout
          (graph.traceASanCheckedAddressImpl layout fuel (value :: visited) pointer)
          indices with address := some (graph.stripPointerCasts value) } := by
    rw [traceASanCheckedAddressImpl, if_neg unseen]
    rcases node with node | node <;> simp only [node]
  rw [TraceSound, trace]
  intro known
  rcases appendGEPRegion_static wide known with ⟨pointerKnown, offset, constant, sum⟩
  rcases induction pointerKnown with ⟨base, baseEqual, ends, sound⟩
  have whole : base ∈ graph.traceEnds (fuel + 1) visited value := by
    rw [traceEnds, if_neg unseen]
    rcases node with node | node <;> simp only [node, constant] <;> exact ends
  refine ⟨base, by rw [base_appendGEPRegion, baseEqual], whole, ?_⟩
  intro faithful number satisfies
  have same := (FaithfulTrace.stripped unseen faithful whole).word_eq satisfies
  have inner : graph.FaithfulTrace fuel (value :: visited) pointer := by
    rw [FaithfulTrace] at faithful
    have step := ((faithful.resolve_left (List.ne_nil_of_mem whole)).resolve_left unseen).2
    rcases node with node | node
    · simp only [node] at step
      exact step
    · simp only [node] at step
      exact step
  rw [same, word_getElementPtr satisfies node constant, sound inner number satisfies, sum,
    BitVec.add_assoc]

theorem traceSound_cast {op : CastOp} {source : Value}
    (node : graph.node (graph.stripPointerCasts value) = .instruction (.cast op source))
    (induction : graph.TraceSound layout fuel (value :: visited) source) :
    graph.TraceSound layout (fuel + 1) visited value := by
  rw [TraceSound, traceASanCheckedAddressImpl, if_neg unseen]
  simp only [node]
  intro known
  rcases induction known with ⟨base, baseEqual, ends, sound⟩
  have whole : base ∈ graph.traceEnds (fuel + 1) visited value := by
    rw [traceEnds, if_neg unseen]
    simp only [node]
    exact ends
  refine ⟨base, baseEqual, whole, ?_⟩
  intro faithful number satisfies
  have same := (FaithfulTrace.stripped unseen faithful whole).word_eq satisfies
  rw [FaithfulTrace] at faithful
  have step := ((faithful.resolve_left (List.ne_nil_of_mem whole)).resolve_left unseen).2
  simp only [node] at step
  rw [same, word_cast satisfies (.inl node) step.1]
  exact sound step.2 number satisfies

theorem traceSound_phi {incoming : List (Value × BlockId)}
    (node : graph.node (graph.stripPointerCasts value) = .instruction (.phi incoming))
    (induction : ∀ entry ∈ incoming,
      graph.TraceSound layout fuel (value :: visited) entry.1) :
    graph.TraceSound layout (fuel + 1) visited value := by
  rw [TraceSound, traceASanCheckedAddressImpl, if_neg unseen]
  simp only [node]
  intro known
  have based : ∀ trace ∈ incoming.map fun entry =>
      graph.traceASanCheckedAddressImpl layout fuel (value :: visited) entry.1,
      trace.base.isSome := by
    intro trace member
    rcases List.mem_map.mp member with ⟨entry, -, equal⟩
    rw [← equal]
    exact base_isSome_trace _ _ _
  rcases tracePhi_static based known with ⟨nonempty, all⟩
  rw [ne_eq, List.map_eq_nil_iff] at nonempty
  rcases Option.isSome_iff_exists.mp
    (base_tracePhi graph (graph.stripPointerCasts value) based) with ⟨base, baseEqual⟩
  have each := fun entry member => exists_armBase (induction entry member) baseEqual
    (all _ (List.mem_map_of_mem member))
  have whole : base ∈ graph.traceEnds (fuel + 1) visited value := by
    rw [traceEnds, if_neg unseen]
    simp only [node]
    have none : ¬(incoming.map fun entry =>
        graph.traceEnds fuel (value :: visited) entry.1).any List.isEmpty = true := by
      intro empty
      rcases List.any_eq_true.mp empty with ⟨ends, member, isEmpty⟩
      rcases List.mem_map.mp member with ⟨entry, entryMember, equal⟩
      rcases each entry entryMember with ⟨entryBase, -, inside, -⟩
      rw [equal, List.isEmpty_iff.mp isEmpty] at inside
      cases inside
    rw [if_neg none]
    rcases List.exists_mem_of_ne_nil _ nonempty with ⟨entry, entryMember⟩
    rcases each entry entryMember with ⟨entryBase, normal, inside, -⟩
    refine List.mem_map.mpr ⟨entryBase, ?_, normal⟩
    exact List.mem_flatten.mpr ⟨_, List.mem_map_of_mem entryMember, inside⟩
  refine ⟨base, baseEqual, whole, ?_⟩
  intro faithful number satisfies
  have same := (FaithfulTrace.stripped unseen faithful whole).word_eq satisfies
  rw [FaithfulTrace] at faithful
  have step := ((faithful.resolve_left (List.ne_nil_of_mem whole)).resolve_left unseen).2
  simp only [node] at step
  have holds := satisfies.holds (graph.stripPointerCasts value)
  rw [NodeHolds, node] at holds
  rcases holds nonempty with ⟨entry, member, equal⟩
  rcases each entry member with ⟨entryBase, -, inside, sound⟩
  rw [same, Assignment.word_eq_of_number_eq equal]
  exact sound (step entry member).1 ((step entry member).2 entryBase inside) number satisfies

theorem traceSound_select {condition ifTrue ifFalse : Value}
    (node : graph.node (graph.stripPointerCasts value) =
      .instruction (.select condition ifTrue ifFalse))
    (induction : ∀ arm ∈ [ifTrue, ifFalse],
      graph.TraceSound layout fuel (value :: visited) arm) :
    graph.TraceSound layout (fuel + 1) visited value := by
  rw [TraceSound, traceASanCheckedAddressImpl, if_neg unseen]
  simp only [node]
  intro known
  have all := traceSelect_static known
  rcases Option.isSome_iff_exists.mp
    (base_traceSelect graph (graph.stripPointerCasts value)
      (graph.traceASanCheckedAddressImpl layout fuel (value :: visited) ifTrue)
      (graph.traceASanCheckedAddressImpl layout fuel (value :: visited) ifFalse)) with
    ⟨base, baseEqual⟩
  have each := fun arm (member : arm ∈ [ifTrue, ifFalse]) =>
    exists_armBase (induction arm member) baseEqual (all _ (List.mem_map_of_mem
      (f := graph.traceASanCheckedAddressImpl layout fuel (value :: visited)) member))
  have whole : base ∈ graph.traceEnds (fuel + 1) visited value := by
    rw [traceEnds, if_neg unseen]
    simp only [node]
    rcases each ifTrue (by simp) with ⟨trueBase, normal, trueInside, -⟩
    rcases each ifFalse (by simp) with ⟨falseBase, -, falseInside, -⟩
    have some : ¬((graph.traceEnds fuel (value :: visited) ifTrue).isEmpty ||
        (graph.traceEnds fuel (value :: visited) ifFalse).isEmpty) = true := by
      rw [Bool.or_eq_true, List.isEmpty_iff, List.isEmpty_iff, not_or]
      exact ⟨List.ne_nil_of_mem trueInside, List.ne_nil_of_mem falseInside⟩
    rw [if_neg some]
    exact List.mem_map.mpr ⟨trueBase, List.mem_append_left _ trueInside, normal⟩
  refine ⟨base, baseEqual, whole, ?_⟩
  intro faithful number satisfies
  have same := (FaithfulTrace.stripped unseen faithful whole).word_eq satisfies
  rw [FaithfulTrace] at faithful
  have step := ((faithful.resolve_left (List.ne_nil_of_mem whole)).resolve_left unseen).2
  simp only [node] at step
  have taken : ∃ arm ∈ [ifTrue, ifFalse],
      number (graph.stripPointerCasts value) = number arm := by
    have holds := satisfies.holds (graph.stripPointerCasts value)
    simp only [NodeHolds, node] at holds
    by_cases isTrue : number condition = 1
    · exact ⟨ifTrue, by simp, by rw [holds, if_pos isTrue]⟩
    · exact ⟨ifFalse, by simp, by rw [holds, if_neg isTrue]⟩
  rcases taken with ⟨arm, member, equal⟩
  rcases each arm member with ⟨armBase, -, inside, sound⟩
  rw [same, Assignment.word_eq_of_number_eq equal]
  exact sound (step arm member).1 ((step arm member).2 armBase inside) number satisfies

theorem traceSound_binary {op : BinOp} {lhs rhs : Value}
    (node : graph.node (graph.stripPointerCasts value) = .instruction (.binary op lhs rhs))
    (induction : graph.TraceSound layout fuel (value :: visited)
      (graph.firstNonConstant lhs rhs)) :
    graph.TraceSound layout (fuel + 1) visited value := by
  rw [TraceSound, traceASanCheckedAddressImpl, if_neg unseen]
  simp only [node]
  intro known
  rcases traceASanBinary_static known with ⟨operandKnown, keeps⟩
  rcases induction operandKnown with ⟨base, baseEqual, ends, sound⟩
  have whole : base ∈ graph.traceEnds (fuel + 1) visited value := by
    rw [traceEnds, if_neg unseen]
    simp only [node, keeps]
    exact ends
  refine ⟨base, by rw [base_traceASanBinary, baseEqual], whole, ?_⟩
  intro faithful number satisfies
  have same := (FaithfulTrace.stripped unseen faithful whole).word_eq satisfies
  rw [FaithfulTrace] at faithful
  have step := ((faithful.resolve_left (List.ne_nil_of_mem whole)).resolve_left unseen).2
  simp only [node] at step
  rcases exists_delta_of_addsConstant node step.1 with ⟨delta, offset, traced, sum⟩
  have offsetKnown : ((graph.traceASanCheckedAddressImpl layout fuel (value :: visited)
      (graph.firstNonConstant lhs rhs)).appendOffset offset).hasStaticByteOffset = true :=
    operandKnown
  rw [same, sum number satisfies, sound step.2 number satisfies, traced,
    staticByteOffset_addStaticOffset offsetKnown, addInt64, ofInt_bmod, BitVec.ofInt_add,
    BitVec.add_assoc]
  rfl

theorem traceSound_leaf (leaf : (graph.node (graph.stripPointerCasts value)).isLeaf = true) :
    graph.TraceSound layout (fuel + 1) visited value := by
  have trace : graph.traceASanCheckedAddressImpl layout (fuel + 1) visited value =
      graph.makeBaseVariable (graph.normalizeVariable (graph.stripPointerCasts value)) := by
    rw [traceASanCheckedAddressImpl, if_neg unseen]
    simp only
    split <;> first | rfl | (rename_i node; rw [node] at leaf; cases leaf)
  have whole : graph.normalizeVariable (graph.stripPointerCasts value) ∈
      graph.traceEnds (fuel + 1) visited value := by
    rw [traceEnds, if_neg unseen]
    simp only
    split <;>
      first
        | exact List.mem_singleton_self _
        | (rename_i node; rw [node] at leaf; cases leaf)
  rw [TraceSound, trace]
  intro _
  refine ⟨_, rfl, whole, ?_⟩
  intro faithful number satisfies
  have same := (FaithfulTrace.stripped unseen faithful whole).word_eq satisfies
  rw [FaithfulTrace] at faithful
  have step := ((faithful.resolve_left (List.ne_nil_of_mem whole)).resolve_left unseen).2
  apply word_makeBaseVariable
  rw [same]
  split at step <;>
    first
      | exact step.word_eq satisfies
      | (rename_i node; rw [node] at leaf; cases leaf)

end Step

theorem traceSound (wide : ∀ known, layout = some known → known.indexSizeInBits = 64)
    (fuel : Nat) (visited : List Value) (value : Value) :
    graph.TraceSound layout fuel visited value := by
  induction fuel generalizing visited value with
  | zero =>
      intro known
      refine ⟨value, rfl, List.mem_singleton_self _, ?_⟩
      intro _ number _
      exact word_makeBaseVariable number value value rfl
  | succ fuel induction =>
      by_cases seen : value ∈ visited
      · rw [TraceSound, traceASanCheckedAddressImpl_seen seen, traceEnds_seen seen]
        intro _
        refine ⟨value, rfl, List.mem_singleton_self _, ?_⟩
        intro _ number _
        exact word_makeBaseVariable number value value rfl
      · cases node : graph.node (graph.stripPointerCasts value) with
        | instruction op =>
            cases op with
            | getElementPtr pointer indices =>
                exact traceSound_getElementPtr seen wide (.inl node) (induction _ _)
            | load pointer isVolatile ordering =>
                rw [TraceSound, traceASanCheckedAddressImpl, if_neg seen]
                simp only [node]
                intro known
                cases known
            | cast op source => exact traceSound_cast seen node (induction _ _)
            | phi incoming =>
                exact traceSound_phi seen node fun entry _ => induction _ _
            | select condition ifTrue ifFalse =>
                exact traceSound_select seen node fun arm _ => induction _ _
            | binary op lhs rhs => exact traceSound_binary seen node (induction _ _)
            | _ => exact traceSound_leaf seen (by rw [node]; rfl)
        | constant constant =>
            cases constant with
            | getElementPtr pointer indices =>
                exact traceSound_getElementPtr seen wide (.inr node) (induction _ _)
            | _ => exact traceSound_leaf seen (by rw [node]; rfl)
        | _ => exact traceSound_leaf seen (by rw [node]; rfl)

end Trace

/-! ## The offset of a checked address -/

/-- A known static offset is the true one: under every assignment the value is its base
plus the offset, modulo `2 ^ 64`. -/
def OffsetIsTrue (graph : ValueGraph) (layout : Option DataLayout) (value : Value) : Prop :=
  let trace := graph.traceASanCheckedAddress layout value
  trace.hasStaticByteOffset = true →
    ∃ base, trace.base = some base ∧ ∀ number, graph.Satisfies number →
      number.word value = number.word base + BitVec.ofInt 64 trace.staticByteOffset

theorem offsetIsTrue_of_faithful (graph : ValueGraph) (layout : Option DataLayout)
    (value : Value) (wide : ∀ known, layout = some known → known.indexSizeInBits = 64)
    (faithful : graph.FaithfulTrace traceFuel [] value) :
    graph.OffsetIsTrue layout value := by
  intro known
  rcases traceSound wide traceFuel [] value known with ⟨base, baseEqual, -, sound⟩
  exact ⟨base, baseEqual, sound faithful⟩

/-- A function with one operator on its argument and a constant. -/
def operatorGraph (op : BinOp) (int : Int) : ValueGraph :=
  Module.functionGraph
    { functions := []
      values :=
        { value
            | 0 => ⟨.argument, .integer 64⟩
            | _ => ⟨.constant (.int int), .integer 64⟩
          count := 2 }
      dataLayout := ⟨64, 8⟩ }
    { name := "f"
      blocks :=
        [{ id := 0
           insts := [⟨0, .integer 64, .binary op (.other 0) (.other 1)⟩]
           terminator := ⟨1, .other 0, .ret (some (.inst 0))⟩ }] }

theorem operatorGraph_add_offset :
    ((operatorGraph .add 16).traceASanCheckedAddress (some ⟨64, 8⟩)
        (.inst 0)).hasStaticByteOffset = true ∧
      (operatorGraph .add 16).OffsetIsTrue (some ⟨64, 8⟩) (.inst 0) := by
  refine ⟨by decide, offsetIsTrue_of_faithful _ _ _ ?_ ?_⟩
  · intro known equal
    cases equal
    rfl
  · have argument : (operatorGraph .add 16).FaithfulTrace 32 [.inst 0] (.other 0) := by
      rw [FaithfulTrace]
      exact .inr (.inr ⟨.refl, .refl⟩)
    rw [traceFuel, maxTraceDepth, FaithfulTrace]
    exact .inr (.inr ⟨.refl, by decide, argument⟩)

/-- The argument is 9, the constant -8 and their conjunction 8. -/
def maskNumber : Assignment
  | .other 0 => 9
  | .other _ => 2 ^ 64 - 8
  | .inst 0 => 8
  | _ => 0

theorem satisfies_maskNumber : (operatorGraph .and (-8)).Satisfies maskNumber where
  inRange := by
    intro value width bits
    match value with
    | .other 0 | .inst 0 =>
        cases bits
        decide
    | .other (_ + 1) =>
        cases bits
        exact (by decide : 2 ^ 64 - 8 < 2 ^ 64)
    | .inst (_ + 1) => exact Nat.two_pow_pos width
    | .poison => exact Nat.two_pow_pos width
  holds := by
    intro value
    match value with
    | .other 0 => trivial
    | .other (_ + 1) =>
        intro width bits
        cases bits
        exact (by decide : (BitVec.ofNat 64 (2 ^ 64 - 8)).toInt = -8)
    | .inst 0 =>
        intro width result bits evaluated
        cases bits
        cases evaluated
        decide
    | .inst 1 => trivial
    | .inst (_ + 2) => trivial
    | .poison => trivial

/-- A mask is traced to its operand at offset 0: masking 9 with -8 leaves 8. -/
theorem operatorGraph_and_offset :
    ¬(operatorGraph .and (-8)).OffsetIsTrue (some ⟨64, 8⟩) (.inst 0) := by
  intro holds
  rcases holds (by decide) with ⟨base, baseEqual, sound⟩
  have argument : base = .other 0 := by
    have traced : ((operatorGraph .and (-8)).traceASanCheckedAddress (some ⟨64, 8⟩)
        (.inst 0)).base = some (.other 0) := by decide
    rw [traced] at baseEqual
    exact (Option.some.inj baseEqual).symm
  have wrong := sound maskNumber satisfies_maskNumber
  rw [argument] at wrong
  revert wrong
  decide

end ValueGraph

end Desan
