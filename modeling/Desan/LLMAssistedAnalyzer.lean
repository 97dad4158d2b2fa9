import Desan.Foundation.Levels
import Desan.IR.Carry

/-! # The slice an advisory query shows

A depth-first walk from the operands of a check, with one visited set and a limit on its
depth. A value first met at the limit is not walked on from when it is met again closer
to the check. -/

namespace Desan

/-- The visited values and the instructions put out. -/
structure BackwardSlice where
  visited : List Value := []
  out : List InstId := []

def maxSliceDepth : Nat := 8

/-- The instruction is put out if there is room for it. -/
def BackwardSlice.put (maxInstructions : Nat) (slice : BackwardSlice) (id : InstId) :
    BackwardSlice :=
  if slice.out.length < maxInstructions then { slice with out := slice.out ++ [id] } else slice

namespace Function

/-- The source counts a depth up to the limit; here the first argument counts down, so it
is 0 exactly when the depth is past the limit. -/
def collectBackwardInstructions (function : Function) (maxInstructions : Nat) :
    Nat → BackwardSlice → Value → BackwardSlice
  | 0, slice, _ => slice
  | fuel + 1, slice, value =>
      if maxInstructions ≤ slice.out.length then slice
      else if value ∈ slice.visited then slice
      else
        let slice := { slice with visited := value :: slice.visited }
        match value.asInst.bind function.inst? with
        | none => slice
        | some inst =>
            let slice := inst.op.operands.foldl
              (fun slice operand =>
                if maxInstructions ≤ slice.out.length then slice
                else function.collectBackwardInstructions maxInstructions fuel slice operand)
              slice
            slice.put maxInstructions inst.id

/-- The backward slice of `summarizeIRSlice`. -/
def backwardSlice (function : Function) (maxInstructions : Nat) (check : Inst) :
    BackwardSlice :=
  check.op.operands.foldl
    (function.collectBackwardInstructions maxInstructions (maxSliceDepth + 1)) {}

/-- What one operand step leads to. -/
def operandsOf (function : Function) (value : Value) : List Value :=
  ((value.asInst.bind function.inst?).map fun inst => inst.op.operands).getD []

/-- A chain of exactly so many operand steps leads from one of the roots to the value. -/
def ReachedIn (function : Function) (roots : List Value) (count : Nat) (value : Value) : Prop :=
  ∃ root ∈ roots, StepsTo function.operandsOf count root value

/-- The walks of so many operand steps from the roots that meet no value twice, each with
its last value first. -/
def freshWalks (function : Function) (roots : List Value) : Nat → List (List Value)
  | 0 => roots.map fun root => [root]
  | count + 1 =>
      (function.freshWalks roots count).flatMap fun walk =>
        (((walk.head?.map function.operandsOf).getD []).filter fun operand =>
          operand ∉ walk).map fun operand => operand :: walk

/-- A walk that meets no value twice comes to the value at the limit of the depth. -/
def AtLimit (function : Function) (roots : List Value) (value : Value) : Prop :=
  ∃ walk ∈ function.freshWalks roots maxSliceDepth, walk.head? = some value

instance (function : Function) (roots : List Value) (value : Value) :
    Decidable (function.AtLimit roots value) :=
  inferInstanceAs (Decidable (∃ walk ∈ function.freshWalks roots maxSliceDepth,
    walk.head? = some value))

/-- A chain of so many operand steps from one of the roots, of which no value before the
last is at the limit. -/
inductive ClearChain (function : Function) (roots : List Value) : Nat → Value → Prop where
  | root {value : Value} (member : value ∈ roots) : ClearChain function roots 0 value
  | step {count : Nat} {last value : Value} (chain : ClearChain function roots count last)
      (clear : ¬function.AtLimit roots last)
      (member : value ∈ function.operandsOf last) :
      ClearChain function roots (count + 1) value

variable {function : Function} {maxInstructions : Nat}

/-! ## What one call adds -/

/-- A call adds instructions that were not visited, and visits them. -/
structure Grows (before after : BackwardSlice) : Prop where
  visited : before.visited ⊆ after.visited
  out : ∃ added, after.out = before.out ++ added ∧ added.Nodup ∧
    ∀ id ∈ added, .inst id ∉ before.visited ∧ .inst id ∈ after.visited

namespace Grows

theorem refl (slice : BackwardSlice) : Grows slice slice where
  visited := List.Subset.refl _
  out := ⟨[], (List.append_nil _).symm, List.nodup_nil, fun _ member => nomatch member⟩

theorem trans {first second third : BackwardSlice} (left : Grows first second)
    (right : Grows second third) : Grows first third where
  visited := List.Subset.trans left.visited right.visited
  out := by
    rcases left.out with ⟨early, whole, earlyNodup, earlyFresh⟩
    rcases right.out with ⟨late, rest, lateNodup, lateFresh⟩
    refine ⟨early ++ late, ?_, ?_, ?_⟩
    · rw [rest, whole, List.append_assoc]
    · apply earlyNodup.append lateNodup
      intro id inEarly inLate
      exact (lateFresh id inLate).1 (earlyFresh id inEarly).2
    · intro id member
      rcases List.mem_append.mp member with inEarly | inLate
      · exact ⟨(earlyFresh id inEarly).1, right.visited (earlyFresh id inEarly).2⟩
      · exact ⟨fun inside => (lateFresh id inLate).1 (left.visited inside),
          (lateFresh id inLate).2⟩

theorem length_le {before after : BackwardSlice} (grows : Grows before after) :
    before.out.length ≤ after.out.length := by
  rcases grows.out with ⟨added, whole, -⟩
  rw [whole, List.length_append]
  exact Nat.le_add_right _ _

theorem foldl {step : BackwardSlice → Value → BackwardSlice}
    (grows : ∀ slice value, Grows slice (step slice value)) (values : List Value)
    (slice : BackwardSlice) : Grows slice (values.foldl step slice) := by
  induction values generalizing slice with
  | nil => exact refl slice
  | cons head tail induction => exact (grows slice head).trans (induction _)

end Grows

theorem inst_of_asInst {value : Value} {inst : Inst}
    (found : value.asInst.bind function.inst? = some inst) : value = .inst inst.id := by
  rcases Option.bind_eq_some_iff.mp found with ⟨id, isInst, present⟩
  rw [Value.asInst_eq_some.mp isInst, (mem_of_inst? present).2]

theorem collectBackwardInstructions_full (fuel : Nat) {slice : BackwardSlice} (value : Value)
    (full : maxInstructions ≤ slice.out.length) :
    function.collectBackwardInstructions maxInstructions fuel slice value = slice := by
  cases fuel with
  | zero => rfl
  | succ fuel =>
      rw [collectBackwardInstructions]
      exact if_pos full

theorem collectBackwardInstructions_visited (fuel : Nat) {slice : BackwardSlice} {value : Value}
    (visited : value ∈ slice.visited) :
    function.collectBackwardInstructions maxInstructions fuel slice value = slice := by
  cases fuel with
  | zero => rfl
  | succ fuel =>
      rw [collectBackwardInstructions]
      simp only [if_pos visited, ite_self]

theorem collectBackwardInstructions_leaf (fuel : Nat) {slice : BackwardSlice} {value : Value}
    (room : slice.out.length < maxInstructions) (fresh : value ∉ slice.visited)
    (leaf : value.asInst.bind function.inst? = none) :
    function.collectBackwardInstructions maxInstructions (fuel + 1) slice value =
      { slice with visited := value :: slice.visited } := by
  rw [collectBackwardInstructions, if_neg (Nat.not_le.mpr room), if_neg fresh]
  simp only [leaf]

/-- The check of the budget before each operand is the one the call makes itself. -/
theorem collectBackwardInstructions_inst (fuel : Nat) {slice : BackwardSlice} {value : Value}
    {inst : Inst} (room : slice.out.length < maxInstructions) (fresh : value ∉ slice.visited)
    (found : value.asInst.bind function.inst? = some inst) :
    function.collectBackwardInstructions maxInstructions (fuel + 1) slice value =
      (inst.op.operands.foldl (function.collectBackwardInstructions maxInstructions fuel)
        { slice with visited := value :: slice.visited }).put maxInstructions inst.id := by
  have guarded : (fun (slice : BackwardSlice) (operand : Value) =>
      if maxInstructions ≤ slice.out.length then slice
      else function.collectBackwardInstructions maxInstructions fuel slice operand) =
      function.collectBackwardInstructions maxInstructions fuel := by
    funext slice operand
    by_cases full : maxInstructions ≤ slice.out.length
    · rw [if_pos full, collectBackwardInstructions_full fuel operand full]
    · exact if_neg full
  rw [collectBackwardInstructions, if_neg (Nat.not_le.mpr room), if_neg fresh]
  simp only [found, guarded]

theorem grows_collectBackwardInstructions (fuel : Nat) (slice : BackwardSlice)
    (value : Value) :
    Grows slice (function.collectBackwardInstructions maxInstructions fuel slice value) := by
  induction fuel generalizing slice value with
  | zero => exact .refl slice
  | succ fuel induction =>
      by_cases full : maxInstructions ≤ slice.out.length
      · rw [collectBackwardInstructions_full _ _ full]
        exact .refl slice
      have room := Nat.lt_of_not_le full
      by_cases fresh : value ∈ slice.visited
      · rw [collectBackwardInstructions_visited _ fresh]
        exact .refl slice
      have visit : Grows slice { slice with visited := value :: slice.visited } :=
        ⟨List.subset_cons_self _ _, [], (List.append_nil _).symm, List.nodup_nil,
          fun _ member => nomatch member⟩
      cases found : value.asInst.bind function.inst? with
      | none =>
          rw [collectBackwardInstructions_leaf fuel room fresh found]
          exact visit
      | some inst =>
          rw [collectBackwardInstructions_inst fuel room fresh found]
          have walked := Grows.foldl induction inst.op.operands
            { slice with visited := value :: slice.visited }
          rw [BackwardSlice.put]
          split
          · -- The instruction comes last, and its operands have not put it out.
            rcases walked.out with ⟨added, whole, nodup, addedFresh⟩
            have isValue := inst_of_asInst found
            refine ⟨List.Subset.trans visit.visited walked.visited, added ++ [inst.id], ?_,
              ?_, ?_⟩
            · simp only [whole, List.append_assoc]
            · apply nodup.append (List.nodup_singleton _)
              intro id inside last
              apply (addedFresh id inside).1
              rw [List.mem_singleton.mp last, ← isValue]
              exact List.mem_cons_self ..
            · intro id member
              rcases List.mem_append.mp member with inside | last
              · exact ⟨fun old => (addedFresh id inside).1 (List.mem_cons_of_mem _ old),
                  (addedFresh id inside).2⟩
              · rw [List.mem_singleton.mp last, ← isValue]
                exact ⟨fresh, walked.visited (List.mem_cons_self ..)⟩
          · exact visit.trans walked

theorem length_foldl_le {step : BackwardSlice → Value → BackwardSlice}
    (fits : ∀ slice value, slice.out.length ≤ maxInstructions →
      (step slice value).out.length ≤ maxInstructions)
    (values : List Value) {slice : BackwardSlice} (start : slice.out.length ≤ maxInstructions) :
    (values.foldl step slice).out.length ≤ maxInstructions := by
  induction values generalizing slice with
  | nil => exact start
  | cons head tail induction => exact induction (fits slice head start)

theorem length_collectBackwardInstructions (fuel : Nat) (slice : BackwardSlice)
    (value : Value) (fits : slice.out.length ≤ maxInstructions) :
    (function.collectBackwardInstructions maxInstructions fuel slice value).out.length ≤
      maxInstructions := by
  induction fuel generalizing slice value with
  | zero => exact fits
  | succ fuel induction =>
      by_cases full : maxInstructions ≤ slice.out.length
      · rw [collectBackwardInstructions_full _ _ full]
        exact fits
      have room := Nat.lt_of_not_le full
      by_cases fresh : value ∈ slice.visited
      · rw [collectBackwardInstructions_visited _ fresh]
        exact fits
      cases found : value.asInst.bind function.inst? with
      | none =>
          rw [collectBackwardInstructions_leaf fuel room fresh found]
          exact fits
      | some inst =>
          rw [collectBackwardInstructions_inst fuel room fresh found]
          rw [BackwardSlice.put]
          split
          · rename_i roomy
            rw [List.length_append]
            exact roomy
          · exact length_foldl_le induction inst.op.operands fits

/-! ## What a walk within the budget reaches -/

/-- A walk from the roots has visited the value at some depth, and on from there unless
it was at the limit. -/
structure Walked (function : Function) (roots : List Value) (slice : BackwardSlice)
    (value : Value) : Prop where
  out : ∀ inst, value.asInst.bind function.inst? = some inst → inst.id ∈ slice.out
  onward : function.AtLimit roots value ∨
    ∀ operand ∈ function.operandsOf value, operand ∈ slice.visited

theorem Walked.mono {roots : List Value} {before after : BackwardSlice} {value : Value}
    (walked : function.Walked roots before value) (grows : Grows before after) :
    function.Walked roots after value where
  out := by
    intro inst found
    rcases grows.out with ⟨added, whole, -⟩
    rw [whole]
    exact List.mem_append_left _ (walked.out inst found)
  onward := walked.onward.imp_right fun all operand member => grows.visited (all operand member)

/-- What is visited is either old or walked. -/
structure Settled (function : Function) (roots : List Value) (before after : BackwardSlice) :
    Prop where
  grows : Grows before after
  walked : ∀ met ∈ after.visited, met ∈ before.visited ∨ function.Walked roots after met

theorem Settled.refl {roots : List Value} (slice : BackwardSlice) :
    function.Settled roots slice slice where
  grows := .refl slice
  walked := fun _ member => .inl member

theorem Settled.trans {roots : List Value} {first second third : BackwardSlice}
    (left : function.Settled roots first second) (right : function.Settled roots second third) :
    function.Settled roots first third where
  grows := left.grows.trans right.grows
  walked := by
    intro met member
    rcases right.walked met member with old | fresh
    · exact (left.walked met old).imp_right fun walked => walked.mono right.grows
    · exact .inr fresh

/-- Calls in a row within the budget visit all their values. The values on the way to
them stay visited. -/
theorem settled_foldl {roots held : List Value} {step : BackwardSlice → Value → BackwardSlice}
    (grows : ∀ slice value, Grows slice (step slice value)) {values : List Value}
    (settled : ∀ slice, held ⊆ slice.visited → ∀ value ∈ values,
      (step slice value).out.length < maxInstructions →
        function.Settled roots slice (step slice value) ∧ value ∈ (step slice value).visited)
    (slice : BackwardSlice) (start : held ⊆ slice.visited)
    (room : (values.foldl step slice).out.length < maxInstructions) :
    function.Settled roots slice (values.foldl step slice) ∧
      ∀ value ∈ values, value ∈ (values.foldl step slice).visited := by
  induction values generalizing slice with
  | nil => exact ⟨.refl slice, fun _ member => nomatch member⟩
  | cons head tail induction =>
      have rest := Grows.foldl grows tail (step slice head)
      have first := settled slice start head (List.mem_cons_self ..)
        (Nat.lt_of_le_of_lt rest.length_le room)
      have second := induction (fun slice start value member =>
        settled slice start value (List.mem_cons_of_mem _ member)) (step slice head)
        (List.Subset.trans start (grows slice head).visited) room
      refine ⟨first.1.trans second.1, ?_⟩
      intro value member
      rcases List.mem_cons.mp member with isHead | inTail
      · rw [isHead]
        exact rest.visited first.2
      · exact second.2 value inTail

theorem operandsOf_of_inst {value : Value} {inst : Inst}
    (found : value.asInst.bind function.inst? = some inst) :
    function.operandsOf value = inst.op.operands := by
  rw [operandsOf, found]
  rfl

theorem walked_leaf {roots : List Value} {value : Value} (slice : BackwardSlice)
    (leaf : value.asInst.bind function.inst? = none) : function.Walked roots slice value where
  out := by
    intro inst found
    rw [leaf] at found
    exact absurd found (Option.some_ne_none inst).symm
  onward := by
    right
    intro operand member
    rw [operandsOf, leaf] at member
    exact absurd member List.not_mem_nil

theorem room_of_put {slice : BackwardSlice} {id : InstId}
    (room : (slice.put maxInstructions id).out.length < maxInstructions) :
    slice.out.length < maxInstructions := by
  by_contra full
  rw [BackwardSlice.put, if_neg full] at room
  exact full room

/-- The call on a value, from the calls on its operands. -/
theorem settled_of_operands {roots : List Value} (fuel : Nat) (slice : BackwardSlice)
    {value : Value}
    (settled : ∀ inst, value.asInst.bind function.inst? = some inst → value ∉ slice.visited →
      let start := { slice with visited := value :: slice.visited }
      let operands := inst.op.operands.foldl
        (function.collectBackwardInstructions maxInstructions fuel) start
      operands.out.length < maxInstructions → function.Settled roots start operands ∧
        (function.AtLimit roots value ∨
          ∀ operand ∈ inst.op.operands, operand ∈ operands.visited))
    (room : (function.collectBackwardInstructions maxInstructions (fuel + 1) slice
      value).out.length < maxInstructions) :
    function.Settled roots slice
        (function.collectBackwardInstructions maxInstructions (fuel + 1) slice value) ∧
      value ∈ (function.collectBackwardInstructions maxInstructions (fuel + 1) slice
        value).visited := by
  have grows : Grows slice
      (function.collectBackwardInstructions maxInstructions (fuel + 1) slice value) :=
    grows_collectBackwardInstructions (fuel + 1) slice value
  have before := Nat.lt_of_le_of_lt grows.length_le room
  by_cases fresh : value ∈ slice.visited
  · rw [collectBackwardInstructions_visited _ fresh]
    exact ⟨.refl slice, fresh⟩
  cases found : value.asInst.bind function.inst? with
  | none =>
      rw [collectBackwardInstructions_leaf fuel before fresh found] at grows ⊢
      refine ⟨⟨grows, ?_⟩, List.mem_cons_self ..⟩
      intro met member
      rcases List.mem_cons.mp member with isValue | old
      · rw [isValue]
        exact .inr (walked_leaf _ found)
      · exact .inl old
  | some inst =>
      rw [collectBackwardInstructions_inst fuel before fresh found] at grows room ⊢
      have roomy := room_of_put room
      have operands := settled inst found fresh roomy
      rw [BackwardSlice.put, if_pos roomy] at grows ⊢
      have isVisited := operands.1.grows.visited (List.mem_cons_self (a := value)
        (l := slice.visited))
      refine ⟨⟨grows, ?_⟩, isVisited⟩
      intro met member
      rcases operands.1.walked met member with old | walked
      · rcases List.mem_cons.mp old with isValue | earlier
        · right
          rw [isValue]
          refine ⟨?_, ?_⟩
          · intro other isOther
            rw [Option.some.inj (isOther.symm.trans found)]
            exact List.mem_append_right _ (List.mem_singleton_self _)
          · rw [operandsOf_of_inst found]
            exact operands.2
        · exact .inl earlier
      · right
        refine ⟨?_, walked.onward⟩
        intro other isOther
        exact List.mem_append_left _ (walked.out other isOther)

/-- The value comes next on a walk: it is a root, or an operand of the last value. -/
def ComesNext (function : Function) (roots : List Value) : List Value → Value → Prop
  | [], value => value ∈ roots
  | last :: earlier, value =>
      last :: earlier ∈ function.freshWalks roots earlier.length ∧
        value ∈ function.operandsOf last

theorem ComesNext.mem_freshWalks {roots walk : List Value} {value : Value}
    (next : function.ComesNext roots walk value) (fresh : value ∉ walk) :
    value :: walk ∈ function.freshWalks roots walk.length := by
  cases walk with
  | nil => exact List.mem_map_of_mem next
  | cons last earlier =>
      rw [List.length_cons, freshWalks]
      apply List.mem_flatMap.mpr
      refine ⟨last :: earlier, next.1, List.mem_map_of_mem ?_⟩
      apply List.mem_filter.mpr
      exact ⟨next.2, decide_eq_true fresh⟩

/-- Within the budget a call visits its value and walks on from all that it visits. The
values on the way to a call are visited, so the way meets no value twice. -/
theorem settled_collectBackwardInstructions {roots : List Value} (fuel : Nat)
    (walk : List Value) (limit : walk.length + fuel = maxSliceDepth) (slice : BackwardSlice)
    {value : Value} (next : function.ComesNext roots walk value) (onTheWay : walk ⊆ slice.visited)
    (room : (function.collectBackwardInstructions maxInstructions (fuel + 1) slice
      value).out.length < maxInstructions) :
    function.Settled roots slice
        (function.collectBackwardInstructions maxInstructions (fuel + 1) slice value) ∧
      value ∈ (function.collectBackwardInstructions maxInstructions (fuel + 1) slice
        value).visited := by
  induction fuel generalizing walk slice value with
  | zero =>
      apply settled_of_operands 0 slice _ room
      intro inst found fresh start
      -- At the limit the calls on the operands do nothing.
      have still : inst.op.operands.foldl
          (function.collectBackwardInstructions maxInstructions 0) start = start :=
        List.foldl_fixed' (fun _ => rfl) _
      rw [still]
      have isWalk := next.mem_freshWalks fun inside => fresh (onTheWay inside)
      have whole : walk.length = maxSliceDepth := limit
      exact fun _ => ⟨.refl start, .inl ⟨value :: walk, whole ▸ isWalk, rfl⟩⟩
  | succ fuel induction =>
      apply settled_of_operands (fuel + 1) slice _ room
      intro inst found fresh start operands room
      have isWalk := next.mem_freshWalks fun inside => fresh (onTheWay inside)
      have onward : ∀ operand ∈ inst.op.operands,
          function.ComesNext roots (value :: walk) operand := by
        intro operand member
        refine ⟨isWalk, ?_⟩
        rw [operandsOf_of_inst found]
        exact member
      have shorter : (value :: walk).length + fuel = maxSliceDepth := by
        rw [List.length_cons]
        omega
      have walked := settled_foldl (grows_collectBackwardInstructions (fuel + 1))
        (fun slice held operand member room =>
          induction (value :: walk) shorter slice (onward operand member) held room)
        start (List.cons_subset_cons value onTheWay) room
      exact ⟨walked.1, .inr walked.2⟩

/-- Within the budget the slice has every instruction a clear chain leads to. -/
theorem visited_of_clearChain {roots : List Value} {count : Nat} {value : Value}
    (room : (roots.foldl (function.collectBackwardInstructions maxInstructions
      (maxSliceDepth + 1)) {}).out.length < maxInstructions)
    (chain : function.ClearChain roots count value) :
    function.Walked roots (roots.foldl (function.collectBackwardInstructions maxInstructions
        (maxSliceDepth + 1)) {}) value ∧
      value ∈ (roots.foldl (function.collectBackwardInstructions maxInstructions
        (maxSliceDepth + 1)) {}).visited := by
  have settled := settled_foldl (grows_collectBackwardInstructions (maxSliceDepth + 1))
    (fun slice held root member room => settled_collectBackwardInstructions maxSliceDepth []
      (Nat.zero_add _) slice (show function.ComesNext roots [] root from member) held room)
    {} (List.nil_subset _) room
  have walked : ∀ met ∈ (roots.foldl (function.collectBackwardInstructions maxInstructions
      (maxSliceDepth + 1)) {}).visited, function.Walked roots (roots.foldl
        (function.collectBackwardInstructions maxInstructions (maxSliceDepth + 1)) {}) met := by
    intro met member
    exact (settled.1.walked met member).resolve_left List.not_mem_nil
  induction chain with
  | root member => exact ⟨walked _ (settled.2 _ member), settled.2 _ member⟩
  | step chain clear member induction =>
      have isVisited := (induction.1.onward.resolve_left clear) _ member
      exact ⟨walked _ isVisited, isVisited⟩

/-- The slice repeats nothing, keeps to its budget and, with room left, has every
instruction that a clear chain of operands leads to. -/
theorem backwardSlice_complete (function : Function) (maxInstructions : Nat) (check : Inst) :
    (function.backwardSlice maxInstructions check).out.Nodup ∧
      (function.backwardSlice maxInstructions check).out.length ≤ maxInstructions ∧
      ((function.backwardSlice maxInstructions check).out.length < maxInstructions →
        ∀ count inst, function.inst? inst.id = some inst →
          function.ClearChain check.op.operands count (.inst inst.id) →
            inst.id ∈ (function.backwardSlice maxInstructions check).out) := by
  refine ⟨?_, ?_, ?_⟩
  · have grows : Grows {} (function.backwardSlice maxInstructions check) :=
      Grows.foldl (grows_collectBackwardInstructions (maxSliceDepth + 1)) check.op.operands {}
    rcases grows.out with ⟨added, whole, nodup, -⟩
    rw [whole]
    exact nodup
  · exact length_foldl_le (length_collectBackwardInstructions (maxSliceDepth + 1))
      check.op.operands (Nat.zero_le _)
  · intro room count inst present chain
    exact (visited_of_clearChain room chain).1.out inst present

/-! ## A loop -/

/-- The call checks a pointer that the loop carries. -/
def loopCheck : Inst :=
  ⟨12, .other 0, .call { calledOperand := .other 2, args := [.inst 10] }⟩

/-- The loop adds a loaded step to the pointer. -/
def stepping : Function where
  name := "f"
  blocks :=
    [{ id := 0, insts := [], terminator := ⟨9, .other 0, .br 1⟩ },
     { id := 1
       insts :=
        [⟨10, .pointer, .phi [(.other 3, 0), (.inst 14, 1)]⟩, loopCheck,
          ⟨13, .integer 64, .load (.other 4) false .notAtomic⟩,
          ⟨14, .pointer, .getElementPtr (.inst 10) [⟨.inst 13, .element 1⟩]⟩]
       terminator := ⟨15, .other 0, .br 1⟩ }]

/-- The load stands behind the values that the loop carries. -/
theorem stepping_complete : 13 ∈ (stepping.backwardSlice 32 loopCheck).out := by
  have atPhi : stepping.ClearChain loopCheck.op.operands 0 (.inst 10) := .root (by decide)
  have atStep : stepping.ClearChain loopCheck.op.operands 1 (.inst 14) :=
    .step atPhi (by decide +kernel) (by decide)
  have atLoad : stepping.ClearChain loopCheck.op.operands 2 (.inst 13) :=
    .step atStep (by decide +kernel) (by decide)
  exact (backwardSlice_complete stepping 32 loopCheck).2.2 (by decide +kernel) 2
    ⟨13, .integer 64, .load (.other 4) false .notAtomic⟩ (by decide) atLoad

/-! ## A value first met at the limit -/

/-- `add` number `id` of a chain of nine, of which the last adds to the load `9`. -/
def chainLink (id : Nat) : Inst :=
  ⟨id, .integer 64, .binary .add (.inst (id + 1)) (.other 1)⟩

/-- The call checks the first and the last of the chain. -/
def chainCheck : Inst :=
  ⟨10, .other 0, .call { calledOperand := .other 2, args := [.other 3, .inst 0, .inst 8] }⟩

def sharedChain : Function where
  name := "f"
  blocks :=
    [{ id := 0
       insts :=
        [⟨9, .integer 64, .load (.other 0) false .notAtomic⟩, chainLink 8, chainLink 7,
          chainLink 6, chainLink 5, chainLink 4, chainLink 3, chainLink 2, chainLink 1,
          chainLink 0, chainCheck]
       terminator := ⟨11, .other 0, .ret none⟩ }]

/-- One operand step leads from the argument `8` to the load, which the slice has not. -/
theorem sharedChain_incomplete :
    ¬∀ (function : Function) (maxInstructions : Nat) (check : Inst),
      (function.backwardSlice maxInstructions check).out.Nodup ∧
        (function.backwardSlice maxInstructions check).out.length ≤ maxInstructions ∧
        ((function.backwardSlice maxInstructions check).out.length < maxInstructions →
          ∀ count ≤ maxSliceDepth, ∀ inst, function.inst? inst.id = some inst →
            function.ReachedIn check.op.operands count (.inst inst.id) →
              inst.id ∈ (function.backwardSlice maxInstructions check).out) := by
  intro complete
  have missing := (complete sharedChain 32 chainCheck).2.2 (by decide +kernel) 1 (by decide)
    ⟨9, .integer 64, .load (.other 0) false .notAtomic⟩ (by decide)
    ⟨.inst 8, by decide, .inst 8, rfl, by decide⟩
  revert missing
  decide +kernel

end Function

end Desan
