import Desan.IR.RunAgreement

/-! # Where a run reports an error

A run that reports does so at one instruction, a call in the body of a block or the
terminator. A run need not be faultless to be kept: it is enough that it is defined, and
that what a removal takes does not report. -/

namespace Desan

variable {World Datum : Type} {machine : Machine World Datum}

namespace Machine

theorem foldl_exec_of_ended {state : RunState World Datum} (ended : state.ending.isSome = true)
    (insts : List Inst) : insts.foldl machine.exec state = state := by
  induction insts with
  | nil => rfl
  | cons inst rest induction => rw [List.foldl_cons, exec_of_ended ended, induction]

/-- Some instruction has made the report. -/
theorem exists_reporter {insts : List Inst} {state : RunState World Datum}
    (running : state.ending = none)
    (reported : (insts.foldl machine.exec state).ending = some .reported) :
    ∃ front inst rest, insts = front ++ inst :: rest ∧
      (front.foldl machine.exec state).ending = none ∧
        ((front ++ [inst]).foldl machine.exec state).ending = some .reported := by
  induction insts generalizing state with
  | nil =>
      rw [List.foldl_nil, running] at reported
      cases reported
  | cons inst rest induction =>
      rw [List.foldl_cons] at reported
      cases ended : (machine.exec state inst).ending with
      | some ending =>
          rw [foldl_exec_of_ended (Option.isSome_of_eq_some ended)] at reported
          exact ⟨[], inst, rest, rfl, running, reported⟩
      | none =>
          rcases induction ended reported with ⟨front, other, back, rfl, still, isReport⟩
          exact ⟨inst :: front, other, back, rfl, still, isReport⟩

end Machine

namespace Function

variable {function : Function} {world : World} {point : RunPoint World Datum} {block : Block}

/-- The run has no undefined end. -/
def Defined (function : Function) (machine : Machine World Datum) (world : World) : Prop :=
  ¬(function.execution machine).Ends (function.start machine world) .undefined

/-- The state behind some instructions of the body. -/
def reached (machine : Machine World Datum) (block : Block) (point : RunPoint World Datum)
    (front : List Inst) : RunState World Datum :=
  front.foldl machine.exec (machine.arrive block point.done.head? point.state)

/-- An instruction of the body reports. -/
def BodyReports (machine : Machine World Datum) (block : Block) (point : RunPoint World Datum)
    (id : InstId) : Prop :=
  ∃ front inst rest, block.body = front ++ inst :: rest ∧ inst.id = id ∧
    (reached machine block point front).ending = none ∧
      (reached machine block point (front ++ [inst])).ending = some .reported

/-- The terminator reports. -/
def TerminatorReports (machine : Machine World Datum) (block : Block)
    (point : RunPoint World Datum) (id : InstId) : Prop :=
  block.terminator.id = id ∧
    (machine.execBlock block point.done.head? point.state).ending = none ∧
      (leftOf machine block point).1.ending = some .reported

/-- The run reports an error at the instruction. -/
def ReportsAt (function : Function) (machine : Machine World Datum) (world : World)
    (id : InstId) : Prop :=
  ∃ count point, (function.execution machine).run (function.start machine world) count =
    point ∧ point.state.ending = none ∧ ∃ block, function.block? point.block = some block ∧
      (BodyReports machine block point id ∨ TerminatorReports machine block point id)

/-- None of these instructions reports. -/
def Silent (function : Function) (machine : Machine World Datum) (world : World)
    (lost : InstId → Prop) : Prop :=
  ∀ id, lost id → ¬function.ReportsAt machine world id

theorem Silent.mono {first second : InstId → Prop}
    (silent : function.Silent machine world second) (subset : ∀ id, first id → second id) :
    function.Silent machine world first :=
  fun id lost => silent id (subset id lost)

theorem reached_append (front back : List Inst) :
    reached machine block point (front ++ back) =
      back.foldl machine.exec (reached machine block point front) := by
  rw [reached, List.foldl_append, ← reached]

/-- A step that finds its block leaves it. -/
theorem state_step (machine : Machine World Datum) (running : point.state.ending = none)
    (found : function.block? point.block = some block) :
    (function.step machine point).state = (leftOf machine block point).1 := by
  rcases step_cases machine running found with goesOn | ended
  · rcases goesOn with ⟨next, -, -, isStep⟩
    rw [isStep]
  · rw [ended.2.2]

section Defined

variable (defined : function.Defined machine world) {count : Nat}
  (at_ : (function.execution machine).run (function.start machine world) count = point)
  (running : point.state.ending = none)
include defined at_ running

/-- Control comes to blocks only. -/
theorem Defined.exists_block : ∃ block, function.block? point.block = some block := by
  cases found : function.block? point.block with
  | some block => exact ⟨block, rfl⟩
  | none =>
      exfalso
      apply defined
      refine ⟨count + 1, ?_⟩
      have next : (function.execution machine).run (function.start machine world)
          (count + 1) = function.step machine point := by
        rw [LoggedSystem.run_succ, at_]
        rfl
      rw [next, step, running, found]
      rfl

theorem Defined.left_ne (found : function.block? point.block = some block) :
    (leftOf machine block point).1.ending ≠ some .undefined := by
  intro undefined
  apply defined
  refine ⟨count + 1, ?_⟩
  have next : (function.execution machine).run (function.start machine world) (count + 1) =
      function.step machine point := by
    rw [LoggedSystem.run_succ, at_]
    rfl
  have same : (function.execution machine).ending (function.step machine point) =
      (function.step machine point).state.ending := rfl
  rw [next, same, state_step machine running found]
  exact undefined

end Defined

theorem Faultless.defined (faultless : function.Faultless machine world) :
    function.Defined machine world :=
  faultless.notUndefined

theorem Defined.of_runsAlike {before after : Function} (defined : before.Defined machine world)
    (alike : before.RunsAlike after machine world) : after.Defined machine world :=
  fun undefined => defined ((alike.ends _).mpr undefined)

/-- Where the body reports, so does the block. -/
theorem BodyReports.executed {id : InstId} (reports : BodyReports machine block point id) :
    (machine.execBlock block point.done.head? point.state).ending = some .reported := by
  rcases reports with ⟨front, inst, rest, split, -, -, reported⟩
  have body : block.body = (front ++ [inst]) ++ rest := by
    rw [split, List.append_assoc]
    rfl
  have executed : machine.execBlock block point.done.head? point.state =
    reached machine block point block.body := rfl
  rw [executed, body, reached_append,
    Machine.foldl_exec_of_ended (Option.isSome_of_eq_some reported)]
  exact reported

/-- The step at which the run reports. -/
theorem ReportsAt.exists_step {id : InstId} (reports : function.ReportsAt machine world id) :
    ∃ count point, (function.execution machine).run (function.start machine world) count =
        point ∧ point.state.ending = none ∧
      (function.step machine point).state.ending = some .reported ∧
        ∃ block, function.block? point.block = some block ∧
          (BodyReports machine block point id ∨ TerminatorReports machine block point id) := by
  rcases reports with ⟨count, point, at_, running, block, found, either⟩
  refine ⟨count, point, at_, running, ?_, block, found, either⟩
  rw [state_step machine running found]
  rcases either with body | terminator
  · have ended := body.executed
    rw [leftOf, Machine.leave_of_ended (Option.isSome_of_eq_some ended)]
    exact ended
  · exact terminator.2.2

/-- Where the run reports at an instruction, it ends with a report. -/
theorem ReportsAt.ends {id : InstId} (reports : function.ReportsAt machine world id) :
    (function.execution machine).Ends (function.start machine world) .reported := by
  rcases reports.exists_step with ⟨count, point, at_, -, reported, -⟩
  refine ⟨count + 1, ?_⟩
  have next : (function.execution machine).run (function.start machine world) (count + 1) =
      function.step machine point := by
    rw [LoggedSystem.run_succ, at_]
    rfl
  rw [next]
  exact reported

/-- A run that ends with a report reports at an instruction. -/
theorem exists_reportsAt
    (ends : (function.execution machine).Ends (function.start machine world) .reported) :
    ∃ id, function.ReportsAt machine world id := by
  rcases ends with ⟨count, reported⟩
  induction count with
  | zero => cases reported
  | succ count induction =>
      rw [LoggedSystem.run_succ] at reported
      generalize at_ : (function.execution machine).run (function.start machine world) count =
        point at reported induction
      have isStep : (function.step machine point).state.ending = some .reported := reported
      cases running : point.state.ending with
      | some ending =>
          rw [step_of_ended (by rw [running]; rfl)] at isStep
          exact induction isStep
      | none =>
          cases found : function.block? point.block with
          | none =>
              rw [step, running, found] at isStep
              cases isStep
          | some block =>
              rw [state_step machine running found] at isStep
              cases executed : (machine.execBlock block point.done.head?
                  point.state).ending with
              | none =>
                  exact ⟨block.terminator.id, count, point, at_, running, block, found,
                    .inr ⟨rfl, executed, isStep⟩⟩
              | some ending =>
                  rw [leftOf, Machine.leave_of_ended (Option.isSome_of_eq_some executed)]
                    at isStep
                  have arrived : (machine.arrive block point.done.head?
                      point.state).ending = none := running
                  rcases Machine.exists_reporter arrived isStep with
                    ⟨front, inst, rest, split, still, isReport⟩
                  exact ⟨inst.id, count, point, at_, running, block, found,
                    .inl ⟨front, inst, rest, split, rfl, still, isReport⟩⟩

/-- Behind the first reporting part of the body nothing runs. -/
theorem prefix_of_reported {front other : List Inst} {inst next : Inst} {rest back : List Inst}
    (split : front ++ inst :: rest = other ++ next :: back)
    (reported : (reached machine block point (front ++ [inst])).ending = some .reported)
    (still : (reached machine block point other).ending = none) :
    ∃ between, front = other ++ between := by
  rcases List.append_eq_append_iff.mp split with ⟨between, isOther, isRest⟩ |
    ⟨between, isFront, -⟩
  · cases between with
    | nil => exact ⟨[], by rw [isOther, List.append_nil, List.append_nil]⟩
    | cons head tail =>
        rcases List.cons.inj isRest with ⟨rfl, -⟩
        have whole : other = (front ++ [inst]) ++ tail := by rw [isOther]; simp
        rw [whole, reached_append,
          Machine.foldl_exec_of_ended (Option.isSome_of_eq_some reported), reported] at still
        cases still
  · exact ⟨between, isFront⟩

theorem BodyReports.unique {first second : InstId}
    (left : BodyReports machine block point first)
    (right : BodyReports machine block point second) : first = second := by
  rcases left with ⟨front, inst, rest, split, rfl, still, reported⟩
  rcases right with ⟨other, next, back, otherSplit, rfl, otherStill, otherReported⟩
  rw [split] at otherSplit
  rcases prefix_of_reported otherSplit reported otherStill with ⟨between, rfl⟩
  rcases prefix_of_reported otherSplit.symm otherReported still with ⟨more, same⟩
  have none : between ++ more = [] := by
    rw [List.append_assoc] at same
    exact List.append_right_eq_self.mp same.symm
  rw [List.append_eq_nil_iff.mp none |>.1, List.append_nil] at otherSplit
  exact congrArg Inst.id (List.cons.inj (List.append_cancel_left otherSplit)).1

/-- A run reports once. -/
theorem ReportsAt.unique {first second : InstId}
    (left : function.ReportsAt machine world first)
    (right : function.ReportsAt machine world second) : first = second := by
  rcases left.exists_step with ⟨count, point, at_, running, ended, block, found, either⟩
  rcases right.exists_step with
    ⟨other, twin, otherAt, otherRunning, otherEnded, otherBlock, otherFound, otherEither⟩
  -- A run that has reported does not go on.
  have notLater : ∀ {early late : Nat} {here there : RunPoint World Datum},
      (function.execution machine).run (function.start machine world) early = here →
        (function.execution machine).run (function.start machine world) late = there →
          (function.step machine here).state.ending = some .reported →
            there.state.ending = none → late ≤ early := by
    intro early late here there hereAt thereAt reported stillRuns
    by_contra later
    have next : (function.execution machine).run (function.start machine world) (early + 1) =
        function.step machine here := by
      rw [LoggedSystem.run_succ, hereAt]
      rfl
    have stays := (function.execution machine).ending_run_of_le (Nat.not_le.mp later)
      (show (function.execution machine).ending ((function.execution machine).run
        (function.start machine world) (early + 1)) = some .reported by rw [next]; exact reported)
    rw [thereAt] at stays
    exact absurd (stillRuns.symm.trans stays) (by simp)
  have sameCount : count = other := Nat.le_antisymm
    (notLater otherAt at_ otherEnded running) (notLater at_ otherAt ended otherRunning)
  rw [sameCount, otherAt] at at_
  subst at_
  rw [found] at otherFound
  rw [← Option.some.inj otherFound] at otherEither
  rcases either with body | terminator
  · rcases otherEither with otherBody | otherTerminator
    · exact body.unique otherBody
    · exact absurd (otherTerminator.2.1.symm.trans body.executed) (by simp)
  · rcases otherEither with otherBody | otherTerminator
    · exact absurd (terminator.2.1.symm.trans otherBody.executed) (by simp)
    · exact terminator.1.symm.trans otherTerminator.1

/-- Two runs that end alike report alike, if the second one reports where the first one
does. -/
theorem reportsAt_iff {before after : Function} (alike : before.RunsAlike after machine world)
    (reports : ∀ id, after.ReportsAt machine world id → before.ReportsAt machine world id)
    (id : InstId) :
    after.ReportsAt machine world id ↔ before.ReportsAt machine world id := by
  refine ⟨reports id, ?_⟩
  intro isReport
  rcases exists_reportsAt ((alike.ends _).mp isReport.ends) with ⟨other, otherReport⟩
  rw [isReport.unique (reports other otherReport)]
  exact otherReport

theorem Faultless.silent (faultless : function.Faultless machine world)
    (lost : InstId → Prop) : function.Silent machine world lost :=
  fun _ _ reports => faultless.notReported reports.ends

/-- On its way through the body the run does not end at a silent instruction with a
report. -/
theorem Silent.reached_ne {lost : InstId → Prop}
    (silent : function.Silent machine world lost) {count : Nat}
    (at_ : (function.execution machine).run (function.start machine world) count = point)
    (running : point.state.ending = none)
    (found : function.block? point.block = some block) {front rest : List Inst} {inst : Inst}
    (split : block.body = front ++ inst :: rest) (isLost : lost inst.id)
    (still : (reached machine block point front).ending = none) :
    (machine.exec (reached machine block point front) inst).ending ≠ some .reported := by
  intro reported
  apply silent inst.id isLost
  refine ⟨count, point, at_, running, block, found, .inl ⟨front, inst, rest, split, rfl, still,
    ?_⟩⟩
  rw [reached_append]
  exact reported

/-! ## Where the twin of a run reports -/

section Twin

variable {twin : RunPoint World Datum} {twinBlock : Block} {lost : InstId → Prop} {id : InstId}

/-- If the states behind every part of the body agree, a report of the twin is one of the
first run. -/
theorem BodyReports.of_agree {kept : Inst → Bool} {transform : Value → Value}
    (reports : BodyReports machine twinBlock twin id)
    (body : twinBlock.body = (block.body.filter kept).map (Inst.mapOperands transform))
    (agree : ∀ front rest, block.body = front ++ rest →
      RunState.Agree lost (reached machine block point front)
        (reached machine twinBlock twin
          ((front.filter kept).map (Inst.mapOperands transform)))) :
    BodyReports machine block point id := by
  rcases reports with ⟨front, inst, rest, split, rfl, still, reported⟩
  rw [body] at split
  rcases List.map_eq_append_iff.mp split with ⟨keptFront, keptRest, kepts, rfl, isRest⟩
  rcases List.map_eq_cons_iff.mp isRest with ⟨original, others, rfl, rfl, -⟩
  rcases List.filter_eq_append_iff.mp kepts with ⟨early, late, whole, rfl, isLate⟩
  rcases List.filter_eq_cons_iff.mp isLate with ⟨skipped, later, rfl, skips, isKept, -⟩
  have skipsAll : skipped.filter kept = [] := List.filter_eq_nil_iff.mpr skips
  have before := agree (early ++ skipped) (original :: later) (by rw [whole, List.append_assoc])
  have behind := agree (early ++ skipped ++ [original]) later (by rw [whole]; simp)
  have single : [original].filter kept = [original] := by
    rw [List.filter_cons_of_pos isKept, List.filter_nil]
  rw [List.filter_append, skipsAll, List.append_nil] at before
  rw [List.filter_append, List.filter_append, skipsAll, List.append_nil, single, List.map_append]
    at behind
  refine ⟨early ++ skipped, original, later, by rw [whole, List.append_assoc], rfl, ?_, ?_⟩
  · rw [before.ending]
    exact still
  · rw [behind.ending]
    exact reported

/-- So is the report of a terminator, if both runs leave the block alike. -/
theorem TerminatorReports.of_agree {after : Function}
    (reports : TerminatorReports machine twinBlock twin id)
    (sameId : twinBlock.terminator.id = block.terminator.id)
    (running : point.state.ending = none)
    (found : function.block? point.block = some block) (twinRunning : twin.state.ending = none)
    (twinFound : after.block? twin.block = some twinBlock)
    (executed : (machine.execBlock block point.done.head? point.state).ending =
      (machine.execBlock twinBlock twin.done.head? twin.state).ending)
    (left : (function.step machine point).state.ending =
      (after.step machine twin).state.ending) :
    TerminatorReports machine block point id := by
  rcases reports with ⟨isTerminator, still, reported⟩
  refine ⟨sameId ▸ isTerminator, executed.trans still, ?_⟩
  rw [state_step machine running found, state_step machine twinRunning twinFound] at left
  exact left.trans reported

end Twin

/-- The run has come to the point, and the twin's to a related one. -/
def Meets (function : Function) (machine : Machine World Datum) (world : World)
    (related : RunPoint World Datum → RunPoint World Datum → Prop)
    (point twin : RunPoint World Datum) : Prop :=
  (∃ count, (function.execution machine).run (function.start machine world) count = point) ∧
    related point twin

section Meets

variable {before after : Function}
  {related : RunPoint World Datum → RunPoint World Datum → Prop}

theorem meets_start
    (start : related (before.start machine world) (after.start machine world)) :
    before.Meets machine world related (before.start machine world)
      (after.start machine world) :=
  ⟨⟨0, rfl⟩, start⟩

theorem Meets.next {first second : RunPoint World Datum}
    (meets : before.Meets machine world related first second) {here : Nat}
    {twin : RunPoint World Datum}
    (next : related ((before.execution machine).run first here) twin) :
    before.Meets machine world related ((before.execution machine).run first here) twin := by
  rcases meets with ⟨⟨count, at_⟩, -⟩
  refine ⟨⟨count + here, ?_⟩, next⟩
  rw [LoggedSystem.run_add, at_]

/-- Where the twin reports, the first run reports. -/
theorem reportsAt_of_follows
    (follows : LoggedSystem.Follows (before.execution machine) (after.execution machine)
      (before.Meets machine world related))
    (start : related (before.start machine world) (after.start machine world))
    (blocks : ∀ point twin, before.Meets machine world related point twin →
      twin.state.ending = none → ∀ twinBlock, after.block? twin.block = some twinBlock →
        ∀ id, BodyReports machine twinBlock twin id ∨
            TerminatorReports machine twinBlock twin id →
          point.state.ending = none ∧ ∃ block, before.block? point.block = some block ∧
            (BodyReports machine block point id ∨ TerminatorReports machine block point id))
    {id : InstId} (reports : after.ReportsAt machine world id) :
    before.ReportsAt machine world id := by
  rcases reports with ⟨count, twin, at_, running, twinBlock, found, either⟩
  rcases follows.reached (meets_start start) count with ⟨here, meets⟩
  rw [at_] at meets
  rcases blocks _ twin meets running twinBlock found id either with ⟨still, block, isBlock, both⟩
  exact ⟨here, _, rfl, still, block, isBlock, both⟩

end Meets

end Function

end Desan
