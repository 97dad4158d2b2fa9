import Mathlib.Logic.Function.Iterate

/-! # Runs that log what they do

Systems that take one step after the other, write down what they do and may come to an
end. Two of them make the same run if states they keep coming back to agree. -/

namespace Desan

variable {σ τ ε ω : Type*}

/-- A system never takes back what it has logged, and its end is its end. -/
structure LoggedSystem (σ ε ω : Type*) where
  step : σ → σ
  log : σ → List ε
  ending : σ → Option ω
  log_step : ∀ state, log state <+: log (step state)
  step_of_ended : ∀ state, (ending state).isSome = true → step state = state

namespace LoggedSystem

section Runs

variable (system : LoggedSystem σ ε ω) (start : σ)

def run (count : Nat) : σ := system.step^[count] start

/-- The run comes to log these events first. -/
def Emits (events : List ε) : Prop := ∃ count, events <+: system.log (system.run start count)

def Ends (outcome : ω) : Prop := ∃ count, system.ending (system.run start count) = some outcome

@[simp] theorem run_zero : system.run start 0 = start := rfl

theorem run_succ (count : Nat) :
    system.run start (count + 1) = system.step (system.run start count) :=
  Function.iterate_succ_apply' system.step count start

theorem run_add (first second : Nat) :
    system.run start (first + second) = system.run (system.run start first) second := by
  rw [run, run, run, Nat.add_comm, Function.iterate_add_apply]

variable {start}

theorem log_run_of_le {first second : Nat} (order : first ≤ second) :
    system.log (system.run start first) <+: system.log (system.run start second) := by
  induction order with
  | refl => exact List.prefix_refl _
  | step _ induction =>
      rw [run_succ]
      exact induction.trans (system.log_step _)

theorem run_eq_of_ended {first second : Nat} (order : first ≤ second)
    (ended : (system.ending (system.run start first)).isSome = true) :
    system.run start second = system.run start first := by
  induction order with
  | refl => rfl
  | step _ induction => rw [run_succ, induction, system.step_of_ended _ ended]

theorem ending_run_of_le {first second : Nat} {outcome : ω} (order : first ≤ second)
    (ended : system.ending (system.run start first) = some outcome) :
    system.ending (system.run start second) = some outcome := by
  have isEnd : (system.ending (system.run start first)).isSome = true := by
    rw [ended]
    rfl
  rw [system.run_eq_of_ended order isEnd]
  exact ended

/-- Where the run has ended, its log is complete. -/
theorem emits_iff_of_ended {count : Nat} {events : List ε}
    (ended : (system.ending (system.run start count)).isSome = true) :
    system.Emits start events ↔ events <+: system.log (system.run start count) := by
  constructor
  · intro emits
    rcases emits with ⟨other, before⟩
    rcases Nat.le_total other count with earlier | later
    · exact before.trans (system.log_run_of_le earlier)
    · rw [system.run_eq_of_ended later ended] at before
      exact before
  · exact fun before => ⟨count, before⟩

theorem ends_iff_of_ended {count : Nat} {outcome : ω}
    (ended : (system.ending (system.run start count)).isSome = true) :
    system.Ends start outcome ↔ system.ending (system.run start count) = some outcome := by
  constructor
  · intro ends
    rcases ends with ⟨other, isOutcome⟩
    rcases Nat.le_total other count with earlier | later
    · exact system.ending_run_of_le earlier isOutcome
    · rw [system.run_eq_of_ended later ended] at isOutcome
      exact isOutcome
  · exact fun isOutcome => ⟨count, isOutcome⟩

end Runs

/-! ## The same run -/

/-- Both runs log the same events, and end alike or go on alike. -/
structure SameRun (left : LoggedSystem σ ε ω) (right : LoggedSystem τ ε ω) (first : σ)
    (second : τ) : Prop where
  emits : ∀ events, left.Emits first events ↔ right.Emits second events
  ends : ∀ outcome, left.Ends first outcome ↔ right.Ends second outcome

namespace SameRun

variable {υ : Type*} {left : LoggedSystem σ ε ω} {middle : LoggedSystem τ ε ω}
  {right : LoggedSystem υ ε ω} {first : σ} {second : τ} {third : υ}

theorem refl (system : LoggedSystem σ ε ω) (start : σ) : SameRun system system start start :=
  ⟨fun _ => Iff.rfl, fun _ => Iff.rfl⟩

theorem trans (before : SameRun left middle first second)
    (after : SameRun middle right second third) : SameRun left right first third :=
  ⟨fun events => (before.emits events).trans (after.emits events),
    fun outcome => (before.ends outcome).trans (after.ends outcome)⟩

end SameRun

section Meets

variable {left : LoggedSystem σ ε ω} {right : LoggedSystem τ ε ω} {related : σ → τ → Prop}

/-- Related states show the same, and both runs come to related states again. -/
structure Simulates (left : LoggedSystem σ ε ω) (right : LoggedSystem τ ε ω)
    (related : σ → τ → Prop) : Prop where
  log : ∀ first second, related first second → left.log first = right.log second
  ending : ∀ first second, related first second → left.ending first = right.ending second
  again : ∀ first second, related first second → ∃ here there,
    related (left.run first (here + 1)) (right.run second (there + 1))

variable {first : σ} {second : τ} (simulates : Simulates left right related)
  (meets : related first second)
include simulates meets

/-- However far the runs have gone, they meet later. -/
theorem Simulates.meets_later (count : Nat) : ∃ here there, count ≤ here ∧ count ≤ there ∧
    related (left.run first here) (right.run second there) := by
  induction count with
  | zero => exact ⟨0, 0, Nat.le_refl 0, Nat.le_refl 0, meets⟩
  | succ count induction =>
      rcases induction with ⟨here, there, hereLater, thereLater, isMet⟩
      rcases simulates.again _ _ isMet with ⟨more, other, next⟩
      rw [← run_add, ← run_add] at next
      exact ⟨_, _, by omega, by omega, next⟩

theorem Simulates.sameRun : SameRun left right first second where
  emits := by
    intro events
    constructor
    · intro emits
      rcases emits with ⟨count, before⟩
      rcases simulates.meets_later meets count with ⟨here, there, later, -, isMet⟩
      have whole := before.trans (left.log_run_of_le later)
      rw [simulates.log _ _ isMet] at whole
      exact ⟨there, whole⟩
    · intro emits
      rcases emits with ⟨count, before⟩
      rcases simulates.meets_later meets count with ⟨here, there, -, later, isMet⟩
      have whole := before.trans (right.log_run_of_le later)
      rw [← simulates.log _ _ isMet] at whole
      exact ⟨here, whole⟩
  ends := by
    intro outcome
    constructor
    · intro ends
      rcases ends with ⟨count, isOutcome⟩
      rcases simulates.meets_later meets count with ⟨here, there, later, -, isMet⟩
      have whole := left.ending_run_of_le later isOutcome
      rw [simulates.ending _ _ isMet] at whole
      exact ⟨there, whole⟩
    · intro ends
      rcases ends with ⟨count, isOutcome⟩
      rcases simulates.meets_later meets count with ⟨here, there, -, later, isMet⟩
      have whole := right.ending_run_of_le later isOutcome
      rw [← simulates.ending _ _ isMet] at whole
      exact ⟨here, whole⟩

end Meets

section Follows

variable {left : LoggedSystem σ ε ω} {right : LoggedSystem τ ε ω} {related : σ → τ → Prop}

/-- Related states show the same, and a step of the second run is some of the first. -/
structure Follows (left : LoggedSystem σ ε ω) (right : LoggedSystem τ ε ω)
    (related : σ → τ → Prop) : Prop where
  log : ∀ first second, related first second → left.log first = right.log second
  ending : ∀ first second, related first second → left.ending first = right.ending second
  again : ∀ first second, related first second →
    ∃ here, related (left.run first (here + 1)) (right.step second)

variable (follows : Follows left right related)
include follows

theorem Follows.simulates : Simulates left right related where
  log := follows.log
  ending := follows.ending
  again := by
    intro first second meets
    rcases follows.again first second meets with ⟨here, next⟩
    exact ⟨here, 0, next⟩

/-- Wherever the second run comes, the first one comes. -/
theorem Follows.reached {first : σ} {second : τ} (meets : related first second)
    (count : Nat) : ∃ here, related (left.run first here) (right.run second count) := by
  induction count with
  | zero => exact ⟨0, meets⟩
  | succ count induction =>
      rcases induction with ⟨here, isMet⟩
      rcases follows.again _ _ isMet with ⟨more, next⟩
      rw [← run_add, ← run_succ] at next
      exact ⟨_, next⟩

end Follows

end LoggedSystem

end Desan
