import Mathlib.Data.Nat.Basic

/-! # Steps that go down

A step that is taken until there is none. Where every step lowers a measure, as many
turns as the measure says, and one more, are enough. -/

namespace Desan

variable {State : Type*}

def settle (step : State → Option State) : Nat → State → State
  | 0, state => state
  | fuel + 1, state =>
      match step state with
      | none => state
      | some next => settle step fuel next

namespace Descent

variable {step : State → Option State} {valid : State → Prop} {measure : State → Nat}
  (lowers : ∀ state next, valid state → step state = some next →
    valid next ∧ measure next < measure state)
include lowers

theorem valid_settle {fuel : Nat} {state : State} (isValid : valid state) :
    valid (settle step fuel state) := by
  induction fuel generalizing state with
  | zero => exact isValid
  | succ fuel induction =>
      rw [settle]
      cases taken : step state with
      | none => exact isValid
      | some next => exact induction (lowers state next isValid taken).1

theorem step_settle {fuel : Nat} {state : State} (isValid : valid state)
    (enough : measure state < fuel) : step (settle step fuel state) = none := by
  induction fuel generalizing state with
  | zero => exact absurd enough (Nat.not_lt_zero _)
  | succ fuel induction =>
      rw [settle]
      cases taken : step state with
      | none => exact taken
      | some next =>
          rcases lowers state next isValid taken with ⟨nextValid, less⟩
          exact induction nextValid (by omega)

/-- More turns make no difference. -/
theorem settle_of_enough {fuel more : Nat} {state : State} (isValid : valid state)
    (enough : measure state < fuel) (also : measure state < more) :
    settle step more state = settle step fuel state := by
  induction fuel generalizing more state with
  | zero => exact absurd enough (Nat.not_lt_zero _)
  | succ fuel induction =>
      cases more with
      | zero => exact absurd also (Nat.not_lt_zero _)
      | succ more =>
          rw [settle, settle]
          cases taken : step state with
          | none => rfl
          | some next =>
              rcases lowers state next isValid taken with ⟨nextValid, less⟩
              exact induction nextValid (by omega) (by omega)

end Descent

end Desan
