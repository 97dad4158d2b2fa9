import Mathlib.Data.List.Infix

/-! # Runs under a budget

A run that logs what it spends and stops when its budget is spent is the run without a
budget up to then, so it logs a first part of what that run logs. -/

namespace Desan

variable {σ ι ε : Type*}

/-- A loop that asks before each turn if it has to stop. -/
def untilSpent (spent : σ → Bool) (step : σ → ι → σ) : σ → List ι → σ
  | state, [] => state
  | state, item :: rest =>
      if spent state then state else untilSpent spent step (step state item) rest

theorem untilSpent_of_spent {spent : σ → Bool} {step : σ → ι → σ} {state : σ} {items : List ι}
    (isSpent : spent state = true) : untilSpent spent step state items = state := by
  cases items with
  | nil => rfl
  | cons item rest => rw [untilSpent, if_pos isSpent]

theorem untilSpent_of_never {spent : σ → Bool} (never : ∀ state, spent state = false)
    (step : σ → ι → σ) (state : σ) (items : List ι) :
    untilSpent spent step state items = items.foldl step state := by
  induction items generalizing state with
  | nil => rfl
  | cons item rest induction =>
      rw [untilSpent, never, if_neg Bool.false_ne_true, induction, List.foldl_cons]

/-- A view of the state that decides when to stop and that each turn acts on. -/
theorem view_untilSpent {τ : Type*} (view : σ → τ) {spent : σ → Bool} {viewSpent : τ → Bool}
    {step : σ → ι → σ} {viewStep : τ → ι → τ}
    (sameSpent : ∀ state, spent state = viewSpent (view state))
    (sameStep : ∀ state item, view (step state item) = viewStep (view state) item)
    (state : σ) (items : List ι) :
    view (untilSpent spent step state items) =
      untilSpent viewSpent viewStep (view state) items := by
  induction items generalizing state with
  | nil => rfl
  | cons item rest induction =>
      rw [untilSpent, untilSpent, sameSpent]
      split
      · rfl
      · rw [induction, sameStep]

/-- What every turn keeps, the loop keeps. -/
theorem untilSpent_induction {property : σ → Prop} {spent : σ → Bool} {step : σ → ι → σ}
    {items : List ι} {state : σ} (start : property state)
    (keeps : ∀ state, ∀ item ∈ items, spent state = false → property state →
      property (step state item)) :
    property (untilSpent spent step state items) := by
  induction items generalizing state with
  | nil => exact start
  | cons item rest induction =>
      rw [untilSpent]
      cases stops : spent state with
      | true =>
          rw [if_pos rfl]
          exact start
      | false =>
          rw [if_neg Bool.false_ne_true]
          exact induction (keeps state item (List.mem_cons_self ..) stops start)
            fun state item member => keeps state item (List.mem_cons_of_mem _ member)

section Cut

variable (log : σ → List ε) (budget : Nat)

/-- A state of a run under the budget, next to the state of the run without one. -/
inductive Cut : σ → σ → Prop where
  | within {state : σ} (room : (log state).length < budget) : Cut state state
  | spent {limited free : σ} (spent : budget ≤ (log free).length)
      (cut : log limited = (log free).take budget) : Cut limited free

variable {log budget}

theorem Cut.log_eq {limited free : σ} (cut : Cut log budget limited free) :
    log limited = (log free).take budget := by
  cases cut with
  | within room => exact (List.take_of_length_le room.le).symm
  | spent _ cut => exact cut

theorem Cut.self {state : σ} (fits : (log state).length ≤ budget) :
    Cut log budget state state := by
  rcases Nat.lt_or_eq_of_le fits with room | full
  · exact .within room
  · exact .spent full.ge (List.take_of_length_le fits).symm

theorem take_of_isPrefix {first second : List ε} (isPrefix' : first <+: second)
    (long : budget ≤ first.length) : second.take budget = first.take budget := by
  rcases isPrefix' with ⟨rest, rfl⟩
  exact List.take_append_of_le_length long

/-- Once the budget is spent, the run without it may go on. -/
theorem Cut.go_on {limited free later : σ} (spent : budget ≤ (log free).length)
    (cut : log limited = (log free).take budget) (grows : log free <+: log later) :
    Cut log budget limited later :=
  .spent (spent.trans grows.length_le) (cut.trans (take_of_isPrefix grows spent).symm)

/-- A step that spends nothing when the budget is spent. -/
theorem Cut.step {first second : σ → σ} {limited free : σ} (cut : Cut log budget limited free)
    (same : ∀ state, (log state).length < budget →
      Cut log budget (first state) (second state))
    (stays : ∀ state, budget ≤ (log state).length → log (first state) = log state)
    (grows : ∀ state, log state <+: log (second state)) :
    Cut log budget (first limited) (second free) := by
  cases cut with
  | within room => exact same _ room
  | spent spent cut =>
      have full : budget ≤ (log limited).length := by
        rw [cut, List.length_take, Nat.min_eq_left spent]
      exact .go_on spent ((stays limited full).trans cut) (grows free)

theorem isPrefix_foldl {step : σ → ι → σ}
    (grows : ∀ state item, log state <+: log (step state item)) (items : List ι) (state : σ) :
    log state <+: log (items.foldl step state) := by
  induction items generalizing state with
  | nil => exact List.prefix_refl _
  | cons item rest induction => exact (grows state item).trans (induction _)

/-- A loop of such steps, and the loop that never stops. -/
theorem Cut.untilSpent {spent : σ → Bool} {step free : σ → ι → σ}
    (isSpent : ∀ state, spent state = true ↔ budget ≤ (log state).length)
    (same : ∀ state item, (log state).length < budget →
      Cut log budget (step state item) (free state item))
    (grows : ∀ state item, log state <+: log (free state item)) (items : List ι)
    {state twin : σ} (cut : Cut log budget state twin) :
    Cut log budget (Desan.untilSpent spent step state items) (items.foldl free twin) := by
  induction items generalizing state twin with
  | nil => exact cut
  | cons item rest induction =>
      rw [Desan.untilSpent, List.foldl_cons]
      cases cut with
      | within room =>
          rw [if_neg fun stops => absurd ((isSpent _).mp stops) (Nat.not_le.mpr room)]
          exact induction (same _ item room)
      | spent isFull cut =>
          have full : spent state = true := by
            rw [isSpent, cut, List.length_take, Nat.min_eq_left isFull]
          rw [if_pos full]
          exact .go_on isFull cut
            ((grows twin item).trans (isPrefix_foldl grows rest _))

end Cut

end Desan
