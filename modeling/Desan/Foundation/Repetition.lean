import Mathlib.Data.List.Basic
import Mathlib.Data.List.Induction
import Mathlib.Data.List.Nodup

/-! # Repetitions in a list

For a predicate on the elements of a list, an element is repeated if it and the
element before it both satisfy the predicate. -/

namespace Desan

variable {β : Type*}

/-- The repeated elements; `previous` tells whether the predicate holds of what
comes before the list. -/
def repeated (holds : β → Bool) : Bool → List β → List β
  | _, [] => []
  | previous, value :: rest =>
      if holds value && previous then value :: repeated holds true rest
      else repeated holds (holds value) rest

/-- The elements that are not repeated. -/
def collapsed (holds : β → Bool) : Bool → List β → List β
  | _, [] => []
  | previous, value :: rest =>
      if holds value && previous then collapsed holds true rest
      else value :: collapsed holds (holds value) rest

/-- Whether the predicate holds of what comes right after a list. -/
def holdsOfLast (holds : β → Bool) (previous : Bool) (values : List β) : Bool :=
  (values.getLast?.map holds).getD previous

theorem holdsOfLast_cons (holds : β → Bool) (previous : Bool) (value : β)
    (values : List β) :
    holdsOfLast holds previous (value :: values) =
      holdsOfLast holds (holds value) values := by
  cases values with
  | nil => rfl
  | cons head tail =>
      have last : (value :: head :: tail).getLast? = (head :: tail).getLast? :=
        List.getLast?_cons_cons
      have nonempty := List.getLast?_eq_some_getLast (List.cons_ne_nil head tail)
      simp only [holdsOfLast, last, nonempty, Option.map_some, Option.getD_some]

theorem mem_repeated {holds : β → Bool} {previous : Bool} {values : List β} {value : β} :
    value ∈ repeated holds previous values ↔
      ∃ before after, values = before ++ value :: after ∧ holds value = true ∧
        holdsOfLast holds previous before = true := by
  induction values generalizing previous with
  | nil => simp [repeated]
  | cons head tail induction =>
      have shift : (∃ before after, tail = before ++ value :: after ∧ holds value = true ∧
            holdsOfLast holds (holds head) before = true) ↔
          ∃ before after, head :: tail = (head :: before) ++ value :: after ∧
            holds value = true ∧ holdsOfLast holds previous (head :: before) = true := by
        simp only [List.cons_append, List.cons.injEq, true_and, holdsOfLast_cons]
      have split : (∃ before after, head :: tail = before ++ value :: after ∧
            holds value = true ∧ holdsOfLast holds previous before = true) ↔
          (head = value ∧ holds head = true ∧ previous = true) ∨
          ∃ before after, head :: tail = (head :: before) ++ value :: after ∧
            holds value = true ∧ holdsOfLast holds previous (head :: before) = true := by
        constructor
        · intro found
          rcases found with ⟨before, after, equal, holdsValue, holdsBefore⟩
          cases before with
          | nil =>
              simp only [List.nil_append, List.cons.injEq] at equal
              rcases equal with ⟨rfl, -⟩
              exact .inl ⟨rfl, holdsValue, holdsBefore⟩
          | cons first before =>
              have heads : head = first := by simpa using (List.cons.inj equal).1
              subst heads
              exact .inr ⟨before, after, equal, holdsValue, holdsBefore⟩
        · intro cases
          rcases cases with here | later
          · rcases here with ⟨rfl, holdsHead, holdsBefore⟩
            exact ⟨[], tail, rfl, holdsHead, holdsBefore⟩
          · rcases later with ⟨before, after, found⟩
            exact ⟨head :: before, after, found⟩
      rw [split, ← shift, repeated]
      by_cases both : (holds head && previous) = true
      · rw [if_pos both, List.mem_cons, induction]
        have parts := Bool.and_eq_true_iff.mp both
        rw [parts.1]
        constructor
        · intro cases
          exact cases.imp (fun equal => ⟨equal.symm, rfl, parts.2⟩) id
        · intro cases
          exact cases.imp (fun here => here.1.symm) id
      · rw [if_neg both, induction]
        constructor
        · exact .inr
        · intro cases
          rcases cases with here | later
          · exact absurd (Bool.and_eq_true_iff.mpr here.2) both
          · exact later

@[simp] theorem holdsOfLast_append_singleton (holds : β → Bool) (previous : Bool)
    (values : List β) (value : β) :
    holdsOfLast holds previous (values ++ [value]) = holds value := by
  simp [holdsOfLast]

/-- Before a repeated element stands the one that starts its run: it is not repeated
itself, and the predicate holds of everything in between. -/
theorem exists_leader {holds : β → Bool} {before : List β}
    (last : holdsOfLast holds false before = true) :
    ∃ front leader middle, before = front ++ leader :: middle ∧ holds leader = true ∧
      holdsOfLast holds false front = false ∧ ∀ value ∈ middle, holds value = true := by
  induction before using List.reverseRecOn with
  | nil => cases last
  | append_singleton values value induction =>
      rw [holdsOfLast_append_singleton] at last
      cases earlier : holdsOfLast holds false values with
      | false => exact ⟨values, value, [], rfl, last, earlier, by simp⟩
      | true =>
          rcases induction earlier with ⟨front, leader, middle, split, run, start, all⟩
          refine ⟨front, leader, middle ++ [value], ?_, run, start, ?_⟩
          · rw [split, List.append_assoc]
            rfl
          · intro other member
            rcases List.mem_append.mp member with inside | equal
            · exact all other inside
            · rw [List.mem_singleton.mp equal]
              exact last

/-- In a duplicate-free list the place of an element is the only one. -/
theorem repeated_iff_of_split {holds : β → Bool} {previous : Bool} {values before after : List β}
    {value : β} (nodup : values.Nodup) (split : values = before ++ value :: after) :
    value ∈ repeated holds previous values ↔
      holds value = true ∧ holdsOfLast holds previous before = true := by
  rw [mem_repeated]
  constructor
  · intro found
    rcases found with ⟨otherBefore, otherAfter, otherSplit, holdsValue, last⟩
    have parts := List.nodup_append'.mp (split ▸ nodup)
    have notAfter : value ∉ after := (List.nodup_cons.mp parts.2.1).1
    have notBefore : value ∉ before :=
      fun member => parts.2.2 member (List.mem_cons_self ..)
    have equal := (List.append_cons_inj_of_notMem notBefore notAfter).mp
      (split.symm.trans otherSplit)
    rw [equal.1]
    exact ⟨holdsValue, last⟩
  · intro here
    exact ⟨before, after, split, here⟩

/-- What is left has no repetition. -/
theorem repeated_collapsed (holds : β → Bool) (previous : Bool) (values : List β) :
    repeated holds previous (collapsed holds previous values) = [] := by
  induction values generalizing previous with
  | nil => rfl
  | cons head tail induction =>
      rw [collapsed]
      by_cases both : (holds head && previous) = true
      · have before : previous = true := (Bool.and_eq_true_iff.mp both).2
        rw [if_pos both, before]
        exact induction true
      · rw [if_neg both, repeated, if_neg both]
        exact induction (holds head)

theorem repeated_subset (holds : β → Bool) (previous : Bool) (values : List β) :
    repeated holds previous values ⊆ values := by
  intro value member
  rcases mem_repeated.mp member with ⟨before, after, rfl, -⟩
  simp

/-- Removing the repeated elements of a duplicate-free list collapses it. -/
theorem filter_not_repeated [DecidableEq β] (holds : β → Bool) (previous : Bool)
    {values : List β} (nodup : values.Nodup) :
    (values.filter fun value => value ∉ repeated holds previous values) =
      collapsed holds previous values := by
  induction values generalizing previous with
  | nil => rfl
  | cons head tail induction =>
      have parts := List.nodup_cons.mp nodup
      have fresh : ∀ after, head ∉ repeated holds after tail :=
        fun after member => parts.1 (repeated_subset holds after tail member)
      rw [collapsed, repeated]
      by_cases both : (holds head && previous) = true
      · rw [if_pos both, if_pos both, ← induction true parts.2]
        rw [List.filter_cons_of_neg (by simp)]
        apply List.filter_congr
        intro value member
        have different : value ≠ head := fun equal => parts.1 (equal ▸ member)
        simp [different]
      · rw [if_neg both, if_neg both, ← induction (holds head) parts.2]
        rw [List.filter_cons_of_pos (by simpa using fresh (holds head))]

/-- The last element with a property, if there is one. -/
theorem exists_last {property : β → Prop} {values : List β}
    (some : ∃ value ∈ values, property value) :
    ∃ front value tail, values = front ++ value :: tail ∧ property value ∧
      ∀ other ∈ tail, ¬property other := by
  induction values with
  | nil => simp at some
  | cons head tail induction =>
      by_cases later : ∃ value ∈ tail, property value
      · rcases induction later with ⟨front, value, rest, split, holds, none⟩
        exact ⟨head :: front, value, rest, by rw [split]; rfl, holds, none⟩
      · refine ⟨[], head, tail, rfl, ?_, fun other member holds => later ⟨other, member, holds⟩⟩
        rcases some with ⟨value, member, holds⟩
        rcases List.mem_cons.mp member with equal | inside
        · rwa [equal] at holds
        · exact absurd ⟨value, inside, holds⟩ later

/-! ## Repetitions among the values of one key -/

section Keyed

variable {κ : Type*} [DecidableEq κ]

/-- The values with a given key. -/
def withKey (key : β → κ) (target : κ) (values : List β) : List β :=
  values.filter fun value => key value = target

/-- The closest value with a given key before a position. -/
def closest (key : β → κ) (target : κ) (before : List β) : Option β :=
  (withKey key target before).getLast?

theorem holdsOfLast_eq_true {holds : β → Bool} {values : List β} :
    holdsOfLast holds false values = true ↔
      ∃ last, values.getLast? = some last ∧ holds last = true := by
  rw [holdsOfLast]
  cases values.getLast? with
  | none => simp
  | some last => simp

/-- A value repeats the values of its key if the predicate holds of it and of the
closest earlier one. -/
theorem mem_repeated_withKey {holds : β → Bool} {key : β → κ} {target : κ}
    {values : List β} {value : β} :
    value ∈ repeated holds false (withKey key target values) ↔
      ∃ before after, values = before ++ value :: after ∧ key value = target ∧
        holds value = true ∧
        ∃ previous, closest key target before = some previous ∧ holds previous = true := by
  rw [mem_repeated]
  constructor
  · intro found
    rcases found with ⟨keyBefore, keyAfter, equal, holdsValue, holdsBefore⟩
    rcases List.filter_eq_append_iff.mp equal with ⟨before, rest, split, left, right⟩
    rcases List.filter_eq_cons_iff.mp right with ⟨skipped, after, restEqual, none, keyed, -⟩
    have skippedNone : withKey key target skipped = [] := by
      apply List.filter_eq_nil_iff.mpr
      exact none
    refine ⟨before ++ skipped, after, ?_, by simpa using keyed, holdsValue, ?_⟩
    · rw [split, restEqual, List.append_assoc]
    · have whole : withKey key target (before ++ skipped) = keyBefore := by
        rw [← left, withKey, List.filter_append, ← withKey, ← withKey, skippedNone,
          List.append_nil]
      rw [closest, whole]
      exact holdsOfLast_eq_true.mp holdsBefore
  · intro found
    rcases found with ⟨before, after, rfl, keyed, holdsValue, last⟩
    refine ⟨withKey key target before, withKey key target after, ?_, holdsValue,
      holdsOfLast_eq_true.mpr last⟩
    rw [withKey, List.filter_append, List.filter_cons_of_pos (by simpa using keyed)]
    rfl

theorem withKey_append (key : β → κ) (target : κ) (left right : List β) :
    withKey key target (left ++ right) = withKey key target left ++ withKey key target right :=
  List.filter_append ..

theorem closest_append (key : β → κ) (target : κ) (left right : List β) :
    closest key target (left ++ right) =
      (closest key target right).or (closest key target left) := by
  rw [closest, withKey_append, List.getLast?_append]
  rfl

theorem closest_eq_none {key : β → κ} {target : κ} {values : List β} :
    closest key target values = none ↔ withKey key target values = [] :=
  List.getLast?_eq_none_iff

theorem closest_map {γ : Type*} (key : β → κ) (change : γ → β) (target : κ)
    (values : List γ) :
    closest key target (values.map change) =
      (closest (key ∘ change) target values).map change := by
  rw [closest, withKey, List.filter_map, List.getLast?_map]
  rfl

/-- Where the closest value with a key is kept, it stays the closest. -/
theorem closest_filter {key : β → κ} {target : κ}
    {kept : β → Bool} {before : List β}
    (keeps : ∀ last, closest key target before = some last → kept last = true) :
    closest key target (before.filter kept) = closest key target before := by
  have commutes : withKey key target (before.filter kept) =
      (withKey key target before).filter kept := by
    rw [withKey, withKey, List.filter_comm]
  simp only [closest] at keeps ⊢
  rw [commutes]
  rcases List.eq_nil_or_concat (withKey key target before) with none | ⟨front, last, split⟩
  · rw [none, List.filter_nil]
  · rw [List.concat_eq_append] at split
    have isKept := keeps last (by rw [split, List.getLast?_concat])
    rw [split, List.filter_append, List.filter_cons_of_pos isKept, List.filter_nil,
      List.getLast?_concat, List.getLast?_concat]

end Keyed

end Desan
