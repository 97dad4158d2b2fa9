import Mathlib.Algebra.GroupWithZero.Nat
import Desan.SanitizerCheckCollector

/-! # What the collector knows of the recorded checks

The counters of the collector are counts of the list of recorded checks. -/

namespace Desan

namespace CheckCountMap

/-- What the map says of a type; 0 for a type it does not have. -/
def valueAt (map : CheckCountMap) (checkType : String) : Nat :=
  ((map.find? fun entry => entry.1 = checkType).map Prod.snd).getD 0

theorem valueAt_increment (map : CheckCountMap) (recorded checkType : String) :
    (map.increment recorded).valueAt checkType =
      map.valueAt checkType + if recorded = checkType then 1 else 0 := by
  induction map with
  | nil =>
      rw [increment, valueAt, valueAt, List.find?_cons]
      by_cases same : recorded = checkType <;> simp [same]
  | cons head tail induction =>
      rcases head with ⟨name, count⟩
      rw [increment]
      by_cases atHead : name = recorded
      · rw [if_pos atHead, valueAt, valueAt, List.find?_cons, List.find?_cons, atHead]
        by_cases same : recorded = checkType
        · simp [same]
        · simp [same]
      · rw [if_neg atHead]
        rw [valueAt] at induction ⊢
        rw [valueAt] at induction ⊢
        rw [List.find?_cons, List.find?_cons]
        by_cases here : name = checkType
        · have different : recorded ≠ checkType := fun equal => atHead (here.trans equal.symm)
          simp [here, different]
        · simpa [here] using induction

theorem keys_increment (map : CheckCountMap) (recorded : String) :
    (map.increment recorded).map Prod.fst =
      if recorded ∈ map.map Prod.fst then map.map Prod.fst
      else map.map Prod.fst ++ [recorded] := by
  induction map with
  | nil => rfl
  | cons head tail induction =>
      rcases head with ⟨name, count⟩
      rw [increment]
      by_cases atHead : name = recorded
      · simp [atHead]
      · have different : recorded ≠ name := fun equal => atHead equal.symm
        simp only [if_neg atHead, List.map_cons, induction, List.mem_cons, different, false_or]
        split
        · rfl
        · rfl

theorem sum_increment (map : CheckCountMap) (recorded : String) :
    ((map.increment recorded).map Prod.snd).sum = (map.map Prod.snd).sum + 1 := by
  induction map with
  | nil => rfl
  | cons head tail induction =>
      rcases head with ⟨name, count⟩
      rw [increment]
      split
      · simp only [List.map_cons, List.sum_cons]
        omega
      · simp only [List.map_cons, List.sum_cons, induction]
        omega

theorem pos_increment {map : CheckCountMap} (positive : ∀ entry ∈ map, 0 < entry.2)
    (recorded : String) : ∀ entry ∈ map.increment recorded, 0 < entry.2 := by
  induction map with
  | nil =>
      intro entry member
      rw [List.mem_singleton.mp member]
      exact Nat.one_pos
  | cons head tail induction =>
      rcases head with ⟨name, count⟩
      rcases List.forall_mem_cons.mp positive with ⟨first, rest⟩
      rw [increment]
      split
      · exact List.forall_mem_cons.mpr ⟨Nat.succ_pos count, rest⟩
      · exact List.forall_mem_cons.mpr ⟨first, induction rest⟩

theorem valueAt_of_mem {map : CheckCountMap} (nodup : (map.map Prod.fst).Nodup)
    {entry : String × Nat} (member : entry ∈ map) : map.valueAt entry.1 = entry.2 := by
  induction map with
  | nil => cases member
  | cons head tail induction =>
      rcases List.nodup_cons.mp nodup with ⟨fresh, rest⟩
      rw [valueAt, List.find?_cons]
      rcases List.mem_cons.mp member with rfl | later
      · simp
      · have different : head.1 ≠ entry.1 := by
          intro equal
          exact fresh (equal ▸ List.mem_map_of_mem later)
        simpa [different, valueAt] using induction rest later

end CheckCountMap

namespace SanitizerCheckCollector

/-- A check that `recordCheck` counts. -/
def isRecorded (check : ClassifiedCheck) : Bool :=
  check.sanitizer ≠ .Unknown && !check.checkType.isEmpty

def ofSanitizer (checks : List ClassifiedCheck) (sanitizer : SanitizerKind) :
    List ClassifiedCheck :=
  checks.filter fun check => check.sanitizer = sanitizer

/-- The counters say how often each check was recorded. -/
structure Counts (collector : SanitizerCheckCollector) (checks : List ClassifiedCheck) :
    Prop where
  keys : ∀ sanitizer, ((collector.checkCounts sanitizer).map Prod.fst).Nodup
  positive : ∀ sanitizer, ∀ entry ∈ collector.checkCounts sanitizer, 0 < entry.2
  counts : ∀ sanitizer checkType, (collector.checkCounts sanitizer).valueAt checkType =
    checks.count ⟨sanitizer, checkType⟩
  sums : ∀ sanitizer, ((collector.checkCounts sanitizer).map Prod.snd).sum =
    collector.sanitizerTotals sanitizer
  totals : ∀ sanitizer,
    collector.sanitizerTotals sanitizer = (ofSanitizer checks sanitizer).length
  total : collector.totalChecks = checks.length

theorem counts_fresh {collector : SanitizerCheckCollector}
    (counts : collector.checkCounts = fun _ => []) (totals : collector.sanitizerTotals = fun _ => 0)
    (total : collector.totalChecks = 0) : collector.Counts [] where
  keys := by
    intro sanitizer
    rw [counts]
    exact List.nodup_nil
  positive := by
    intro sanitizer entry member
    rw [counts] at member
    cases member
  counts := by
    intro sanitizer checkType
    rw [counts]
    rfl
  sums := by
    intro sanitizer
    rw [counts, totals]
    rfl
  totals := by
    intro sanitizer
    rw [totals]
    rfl
  total := total

section Record

variable {collector : SanitizerCheckCollector} {check : ClassifiedCheck}

theorem isRecorded_iff : isRecorded check = true ↔
    ¬(check.sanitizer = .Unknown ∨ check.checkType.isEmpty = true) := by
  rw [isRecorded, Bool.and_eq_true, decide_eq_true_eq, Bool.not_eq_true', not_or,
    Bool.not_eq_true]

theorem recordCheck_of_not (skipped : ¬isRecorded check = true) :
    collector.recordCheck check = collector := by
  rw [isRecorded_iff, not_not] at skipped
  rw [recordCheck, if_pos skipped]

variable (recorded : isRecorded check = true)
include recorded

theorem checkCounts_recordCheck (sanitizer : SanitizerKind) :
    (collector.recordCheck check).checkCounts sanitizer =
      if sanitizer = check.sanitizer then
        (collector.checkCounts sanitizer).increment check.checkType
      else collector.checkCounts sanitizer := by
  rw [recordCheck, if_neg (isRecorded_iff.mp recorded)]
  split
  · rename_i same
    rw [same]
    exact Function.update_self ..
  · rename_i different
    exact Function.update_of_ne different ..

theorem sanitizerTotals_recordCheck (sanitizer : SanitizerKind) :
    (collector.recordCheck check).sanitizerTotals sanitizer =
      collector.sanitizerTotals sanitizer + if sanitizer = check.sanitizer then 1 else 0 := by
  rw [recordCheck, if_neg (isRecorded_iff.mp recorded)]
  split
  · rename_i same
    rw [same]
    exact Function.update_self ..
  · rename_i different
    exact Function.update_of_ne different ..

theorem totalChecks_recordCheck :
    (collector.recordCheck check).totalChecks = collector.totalChecks + 1 := by
  rw [recordCheck, if_neg (isRecorded_iff.mp recorded)]

/-- One record is one more in its counters, and nothing else. -/
theorem Counts.recordCheck {checks : List ClassifiedCheck} (holds : collector.Counts checks) :
    (collector.recordCheck check).Counts (checks ++ [check]) where
  keys := by
    intro sanitizer
    rw [checkCounts_recordCheck recorded]
    split
    · rw [CheckCountMap.keys_increment]
      split
      · exact holds.keys sanitizer
      · rename_i fresh
        exact (holds.keys sanitizer).append (List.nodup_singleton _)
          (List.disjoint_singleton.mpr fresh)
    · exact holds.keys sanitizer
  positive := by
    intro sanitizer
    rw [checkCounts_recordCheck recorded]
    split
    · exact CheckCountMap.pos_increment (holds.positive sanitizer) _
    · exact holds.positive sanitizer
  counts := by
    intro sanitizer checkType
    have single : [check].count ⟨sanitizer, checkType⟩ =
        if sanitizer = check.sanitizer ∧ check.checkType = checkType then 1 else 0 := by
      rcases check with ⟨kind, type⟩
      rw [List.count_singleton]
      by_cases same : sanitizer = kind
      · simp [same]
      · simp [same, Ne.symm same]
    rw [checkCounts_recordCheck recorded, List.count_append, single, ← holds.counts]
    by_cases same : sanitizer = check.sanitizer
    · rw [if_pos same, CheckCountMap.valueAt_increment]
      simp only [same, true_and]
    · rw [if_neg same, if_neg fun both => same both.1, Nat.add_zero]
  sums := by
    intro sanitizer
    rw [checkCounts_recordCheck recorded, sanitizerTotals_recordCheck recorded]
    split
    · rw [CheckCountMap.sum_increment, holds.sums]
    · exact holds.sums sanitizer
  totals := by
    intro sanitizer
    rw [sanitizerTotals_recordCheck recorded, ofSanitizer, List.filter_append,
      List.length_append, ← ofSanitizer, ← holds.totals, List.filter_singleton]
    by_cases same : sanitizer = check.sanitizer
    · simp [same]
    · simp [same, Ne.symm same]
  total := by
    rw [totalChecks_recordCheck recorded, holds.total, List.length_append]
    rfl

end Record

/-- After recording a list of checks the counters are counts of this list. -/
theorem counts_record {collector : SanitizerCheckCollector} {before : List ClassifiedCheck}
    (holds : collector.Counts before) (checks : List ClassifiedCheck) :
    (checks.foldl recordCheck collector).Counts (before ++ checks.filter isRecorded) := by
  induction checks generalizing collector before with
  | nil =>
      rw [List.filter_nil, List.append_nil]
      exact holds
  | cons head tail induction =>
      rw [List.foldl_cons]
      by_cases recorded : isRecorded head = true
      · have step := induction (Counts.recordCheck recorded holds)
        rw [List.filter_cons_of_pos recorded]
        rw [List.append_assoc] at step
        exact step
      · rw [recordCheck_of_not recorded, List.filter_cons_of_neg recorded]
        exact induction holds

/-- The entries of a sanitizer's counters are its recorded types with their counts. -/
theorem Counts.mem_checkCounts {collector : SanitizerCheckCollector}
    {checks : List ClassifiedCheck} (holds : collector.Counts checks) {sanitizer : SanitizerKind}
    {entry : String × Nat} (member : entry ∈ collector.checkCounts sanitizer) :
    entry.2 = checks.count ⟨sanitizer, entry.1⟩ := by
  rw [← holds.counts, CheckCountMap.valueAt_of_mem (holds.keys sanitizer) member]

theorem Counts.mem_keys {collector : SanitizerCheckCollector} {checks : List ClassifiedCheck}
    (holds : collector.Counts checks) (sanitizer : SanitizerKind) (checkType : String) :
    checkType ∈ (collector.checkCounts sanitizer).map Prod.fst ↔
      ⟨sanitizer, checkType⟩ ∈ checks := by
  rw [← List.count_pos_iff (a := (⟨sanitizer, checkType⟩ : ClassifiedCheck)), ← holds.counts]
  constructor
  · intro key
    rcases List.mem_map.mp key with ⟨entry, member, rfl⟩
    rw [CheckCountMap.valueAt_of_mem (holds.keys sanitizer) member]
    exact holds.positive sanitizer entry member
  · intro positive
    rw [CheckCountMap.valueAt] at positive
    cases found : (collector.checkCounts sanitizer).find? fun entry => entry.1 = checkType with
    | none =>
        rw [found] at positive
        exact absurd positive (Nat.lt_irrefl 0)
    | some entry =>
        have same : entry.1 = checkType := by simpa using List.find?_some found
        exact same ▸ List.mem_map_of_mem (List.mem_of_find?_eq_some found)

end SanitizerCheckCollector

end Desan
