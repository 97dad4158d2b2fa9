import Desan.SanitizerCheckCollector.Recorded
import Desan.Foundation.Ranking
import Mathlib.Data.Char
import Mathlib.Data.List.Lex
import Mathlib.Data.Prod.Lex
import Mathlib.Algebra.Order.Field.Basic

/-! # Core checks are the most frequent ones

Of every sanitizer the first of its ranking by frequency is selected, and the selections
are merged by frequency. -/

namespace Desan

namespace SanitizerCheckCollector

/-- The share of a type among the checks of its sanitizer, in percent. -/
def share (checks : List ClassifiedCheck) (sanitizer : SanitizerKind) (checkType : String) : ℚ :=
  100 * checks.count ⟨sanitizer, checkType⟩ / (ofSanitizer checks sanitizer).length

/-- The first type was recorded more often, or as often and its name is smaller. -/
def MoreFrequent (checks : List ClassifiedCheck) (sanitizer : SanitizerKind)
    (first second : String) : Prop :=
  checks.count ⟨sanitizer, second⟩ < checks.count ⟨sanitizer, first⟩ ∨
    checks.count ⟨sanitizer, first⟩ = checks.count ⟨sanitizer, second⟩ ∧
      nameLess first second = true

/-- Order by count, largest first, then by sanitizer name, then by type name. -/
def CoreBefore (first second : CheckStat) : Prop :=
  second.count < first.count ∨
    first.count = second.count ∧
      (nameLess (sanitizerKindName first.sanitizer) (sanitizerKindName second.sanitizer) = true ∨
        first.sanitizer = second.sanitizer ∧
          nameLess first.checkType second.checkType = true)

/-! ## The comparators -/

theorem nameLess_iff (left right : String) :
    nameLess left right = true ↔ left.toList < right.toList := by
  rw [nameLess, decide_eq_true_eq]

def statRank (stat : CheckStat) : ℕᵒᵈ ×ₗ List Char :=
  toLex (OrderDual.toDual stat.count, stat.checkType.toList)

def coreRank (stat : CheckStat) : ℕᵒᵈ ×ₗ List Char ×ₗ List Char :=
  toLex (OrderDual.toDual stat.count,
    toLex ((sanitizerKindName stat.sanitizer).toList, stat.checkType.toList))

theorem rankedBy_statLess : RankedBy statLess statRank where
  less_iff := by
    intro left right
    simp only [statLess, statRank, Prod.Lex.toLex_lt_toLex, OrderDual.toDual_lt_toDual,
      EmbeddingLike.apply_eq_iff_eq]
    by_cases same : left.count = right.count
    · simp [same, nameLess_iff]
    · simp [same]

theorem sanitizerKindName_injective : Function.Injective sanitizerKindName := by
  intro left right equal
  cases left <;> cases right <;> first | rfl | exact absurd equal (by decide)

theorem rankedBy_coreLess : RankedBy coreLess coreRank where
  less_iff := by
    intro left right
    simp only [coreLess, coreRank, Prod.Lex.toLex_lt_toLex, OrderDual.toDual_lt_toDual,
      EmbeddingLike.apply_eq_iff_eq, String.toList_inj]
    by_cases same : left.count = right.count
    · by_cases kind : left.sanitizer = right.sanitizer
      · simp [same, kind, nameLess_iff]
      · have names : sanitizerKindName left.sanitizer ≠ sanitizerKindName right.sanitizer :=
          fun equal => kind (sanitizerKindName_injective equal)
        simp [same, kind, names, nameLess_iff]
    · simp [same]

theorem coreBefore_iff (first second : CheckStat) :
    CoreBefore first second ↔ coreRank first < coreRank second := by
  rw [← rankedBy_coreLess.less_iff, CoreBefore, coreLess]
  by_cases same : first.count = second.count
  · by_cases kind : first.sanitizer = second.sanitizer
    · simp [same, kind, nameLess_iff]
    · simp [same, kind]
  · simp [same]

/-! ## The ranking of one sanitizer -/

section Ranking

variable {collector : SanitizerCheckCollector} {checks : List ClassifiedCheck}
  {sanitizer : SanitizerKind} {stat : CheckStat}

theorem mem_getStatsForSanitizer :
    stat ∈ collector.getStatsForSanitizer sanitizer ↔
      ∃ entry ∈ collector.checkCounts sanitizer, collector.makeStat sanitizer entry = stat := by
  rw [getStatsForSanitizer, List.mem_insertionSort, List.mem_map]

theorem sanitizer_of_mem (member : stat ∈ collector.getStatsForSanitizer sanitizer) :
    stat.sanitizer = sanitizer := by
  rcases mem_getStatsForSanitizer.mp member with ⟨entry, -, rfl⟩
  rfl

theorem nodup_types (counts : collector.Counts checks) :
    ((collector.getStatsForSanitizer sanitizer).map CheckStat.checkType).Nodup := by
  have types : ((collector.checkCounts sanitizer).map (collector.makeStat sanitizer)).map
      CheckStat.checkType = (collector.checkCounts sanitizer).map Prod.fst := by
    rw [List.map_map]
    rfl
  have permuted := (List.perm_insertionSort (fun left right => statLess right left = false)
    ((collector.checkCounts sanitizer).map (collector.makeStat sanitizer))).map CheckStat.checkType
  rw [types] at permuted
  exact permuted.nodup_iff.mpr (counts.keys sanitizer)

theorem mem_types (counts : collector.Counts checks) (checkType : String) :
    checkType ∈ (collector.getStatsForSanitizer sanitizer).map CheckStat.checkType ↔
      ⟨sanitizer, checkType⟩ ∈ checks := by
  rw [← counts.mem_keys, List.mem_map, List.mem_map]
  constructor
  · intro known
    rcases known with ⟨stat, member, rfl⟩
    rcases mem_getStatsForSanitizer.mp member with ⟨entry, inside, rfl⟩
    exact ⟨entry, inside, rfl⟩
  · intro key
    rcases key with ⟨entry, inside, rfl⟩
    exact ⟨_, mem_getStatsForSanitizer.mpr ⟨entry, inside, rfl⟩, rfl⟩

theorem count_of_mem (counts : collector.Counts checks)
    (member : stat ∈ collector.getStatsForSanitizer sanitizer) :
    stat.count = checks.count ⟨sanitizer, stat.checkType⟩ := by
  rcases mem_getStatsForSanitizer.mp member with ⟨entry, inside, rfl⟩
  exact counts.mem_checkCounts inside

theorem ratio_of_mem (counts : collector.Counts checks)
    (member : stat ∈ collector.getStatsForSanitizer sanitizer) :
    stat.ratioWithinSanitizer = share checks sanitizer stat.checkType := by
  rcases mem_getStatsForSanitizer.mp member with ⟨entry, inside, rfl⟩
  have count := counts.mem_checkCounts inside
  simp only [makeStat, share, ← count, counts.totals]
  split
  · rename_i none
    rw [none, Nat.cast_zero, div_zero]
  · rfl

theorem eq_of_checkType (counts : collector.Counts checks) {first second : CheckStat}
    (firstMember : first ∈ collector.getStatsForSanitizer sanitizer)
    (secondMember : second ∈ collector.getStatsForSanitizer sanitizer)
    (same : first.checkType = second.checkType) : first = second := by
  have nodup : ((collector.getStatsForSanitizer sanitizer).map CheckStat.checkType).Nodup :=
    nodup_types counts
  exact List.inj_on_of_nodup_map nodup firstMember secondMember same

/-- The stats of a sanitizer stand in strict order. -/
theorem pairwise_moreFrequent (counts : collector.Counts checks) :
    (collector.getStatsForSanitizer sanitizer).Pairwise fun first second =>
      MoreFrequent checks sanitizer first.checkType second.checkType := by
  have sorted : (collector.getStatsForSanitizer sanitizer).Pairwise
      fun first second => statRank first ≤ statRank second :=
    rankedBy_statLess.pairwise_insertionSort _
  have nodup : ((collector.getStatsForSanitizer sanitizer).map CheckStat.checkType).Nodup :=
    nodup_types counts
  have both := sorted.and (List.pairwise_map.mp nodup)
  refine both.imp_of_mem ?_
  intro first second firstMember secondMember parts
  have strict : statRank first < statRank second := by
    apply lt_of_le_of_ne parts.1
    intro tie
    simp only [statRank, EmbeddingLike.apply_eq_iff_eq, Prod.mk.injEq, String.toList_inj] at tie
    exact parts.2 tie.2
  rw [← rankedBy_statLess.less_iff, statLess, count_of_mem counts firstMember,
    count_of_mem counts secondMember] at strict
  split at strict
  · exact .inl (of_decide_eq_true strict)
  · rename_i equal
    exact .inr ⟨not_not.mp equal, strict⟩

theorem share_le_of_moreFrequent {first second : String}
    (before : MoreFrequent checks sanitizer first second) :
    share checks sanitizer second ≤ share checks sanitizer first := by
  have counts : checks.count ⟨sanitizer, second⟩ ≤ checks.count ⟨sanitizer, first⟩ := by
    rcases before with more | same
    · exact Nat.le_of_lt more
    · exact Nat.le_of_eq same.1.symm
  rw [share, share]
  apply div_le_div_of_nonneg_right _ (Nat.cast_nonneg _)
  exact mul_le_mul_of_nonneg_left (Nat.cast_le.mpr counts) (by norm_num)

/-- What the loop selects of a sanitizer. -/
def selected (collector : SanitizerCheckCollector) (maxPerSanitizer : Nat) (minRatio : ℚ)
    (sanitizer : SanitizerKind) : List CheckStat :=
  (collector.getStatsForSanitizer sanitizer).foldl (selectStat maxPerSanitizer minRatio) []

theorem selected_eq (counts : collector.Counts checks) (maxPerSanitizer : Nat) (minRatio : ℚ) :
    collector.selected maxPerSanitizer minRatio sanitizer =
      (collector.getStatsForSanitizer sanitizer).take (selectCount maxPerSanitizer
        (((collector.getStatsForSanitizer sanitizer).map CheckStat.checkType).countP
          fun checkType => minRatio ≤ share checks sanitizer checkType)) := by
  have step : selectStat maxPerSanitizer minRatio = selectStep maxPerSanitizer
      fun stat => decide (minRatio ≤ stat.ratioWithinSanitizer) := by
    funext selected stat
    simp only [selectStat, selectStep, decide_eq_false_iff_not, not_le]
  have ranked : (collector.getStatsForSanitizer sanitizer).Pairwise fun first second =>
      decide (minRatio ≤ second.ratioWithinSanitizer) = true →
        decide (minRatio ≤ first.ratioWithinSanitizer) = true := by
    refine (pairwise_moreFrequent counts).imp_of_mem ?_
    intro first second firstMember secondMember before
    rw [decide_eq_true_eq, decide_eq_true_eq, ratio_of_mem counts firstMember,
      ratio_of_mem counts secondMember]
    exact fun enough => enough.trans (share_le_of_moreFrequent before)
  have good : (collector.getStatsForSanitizer sanitizer).countP
      (fun stat => decide (minRatio ≤ stat.ratioWithinSanitizer)) =
        ((collector.getStatsForSanitizer sanitizer).map CheckStat.checkType).countP
          fun checkType => minRatio ≤ share checks sanitizer checkType := by
    rw [List.countP_map]
    apply List.countP_congr
    intro stat member
    rw [ratio_of_mem counts member]
    exact Iff.rfl
  rw [selected, step, foldl_selectStep_nil ranked, good]

end Ranking

/-! ## The merged list -/

section Merge

variable {collector : SanitizerCheckCollector} {checks : List ClassifiedCheck}
  {maxPerSanitizer : Nat} {minRatio : ℚ}

theorem selected_subset (counts : collector.Counts checks) (sanitizer : SanitizerKind) :
    (collector.selected maxPerSanitizer minRatio sanitizer).Sublist
      (collector.getStatsForSanitizer sanitizer) := by
  rw [selected_eq counts]
  exact List.take_sublist _ _

/-- No check without a sanitizer has been recorded. -/
def Known (checks : List ClassifiedCheck) : Prop :=
  ∀ check ∈ checks, check.sanitizer ≠ .Unknown

theorem selected_unknown (counts : collector.Counts checks) (known : Known checks) :
    collector.selected maxPerSanitizer minRatio .Unknown = [] := by
  have none : collector.getStatsForSanitizer .Unknown = [] := by
    apply List.eq_nil_iff_forall_not_mem.mpr
    intro stat member
    have inside := (mem_types counts stat.checkType).mp (List.mem_map_of_mem member)
    exact known _ inside rfl
  rw [selected, none, List.foldl_nil]

theorem filter_selections (counts : collector.Counts checks) (known : Known checks)
    (sanitizer : SanitizerKind) :
    ([SanitizerKind.ASan, .UBSan, .MemSan].flatMap
        (collector.selected maxPerSanitizer minRatio)).filter
          (fun stat => stat.sanitizer = sanitizer) =
      collector.selected maxPerSanitizer minRatio sanitizer := by
  have all : ∀ kind, ∀ stat ∈ collector.selected maxPerSanitizer minRatio kind,
      stat.sanitizer = kind := fun kind stat member =>
    sanitizer_of_mem ((selected_subset counts kind).subset member)
  have own : ∀ kind, (collector.selected maxPerSanitizer minRatio kind).filter
      (fun stat => stat.sanitizer = sanitizer) =
        if kind = sanitizer then collector.selected maxPerSanitizer minRatio kind else [] := by
    intro kind
    split
    · rename_i same
      apply List.filter_eq_self.mpr
      intro stat member
      exact decide_eq_true ((all kind stat member).trans same)
    · rename_i different
      apply List.filter_eq_nil_iff.mpr
      intro stat member
      rw [all kind stat member, decide_eq_true_eq]
      exact different
  simp only [List.flatMap_cons, List.flatMap_nil, List.append_nil, List.filter_append, own]
  cases sanitizer with
  | Unknown => rw [selected_unknown counts known]; rfl
  | _ => simp

theorem perm_identifyCoreChecks :
    (collector.identifyCoreChecks maxPerSanitizer minRatio).Perm
      ([SanitizerKind.ASan, .UBSan, .MemSan].flatMap
        (collector.selected maxPerSanitizer minRatio)) :=
  List.perm_insertionSort _ _

theorem mem_selected_of_mem (counts : collector.Counts checks) (known : Known checks)
    {stat : CheckStat} (member : stat ∈ collector.identifyCoreChecks maxPerSanitizer minRatio) :
    stat ∈ collector.selected maxPerSanitizer minRatio stat.sanitizer := by
  rw [← filter_selections counts known]
  exact List.mem_filter.mpr ⟨perm_identifyCoreChecks.subset member, decide_eq_true rfl⟩

theorem pairwise_identifyCoreChecks :
    (collector.identifyCoreChecks maxPerSanitizer minRatio).Pairwise
      fun first second => coreRank first ≤ coreRank second :=
  rankedBy_coreLess.pairwise_insertionSort _

theorem eq_of_coreRank (counts : collector.Counts checks) {first second : CheckStat}
    {sanitizer : SanitizerKind}
    (firstMember : first ∈ collector.getStatsForSanitizer sanitizer)
    (secondMember : second ∈ collector.getStatsForSanitizer sanitizer)
    (tie : coreRank first = coreRank second) : first = second := by
  simp only [coreRank, EmbeddingLike.apply_eq_iff_eq, Prod.mk.injEq, String.toList_inj] at tie
  exact eq_of_checkType counts firstMember secondMember tie.2.2

/-- The checks of one sanitizer in the whole list are those selected for it, in order. -/
theorem filter_identifyCoreChecks (counts : collector.Counts checks) (known : Known checks)
    (sanitizer : SanitizerKind) :
    (collector.identifyCoreChecks maxPerSanitizer minRatio).filter
        (fun stat => stat.sanitizer = sanitizer) =
      collector.selected maxPerSanitizer minRatio sanitizer := by
  have permuted : ((collector.identifyCoreChecks maxPerSanitizer minRatio).filter
      (fun stat => stat.sanitizer = sanitizer)).Perm
        (collector.selected maxPerSanitizer minRatio sanitizer) := by
    rw [← filter_selections counts known]
    exact perm_identifyCoreChecks.filter _
  have inStats : ∀ stat ∈ collector.selected maxPerSanitizer minRatio sanitizer,
      stat ∈ collector.getStatsForSanitizer sanitizer := fun stat member =>
    (selected_subset counts sanitizer).subset member
  apply eq_of_perm_of_ranked permuted (pairwise_identifyCoreChecks.filter _)
  · -- Within one sanitizer both comparators agree.
    have strict : (collector.selected maxPerSanitizer minRatio sanitizer).Pairwise
        fun first second => MoreFrequent checks sanitizer first.checkType second.checkType :=
      (pairwise_moreFrequent counts).sublist (selected_subset counts sanitizer)
    refine strict.imp_of_mem ?_
    intro first second firstMember secondMember before
    apply le_of_lt
    rw [← coreBefore_iff, CoreBefore, count_of_mem counts (inStats first firstMember),
      count_of_mem counts (inStats second secondMember)]
    rcases before with more | same
    · exact .inl more
    · refine .inr ⟨same.1, .inr ⟨?_, same.2⟩⟩
      rw [sanitizer_of_mem (inStats first firstMember),
        sanitizer_of_mem (inStats second secondMember)]
  · intro first firstMember second secondMember tie
    exact eq_of_coreRank counts (inStats first (permuted.subset firstMember))
      (inStats second secondMember) tie

/-- Core checks of one rank are one. -/
theorem pairwise_coreBefore (counts : collector.Counts checks) (known : Known checks) :
    (collector.identifyCoreChecks maxPerSanitizer minRatio).Pairwise CoreBefore := by
  have inStats : ∀ stat ∈ collector.identifyCoreChecks maxPerSanitizer minRatio,
      stat ∈ collector.getStatsForSanitizer stat.sanitizer := fun stat member =>
    (selected_subset counts stat.sanitizer).subset (mem_selected_of_mem counts known member)
  have nodup : (collector.identifyCoreChecks maxPerSanitizer minRatio).Nodup := by
    have each : ∀ kind, (collector.selected maxPerSanitizer minRatio kind).Nodup := by
      intro kind
      have types : ((collector.getStatsForSanitizer kind).map CheckStat.checkType).Nodup :=
        nodup_types counts
      exact (List.Nodup.of_map _ types).sublist (selected_subset counts kind)
    rw [List.nodup_iff_count_le_one]
    intro stat
    have own : (collector.identifyCoreChecks maxPerSanitizer minRatio).count stat =
        (collector.selected maxPerSanitizer minRatio stat.sanitizer).count stat := by
      rw [← filter_identifyCoreChecks counts known]
      exact (List.count_filter (by simp)).symm
    rw [own]
    exact List.nodup_iff_count_le_one.mp (each stat.sanitizer) stat
  refine (pairwise_identifyCoreChecks.and nodup).imp_of_mem ?_
  intro first second firstMember secondMember parts
  rw [coreBefore_iff]
  apply lt_of_le_of_ne parts.1
  intro tie
  have kinds : first.sanitizer = second.sanitizer := by
    simp only [coreRank, EmbeddingLike.apply_eq_iff_eq, Prod.mk.injEq, String.toList_inj] at tie
    exact sanitizerKindName_injective tie.2.1
  exact parts.2 (eq_of_coreRank counts (inStats first firstMember)
    (kinds ▸ inStats second secondMember) tie)

end Merge

/-- A collector that has recorded the checks, with a profile loaded before. -/
def recordAll (checks : List ClassifiedCheck)
    (runtimeCosts : SanitizerKind → String → Option ℚ) (totalRuntimeCost : ℚ) :
    SanitizerCheckCollector :=
  checks.foldl recordCheck { runtimeCosts, totalRuntimeCost }

theorem counts_recordAll (checks : List ClassifiedCheck)
    (runtimeCosts : SanitizerKind → String → Option ℚ) (totalRuntimeCost : ℚ) :
    (recordAll checks runtimeCosts totalRuntimeCost).Counts (checks.filter isRecorded) :=
  counts_record (counts_fresh rfl rfl rfl) checks

/-- Of every sanitizer the core checks are the first of its types in the order of their
frequency, and all core checks stand in order. -/
theorem identifyCoreChecks_mostFrequent (checks : List ClassifiedCheck)
    (runtimeCosts : SanitizerKind → String → Option ℚ) (totalRuntimeCost : ℚ)
    (maxPerSanitizer : Nat) (minRatio : ℚ) :
    (∀ sanitizer, ∃ ranked : List String,
      ranked.Pairwise (MoreFrequent (checks.filter isRecorded) sanitizer) ∧
        (∀ checkType, checkType ∈ ranked ↔
          ⟨sanitizer, checkType⟩ ∈ checks.filter isRecorded) ∧
        ((((recordAll checks runtimeCosts totalRuntimeCost).identifyCoreChecks maxPerSanitizer
          minRatio).filter fun stat => stat.sanitizer = sanitizer).map CheckStat.checkType) =
            ranked.take (selectCount maxPerSanitizer (ranked.countP fun checkType =>
              minRatio ≤ share (checks.filter isRecorded) sanitizer checkType))) ∧
      ((recordAll checks runtimeCosts totalRuntimeCost).identifyCoreChecks maxPerSanitizer
        minRatio).Pairwise CoreBefore ∧
      ∀ stat ∈ (recordAll checks runtimeCosts totalRuntimeCost).identifyCoreChecks
        maxPerSanitizer minRatio,
          stat.count = (checks.filter isRecorded).count ⟨stat.sanitizer, stat.checkType⟩ := by
  have counts := counts_recordAll checks runtimeCosts totalRuntimeCost
  have known : Known (checks.filter isRecorded) := by
    intro check member
    exact not_or.mp (isRecorded_iff.mp (List.mem_filter.mp member).2) |>.1
  refine ⟨fun sanitizer => ⟨((recordAll checks runtimeCosts
    totalRuntimeCost).getStatsForSanitizer sanitizer).map CheckStat.checkType, ?_,
    mem_types counts, ?_⟩, pairwise_coreBefore counts known, ?_⟩
  · exact List.pairwise_map.mpr (pairwise_moreFrequent counts)
  · rw [filter_identifyCoreChecks counts known, selected_eq counts, List.map_take]
  · intro stat member
    exact count_of_mem counts ((selected_subset counts stat.sanitizer).subset
      (mem_selected_of_mem counts known member))

end SanitizerCheckCollector

end Desan
