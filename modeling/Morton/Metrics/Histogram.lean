import Mathlib.Order.Monotone.Basic
import Mathlib.Tactic.FieldSimp
import Mathlib.Tactic.Linarith
import Mathlib.Tactic.Positivity
import Morton.Base.Rank
import Morton.Base.Run

/-! The latency histogram: samples are counted in buckets of growing width and a quantile is
interpolated in the bucket that has its rank. Values are rationals. -/
namespace Morton.Metrics
open Rank

def kBucketCount : Nat := 240

def kGrowthFactor : ℚ := 115 / 100

def kFirstBound : ℚ := 1 / 10 ^ 6

def kNoMinimum : ℚ := 10 ^ 300

/-- What the arithmetic of the doubles gives: by `std::pow` the upper bounds of the buckets, by
`std::log`, for a value above the first bound, the integer part of its logarithm in steps of the
growth factor, and the rounded sum of two values. -/
structure Scale where
  bucketUpperBound : Nat → ℚ
  positive : 0 < bucketUpperBound 0
  growing : StrictMono bucketUpperBound
  steps : ℚ → Int
  plus : ℚ → ℚ → ℚ

structure Histogram where
  buckets : Nat → Nat := fun _ => 0
  count : Nat := 0
  sum : ℚ := 0
  max : ℚ := 0
  min : ℚ := kNoMinimum

namespace Scale
section
variable (scale : Scale)

def bucketOf (value : ℚ) : Nat :=
  if value ≤ kFirstBound then 0
  else
    let clamped := scale.steps value + 1
    if clamped < 0 then 0
    else if (kBucketCount : Int) ≤ clamped then kBucketCount - 1
    else clamped.toNat

/-- Negative values count as zero. -/
def record (h : Histogram) (value : ℚ) : Histogram :=
  let value := if value < 0 then 0 else value
  let index := scale.bucketOf value
  { buckets := fun i => if i = index then h.buckets i + 1 else h.buckets i
    count := h.count + 1
    sum := scale.plus h.sum value
    max := if h.max < value then value else h.max
    min := if value < h.min then value else h.min }

/-- The lower end of a bucket. -/
def lowerBound (i : Nat) : ℚ := if i = 0 then 0 else scale.bucketUpperBound (i - 1)

/-- The loop of `quantile` over `rest` buckets from `i` on; `none` falls through. -/
def search (h : Histogram) (target : ℚ) : Nat → Nat → Nat → Option ℚ
  | 0, _, _ => none
  | rest+1, i, cumulative =>
    let bucket := h.buckets i
    if bucket = 0 then search h target rest (i + 1) cumulative
    else if target ≤ (cumulative + bucket : Nat) then
      let lower := scale.lowerBound i
      let upper := scale.bucketUpperBound i
      let within := (target - cumulative) / bucket
      some (lower + (upper - lower) * within)
    else search h target rest (i + 1) (cumulative + bucket)

/-- The bounds are rationals, and what is computed from them is exact: the target `q * count` and
the place within the bucket. -/
def quantile (h : Histogram) (q : ℚ) : ℚ :=
  let total := h.count
  if total = 0 then 0
  else
    match scale.search h (q * total) kBucketCount 0 0 with
    | some value => value
    | none => scale.bucketUpperBound (kBucketCount - 1)

def p50 (h : Histogram) : ℚ := scale.quantile h (1 / 2)
def p95 (h : Histogram) : ℚ := scale.quantile h (19 / 20)
def p99 (h : Histogram) : ℚ := scale.quantile h (99 / 100)
def p999 (h : Histogram) : ℚ := scale.quantile h (999 / 1000)

theorem bucketOf_lt (value : ℚ) : scale.bucketOf value < kBucketCount := by
  unfold bucketOf kBucketCount
  dsimp only
  split_ifs <;> omega

theorem lowerBound_lt (i : Nat) : scale.lowerBound i < scale.bucketUpperBound i := by
  unfold lowerBound
  split
  next h => rw [h]; exact scale.positive
  next h => exact scale.growing (by omega)

theorem upperBound_le_lowerBound {i j : Nat} (h : i < j) :
    scale.bucketUpperBound i ≤ scale.lowerBound j := by
  rw [lowerBound, if_neg (by omega)]
  exact scale.growing.monotone (by omega)

/-- The bucket a sample is counted in. -/
def mark (value : ℚ) : Nat := scale.bucketOf (if value < 0 then 0 else value)

/-- The histogram of the samples, from an empty one on. -/
def recorded (samples : List ℚ) : Histogram := Run.run scale.record {} samples

/-- The counters are those of the buckets the samples were counted in. -/
structure Counts (h : Histogram) (marks : List Nat) : Prop where
  buckets : ∀ i, h.buckets i = marks.count i
  count : h.count = marks.length
  bounded : ∀ i ∈ marks, i < kBucketCount

theorem counts_record {h : Histogram} {marks : List Nat} (hc : Counts h marks) (value : ℚ) :
    Counts (scale.record h value) (scale.mark value :: marks) where
  buckets := by
    intro i
    rw [List.count_cons, ← hc.buckets]
    by_cases hi : i = scale.mark value
    · simp [record, mark, hi]
    · have hne : (scale.mark value == i) = false := beq_eq_false_iff_ne.mpr (Ne.symm hi)
      rw [hne]
      simp [record, if_neg (show ¬ i = scale.bucketOf _ from hi)]
  count := by
    rw [List.length_cons, ← hc.count]
    rfl
  bounded := by
    intro i hi
    cases List.mem_cons.mp hi with
    | inl here => exact here ▸ scale.bucketOf_lt _
    | inr before => exact hc.bounded i before

/-- The buckets of the samples in bucket order. -/
def order (samples : List ℚ) : List Nat := (samples.map scale.mark).mergeSort (· ≤ ·)

theorem counts_run (samples : List ℚ) {h : Histogram} {marks : List Nat} (hc : Counts h marks) :
    Counts (Run.run scale.record h samples) ((samples.map scale.mark).reverse ++ marks) := by
  induction samples generalizing h marks with
  | nil => exact hc
  | cons value samples ih =>
    have hnext := ih (scale.counts_record hc value)
    rwa [List.map_cons, List.reverse_cons, List.append_assoc]

theorem order_ascending (samples : List ℚ) : (scale.order samples).Pairwise (· ≤ ·) :=
  List.pairwise_mergeSort' (· ≤ ·) _

variable {scale} in
theorem Counts.perm {h : Histogram} {marks marks' : List Nat} (hc : Counts h marks)
    (hperm : marks.Perm marks') : Counts h marks' where
  buckets i := (hc.buckets i).trans (hperm.count_eq i)
  count := hc.count.trans hperm.length_eq
  bounded i hi := hc.bounded i (hperm.mem_iff.mpr hi)

theorem counts_order (samples : List ℚ) :
    Counts (scale.recorded samples) (scale.order samples) := by
  have hempty : Counts {} [] := ⟨fun _ => rfl, rfl, fun _ hi => absurd hi List.not_mem_nil⟩
  have hrun := scale.counts_run samples hempty
  rw [List.append_nil] at hrun
  exact hrun.perm ((List.reverse_perm _).trans (List.mergeSort_perm _ _).symm)

/-- The value interpolated in bucket `i`. -/
def interpolate (marks : List Nat) (target : ℚ) (i : Nat) : ℚ :=
  scale.lowerBound i + (scale.bucketUpperBound i - scale.lowerBound i) *
    ((target - below marks i) / marks.count i)

section
variable {marks : List Nat} {target : ℚ} {i : Nat} (h : Holds marks target i)
include h

/-- The bucket that holds the target is not empty. -/
theorem count_pos_of_holds : (0 : ℚ) < marks.count i := by
  have hranks := h.1.trans_le h.2
  rw [below_succ] at hranks
  push_cast at hranks
  linarith

theorem lowerBound_lt_interpolate : scale.lowerBound i < scale.interpolate marks target i := by
  have hwidth := sub_pos.mpr (scale.lowerBound_lt i)
  have hwithin := div_pos (sub_pos.mpr h.1) (count_pos_of_holds h)
  have := mul_pos hwidth hwithin
  unfold interpolate
  linarith

theorem interpolate_le : scale.interpolate marks target i ≤ scale.bucketUpperBound i := by
  have hwidth := sub_pos.mpr (scale.lowerBound_lt i)
  have hwithin : (target - below marks i) / marks.count i ≤ 1 := by
    rw [div_le_one (count_pos_of_holds h)]
    have hranks := h.2
    rw [below_succ] at hranks
    push_cast at hranks
    linarith
  have := mul_le_of_le_one_right (le_of_lt hwidth) hwithin
  unfold interpolate
  linarith

/-- Interpolated values are in the order of their targets, within a bucket and across. -/
theorem interpolate_mono {target' : ℚ} {j : Nat} (h' : Holds marks target' j)
    (hle : target ≤ target') :
    scale.interpolate marks target i ≤ scale.interpolate marks target' j := by
  by_cases hij : i = j
  · subst hij
    have hwidth := sub_pos.mpr (scale.lowerBound_lt i)
    have hcount := count_pos_of_holds h
    unfold interpolate
    gcongr
  · have hlt : i < j := Nat.lt_of_le_of_ne (h.mono h' hle) hij
    calc scale.interpolate marks target i
        ≤ scale.bucketUpperBound i := scale.interpolate_le h
      _ ≤ scale.lowerBound j := scale.upperBound_le_lowerBound hlt
      _ ≤ scale.interpolate marks target' j := le_of_lt (scale.lowerBound_lt_interpolate h')

end

/-- The loop stops at the bucket that holds the target: it enters each bucket with as many
samples behind it as are below the bucket, and fewer than the target. -/
theorem search_eq {h : Histogram} {marks : List Nat} (hc : Counts h marks) {target : ℚ}
    {rest i : Nat} (hlow : (below marks i : ℚ) < target)
    (hhigh : target ≤ below marks (i + rest)) :
    ∃ j, Holds marks target j ∧
      scale.search h target rest i (below marks i) = some (scale.interpolate marks target j) := by
  induction rest generalizing i with
  | zero => exact absurd hhigh (not_le.mpr hlow)
  | succ rest ih =>
    have hnext : below marks i + h.buckets i = below marks (i + 1) := by
      rw [hc.buckets, below_succ]
    have hrest : target ≤ below marks (i + 1 + rest) := by
      rwa [Nat.add_assoc, Nat.add_comm 1 rest]
    rw [search]
    dsimp only
    by_cases hempty : h.buckets i = 0
    · have hsame : below marks i = below marks (i + 1) := by omega
      rw [if_pos hempty, hsame]
      exact ih (hsame ▸ hlow) hrest
    · rw [if_neg hempty, hnext]
      by_cases hhere : target ≤ below marks (i + 1)
      · refine ⟨i, ⟨hlow, hhere⟩, ?_⟩
        rw [if_pos hhere, hc.buckets, interpolate]
      · rw [if_neg hhere]
        exact ih (not_le.mp hhere) hrest

section
variable (samples : List ℚ) {q : ℚ} (hq : 0 < q) (hq1 : q ≤ 1)
include hq hq1

/-- With a sample recorded, the scan finds the bucket and `quantile` interpolates in it. -/
theorem quantile_holds (hsamples : (scale.recorded samples).count ≠ 0) :
    let h := scale.recorded samples
    ∃ i, Holds (scale.order samples) (q * h.count) i ∧
      scale.search h (q * h.count) kBucketCount 0 0 = some (scale.quantile h q) ∧
      scale.quantile h q = scale.interpolate (scale.order samples) (q * h.count) i := by
  intro h
  have hc := scale.counts_order samples
  have htotal : (0 : ℚ) < h.count := Nat.cast_pos.mpr (Nat.pos_of_ne_zero hsamples)
  have hlow : (below (scale.order samples) 0 : ℚ) < q * h.count := by
    rw [below_zero]
    exact_mod_cast mul_pos hq htotal
  have hhigh : q * h.count ≤ below (scale.order samples) (0 + kBucketCount) := by
    rw [Nat.zero_add, below_all hc.bounded, ← hc.count]
    exact mul_le_of_le_one_left (le_of_lt htotal) hq1
  obtain ⟨i, hi, hsearch⟩ := scale.search_eq hc hlow hhigh
  rw [below_zero] at hsearch
  have hquantile : scale.quantile h q = scale.interpolate (scale.order samples) (q * h.count) i := by
    rw [quantile, if_neg hsamples, hsearch]
  exact ⟨i, hi, hsearch.trans (congrArg some hquantile.symm), hquantile⟩

end

/-- Quantiles ascend. -/
theorem quantile_mono (samples : List ℚ) {q q' : ℚ} (hq : 0 < q) (hle : q ≤ q') (hq' : q' ≤ 1) :
    scale.quantile (scale.recorded samples) q ≤ scale.quantile (scale.recorded samples) q' := by
  by_cases hsamples : (scale.recorded samples).count = 0
  · simp [quantile, hsamples]
  · obtain ⟨i, hi, -, hvalue⟩ := scale.quantile_holds samples hq (hle.trans hq') hsamples
    obtain ⟨j, hj, -, hvalue'⟩ := scale.quantile_holds samples (hq.trans_le hle) hq' hsamples
    rw [hvalue, hvalue']
    apply scale.interpolate_mono hi hj
    gcongr

theorem percentiles_ascend (samples : List ℚ) :
    scale.p50 (scale.recorded samples) ≤ scale.p95 (scale.recorded samples) ∧
      scale.p95 (scale.recorded samples) ≤ scale.p99 (scale.recorded samples) ∧
      scale.p99 (scale.recorded samples) ≤ scale.p999 (scale.recorded samples) := by
  constructor
  · exact scale.quantile_mono samples (by norm_num) (by norm_num) (by norm_num)
  · constructor
    · exact scale.quantile_mono samples (by norm_num) (by norm_num) (by norm_num)
    · exact scale.quantile_mono samples (by norm_num) (by norm_num) (by norm_num)

end

/-- A quantile lies in the bucket of the sample that has its rank, rounded up, in bucket order;
the scan never falls through, and quantiles ascend. -/
theorem quantile_in_bucket (scale : Scale) (samples : List ℚ) {q : ℚ} (hq : 0 < q) (hq1 : q ≤ 1) :
    let h := scale.recorded samples
    h.count = samples.length ∧
    (samples ≠ [] → ∃ i, (scale.order samples)[⌈q * h.count⌉₊ - 1]? = some i) ∧
    (∀ i, (scale.order samples)[⌈q * h.count⌉₊ - 1]? = some i →
      scale.lowerBound i < scale.quantile h q ∧ scale.quantile h q ≤ scale.bucketUpperBound i) ∧
    (h.count ≠ 0 →
      scale.search h (q * h.count) kBucketCount 0 0 = some (scale.quantile h q)) ∧
    ∀ q', q ≤ q' → q' ≤ 1 → scale.quantile h q ≤ scale.quantile h q' := by
  intro h
  have hlength : (scale.order samples).length = samples.length := by
    rw [order, List.length_mergeSort, List.length_map]
  have hcount : h.count = samples.length := (scale.counts_order samples).count.trans hlength
  have hascending := scale.order_ascending samples
  refine ⟨hcount, ?_, ?_, ?_, fun q' hle hq' => scale.quantile_mono samples hq hle hq'⟩
  · intro hsamples
    have hpos : h.count ≠ 0 := by
      rw [hcount]
      exact fun hzero => hsamples (List.length_eq_zero_iff.mp hzero)
    obtain ⟨i, hi, -⟩ := scale.quantile_holds samples hq hq1 hpos
    exact ⟨i, hi.getElem? hascending⟩
  · intro i hplace
    have hpos : h.count ≠ 0 := by
      have := (List.getElem?_eq_some_iff.mp hplace).1
      omega
    obtain ⟨j, hj, -, hvalue⟩ := scale.quantile_holds samples hq hq1 hpos
    obtain rfl : j = i := Option.some.inj ((hj.getElem? hascending).symm.trans hplace)
    rw [hvalue]
    exact ⟨scale.lowerBound_lt_interpolate hj, scale.interpolate_le hj⟩
  · intro hpos
    obtain ⟨i, -, hsearch, -⟩ := scale.quantile_holds samples hq hq1 hpos
    exact hsearch

/-- The scale without rounding. Values beyond the last bound that is tried are in the last bucket. -/
def unrounded : Scale where
  bucketUpperBound i := kFirstBound * kGrowthFactor ^ i
  positive := by norm_num [kFirstBound]
  growing := by
    have hpow : StrictMono fun i : Nat => kGrowthFactor ^ i :=
      pow_right_strictMono₀ (by norm_num [kGrowthFactor])
    exact hpow.const_mul (by norm_num [kFirstBound])
  steps value :=
    (List.range kBucketCount).countP fun i => decide (kFirstBound * kGrowthFactor ^ (i + 1) ≤ value)
  plus a b := a + b

theorem quantile_in_bucket_median :
    let h := unrounded.recorded [1 / 10 ^ 6, -3, 2 / 10 ^ 3]
    (∃ i, (unrounded.order [1 / 10 ^ 6, -3, 2 / 10 ^ 3])[⌈1 / 2 * (h.count : ℚ)⌉₊ - 1]? = some i) ∧
      unrounded.quantile h (1 / 2) ≤ unrounded.quantile h (9 / 10) := by
  have h := unrounded.quantile_in_bucket [1 / 10 ^ 6, -3, 2 / 10 ^ 3]
    (show (0 : ℚ) < 1 / 2 by norm_num) (by norm_num)
  exact ⟨h.2.1 (List.cons_ne_nil _ _), h.2.2.2.2 (9 / 10) (by norm_num) (by norm_num)⟩

end Scale
end Morton.Metrics
