import LowLatencyExchange.Library.OrderStatistic
import Mathlib.Tactic

/-!
# Latency histogram

The logarithmic histogram of nanosecond observations: `observe`, `snapshot` and the
bucket scan behind the percentiles. The scan finds the bucket of the order statistic
it is asked for and answers with the smallest value of that bucket.
-/
namespace LowLatencyExchange

def kLatencyHistogramBuckets : Nat := 64

structure LatencyHistogramSnapshot where
  buckets : Vector UInt64 kLatencyHistogramBuckets
  count : UInt64
  minNanoseconds : UInt64
  maxNanoseconds : UInt64

structure LatencyHistogram where
  buckets : Vector UInt64 kLatencyHistogramBuckets := Vector.replicate _ 0
  count : UInt64 := 0
  minNanoseconds : UInt64 := UInt64.ofNat (2 ^ 64 - 1)
  maxNanoseconds : UInt64 := 0

/-- Zero nanoseconds count as one. -/
def normalized (nanoseconds : UInt64) : UInt64 := if nanoseconds = 0 then 1 else nanoseconds

def bitWidth (value : UInt64) : Nat := if value = 0 then 0 else value.toNat.log2 + 1

def bucketIndex (value : UInt64) : Nat := min (bitWidth value - 1) (kLatencyHistogramBuckets - 1)

theorem bucketIndex_lt (value : UInt64) : bucketIndex value < kLatencyHistogramBuckets := by
  unfold bucketIndex kLatencyHistogramBuckets
  omega

namespace LatencyHistogram

def observe (h : LatencyHistogram) (nanoseconds : UInt64) : LatencyHistogram :=
  let value := normalized nanoseconds
  let bucket : Fin kLatencyHistogramBuckets := ⟨bucketIndex value, bucketIndex_lt value⟩
  { buckets := h.buckets.set bucket (h.buckets[bucket] + 1)
    count := h.count + 1
    minNanoseconds := if value < h.minNanoseconds then value else h.minNanoseconds
    maxNanoseconds := if h.maxNanoseconds < value then value else h.maxNanoseconds }

def snapshot (h : LatencyHistogram) : LatencyHistogramSnapshot where
  buckets := h.buckets
  count := h.count
  minNanoseconds := if h.count = 0 then 0 else h.minNanoseconds
  maxNanoseconds := h.maxNanoseconds

def observeAll (observations : List UInt64) : LatencyHistogram :=
  observations.foldl observe {}

end LatencyHistogram

namespace LatencyHistogramSnapshot

/-- What the scan answers with when it stops at a bucket. -/
def bucketBound (index : Nat) : UInt64 :=
  if index = 0 then 1 else 1 <<< UInt64.ofNat index

/-- The loop over the buckets: stop at the first one whose running total exceeds the rank. -/
def scan (rank observed : UInt64) (index : Nat) : List UInt64 → Option UInt64
  | [] => none
  | bucket :: buckets =>
    if observed + bucket > rank then some (bucketBound index)
    else scan rank (observed + bucket) (index + 1) buckets

/-- `percentile_upper_bound` from the rank on; the rank itself is a floating-point product. -/
def percentileUpperBound (s : LatencyHistogramSnapshot) (rank : UInt64) : UInt64 :=
  if s.count = 0 then 0
  else (scan rank 0 0 s.buckets.toList).getD s.maxNanoseconds

end LatencyHistogramSnapshot

theorem normalized_pos (nanoseconds : UInt64) : 0 < (normalized nanoseconds).toNat := by
  unfold normalized
  split
  · decide
  · rename_i h
    have hne : nanoseconds.toNat ≠ 0 := fun hzero => h (UInt64.toNat_inj.mp hzero)
    omega

theorem bitWidth_pred (value : UInt64) : bitWidth value - 1 = value.toNat.log2 := by
  unfold bitWidth
  split
  · rename_i h
    subst h
    decide
  · omega

theorem log2_lt (value : UInt64) : value.toNat.log2 < 64 := by
  by_cases hzero : value.toNat = 0
  · simp [hzero]
  · exact (Nat.log2_lt hzero).mpr (UInt64.toNat_lt value)

/-- The clamp to the last bucket never applies to a 64-bit value. -/
theorem bucketIndex_eq (value : UInt64) : bucketIndex value = value.toNat.log2 := by
  have hlt := log2_lt value
  have hwidth := bitWidth_pred value
  unfold bucketIndex kLatencyHistogramBuckets
  omega

theorem log2_monotone : Monotone Nat.log2 := by
  intro a b hab
  simpa only [Nat.log2_eq_log_two] using Nat.log_mono_right hab

/-- The observations as the histogram counts them. -/
def counted (observations : List UInt64) : List Nat :=
  observations.map (fun nanoseconds => (normalized nanoseconds).toNat)

@[simp] theorem length_counted (observations : List UInt64) :
    (counted observations).length = observations.length := List.length_map ..

namespace LatencyHistogram

/-- How many observations fell into a bucket. -/
def tally (observations : List UInt64) (index : Nat) : Nat :=
  (counted observations).countP (fun value => value.log2 = index)

theorem tally_cons (o : UInt64) (os : List UInt64) (index : Nat) :
    tally (o :: os) index =
      (if (normalized o).toNat.log2 = index then 1 else 0) + tally os index := by
  simp [tally, counted, List.countP_cons, Nat.add_comm]

theorem observe_bucket (h : LatencyHistogram) (o : UInt64) {index : Nat}
    (hindex : index < kLatencyHistogramBuckets) :
    (h.observe o).buckets[index] =
      h.buckets[index] + UInt64.ofNat (if (normalized o).toNat.log2 = index then 1 else 0) := by
  have hbucket := bucketIndex_eq (normalized o)
  simp only [observe, Fin.getElem_fin, Vector.getElem_set, hbucket]
  split
  · rename_i heq
    simp [heq]
  · simp

theorem foldl_bucket (observations : List UInt64) (h : LatencyHistogram) {index : Nat}
    (hindex : index < kLatencyHistogramBuckets) :
    (observations.foldl observe h).buckets[index] =
      h.buckets[index] + UInt64.ofNat (tally observations index) := by
  induction observations generalizing h with
  | nil => simp [tally, counted]
  | cons o os ih =>
    rw [List.foldl_cons, ih, observe_bucket, tally_cons, UInt64.ofNat_add, UInt64.add_assoc]

theorem foldl_count (observations : List UInt64) (h : LatencyHistogram) :
    (observations.foldl observe h).count = h.count + UInt64.ofNat observations.length := by
  induction observations generalizing h with
  | nil => simp
  | cons o os ih =>
    rw [List.foldl_cons, ih, List.length_cons, UInt64.ofNat_add, UInt64.add_comm (UInt64.ofNat _),
      ← UInt64.add_assoc]
    rfl

/-- Every bucket holds the number of observations that belong to it. -/
theorem buckets_observeAll (observations : List UInt64) :
    (observeAll observations).snapshot.buckets.toList =
      (List.range' 0 kLatencyHistogramBuckets).map
        (fun index => UInt64.ofNat (tally observations index)) := by
  apply List.ext_getElem
  · simp
  · intro i hi _
    have hlt : i < kLatencyHistogramBuckets := by simpa using hi
    have hbucket := foldl_bucket observations {} hlt
    simpa [observeAll, snapshot] using hbucket

end LatencyHistogram

namespace LatencyHistogramSnapshot

open LatencyHistogram

/-- Observations in the buckets before `index`. -/
def below (observations : List UInt64) (index : Nat) : Nat :=
  (counted observations).countP (fun value => value.log2 < index)

theorem below_succ (observations : List UInt64) (index : Nat) :
    below observations (index + 1) = below observations index + tally observations index := by
  unfold below tally
  induction counted observations with
  | nil => rfl
  | cons value values ih =>
    simp only [List.countP_cons, ih, decide_eq_true_eq]
    split_ifs <;> omega

theorem below_le (observations : List UInt64) (index : Nat) :
    below observations index ≤ observations.length := by
  rw [← length_counted]
  exact List.countP_le_length

open OrderStatistic

section Percentile

variable {observations : List UInt64} (hlength : observations.length < 2 ^ 64) {rank : UInt64}
  (hrank : rank.toNat < (counted observations).length)

include hrank in
/-- The rank is passed at a bucket exactly when the order statistic lies in it or before it. -/
theorem rank_lt_below_iff (index : Nat) :
    rank.toNat < below observations index ↔
      (kth (counted observations) rank.toNat hrank).log2 < index :=
  lt_countP_iff log2_monotone index rank.toNat hrank

include hlength in
theorem toNat_below (index : Nat) :
    (UInt64.ofNat (below observations index)).toNat = below observations index :=
  UInt64.toNat_ofNat_of_lt' (lt_of_le_of_lt (below_le observations index) hlength)

include hlength hrank in
/-- The scan stops at the bucket of the order statistic, wherever before it it starts. -/
theorem scan_eq (width index : Nat) (hbefore : below observations index ≤ rank.toNat)
    (hafter : rank.toNat < below observations (index + width)) :
    scan rank (UInt64.ofNat (below observations index)) index
        ((List.range' index width).map (fun i => UInt64.ofNat (tally observations i))) =
      some (bucketBound (kth (counted observations) rank.toNat hrank).log2) := by
  induction width generalizing index with
  | zero => exact absurd hafter (not_lt.mpr hbefore)
  | succ width ih =>
    have hstart : index ≤ (kth (counted observations) rank.toNat hrank).log2 :=
      not_lt.mp (fun h => not_lt.mpr hbefore ((rank_lt_below_iff hrank index).mpr h))
    have htotal : UInt64.ofNat (below observations index) + UInt64.ofNat (tally observations index)
        = UInt64.ofNat (below observations (index + 1)) := by
      rw [← UInt64.ofNat_add, below_succ]
    have hstop : rank < UInt64.ofNat (below observations (index + 1)) ↔
        (kth (counted observations) rank.toNat hrank).log2 < index + 1 := by
      rw [UInt64.lt_iff_toNat_lt, toNat_below hlength]
      exact rank_lt_below_iff hrank (index + 1)
    simp only [List.range'_succ, List.map_cons, scan, htotal, gt_iff_lt]
    split
    · rename_i h
      have hindex : index = (kth (counted observations) rank.toNat hrank).log2 := by
        have := hstop.mp h
        omega
      rw [← hindex]
    · rename_i h
      have hlt : ¬ rank.toNat < below observations (index + 1) := by
        rwa [UInt64.lt_iff_toNat_lt, toNat_below hlength] at h
      have hend : rank.toNat < below observations (index + 1 + width) := by
        rwa [show index + 1 + width = index + (width + 1) by omega]
      exact ih (index + 1) (not_lt.mp hlt) hend

theorem toNat_bucketBound {index : Nat} (hindex : index < 64) :
    (bucketBound index).toNat = 2 ^ index := by
  unfold bucketBound
  split
  · rename_i h
    subst h
    rfl
  · have hpow : 2 ^ index < 2 ^ 64 := Nat.pow_lt_pow_right (by omega) hindex
    have hshift : index % 64 = index := Nat.mod_eq_of_lt hindex
    simp only [UInt64.toNat_shiftLeft, UInt64.toNat_one, UInt64.toNat_ofNat', Nat.shiftLeft_eq,
      Nat.mod_mod_of_dvd index (show 64 ∣ 2 ^ 64 by decide), hshift, one_mul]
    exact Nat.mod_eq_of_lt hpow

theorem kth_counted_bounds :
    0 < kth (counted observations) rank.toNat hrank ∧
      (kth (counted observations) rank.toNat hrank).log2 < 64 := by
  obtain ⟨o, -, ho⟩ := List.mem_map.mp (kth_mem (counted observations) rank.toNat hrank)
  rw [← ho]
  exact ⟨normalized_pos o, log2_lt (normalized o)⟩

include hlength in
/-- The value returned for a rank is the power of two at or below its order statistic. -/
theorem percentileUpperBound_eq :
    ((observeAll observations).snapshot.percentileUpperBound rank).toNat =
      2 ^ (kth (counted observations) rank.toNat hrank).log2 := by
  obtain ⟨-, hlog⟩ := kth_counted_bounds hrank
  have hcount : (observeAll observations).snapshot.count = UInt64.ofNat observations.length := by
    simpa [observeAll, snapshot] using foldl_count observations {}
  have hcountPos : (observeAll observations).snapshot.count ≠ 0 := by
    have hpos : observations.length ≠ 0 := by
      have := length_counted observations
      omega
    intro hzero
    have htoNat := congrArg UInt64.toNat (hcount.symm.trans hzero)
    rw [UInt64.toNat_ofNat_of_lt' hlength] at htoNat
    exact hpos htoNat
  have hend : rank.toNat < below observations (0 + kLatencyHistogramBuckets) :=
    (rank_lt_below_iff hrank _).mpr (by simpa [kLatencyHistogramBuckets] using hlog)
  have hzero : below observations 0 = 0 := by simp [below]
  have hscan := scan_eq hlength hrank kLatencyHistogramBuckets 0 (by omega) hend
  rw [hzero] at hscan
  simp only [percentileUpperBound, hcountPos, if_false, buckets_observeAll]
  rw [show (0 : UInt64) = UInt64.ofNat 0 from rfl, hscan]
  exact toNat_bucketBound hlog

end Percentile

/-- The value returned for a rank bounds the order statistic from above only when that
is itself a power of two: the scan answers with the low end of the bucket it stops at. -/
theorem percentileUpperBound_bounds_iff (observations : List UInt64)
    (hlength : observations.length < 2 ^ 64) (rank : UInt64)
    (hrank : rank.toNat < (counted observations).length) :
    kth (counted observations) rank.toNat hrank ≤
        ((observeAll observations).snapshot.percentileUpperBound rank).toNat ↔
      ∃ i, kth (counted observations) rank.toNat hrank = 2 ^ i := by
  obtain ⟨hpos, -⟩ := kth_counted_bounds hrank
  rw [percentileUpperBound_eq hlength hrank]
  generalize kth (counted observations) rank.toNat hrank = value at hpos ⊢
  have hlow : 2 ^ value.log2 ≤ value := Nat.log2_self_le (by omega)
  constructor
  · intro hle
    exact ⟨value.log2, le_antisymm hle hlow⟩
  · rintro ⟨i, rfl⟩
    rw [Nat.log2_two_pow]

theorem percentileUpperBound_bounds_four :
    kth (counted [5, 4, 9]) (0 : UInt64).toNat (by decide) ≤
      ((observeAll [5, 4, 9]).snapshot.percentileUpperBound 0).toNat :=
  (percentileUpperBound_bounds_iff [5, 4, 9] (by decide) 0 (by decide)).mpr ⟨2, by decide⟩

/-- The only observation is three nanoseconds and the bound returned for it is two. -/
theorem percentileUpperBound_below_three :
    ¬ kth (counted [3]) (0 : UInt64).toNat (by decide) ≤
      ((observeAll [3]).snapshot.percentileUpperBound 0).toNat := by
  decide +kernel

end LatencyHistogramSnapshot

end LowLatencyExchange
