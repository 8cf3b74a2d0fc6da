import UpZenohExample.Moments

/-!
# Samples in another unit

The samples are durations in seconds that hold the overhead of the measurement.
In another unit, and with another constant overhead, the mean and the positions
move along, the spread is scaled, and the shape of the sample stays.
-/

namespace UpZenohExample

section Functions

theorem element_map {α β : Type} (f : α → β) (vec : List α) (i : ℕ) :
    element (vec.map f) i = (element vec i).map f := by
  rw [element, element, List.getElem?_map]
  cases vec[i]? <;> rfl

variable {K : Type} [Field K] (a b : K)

def rescale (x : K) : K := a * x + b

theorem getPercentile_rescale (vec : List K) (p : ℤ) :
    getPercentileFromSortedVec (vec.map (rescale a b)) p =
      (getPercentileFromSortedVec vec p).map (Option.map (rescale a b)) := by
  have hsize : sizePred (vec.map (rescale a b)) = sizePred vec := by
    rw [sizePred, sizePred, List.length_map]
  have hbetween (d x y : K) : rescale a b x + d * (rescale a b y - rescale a b x) =
      rescale a b (x + d * (y - x)) := by
    unfold rescale
    ring
  simp only [getPercentileFromSortedVec, hsize, element_map]
  split
  · rfl
  · cases truncToInt ((p : ℚ) / 100 * sizePred vec + 1) with
    | error e => rfl
    | ok i =>
      simp only [bind, Except.bind]
      cases element vec (i - 1) with
      | error e => split <;> rfl
      | ok x =>
        split
        · rfl
        · cases element vec i with
          | error e => rfl
          | ok y => exact congrArg (fun z ↦ Except.ok (some z)) (hbetween _ x y)

variable [CharZero K]

theorem getAverage_rescale (vec : List K) :
    getAverage (vec.map (rescale a b)) = (getAverage vec).map (rescale a b) := by
  by_cases hne : vec = []
  · subst hne
    rfl
  · have hmap : vec.map (rescale a b) ≠ [] := by simpa using hne
    rw [getAverage_eq_mean hne, getAverage_eq_mean hmap]
    exact congrArg some (Sample.mean_affine hne a b)

theorem getMedianSorted_rescale (vec : List K) :
    getMedianSorted (vec.map (rescale a b)) =
      (getMedianSorted vec).map (Option.map (rescale a b)) := by
  have hmiddle (x y : K) : (rescale a b x + rescale a b y) / ((2 : ℕ) : K) =
      rescale a b ((x + y) / ((2 : ℕ) : K)) := by
    have htwo : ((2 : ℕ) : K) ≠ 0 := Nat.cast_ne_zero.mpr two_ne_zero
    unfold rescale
    field_simp
    push_cast
    ring
  simp only [getMedianSorted, List.length_map, element_map]
  split
  · rfl
  · split
    · cases element vec (vec.length / 2 - 1) with
      | error e => rfl
      | ok x =>
        cases element vec (vec.length / 2) with
        | error e => rfl
        | ok y => exact congrArg (fun z ↦ Except.ok (some z)) (hmiddle x y)
    · cases element vec (vec.length / 2) <;> rfl

omit [CharZero K] in
theorem getVariance_rescale (vec : List K) (mean : K) :
    getVariance (vec.map (rescale a b)) (rescale a b mean) =
      (getVariance vec mean).map (a ^ 2 * ·) := by
  by_cases hne : vec = []
  · subst hne
    rfl
  · have hmap : vec.map (rescale a b) ≠ [] := by simpa using hne
    have hsum := Sample.sum_pow_affine vec a b mean 2
    rw [getVariance_eq hne, getVariance_eq hmap, List.length_map]
    exact congrArg some ((congrArg (· / (vec.length : K)) hsum).trans (mul_div_assoc _ _ _))

omit [CharZero K] in
theorem getKurtosis_rescale {a : K} (ha : a ≠ 0) (vec : List K) (mean std : K) :
    getKurtosis (vec.map (rescale a b)) (rescale a b mean) (a * std) =
      getKurtosis vec mean std := by
  have hterm (e : K) :
      (rescale a b e - rescale a b mean) / (a * std) = (e - mean) / std := by
    have hdiff : rescale a b e - rescale a b mean = a * (e - mean) := by
      unfold rescale
      ring
    rw [hdiff, mul_div_mul_left _ _ ha]
  simp only [getKurtosis, List.length_map, List.foldl_map, hterm]

end Functions

section Order

variable {K : Type} [Field K] [LinearOrder K] [IsStrictOrderedRing K] {sqrt : K → K} {a : K}
variable (ha : 0 < a) (hsqrt : ∀ x, 0 ≤ x → sqrt (a ^ 2 * x) = a * sqrt x) (b : K)

include ha in
theorem insertionSort_rescale (vec : List K) :
    (vec.map (rescale a b)).insertionSort (· ≤ ·) =
      (vec.insertionSort (· ≤ ·)).map (rescale a b) := by
  refine (List.map_insertionSort (· ≤ ·) (· ≤ ·) (rescale a b) vec ?_).symm
  intro x _ y _
  unfold rescale
  rw [add_le_add_iff_right, mul_le_mul_iff_right₀ ha]

theorem getVariance_nonneg {vec : List K} {mean variance : K}
    (h : getVariance vec mean = some variance) : 0 ≤ variance := by
  have hne : vec ≠ [] := by
    rintro rfl
    simp [getVariance] at h
  rw [getVariance_eq hne, Option.some.injEq] at h
  rw [← h]
  refine div_nonneg (List.sum_nonneg ?_) (Nat.cast_nonneg _)
  simp only [List.forall_mem_map]
  intro x _
  positivity

include hsqrt in
theorem getStd_rescale (vec : List K) (mean : K) :
    getStd sqrt (vec.map (rescale a b)) (rescale a b mean) =
      (getStd sqrt vec mean).map (a * ·) := by
  rw [getStd, getStd, getVariance_rescale]
  cases hvariance : getVariance vec mean with
  | none => rfl
  | some variance => exact congrArg some (hsqrt variance (getVariance_nonneg hvariance))

include ha hsqrt

theorem getSkew_rescale (vec : List K) (mean : K) :
    getSkew sqrt (vec.map (rescale a b)) (rescale a b mean) = getSkew sqrt vec mean := by
  have hquotient (median std : K) :
      ((3 : ℕ) : K) * (rescale a b mean - rescale a b median) / (a * std) =
        ((3 : ℕ) : K) * (mean - median) / std := by
    have hdiff : ((3 : ℕ) : K) * (rescale a b mean - rescale a b median) =
        a * (((3 : ℕ) : K) * (mean - median)) := by
      unfold rescale
      ring
    rw [hdiff, mul_div_mul_left _ _ ha.ne']
  simp only [getSkew, List.length_map, getStd_rescale hsqrt, getMedianSorted_rescale]
  split
  · rfl
  · cases getStd sqrt vec mean with
    | none => rfl
    | some std =>
      cases getMedianSorted vec with
      | error e => rfl
      | ok median =>
        cases median with
        | none => rfl
        | some median => exact congrArg (fun z ↦ Except.ok (some z)) (hquotient median std)

end Order

/-- The statistics of the samples `a * x + b`. -/
def Stat.rescale {K : Type} [Field K] (a b : K) (stat : Stat K) : Stat K where
  mean := stat.mean.map (UpZenohExample.rescale a b)
  median := stat.median.map (UpZenohExample.rescale a b)
  min := stat.min.map (UpZenohExample.rescale a b)
  max := stat.max.map (UpZenohExample.rescale a b)
  std := stat.std.map (a * ·)
  skew := stat.skew
  kurtosis := stat.kurtosis
  precentile90 := stat.precentile90.map (UpZenohExample.rescale a b)
  precentile95 := stat.precentile95.map (UpZenohExample.rescale a b)
  precentile99 := stat.precentile99.map (UpZenohExample.rescale a b)
  precentile75 := stat.precentile75.map (UpZenohExample.rescale a b)

section Stats

variable {K : Type} [Field K] [LinearOrder K] [IsStrictOrderedRing K] {sqrt : K → K} {a : K}
variable (ha : 0 < a) (hsqrt : ∀ x, 0 ≤ x → sqrt (a ^ 2 * x) = a * sqrt x) (b : K)

include ha hsqrt

theorem StatsOf.rescale {vec : List K} {stat stat' : Stat K} {mean std mean' std' : K}
    (h : StatsOf sqrt vec stat mean std)
    (h' : StatsOf sqrt (vec.map (UpZenohExample.rescale a b)) stat' mean' std') :
    stat' = stat.rescale a b := by
  have haverage := h'.average
  rw [getAverage_rescale, h.average] at haverage
  obtain rfl : UpZenohExample.rescale a b mean = mean' := Option.some.inj haverage
  have hspread := h'.spread
  rw [getStd_rescale hsqrt, h.spread] at hspread
  obtain rfl : a * std = std' := Option.some.inj hspread
  have hfield {p : ℤ} {field field' : Option K}
      (hp : getPercentileFromSortedVec vec p = .ok field)
      (hp' : getPercentileFromSortedVec (vec.map (UpZenohExample.rescale a b)) p = .ok field') :
      field' = field.map (UpZenohExample.rescale a b) := by
    rw [getPercentile_rescale, hp] at hp'
    exact (Except.ok.inj hp').symm
  have hskew : stat'.skew = stat.skew := by
    have hskew' := h'.skew_eq
    rw [getSkew_rescale ha hsqrt, h.skew_eq] at hskew'
    exact (Except.ok.inj hskew').symm
  have hkurtosis : stat'.kurtosis = stat.kurtosis := by
    rw [h'.kurtosis_eq, h.kurtosis_eq, getKurtosis_rescale b ha.ne']
  cases stat'
  simp only [Stat.rescale, Stat.mk.injEq]
  refine ⟨?_, hfield h.median_eq h'.median_eq, hfield h.min_eq h'.min_eq,
    hfield h.max_eq h'.max_eq, ?_, hskew, hkurtosis,
    hfield h.precentile90_eq h'.precentile90_eq,
    hfield h.precentile95_eq h'.precentile95_eq,
    hfield h.precentile99_eq h'.precentile99_eq,
    hfield h.precentile75_eq h'.precentile75_eq⟩
  · rw [h.mean_eq]
    exact h'.mean_eq
  · rw [h.std_eq]
    exact h'.std_eq

theorem getStats_rescale (vec : List K) :
    getStats sqrt (vec.map (rescale a b)) =
      (getStats sqrt vec).map (Option.map (Stat.rescale a b)) := by
  have hlength : (vec.map (rescale a b)).length = vec.length := List.length_map _
  by_cases h2 : vec.length < 2
  · rw [getStats_of_lt sqrt h2, getStats_of_lt sqrt (by omega)]
    rfl
  · by_cases hlt : vec.length < 2 ^ 31
    · obtain ⟨stat, hstat, -⟩ := getStats_eq_ok sqrt (not_lt.mp h2) hlt
      obtain ⟨stat', hstat', -⟩ : ∃ stat',
          getStats sqrt (vec.map (rescale a b)) = .ok (some stat') ∧ _ :=
        getStats_eq_ok sqrt (by omega) (by omega)
      obtain ⟨-, -, mean, std, hof⟩ := getStats_eq_some sqrt hstat
      obtain ⟨-, -, mean', std', hof'⟩ := getStats_eq_some sqrt hstat'
      rw [insertionSort_rescale ha] at hof'
      rw [hstat, hstat', hof.rescale ha hsqrt b hof']
      rfl
    · rw [getStats_of_le sqrt (not_lt.mp hlt), getStats_of_le sqrt (by omega)]
      rfl

end Stats

/-- In a unit that is `1 / a` as large, with `b` added to every sample.  The numbers
are real: with rounded ones equal samples may get a deviation by being rescaled. -/
theorem stats_in_other_unit {a : ℝ} (ha : 0 < a) (b : ℝ) (vec : List ℝ) :
    getStats Real.sqrt (vec.map (rescale a b)) =
      (getStats Real.sqrt vec).map (Option.map (Stat.rescale a b)) := by
  refine getStats_rescale ha ?_ b vec
  intro x _
  rw [Real.sqrt_mul (sq_nonneg a), Real.sqrt_sq ha.le]

/-- Seconds shown as milliseconds. -/
theorem stats_in_milliseconds :
    getStats Real.sqrt ([1, 2, 4].map (rescale 1000 0)) =
      (getStats Real.sqrt [1, 2, 4]).map (Option.map (Stat.rescale 1000 0)) :=
  stats_in_other_unit (by norm_num) 0 [1, 2, 4]

end UpZenohExample
