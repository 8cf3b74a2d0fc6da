import Mathlib.Analysis.Real.Sqrt
import UpZenohExample.Lib.Sample
import UpZenohExample.Percentiles

/-!
# Mean, spread and shape of the samples

In exact arithmetic `getAverage` and `getVariance` are the mean and the variance
of the sample, and the median is a middle value of it.
-/

namespace UpZenohExample

open Interpolation

section Field

variable {K : Type} [Field K]

theorem foldl_add_eq {α : Type} (f : α → K) (vec : List α) :
    vec.foldl (fun acc e ↦ acc + f e) 0 = (vec.map f).sum := by
  rw [List.sum_eq_foldl, List.foldl_map]

theorem getAverage_eq_mean {vec : List K} (hne : vec ≠ []) :
    getAverage vec = some (Sample.mean vec) := by
  have hlen : vec.length ≠ 0 := by simpa using hne
  simp only [getAverage, if_neg hlen]
  rw [← List.sum_eq_foldl, Sample.mean]

theorem getVariance_eq {vec : List K} (hne : vec ≠ []) (mean : K) :
    getVariance vec mean = some ((vec.map fun e ↦ (e - mean) ^ 2).sum / (vec.length : K)) := by
  have hlen : vec.length ≠ 0 := by simpa using hne
  simp only [getVariance, if_neg hlen]
  rw [foldl_add_eq (fun e ↦ (e - mean) ^ 2)]

theorem getVariance_mean {vec : List K} (hne : vec ≠ []) :
    getVariance vec (Sample.mean vec) = some (Sample.variance vec) :=
  getVariance_eq hne _

/-- The quotient of the integers `1 / size` is 0, so only the 3 is left. -/
theorem getKurtosis_eq {vec : List K} (h3 : 3 ≤ vec.length) (mean std : K) :
    getKurtosis vec mean std = some (-3) := by
  have hquotient : 1 / vec.length = 0 := Nat.div_eq_of_lt (by omega)
  simp only [getKurtosis, if_neg (not_lt.mpr h3), hquotient, Nat.cast_zero, zero_mul, zero_sub,
    Nat.cast_ofNat]

end Field

section Order

variable {K : Type} [Field K] [LinearOrder K] {vec : List K} {x : K}

/-- The value at the middle position has half of the vector on each side. -/
theorem IsPercentile.isMiddle (hpos : 0 < vec.length) (h : IsPercentile vec 50 x) :
    Sample.IsMiddle vec x := by
  have hposition : position 50 vec.length = ((vec.length : ℚ) - 1) / 2 := by
    rw [position, Nat.cast_sub hpos]
    push_cast
    ring
  have hfloor := Int.lt_floor_add_one (position 50 vec.length)
  have hceil := Int.ceil_lt_add_one (position 50 vec.length)
  have hatMost : ((⌊position 50 vec.length⌋ : ℤ) : ℚ) + 1 ≤ (vec.countP (· ≤ x) : ℕ) := by
    exact_mod_cast h.atMost
  have hbelow : ((vec.countP (· < x) : ℕ) : ℚ) ≤ (⌈position 50 vec.length⌉ : ℤ) := by
    exact_mod_cast h.below
  have hsplit : vec.length = vec.countP (· < x) + vec.countP (x ≤ ·) := by
    simpa using vec.length_eq_countP_add_countP (fun e ↦ decide (e < x))
  constructor
  · have hlt : (vec.length : ℚ) < 2 * (vec.countP (· ≤ x) : ℕ) + 1 := by linarith
    have hlt' : vec.length < 2 * vec.countP (· ≤ x) + 1 := by exact_mod_cast hlt
    omega
  · have hlt : 2 * ((vec.countP (· < x) : ℕ) : ℚ) < vec.length + 1 := by linarith
    have hlt' : 2 * vec.countP (· < x) < vec.length + 1 := by exact_mod_cast hlt
    omega

theorem IsPercentile.first_le_mem (hsorted : vec.Pairwise (· ≤ ·)) (h : IsPercentile vec 0 x) :
    ∀ e ∈ vec, x ≤ e := by
  have hhead := h.eq_first rfl
  obtain ⟨rest, rfl⟩ := List.head?_eq_some_iff.mp hhead
  intro e he
  rcases List.mem_cons.mp he with rfl | he
  · exact le_refl _
  · exact List.rel_of_pairwise_cons hsorted he

theorem IsPercentile.mem_le_last (hsorted : vec.Pairwise (· ≤ ·)) (h : IsPercentile vec 100 x) :
    ∀ e ∈ vec, e ≤ x := by
  have hlast := h.eq_last rfl
  obtain ⟨front, rfl⟩ := List.getLast?_eq_some_iff.mp hlast
  intro e he
  rcases List.mem_append.mp he with he | he
  · exact (List.pairwise_append.mp hsorted).2.2 e he x (List.mem_singleton_self x)
  · exact (List.mem_singleton.mp he).le

variable [IsStrictOrderedRing K]

theorem exists_isPercentile (hpos : 0 < vec.length) (hlt : vec.length < 2 ^ 31)
    (hsorted : vec.Pairwise (· ≤ ·)) {p : ℤ} (h0 : 0 ≤ p) (h100 : p ≤ 100) {field : Option K}
    (h : getPercentileFromSortedVec vec p = .ok field) :
    ∃ x, field = some x ∧ IsPercentile vec p x := by
  have hx := isPercentile_interpolate hpos hsorted h0 h100 (position_fits h100 hpos hlt)
  have hvalue := hx.value
  rw [h] at hvalue
  exact ⟨_, Except.ok.inj hvalue, hx⟩

/-- The fields of a report against the sample it was computed from. -/
structure Describes (sqrt : K → K) (vec : List K) (stat : Stat K) (min median max : K) :
    Prop where
  mean_eq : stat.mean = some (Sample.mean vec)
  min_eq : stat.min = some min
  median_eq : stat.median = some median
  max_eq : stat.max = some max
  std_eq : stat.std = some (sqrt (Sample.variance vec))
  skew_eq : 3 ≤ vec.length →
    stat.skew = some (3 * (Sample.mean vec - median) / sqrt (Sample.variance vec))
  kurtosis_eq : 3 ≤ vec.length → stat.kurtosis = some (-3)
  min_le : ∀ e ∈ vec, min ≤ e
  le_max : ∀ e ∈ vec, e ≤ max
  middle : Sample.IsMiddle vec median

theorem getStats_describes {sqrt : K → K} {stat : Stat K}
    (h : getStats sqrt vec = .ok (some stat)) :
    ∃ min median max, Describes sqrt vec stat min median max := by
  obtain ⟨h2, hlt, mean, std, hstat⟩ := getStats_eq_some sqrt h
  have hmedian := getStats_median h
  have hperm := List.perm_insertionSort (· ≤ ·) vec
  have hsorted := List.pairwise_insertionSort (· ≤ ·) vec
  -- From here on the sort is only a sorted permutation.
  generalize vec.insertionSort (· ≤ ·) = sorted at hstat hmedian hperm hsorted
  have hlen := hperm.length_eq
  have hpos : 0 < sorted.length := by omega
  have hne : sorted ≠ [] := List.length_pos_iff.mp hpos
  obtain rfl : mean = Sample.mean vec := by
    have haverage := hstat.average
    rw [getAverage_eq_mean hne, Sample.mean_perm hperm] at haverage
    exact (Option.some.inj haverage).symm
  have hspread : getStd sqrt sorted (Sample.mean vec) = some (sqrt (Sample.variance vec)) := by
    rw [← Sample.mean_perm hperm, getStd, getVariance_mean hne, Sample.variance_perm hperm]
    rfl
  have hfield {p : ℤ} {field : Option K} (h0 : 0 ≤ p) (h100 : p ≤ 100)
      (hp : getPercentileFromSortedVec sorted p = .ok field) :
      ∃ x, field = some x ∧ IsPercentile sorted p x :=
    exists_isPercentile hpos (by omega) hsorted h0 h100 hp
  obtain ⟨min, hminEq, hmin⟩ := hfield (by omega) (by omega) hstat.min_eq
  obtain ⟨median, hmedianEq, hmiddle⟩ := hfield (by omega) (by omega) hstat.median_eq
  obtain ⟨max, hmaxEq, hmax⟩ := hfield (by omega) (by omega) hstat.max_eq
  refine ⟨min, median, max, ?_⟩
  exact {
    mean_eq := hstat.mean_eq
    min_eq := hminEq
    median_eq := hmedianEq
    max_eq := hmaxEq
    std_eq := by rw [hstat.std_eq, ← hstat.spread, hspread]
    skew_eq := by
      intro h3
      have hle : 3 ≤ sorted.length := by omega
      have hskew := hstat.skew_eq
      rw [hmedianEq] at hmedian
      simp only [getSkew, if_neg (not_lt.mpr hle), hspread, hmedian, bind, Except.bind] at hskew
      exact (Except.ok.inj hskew).symm
    kurtosis_eq := by
      intro h3
      rw [hstat.kurtosis_eq, getKurtosis_eq (by omega)]
    min_le := fun e he ↦ hmin.first_le_mem hsorted e (hperm.mem_iff.mpr he)
    le_max := fun e he ↦ hmax.mem_le_last hsorted e (hperm.mem_iff.mpr he)
    middle := (hmiddle.isMiddle hpos).of_perm hperm }

/-- The mean and the order statistics lie between `lo` and `hi`. -/
def Stat.Between (stat : Stat K) (lo hi : K) : Prop :=
  ∀ field ∈ stat.mean :: stat.ascending, ∃ x, field = some x ∧ lo ≤ x ∧ x ≤ hi

theorem getStats_between {sqrt : K → K} {stat : Stat K} {lo hi : K}
    (h : getStats sqrt vec = .ok (some stat)) (hvec : ∀ e ∈ vec, lo ≤ e ∧ e ≤ hi) :
    stat.Between lo hi := by
  obtain ⟨h2, hlt, mean, std, hstat⟩ := getStats_eq_some sqrt h
  obtain ⟨min, median, max, hdescribes⟩ := getStats_describes h
  have hperm := List.perm_insertionSort (· ≤ ·) vec
  have hsorted := List.pairwise_insertionSort (· ≤ ·) vec
  generalize vec.insertionSort (· ≤ ·) = sorted at hstat hperm hsorted
  have hlen := hperm.length_eq
  have hpos : 0 < sorted.length := by omega
  have hne : vec ≠ [] := List.length_pos_iff.mp (by omega)
  intro field hfield
  rcases List.mem_cons.mp hfield with rfl | hascending
  · exact ⟨_, hdescribes.mean_eq, Sample.le_mean hne fun e he ↦ (hvec e he).1,
      Sample.mean_le hne fun e he ↦ (hvec e he).2⟩
  · rw [hstat.ascending_eq hpos (by omega), List.map_map] at hascending
    obtain ⟨p, hp, rfl⟩ := List.mem_map.mp hascending
    have hclamped : ∀ k, lo ≤ clamped sorted hpos k ∧ clamped sorted hpos k ≤ hi :=
      fun k ↦ hvec _ (hperm.mem_iff.mp (List.get_mem _ _))
    have hpercentages : ∀ q ∈ ([0, 50, 75, 90, 95, 99, 100] : List ℤ), 0 ≤ q := by decide
    exact ⟨_, rfl, interpolate_between (clamped_monotone hsorted hpos) hclamped
      (position_nonneg (hpercentages p hp) _)⟩

end Order

/-! ## The spread of a real sample -/

/-- Within one standard deviation, and so three times that for the skew. -/
theorem skew_bounds {d variance : ℝ} (h : d ^ 2 ≤ variance) (hpos : 0 < variance) :
    -3 ≤ 3 * d / √variance ∧ 3 * d / √variance ≤ 3 := by
  have hsqrt : 0 < √variance := Real.sqrt_pos.mpr hpos
  obtain ⟨hlow, hhigh⟩ := abs_le.mp (Real.abs_le_sqrt h)
  constructor
  · rw [le_div_iff₀ hsqrt]
    linarith
  · rw [div_le_iff₀ hsqrt]
    linarith

/-- How the reported mean, median and extremes fit to the variance. -/
structure SpreadFits (vec : List ℝ) (stat : Stat ℝ) (mean median min max variance skew : ℝ) :
    Prop where
  mean_eq : stat.mean = some mean
  median_eq : stat.median = some median
  min_eq : stat.min = some min
  max_eq : stat.max = some max
  skew_eq : stat.skew = some skew
  variance_eq : getVariance vec mean = some variance
  std_eq : stat.std = some (√variance)
  min_le : min ≤ mean
  le_max : mean ≤ max
  median_near : (mean - median) ^ 2 ≤ variance
  skew_value : 0 < variance → skew = 3 * (mean - median) / √variance
  skew_low : 0 < variance → -3 ≤ skew
  skew_high : 0 < variance → skew ≤ 3

theorem mean_median_spread {vec : List ℝ} {stat : Stat ℝ} (h3 : 3 ≤ vec.length)
    (h : getStats Real.sqrt vec = .ok (some stat)) :
    ∃ mean median min max variance skew,
      SpreadFits vec stat mean median min max variance skew := by
  have hne : vec ≠ [] := List.length_pos_iff.mp (by omega)
  obtain ⟨min, median, max, hstat⟩ := getStats_describes h
  have hspread := Sample.sq_mean_sub_le_variance hne hstat.middle
  refine ⟨Sample.mean vec, median, min, max, Sample.variance vec,
    3 * (Sample.mean vec - median) / √(Sample.variance vec), ?_⟩
  exact {
    mean_eq := hstat.mean_eq
    median_eq := hstat.median_eq
    min_eq := hstat.min_eq
    max_eq := hstat.max_eq
    skew_eq := hstat.skew_eq h3
    variance_eq := getVariance_mean hne
    std_eq := hstat.std_eq
    min_le := Sample.le_mean hne hstat.min_le
    le_max := Sample.mean_le hne hstat.le_max
    median_near := hspread
    skew_value := fun _ ↦ rfl
    skew_low := fun hpos ↦ (skew_bounds hspread hpos).1
    skew_high := fun hpos ↦ (skew_bounds hspread hpos).2 }

theorem mean_median_spread_four :
    ∃ stat, getStats Real.sqrt [4, 1, 1, 2] = .ok (some stat) ∧
      ∃ mean median min max variance skew,
        SpreadFits [4, 1, 1, 2] stat mean median min max variance skew := by
  have hlen : 2 ≤ [(4 : ℝ), 1, 1, 2].length := by simp
  obtain ⟨stat, hstat, -⟩ := getStats_eq_ok Real.sqrt hlen (by simp)
  exact ⟨stat, hstat, mean_median_spread (by simp) hstat⟩

/-! ## The kurtosis -/

theorem getKurtosis_eq_excess_iff {K : Type} [Field K] [LinearOrder K] [IsStrictOrderedRing K]
    {vec : List K} (h3 : 3 ≤ vec.length) {mean std : K} (hstd : std ≠ 0) :
    getKurtosis vec mean std = some (Sample.excessKurtosis vec mean std) ↔
      ∀ e ∈ vec, e = mean := by
  have hne : vec ≠ [] := List.length_pos_iff.mp (by omega)
  rw [getKurtosis_eq h3, Option.some.injEq, eq_comm,
    Sample.excessKurtosis_eq_neg_three_iff hne hstd]

theorem kurtosis_is_excess_iff {vec : List ℝ} (h3 : 3 ≤ vec.length) :
    (∀ mean std : ℝ, std ≠ 0 →
      (getKurtosis vec mean std = some (Sample.excessKurtosis vec mean std) ↔
        ∀ e ∈ vec, e = mean)) ∧
    ∀ (stat : Stat ℝ) (mean std variance : ℝ), getStats Real.sqrt vec = .ok (some stat) →
      stat.mean = some mean → stat.std = some std → getVariance vec mean = some variance →
      0 < variance →
      -2 ≤ Sample.excessKurtosis vec mean std ∧
        ∃ kurtosis, stat.kurtosis = some kurtosis ∧ ¬ -2 ≤ kurtosis := by
  constructor
  · intro mean std hstd
    exact getKurtosis_eq_excess_iff h3 hstd
  · intro stat mean std variance h hmean hstd hvariance hpos
    have hne : vec ≠ [] := List.length_pos_iff.mp (by omega)
    obtain ⟨_, _, _, hstat⟩ := getStats_describes h
    obtain rfl := Option.some.inj (hstat.mean_eq.symm.trans hmean)
    obtain rfl := Option.some.inj (hstat.std_eq.symm.trans hstd)
    obtain rfl := Option.some.inj ((getVariance_mean hne).symm.trans hvariance)
    constructor
    · exact Sample.neg_two_le_excessKurtosis hne (Real.sq_sqrt hpos.le) hpos
    · exact ⟨-3, hstat.kurtosis_eq h3, by norm_num⟩

theorem kurtosis_is_excess_iff_three :
    (getKurtosis [1, 2, 6] 2 1 = some (Sample.excessKurtosis [1, 2, 6] (2 : ℝ) 1) ↔
        ∀ e ∈ [(1 : ℝ), 2, 6], e = 2) ∧
      ∃ stat, getStats Real.sqrt [1, 2, 6] = .ok (some stat) ∧
        -2 ≤ Sample.excessKurtosis [1, 2, 6] (3 : ℝ) (√(14 / 3)) ∧
        ∃ kurtosis, stat.kurtosis = some kurtosis ∧ ¬ -2 ≤ kurtosis := by
  have h3 : 3 ≤ [(1 : ℝ), 2, 6].length := by simp
  refine ⟨(kurtosis_is_excess_iff h3).1 2 1 one_ne_zero, ?_⟩
  have hne : [(1 : ℝ), 2, 6] ≠ [] := by simp
  have hmean : Sample.mean [(1 : ℝ), 2, 6] = 3 := by norm_num [Sample.mean]
  have hvariance : Sample.variance [(1 : ℝ), 2, 6] = 14 / 3 := by
    norm_num [Sample.variance, hmean]
  obtain ⟨stat, hstat, -⟩ := getStats_eq_ok Real.sqrt (Nat.le_of_succ_le h3) (by simp)
  obtain ⟨_, _, _, hfields⟩ := getStats_describes hstat
  have hmeanEq := hfields.mean_eq
  have hstdEq := hfields.std_eq
  have hspread := getVariance_mean hne
  rw [hmean] at hmeanEq hspread
  rw [hvariance] at hstdEq hspread
  exact ⟨stat, hstat, (kurtosis_is_excess_iff h3).2 stat 3 _ _ hstat hmeanEq hstdEq hspread
    (by norm_num)⟩

/-- A sample with mean 2: the sum of the fourth powers is 2, but 0 is reported for
its third. -/
theorem kurtosis_of_one_two_three :
    getKurtosis [1, 2, 3] (2 : ℚ) 1 ≠ some (Sample.excessKurtosis [1, 2, 3] (2 : ℚ) 1) := by
  rw [getKurtosis_eq (by simp), Sample.excessKurtosis]
  norm_num

end UpZenohExample
