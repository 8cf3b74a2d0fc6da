import UpZenohExample.Lib.Checked
import UpZenohExample.Moments

/-!
# The divisions of `getStats`

The statistics are run at numbers that record a division by zero.  The divisions
outside these numbers are that of a percentage by 100 and, behind the test for
three elements, that of 1 by the size.
-/

namespace UpZenohExample

open Checked

section Functions

theorem element_value {K : Type} (vec : List K) (i : ℕ) :
    element (vec.map value) i = (element vec i).map value := by
  rw [element, element, List.getElem?_map]
  cases vec[i]? <;> rfl

variable {K : Type} [Field K]

theorem getPercentile_value (vec : List K) (p : ℤ) :
    getPercentileFromSortedVec (vec.map value) p =
      (getPercentileFromSortedVec vec p).map (Option.map value) := by
  have hsize : sizePred (vec.map value) = sizePred vec := by
    rw [sizePred, sizePred, List.length_map]
  simp only [getPercentileFromSortedVec, hsize, element_value]
  split
  · rfl
  · cases truncToInt ((p : ℚ) / 100 * sizePred vec + 1) with
    | error e => rfl
    | ok i =>
      simp only [bind, Except.bind]
      cases element vec (i - 1) with
      | error e => split <;> rfl
      | ok a =>
        split
        · rfl
        · cases element vec i <;> rfl

variable [DecidableEq K]

theorem getKurtosis_value {vec : List K} {mean std : K} (hsafe : vec.length < 3 ∨ std ≠ 0) :
    getKurtosis (vec.map value) (value mean) (value std) =
      (getKurtosis vec mean std).map value := by
  simp only [getKurtosis, List.length_map]
  split
  · rfl
  · rename_i hlen
    have hstd : std ≠ 0 := hsafe.resolve_left hlen
    have hfold := foldl_value (fun acc e : K ↦ acc + ((e - mean) / std) ^ 4)
      (fun acc e ↦ acc + ((e - value mean) / value std) ^ 4)
      (fun _ _ ↦ by rw [value_sub, value_div hstd, value_pow, value_add]) vec 0
    rw [value_zero, hfold]
    rfl

/-- Each term of the sum is a quotient by zero. -/
theorem getKurtosis_divByZero {vec : List K} (h3 : 3 ≤ vec.length) (mean : K) :
    getKurtosis (vec.map value) (value mean) (value 0) = some .divByZero := by
  have hne : vec ≠ [] := List.length_pos_iff.mp (by omega)
  have hterm (acc : Checked K) (e : K) :
      acc + ((value e - value mean) / value 0) ^ 4 = divByZero := by
    rw [value_sub, value_div_zero, divByZero_pow, add_divByZero]
  simp only [getKurtosis, List.length_map, if_neg (not_lt.mpr h3), List.foldl_map]
  rw [foldl_divByZero hterm hne, mul_divByZero, divByZero_sub]

variable [CharZero K]

theorem getAverage_value (vec : List K) :
    getAverage (vec.map value) = (getAverage vec).map value := by
  simp only [getAverage, List.length_map]
  by_cases hlen : vec.length = 0
  · simp [hlen]
  · have hsize : (vec.length : K) ≠ 0 := Nat.cast_ne_zero.mpr hlen
    have hfold := foldl_value (fun acc e : K ↦ acc + e) (fun acc e ↦ acc + e)
      (fun _ _ ↦ rfl) vec 0
    rw [if_neg hlen, if_neg hlen, value_zero, hfold, natCast_eq, value_div hsize]
    rfl

theorem getVariance_value (vec : List K) (mean : K) :
    getVariance (vec.map value) (value mean) = (getVariance vec mean).map value := by
  simp only [getVariance, List.length_map]
  by_cases hlen : vec.length = 0
  · simp [hlen]
  · have hsize : (vec.length : K) ≠ 0 := Nat.cast_ne_zero.mpr hlen
    have hfold := foldl_value (fun acc e : K ↦ acc + (e - mean) ^ 2)
      (fun acc e ↦ acc + (e - value mean) ^ 2) (fun _ _ ↦ rfl) vec 0
    rw [if_neg hlen, if_neg hlen, value_zero, hfold, natCast_eq, value_div hsize]
    rfl

theorem getStd_value (sqrt : K → K) (vec : List K) (mean : K) :
    getStd (Checked.map sqrt) (vec.map value) (value mean) =
      (getStd sqrt vec mean).map value := by
  rw [getStd, getStd, getVariance_value]
  cases getVariance vec mean <;> rfl

theorem getMedianSorted_value (vec : List K) :
    getMedianSorted (vec.map value) = (getMedianSorted vec).map (Option.map value) := by
  have htwo : ((2 : ℕ) : K) ≠ 0 := Nat.cast_ne_zero.mpr two_ne_zero
  have hmiddle (a b : K) :
      (value a + value b) / ((2 : ℕ) : Checked K) = value ((a + b) / ((2 : ℕ) : K)) := by
    rw [value_add, natCast_eq, value_div htwo]
  simp only [getMedianSorted, List.length_map, element_value]
  split
  · rfl
  · split
    · cases element vec (vec.length / 2 - 1) with
      | error e => rfl
      | ok a =>
        cases element vec (vec.length / 2) with
        | error e => rfl
        | ok b => exact congrArg (fun x ↦ Except.ok (some x)) (hmiddle a b)
    · cases element vec (vec.length / 2) <;> rfl

theorem getSkew_value {sqrt : K → K} {vec : List K} {mean : K}
    (hsafe : vec.length < 3 ∨ getStd sqrt vec mean ≠ some 0) :
    getSkew (Checked.map sqrt) (vec.map value) (value mean) =
      (getSkew sqrt vec mean).map (Option.map value) := by
  simp only [getSkew, List.length_map, getStd_value, getMedianSorted_value]
  split
  · rfl
  · rename_i hlen
    cases hstd : getStd sqrt vec mean with
    | none => rfl
    | some std =>
      have hne : std ≠ 0 := by
        rintro rfl
        exact hsafe.elim hlen fun h ↦ h hstd
      cases getMedianSorted vec with
      | error e => rfl
      | ok median =>
        cases median with
        | none => rfl
        | some median =>
          exact congrArg (fun x ↦ Except.ok (some x)) (value_div hne _)

theorem getSkew_divByZero {sqrt : K → K} {vec : List K} {mean : K} (h3 : 3 ≤ vec.length)
    (hzero : getStd sqrt vec mean = some 0) :
    getSkew (Checked.map sqrt) (vec.map value) (value mean) = .ok (some .divByZero) := by
  obtain ⟨median, hmedian⟩ := getMedianSorted_eq_ok (show 2 ≤ vec.length by omega)
  simp only [getSkew, List.length_map, if_neg (not_lt.mpr h3), getStd_value, hzero,
    getMedianSorted_value, hmedian]
  exact congrArg (fun x ↦ Except.ok (some x)) (value_div_zero _)

end Functions

def Stat.map {α β : Type} (f : α → β) (stat : Stat α) : Stat β where
  mean := stat.mean.map f
  median := stat.median.map f
  min := stat.min.map f
  max := stat.max.map f
  std := stat.std.map f
  skew := stat.skew.map f
  kurtosis := stat.kurtosis.map f
  precentile90 := stat.precentile90.map f
  precentile95 := stat.precentile95.map f
  precentile99 := stat.precentile99.map f
  precentile75 := stat.precentile75.map f

/-- No field is a quotient by zero, or was computed from one. -/
def Stat.Defined {α : Type} (stat : Stat (Checked α)) : Prop :=
  ∀ field ∈ stat.precentile75 :: stat.columns, field ≠ some .divByZero

theorem Stat.defined_map {α : Type} (stat : Stat α) : (stat.map value).Defined := by
  have hmap (field : Option α) : field.map value ≠ some .divByZero := by
    cases field <;> simp
  simp [Stat.Defined, Stat.columns, Stat.map, hmap]

section Run

variable {K : Type} [Field K] [LinearOrder K] [IsStrictOrderedRing K] {sqrt : K → K} {vec : List K}
  {stat : Stat K} {checked : Stat (Checked K)}

/-- The two runs sort alike and have the same mean and standard deviation. -/
theorem exists_statsOf (h : getStats sqrt vec = .ok (some stat))
    (h' : getStats (Checked.map sqrt) (vec.map value) = .ok (some checked)) :
    ∃ sorted mean std, sorted.length = vec.length ∧ StatsOf sqrt sorted stat mean std ∧
      StatsOf (Checked.map sqrt) (sorted.map value) checked (value mean) (value std) := by
  obtain ⟨-, -, mean, std, hstat⟩ := getStats_eq_some sqrt h
  obtain ⟨-, -, mean', std', hchecked⟩ := getStats_eq_some (Checked.map sqrt) h'
  rw [insertionSort_value] at hchecked
  have haverage := hchecked.average
  rw [getAverage_value, hstat.average] at haverage
  obtain rfl := (Option.some.inj haverage).symm
  have hspread := hchecked.spread
  rw [getStd_value, hstat.spread] at hspread
  obtain rfl := (Option.some.inj hspread).symm
  exact ⟨_, mean, std, List.length_insertionSort _ _, hstat, hchecked⟩

/-- Without a division by zero the recording run computes the same statistics. -/
theorem getStats_value (h : getStats sqrt vec = .ok (some stat))
    (h' : getStats (Checked.map sqrt) (vec.map value) = .ok (some checked))
    (hsafe : vec.length < 3 ∨ stat.std ≠ some 0) : checked = stat.map value := by
  obtain ⟨sorted, mean, std, hlen, hstat, hchecked⟩ := exists_statsOf h h'
  rw [← hlen, hstat.std_eq, ← hstat.spread] at hsafe
  have hfield {p : ℤ} {field : Option K} {field' : Option (Checked K)}
      (hp : getPercentileFromSortedVec sorted p = .ok field)
      (hp' : getPercentileFromSortedVec (sorted.map value) p = .ok field') :
      field' = field.map value := by
    rw [getPercentile_value, hp] at hp'
    exact (Except.ok.inj hp').symm
  have hskew : checked.skew = stat.skew.map value := by
    have hskew' := hchecked.skew_eq
    rw [getSkew_value hsafe, hstat.skew_eq] at hskew'
    exact (Except.ok.inj hskew').symm
  have hkurtosis : checked.kurtosis = stat.kurtosis.map value := by
    have hstd : sorted.length < 3 ∨ std ≠ 0 :=
      hsafe.imp_right fun hne hzero ↦ hne (by rw [hstat.spread, hzero])
    rw [hchecked.kurtosis_eq, hstat.kurtosis_eq, getKurtosis_value hstd]
  cases checked
  simp only [Stat.map, Stat.mk.injEq]
  refine ⟨?_, hfield hstat.median_eq hchecked.median_eq, hfield hstat.min_eq hchecked.min_eq,
    hfield hstat.max_eq hchecked.max_eq, ?_, hskew, hkurtosis,
    hfield hstat.precentile90_eq hchecked.precentile90_eq,
    hfield hstat.precentile95_eq hchecked.precentile95_eq,
    hfield hstat.precentile99_eq hchecked.precentile99_eq,
    hfield hstat.precentile75_eq hchecked.precentile75_eq⟩
  · rw [hstat.mean_eq]
    exact hchecked.mean_eq
  · rw [hstat.std_eq]
    exact hchecked.std_eq

/-- With a standard deviation of zero the skew and the kurtosis are quotients by
zero. -/
theorem getStats_divByZero (h : getStats sqrt vec = .ok (some stat))
    (h' : getStats (Checked.map sqrt) (vec.map value) = .ok (some checked))
    (h3 : 3 ≤ vec.length) (hzero : stat.std = some 0) :
    checked.skew = some .divByZero ∧ checked.kurtosis = some .divByZero := by
  obtain ⟨sorted, mean, std, hlen, hstat, hchecked⟩ := exists_statsOf h h'
  obtain rfl : std = 0 := Option.some.inj (hstat.std_eq.symm.trans hzero)
  have hle : 3 ≤ sorted.length := by omega
  have hskew := hchecked.skew_eq
  rw [getSkew_divByZero hle hstat.spread] at hskew
  rw [hchecked.kurtosis_eq, getKurtosis_divByZero hle]
  exact ⟨(Except.ok.inj hskew).symm, rfl⟩

end Run

/-! ## Samples that divide by zero -/

/-- What the report of a sample says about the divisions: none was by zero, and
where the skew and the kurtosis are undefined they are missing. -/
def DividesSafely (vec : List ℝ) : Prop :=
  ∀ stat, getStats (Checked.map Real.sqrt) (vec.map value) = .ok (some stat) →
    stat.Defined ∧
      (vec.length < 3 ∨ stat.std = some (value 0) → stat.skew = none ∧ stat.kurtosis = none)

/-- The standard deviation is zero exactly for constant samples. -/
theorem getStats_std_eq_zero_iff {vec : List ℝ} {stat : Stat ℝ}
    (h : getStats Real.sqrt vec = .ok (some stat)) :
    stat.std = some 0 ↔ ∀ a ∈ vec, ∀ b ∈ vec, a = b := by
  obtain ⟨h2, -, -⟩ := getStats_eq_some Real.sqrt h
  have hne : vec ≠ [] := List.length_pos_iff.mp (by omega)
  obtain ⟨_, _, _, hfields⟩ := getStats_describes h
  rw [hfields.std_eq, Option.some.injEq, Real.sqrt_eq_zero (Sample.variance_nonneg vec),
    Sample.variance_eq_zero_iff hne]
  constructor
  · intro hall a ha b hb
    rw [hall a ha, hall b hb]
  · intro hall a ha
    have hlow : a ≤ Sample.mean vec := Sample.le_mean hne fun b hb ↦ (hall a ha b hb).le
    have hhigh : Sample.mean vec ≤ a := Sample.mean_le hne fun b hb ↦ (hall b hb a ha).le
    exact le_antisymm hlow hhigh

theorem getStats_of_few {vec : List ℝ} {stat : Stat ℝ}
    (h : getStats Real.sqrt vec = .ok (some stat)) (h3 : vec.length < 3) :
    stat.skew = none ∧ stat.kurtosis = none := by
  obtain ⟨-, -, mean, std, hstat⟩ := getStats_eq_some Real.sqrt h
  have hlen : (vec.insertionSort (· ≤ ·)).length = vec.length := List.length_insertionSort _ _
  have hskew := hstat.skew_eq
  rw [getSkew_of_lt Real.sqrt (by omega)] at hskew
  have hkurtosis := hstat.kurtosis_eq
  rw [getKurtosis, if_pos (by omega)] at hkurtosis
  exact ⟨(Except.ok.inj hskew).symm, hkurtosis⟩

/-- There is a report at the recording numbers where there is one. -/
theorem exists_reports {vec : List ℝ} (h2 : 2 ≤ vec.length) (hlt : vec.length < 2 ^ 31) :
    ∃ stat checked, getStats Real.sqrt vec = .ok (some stat) ∧
      getStats (Checked.map Real.sqrt) (vec.map value) = .ok (some checked) := by
  have hlen : (vec.map value).length = vec.length := List.length_map _
  obtain ⟨stat, hstat, -⟩ := getStats_eq_ok Real.sqrt h2 hlt
  obtain ⟨checked, hchecked, -⟩ :=
    getStats_eq_ok (Checked.map Real.sqrt) (hlen.symm ▸ h2) (hlen.symm ▸ hlt)
  exact ⟨stat, checked, hstat, hchecked⟩

theorem dividesSafely_of_ne {vec : List ℝ}
    (h : vec.length < 3 ∨ ∃ a ∈ vec, ∃ b ∈ vec, a ≠ b) : DividesSafely vec := by
  intro checked hchecked
  obtain ⟨h2, hlt, -⟩ := getStats_eq_some (Checked.map Real.sqrt) hchecked
  rw [List.length_map] at h2 hlt
  obtain ⟨stat, -, hstat, -⟩ := exists_reports h2 hlt
  have hsafe : vec.length < 3 ∨ stat.std ≠ some 0 := by
    refine h.imp_right ?_
    rintro ⟨a, ha, b, hb, hne⟩ hzero
    exact hne ((getStats_std_eq_zero_iff hstat).mp hzero a ha b hb)
  obtain rfl := getStats_value hstat hchecked hsafe
  refine ⟨stat.defined_map, ?_⟩
  intro hundefined
  have h3 : vec.length < 3 := by
    rcases hundefined with h3 | hzero
    · exact h3
    · refine hsafe.resolve_right (not_not_intro ?_)
      obtain ⟨std, hstd, hvalue⟩ := Option.map_eq_some_iff.mp hzero
      rw [hstd, Checked.value.inj hvalue]
  obtain ⟨hskew, hkurtosis⟩ := getStats_of_few hstat h3
  simp [Stat.map, hskew, hkurtosis]

theorem not_dividesSafely_of_constant {vec : List ℝ} (h3 : 3 ≤ vec.length)
    (hlt : vec.length < 2 ^ 31) (hall : ∀ a ∈ vec, ∀ b ∈ vec, a = b) : ¬ DividesSafely vec := by
  intro hsafe
  obtain ⟨stat, checked, hstat, hchecked⟩ := exists_reports (by omega) hlt
  have hzero := (getStats_std_eq_zero_iff hstat).mpr hall
  obtain ⟨hskew, -⟩ := getStats_divByZero hstat hchecked h3 hzero
  obtain ⟨hdefined, -⟩ := hsafe checked hchecked
  exact hdefined checked.skew (by simp [Stat.columns]) hskew

theorem divides_safely_iff (vec : List ℝ) :
    DividesSafely vec ↔
      vec.length < 3 ∨ 2 ^ 31 ≤ vec.length ∨ ∃ a ∈ vec, ∃ b ∈ vec, a ≠ b := by
  constructor
  · intro hsafe
    by_contra hnone
    push Not at hnone
    obtain ⟨h3, hlt, hall⟩ := hnone
    exact not_dividesSafely_of_constant h3 hlt hall hsafe
  · rintro (h3 | hle | hne)
    · exact dividesSafely_of_ne (Or.inl h3)
    · intro checked hchecked
      obtain ⟨-, hlt, -⟩ := getStats_eq_some (Checked.map Real.sqrt) hchecked
      rw [List.length_map] at hlt
      omega
    · exact dividesSafely_of_ne (Or.inr hne)

/-- Three equal samples. -/
theorem constant_sample_divides :
    ¬ DividesSafely [1, 1, 1] ∧
      ∃ stat, getStats (Checked.map Real.sqrt) ([1, 1, 1].map value) = .ok (some stat) ∧
        stat.skew = some .divByZero ∧ stat.kurtosis = some .divByZero := by
  have hall : ∀ a ∈ [(1 : ℝ), 1, 1], ∀ b ∈ [(1 : ℝ), 1, 1], a = b := by simp
  have h3 : 3 ≤ [(1 : ℝ), 1, 1].length := by simp
  have hlt : [(1 : ℝ), 1, 1].length < 2 ^ 31 := by simp
  constructor
  · exact not_dividesSafely_of_constant h3 hlt hall
  · obtain ⟨stat, checked, hstat, hchecked⟩ := exists_reports (by omega) hlt
    have hzero := (getStats_std_eq_zero_iff hstat).mpr hall
    exact ⟨checked, hchecked, getStats_divByZero hstat hchecked h3 hzero⟩

end UpZenohExample
