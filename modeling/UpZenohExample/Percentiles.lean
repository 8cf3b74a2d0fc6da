import UpZenohExample.Lib.Interpolation
import UpZenohExample.Stats

/-!
# The laws of the percentiles

In exact arithmetic a percentile is the value interpolated at a fractional
position of the sorted vector.  It exists when the position, counted from 1,
fits an `int`.
-/

namespace UpZenohExample

open Interpolation

section Percentile

variable {K : Type} [Field K] [LinearOrder K] [IsStrictOrderedRing K]

omit [IsStrictOrderedRing K] [LinearOrder K] in
/-- The two branches of the code are the interpolated value. -/
theorem getPercentile_eq_interpolate {vec : List K} (hpos : 0 < vec.length) {p : ℤ} (h0 : 0 ≤ p)
    (h100 : p ≤ 100) (hfit : position p vec.length + 1 < 2 ^ 31) :
    getPercentileFromSortedVec vec p =
      .ok (some (interpolate (clamped vec hpos) (position p vec.length))) := by
  rw [getPercentile_eq hpos h0 h100 hfit]
  by_cases hnat : position p vec.length = ⌊position p vec.length⌋₊
  · simp only [if_pos hnat]
    conv_rhs => rw [hnat, interpolate_natCast]
  · simp only [if_neg hnat]
    rfl

/-- `x` is the percentile, between the ends of the vector, and the numbers of
elements up to it and below it are those of its position. -/
structure IsPercentile (vec : List K) (p : ℤ) (x : K) : Prop where
  value : getPercentileFromSortedVec vec p = .ok (some x)
  first_le : ∀ first ∈ vec.head?, first ≤ x
  le_last : ∀ last ∈ vec.getLast?, x ≤ last
  eq_first : p = 0 → vec.head? = some x
  eq_last : p = 100 → vec.getLast? = some x
  atMost : ⌊position p vec.length⌋ + 1 ≤ (vec.countP (· ≤ x) : ℤ)
  below : (vec.countP (· < x) : ℤ) ≤ ⌈position p vec.length⌉

theorem isPercentile_interpolate {vec : List K} (hpos : 0 < vec.length)
    (hsorted : vec.Pairwise (· ≤ ·)) {p : ℤ} (h0 : 0 ≤ p) (h100 : p ≤ 100)
    (hfit : position p vec.length + 1 < 2 ^ 31) :
    IsPercentile vec p (interpolate (clamped vec hpos) (position p vec.length)) := by
  have hmono := clamped_monotone hsorted hpos
  have hnonneg := position_nonneg h0 vec.length
  have hfloor := floor_position_lt h100 hpos
  have hceil := ceil_position_lt h100 hpos
  have hlow := floor_le_interpolate hmono hnonneg
  have hhigh := interpolate_le_ceil hmono hnonneg
  have hheadLe := hmono (Nat.zero_le ⌊position p vec.length⌋₊)
  have hlastLe := hmono (show ⌈position p vec.length⌉₊ ≤ vec.length - 1 by omega)
  refine ⟨getPercentile_eq_interpolate hpos h0 h100 hfit, ?_, ?_, ?_, ?_, ?_, ?_⟩
  · intro first hfirst
    rw [head?_eq_clamped hpos, Option.mem_some_iff] at hfirst
    rw [← hfirst]
    exact hheadLe.trans hlow
  · intro last hlast
    rw [getLast?_eq_clamped hpos, Option.mem_some_iff] at hlast
    rw [← hlast]
    exact hhigh.trans hlastLe
  · rintro rfl
    rw [position_zero, interpolate_natCast, head?_eq_clamped hpos]
  · rintro rfl
    rw [position_hundred, interpolate_natCast, getLast?_eq_clamped hpos]
  · rw [clamped_of_lt hpos hfloor] at hlow
    have hcount := succ_le_countP_le hsorted hfloor hlow
    rw [← Int.natCast_floor_eq_floor hnonneg]
    exact_mod_cast hcount
  · rw [clamped_of_lt hpos hceil] at hhigh
    have hcount := countP_lt_le hsorted hceil hhigh
    rw [← Int.natCast_ceil_eq_ceil hnonneg]
    exact_mod_cast hcount

/-- Percentiles exist, and obey their laws, up to the last position that fits an
`int`. -/
theorem isPercentile_pair_iff {vec : List K} (hpos : 0 < vec.length)
    (hsorted : vec.Pairwise (· ≤ ·)) {p q : ℤ} (h0 : 0 ≤ p) (hpq : p ≤ q) (h100 : q ≤ 100) :
    (∃ x y, IsPercentile vec p x ∧ IsPercentile vec q y ∧ x ≤ y) ↔
      q * (vec.length - 1 : ℕ) < 100 * (2 ^ 31 - 1) := by
  rw [← position_fits_iff]
  constructor
  · rintro ⟨x, y, -, hy, -⟩
    apply not_le.mp
    intro hle
    have herror := getPercentile_of_le hpos (h0.trans hpq) h100 hle
    rw [hy.value] at herror
    cases herror
  · intro hfit
    have hmono := position_mono hpq vec.length
    refine ⟨_, _, isPercentile_interpolate hpos hsorted h0 (hpq.trans h100) ?_,
      isPercentile_interpolate hpos hsorted (h0.trans hpq) h100 hfit, ?_⟩
    · linarith
    · exact interpolate_mono (clamped_monotone hsorted hpos) (position_nonneg h0 _) hmono

/-! ## The reported percentiles -/

/-- The order statistics of a report from the least to the greatest. -/
def Stat.ascending (stat : Stat K) : List (Option K) :=
  [stat.min, stat.median, stat.precentile75, stat.precentile90, stat.precentile95,
    stat.precentile99, stat.max]

def Stat.Ordered (stat : Stat K) : Prop :=
  ∃ values : List K, stat.ascending = values.map some ∧ values.Pairwise (· ≤ ·)

omit [LinearOrder K] [IsStrictOrderedRing K] in
theorem StatsOf.ascending_eq {sqrt : K → K} {sorted : List K} {stat : Stat K} {mean std : K}
    (h : StatsOf sqrt sorted stat mean std) (hpos : 0 < sorted.length)
    (hlt : sorted.length < 2 ^ 31) :
    stat.ascending = ([0, 50, 75, 90, 95, 99, 100].map fun p ↦
      interpolate (clamped sorted hpos) (position p sorted.length)).map some := by
  have hfield {p : ℤ} {field : Option K} (h0 : 0 ≤ p) (h100 : p ≤ 100)
      (hp : getPercentileFromSortedVec sorted p = .ok field) :
      field = some (interpolate (clamped sorted hpos) (position p sorted.length)) := by
    rw [getPercentile_eq_interpolate hpos h0 h100 (position_fits h100 hpos hlt)] at hp
    exact (Except.ok.inj hp).symm
  simp only [Stat.ascending, List.map_cons, List.map_nil]
  rw [hfield (by omega) (by omega) h.min_eq, hfield (by omega) (by omega) h.median_eq,
    hfield (by omega) (by omega) h.precentile75_eq, hfield (by omega) (by omega) h.precentile90_eq,
    hfield (by omega) (by omega) h.precentile95_eq, hfield (by omega) (by omega) h.precentile99_eq,
    hfield (by omega) (by omega) h.max_eq]

theorem getStats_ordered {sqrt : K → K} {vec : List K} {stat : Stat K}
    (h : getStats sqrt vec = .ok (some stat)) : stat.Ordered := by
  obtain ⟨h2, hlt, mean, std, hstat⟩ := getStats_eq_some sqrt h
  have hlen : (vec.insertionSort (· ≤ ·)).length = vec.length := List.length_insertionSort _ _
  have hpos : 0 < (vec.insertionSort (· ≤ ·)).length := by omega
  refine ⟨_, hstat.ascending_eq hpos (by omega), ?_⟩
  have hmono := clamped_monotone (List.pairwise_insertionSort (· ≤ ·) vec) hpos
  have hpercentages :
      ([0, 50, 75, 90, 95, 99, 100] : List ℤ).Pairwise fun p q ↦ 0 ≤ p ∧ p ≤ q := by decide
  apply hpercentages.map
  intro p q hpq
  exact interpolate_mono hmono (position_nonneg hpq.1 _) (position_mono hpq.2 _)

end Percentile

theorem percentiles_ordered_iff (vec : List ℚ) :
    (vec ≠ [] → vec.Pairwise (· ≤ ·) → ∀ p q : ℤ, 0 ≤ p → p ≤ q → q ≤ 100 →
      ((∃ x y, IsPercentile vec p x ∧ IsPercentile vec q y ∧ x ≤ y) ↔
        q * (vec.length - 1 : ℕ) < 100 * (2 ^ 31 - 1))) ∧
    ∀ (sqrt : ℚ → ℚ) (stat : Stat ℚ), getStats sqrt vec = .ok (some stat) → stat.Ordered := by
  constructor
  · intro hne hsorted p q h0 hpq h100
    exact isPercentile_pair_iff (List.length_pos_iff.mpr hne) hsorted h0 hpq h100
  · intro sqrt stat h
    exact getStats_ordered h

theorem percentiles_ordered_iff_three :
    ((∃ x y, IsPercentile [(1 : ℚ), 2, 4] 50 x ∧ IsPercentile [(1 : ℚ), 2, 4] 90 y ∧ x ≤ y) ↔
        90 * (2 : ℤ) < 100 * (2 ^ 31 - 1)) ∧
      ∃ stat, getStats (fun q : ℚ ↦ q) [4, 1, 2] = .ok (some stat) ∧ stat.Ordered := by
  constructor
  · exact (percentiles_ordered_iff [1, 2, 4]).1 (by simp) (by decide) 50 90 (by decide) (by decide)
      (by decide)
  · have hlen : 2 ≤ [(4 : ℚ), 1, 2].length := by decide
    obtain ⟨stat, hstat, -⟩ := getStats_eq_ok (fun q : ℚ ↦ q) hlen (by decide)
    exact ⟨stat, hstat, (percentiles_ordered_iff [4, 1, 2]).2 _ stat hstat⟩

/-- The position of the greatest of `2 ^ 31` elements does not fit an `int`. -/
theorem percentile_position_overflow :
    (List.replicate (2 ^ 31) (0 : ℚ)).Pairwise (· ≤ ·) ∧
    ¬ ∃ x y, IsPercentile (List.replicate (2 ^ 31) (0 : ℚ)) 100 x ∧
      IsPercentile (List.replicate (2 ^ 31) (0 : ℚ)) 100 y ∧ x ≤ y := by
  have hlen : (List.replicate (2 ^ 31) (0 : ℚ)).length = 2 ^ 31 := List.length_replicate
  refine ⟨List.pairwise_replicate.mpr (Or.inr (le_refl 0)), ?_⟩
  rintro ⟨x, y, hx, -, -⟩
  have herror := getPercentile_hundred hlen.ge
  rw [hx.value] at herror
  cases herror

/-! ## The medians -/

section Median

variable {K : Type} [Field K] [LinearOrder K] [IsStrictOrderedRing K]

theorem position_fifty_even {m : ℕ} (hm : 0 < m) :
    position 50 (2 * m) = ((m - 1 : ℕ) : ℚ) + 1 / 2 := by
  rw [position, Nat.cast_sub (by omega), Nat.cast_sub hm]
  push_cast
  ring

theorem position_fifty_odd (m : ℕ) : position 50 (2 * m + 1) = (m : ℕ) := by
  rw [position, Nat.add_sub_cancel]
  push_cast
  ring

/-- Halfway between two elements is their mean. -/
theorem interpolate_add_half (v : ℕ → K) (k : ℕ) :
    interpolate v ((k : ℚ) + 1 / 2) = (v k + v (k + 1)) / 2 := by
  have hfloor : ⌊(k : ℚ) + 1 / 2⌋₊ = k := by
    rw [Nat.floor_eq_iff (by positivity)]
    constructor <;> linarith
  have hweight : (((k : ℚ) + 1 / 2 - (k : ℕ) : ℚ) : K) = 1 / 2 := by
    rw [add_sub_cancel_left]
    norm_num
  rw [interpolate, hfloor, hweight]
  ring

theorem getMedianSorted_eq_interpolate {vec : List K} (h2 : 2 ≤ vec.length)
    (hpos : 0 < vec.length) :
    getMedianSorted vec = .ok (some (interpolate (clamped vec hpos) (position 50 vec.length))) := by
  rw [getMedianSorted, if_neg (by omega)]
  obtain ⟨m, heven | hodd⟩ := Nat.even_or_odd' vec.length
  · have hbefore : m - 1 < vec.length := by omega
    have hmiddle : m - 1 + 1 < vec.length := by omega
    have hhalf : vec.length / 2 = m - 1 + 1 := by omega
    have hposition : position 50 vec.length = ((m - 1 : ℕ) : ℚ) + 1 / 2 := by
      rw [heven]
      exact position_fifty_even (by omega)
    rw [if_pos (by omega), hposition, interpolate_add_half, clamped_of_lt hpos hbefore,
      clamped_of_lt hpos hmiddle, hhalf, Nat.add_sub_cancel, element_eq_ok hbefore,
      element_eq_ok hmiddle, Nat.cast_ofNat]
    rfl
  · have hmiddle : m < vec.length := by omega
    have hhalf : vec.length / 2 = m := by omega
    have hposition : position 50 vec.length = (m : ℕ) := by
      rw [hodd]
      exact position_fifty_odd m
    rw [if_neg (by omega), hposition, interpolate_natCast, clamped_of_lt hpos hmiddle, hhalf,
      element_eq_ok hmiddle]
    rfl

theorem median_eq_percentile_iff {vec : List K} (h2 : 2 ≤ vec.length) :
    getPercentileFromSortedVec vec 50 = getMedianSorted vec ↔ vec.length < 2 ^ 32 - 1 := by
  have hpos : 0 < vec.length := by omega
  have hfits := position_fits_iff 50 vec.length
  rw [getMedianSorted_eq_interpolate h2 hpos]
  by_cases hfit : position 50 vec.length + 1 < 2 ^ 31
  · rw [getPercentile_eq_interpolate hpos (by omega) (by omega) hfit]
    have hlt := hfits.mp hfit
    exact iff_of_true rfl (by omega)
  · rw [getPercentile_of_le hpos (by omega) (by omega) (not_lt.mp hfit)]
    have hle := mt hfits.mpr hfit
    exact iff_of_false (by simp) (by omega)

omit [Field K] [IsStrictOrderedRing K] in
theorem getMedian_eq [Add K] [Div K] [NatCast K] (vec : List K) :
    getMedian vec = getMedianSorted (vec.insertionSort (· ≤ ·)) := rfl

/-- The reported median is the one that `getSkew` uses. -/
theorem getStats_median {sqrt : K → K} {vec : List K} {stat : Stat K}
    (h : getStats sqrt vec = .ok (some stat)) :
    getMedianSorted (vec.insertionSort (· ≤ ·)) = .ok stat.median := by
  obtain ⟨h2, hlt, mean, std, hstat⟩ := getStats_eq_some sqrt h
  have hlen : (vec.insertionSort (· ≤ ·)).length = vec.length := List.length_insertionSort _ _
  rw [← (median_eq_percentile_iff (by omega)).mpr (by omega), hstat.median_eq]

end Median

theorem medians_agree_iff {vec : List ℚ} (h2 : 2 ≤ vec.length) :
    (getPercentileFromSortedVec vec 50 = getMedianSorted vec ↔ vec.length < 2 ^ 32 - 1) ∧
    (∀ (sqrt : ℚ → ℚ) (stat : Stat ℚ), getStats sqrt vec = .ok (some stat) →
      getMedianSorted (vec.insertionSort (· ≤ ·)) = .ok stat.median) ∧
    getMedian vec = getMedianSorted (vec.insertionSort (· ≤ ·)) := by
  refine ⟨median_eq_percentile_iff h2, ?_, getMedian_eq vec⟩
  intro sqrt stat h
  exact getStats_median h

theorem medians_agree_iff_four :
    (getPercentileFromSortedVec [(1 : ℚ), 2, 4, 4] 50 = getMedianSorted [(1 : ℚ), 2, 4, 4] ↔
        4 < 2 ^ 32 - 1) ∧
      (∃ stat, getStats (fun q : ℚ ↦ q) [4, 1, 2] = .ok (some stat) ∧
        getMedianSorted ([4, 1, 2].insertionSort (· ≤ ·)) = .ok stat.median) ∧
      getMedian [(4 : ℚ), 1, 2] = getMedianSorted ([(4 : ℚ), 1, 2].insertionSort (· ≤ ·)) := by
  have hlen : 2 ≤ [(4 : ℚ), 1, 2].length := by decide
  have hfour : 2 ≤ [(1 : ℚ), 2, 4, 4].length := by decide
  refine ⟨(medians_agree_iff hfour).1, ?_, (medians_agree_iff hlen).2.2⟩
  obtain ⟨stat, hstat, -⟩ := getStats_eq_ok (fun q : ℚ ↦ q) hlen (by decide)
  exact ⟨stat, hstat, (medians_agree_iff hlen).2.1 _ stat hstat⟩

/-- The middle position of `2 ^ 32 - 1` elements does not fit an `int`. -/
theorem median_position_overflow :
    (List.replicate (2 ^ 32 - 1) (0 : ℚ)).Pairwise (· ≤ ·) ∧
      getPercentileFromSortedVec (List.replicate (2 ^ 32 - 1) (0 : ℚ)) 50 ≠
        getMedianSorted (List.replicate (2 ^ 32 - 1) (0 : ℚ)) := by
  have hlen : (List.replicate (2 ^ 32 - 1) (0 : ℚ)).length = 2 ^ 32 - 1 := List.length_replicate
  refine ⟨List.pairwise_replicate.mpr (Or.inr (le_refl 0)), ?_⟩
  intro heq
  have hlt := (median_eq_percentile_iff (by omega)).mp heq
  omega

end UpZenohExample
