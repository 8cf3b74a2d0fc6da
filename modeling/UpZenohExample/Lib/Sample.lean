import Mathlib.Algebra.BigOperators.Ring.List
import Mathlib.Algebra.Order.BigOperators.Group.List
import Mathlib.Algebra.Order.Field.Basic
import Mathlib.Tactic.Linarith
import Mathlib.Tactic.Positivity
import Mathlib.Tactic.Ring

/-!
# The moments of a finite sample

A sample is a list of numbers.  Its mean lies between its bounds and is within
one standard deviation of every middle value.  The variance vanishes only when
all elements are the mean, and otherwise the excess kurtosis is at least -2.
-/

namespace Sample

variable {K : Type*} [Field K]

def mean (xs : List K) : K := xs.sum / xs.length

def variance (xs : List K) : K := (xs.map fun x ↦ (x - mean xs) ^ 2).sum / xs.length

/-- About any center and in any unit. -/
def excessKurtosis (xs : List K) (center unit : K) : K :=
  1 / (xs.length : K) * (xs.map fun x ↦ ((x - center) / unit) ^ 4).sum - 3

theorem length_mul_mean [CharZero K] {xs : List K} (hne : xs ≠ []) :
    xs.length * mean xs = xs.sum := by
  have hlen : (xs.length : K) ≠ 0 := by simpa using hne
  exact mul_div_cancel₀ _ hlen

theorem length_mul_variance [CharZero K] {xs : List K} (hne : xs ≠ []) :
    xs.length * variance xs = (xs.map fun x ↦ (x - mean xs) ^ 2).sum := by
  have hlen : (xs.length : K) ≠ 0 := by simpa using hne
  exact mul_div_cancel₀ _ hlen

theorem mean_perm {xs ys : List K} (h : xs.Perm ys) : mean xs = mean ys := by
  rw [mean, mean, h.sum_eq, h.length_eq]

theorem variance_perm {xs ys : List K} (h : xs.Perm ys) : variance xs = variance ys := by
  rw [variance, variance, mean_perm h, (h.map _).sum_eq, h.length_eq]

theorem mean_affine [CharZero K] {xs : List K} (hne : xs ≠ []) (a b : K) :
    mean (xs.map fun x ↦ a * x + b) = a * mean xs + b := by
  have hlen : (xs.length : K) ≠ 0 := by simpa using hne
  have hconst : (xs.map fun _ ↦ b).sum = xs.length * b := by
    rw [List.map_const', List.sum_replicate, nsmul_eq_mul]
  have hsum : (xs.map fun x ↦ a * x + b).sum = a * xs.sum + xs.length * b := by
    rw [List.sum_map_add, List.sum_map_mul_left, List.map_id', hconst]
  rw [mean, mean, hsum, List.length_map, add_div, mul_div_assoc, mul_div_cancel_left₀ _ hlen]

/-- The distances from a center that moves along are only scaled. -/
theorem sum_pow_affine (xs : List K) (a b c : K) (k : ℕ) :
    ((xs.map fun x ↦ a * x + b).map fun x ↦ (x - (a * c + b)) ^ k).sum =
      a ^ k * (xs.map fun x ↦ (x - c) ^ k).sum := by
  rw [List.map_map, ← List.sum_map_mul_left]
  congr 1
  apply List.map_congr_left
  intro x _
  change (a * x + b - (a * c + b)) ^ k = a ^ k * (x - c) ^ k
  rw [← mul_pow]
  ring

/-- The squares of the distances from `c` are those from the mean, and the
distance of the two for each element. -/
theorem sum_sq_sub [CharZero K] {xs : List K} (hne : xs ≠ []) (c : K) :
    (xs.map fun x ↦ (x - c) ^ 2).sum = xs.length * (variance xs + (mean xs - c) ^ 2) := by
  have hexpand (x : K) :
      (x - c) ^ 2 =
        (x - mean xs) ^ 2 + (2 * (mean xs - c) * x + (c ^ 2 - mean xs ^ 2)) := by
    ring
  have hconst : (xs.map fun _ ↦ c ^ 2 - mean xs ^ 2).sum = xs.length * (c ^ 2 - mean xs ^ 2) := by
    rw [List.map_const', List.sum_replicate, nsmul_eq_mul]
  have hlinear : (xs.map fun x ↦ 2 * (mean xs - c) * x).sum =
      2 * (mean xs - c) * (xs.length * mean xs) := by
    rw [List.sum_map_mul_left, List.map_id', length_mul_mean hne]
  calc
    (xs.map fun x ↦ (x - c) ^ 2).sum
        = (xs.map fun x ↦ (x - mean xs) ^ 2).sum +
            ((xs.map fun x ↦ 2 * (mean xs - c) * x).sum +
              (xs.map fun _ ↦ c ^ 2 - mean xs ^ 2).sum) := by
          simp only [hexpand, List.sum_map_add]
    _ = xs.length * variance xs +
          (2 * (mean xs - c) * (xs.length * mean xs) + xs.length * (c ^ 2 - mean xs ^ 2)) := by
        rw [hconst, hlinear, length_mul_variance hne]
    _ = xs.length * (variance xs + (mean xs - c) ^ 2) := by ring

variable [LinearOrder K] [IsStrictOrderedRing K]

theorem le_mean {xs : List K} (hne : xs ≠ []) {lo : K} (h : ∀ x ∈ xs, lo ≤ x) : lo ≤ mean xs := by
  have hlen : (0 : K) < xs.length := by exact_mod_cast List.length_pos_iff.mpr hne
  have hsum := List.card_nsmul_le_sum xs lo h
  rw [nsmul_eq_mul] at hsum
  rw [mean, le_div_iff₀ hlen]
  linarith

theorem mean_le {xs : List K} (hne : xs ≠ []) {hi : K} (h : ∀ x ∈ xs, x ≤ hi) : mean xs ≤ hi := by
  have hlen : (0 : K) < xs.length := by exact_mod_cast List.length_pos_iff.mpr hne
  have hsum := List.sum_le_card_nsmul xs hi h
  rw [nsmul_eq_mul] at hsum
  rw [mean, div_le_iff₀ hlen]
  linarith

theorem variance_nonneg (xs : List K) : 0 ≤ variance xs := by
  have hsum : 0 ≤ (xs.map fun x ↦ (x - mean xs) ^ 2).sum := by
    apply List.sum_nonneg
    simp only [List.forall_mem_map]
    intro x _
    positivity
  exact div_nonneg hsum (Nat.cast_nonneg _)

/-- Nonnegative terms that add up to nothing vanish. -/
theorem sum_map_eq_zero_iff {α : Type*} {f : α → K} (hf : ∀ x, 0 ≤ f x) {xs : List α} :
    (xs.map f).sum = 0 ↔ ∀ x ∈ xs, f x = 0 := by
  constructor
  · intro hzero x hx
    have hnonneg : ∀ y ∈ xs.map f, 0 ≤ y := by
      intro y hy
      obtain ⟨x, -, rfl⟩ := List.mem_map.mp hy
      exact hf x
    exact List.all_zero_of_le_zero_le_of_sum_eq_zero hnonneg hzero (List.mem_map_of_mem hx)
  · intro hall
    rw [List.map_congr_left hall]
    simp

/-- The variance vanishes exactly for constant samples. -/
theorem variance_eq_zero_iff {xs : List K} (hne : xs ≠ []) :
    variance xs = 0 ↔ ∀ x ∈ xs, x = mean xs := by
  have hlen : (xs.length : K) ≠ 0 := by simpa using hne
  rw [variance, div_eq_zero_iff, or_iff_left hlen,
    sum_map_eq_zero_iff (fun x ↦ sq_nonneg (x - mean xs))]
  simp only [pow_eq_zero_iff two_ne_zero, sub_eq_zero]

/-! ## Middle values -/

/-- At least half of the sample is on each side of `m`. -/
structure IsMiddle (xs : List K) (m : K) : Prop where
  below : xs.length ≤ 2 * xs.countP (· ≤ m)
  above : xs.length ≤ 2 * xs.countP (m ≤ ·)

omit [Field K] [IsStrictOrderedRing K] in
theorem IsMiddle.of_perm {xs ys : List K} {m : K} (h : IsMiddle xs m) (hp : xs.Perm ys) :
    IsMiddle ys m := by
  have hbelow := h.below
  have habove := h.above
  rw [hp.length_eq, hp.countP_eq] at hbelow habove
  exact ⟨hbelow, habove⟩

/-- A sum of nonnegative terms is at least `c` for each term that is. -/
theorem mul_countP_le_sum {α : Type*} (p : α → Prop) [DecidablePred p] {f : α → K} {c : K}
    (xs : List α) (hf : ∀ x, 0 ≤ f x) (hc : ∀ x, p x → c ≤ f x) :
    c * (xs.countP (fun x ↦ p x) : ℕ) ≤ (xs.map f).sum := by
  induction xs with
  | nil => simp
  | cons x xs ih =>
    rw [List.map_cons, List.sum_cons, List.countP_cons]
    have hx := hf x
    by_cases hp : p x
    · have hle := hc x hp
      rw [if_pos (decide_eq_true hp)]
      push_cast
      linarith
    · rw [if_neg (by simpa using hp), Nat.add_zero]
      linarith

/-- Half of the sample is on the other side of `m` from the mean, so at least
`2 * |mean - m|` from the mirror image of `m` in the mean. -/
theorem sq_mean_sub_le_variance {xs : List K} (hne : xs ≠ []) {m : K} (h : IsMiddle xs m) :
    (mean xs - m) ^ 2 ≤ variance xs := by
  have hlen : (0 : K) < xs.length := by exact_mod_cast List.length_pos_iff.mpr hne
  set d := mean xs - m with hd
  have hmirror := sum_sq_sub hne (mean xs + d)
  have hdist : (mean xs - (mean xs + d)) ^ 2 = d ^ 2 := by ring
  rw [hdist] at hmirror
  have hhalf : (xs.length : K) * (2 * d ^ 2) ≤ (xs.map fun x ↦ (x - (mean xs + d)) ^ 2).sum := by
    have hnonneg (x : K) : 0 ≤ (x - (mean xs + d)) ^ 2 := sq_nonneg _
    have hscale {k : ℕ} (hk : xs.length ≤ 2 * k) :
        (xs.length : K) * (2 * d ^ 2) ≤ 4 * d ^ 2 * k := by
      have hcast : (xs.length : K) ≤ 2 * k := by exact_mod_cast hk
      have hprod := mul_le_mul_of_nonneg_right hcast (by positivity : 0 ≤ 2 * d ^ 2)
      linarith
    rcases le_total 0 d with hpos | hneg
    · refine (hscale h.below).trans (mul_countP_le_sum (· ≤ m) xs hnonneg ?_)
      intro x hx
      have hfar : 0 ≤ mean xs + d - x - 2 * d := by linarith
      nlinarith
    · refine (hscale h.above).trans (mul_countP_le_sum (m ≤ ·) xs hnonneg ?_)
      intro x hx
      have hfar : 0 ≤ x - (mean xs + d) + 2 * d := by linarith
      nlinarith
  rw [hmirror, mul_le_mul_iff_right₀ hlen] at hhalf
  linarith

/-! ## The fourth moment -/

/-- If the squares have mean 1, so have the fourth powers at least. -/
theorem length_le_sum_pow_four {zs : List K}
    (h : (zs.map fun z ↦ z ^ 2).sum = (zs.length : K)) :
    (zs.length : K) ≤ (zs.map fun z ↦ z ^ 4).sum := by
  have hexpand (z : K) : (z ^ 2 - 1) ^ 2 = z ^ 4 + (-2 * z ^ 2 + 1) := by ring
  have hnonneg : 0 ≤ (zs.map fun z ↦ (z ^ 2 - 1) ^ 2).sum := by
    apply List.sum_nonneg
    simp only [List.forall_mem_map]
    intro z _
    positivity
  have hsum : (zs.map fun z ↦ (z ^ 2 - 1) ^ 2).sum =
      (zs.map fun z ↦ z ^ 4).sum + (-2 * (zs.map fun z ↦ z ^ 2).sum + (zs.length : K)) := by
    simp only [hexpand, List.sum_map_add, List.sum_map_mul_left, List.map_const',
      List.sum_replicate, nsmul_eq_mul, mul_one]
  rw [hsum, h] at hnonneg
  linarith

/-- In units of the standard deviation. -/
theorem neg_two_le_excessKurtosis {xs : List K} (hne : xs ≠ []) {s : K}
    (hs : s ^ 2 = variance xs) (hpos : 0 < variance xs) :
    -2 ≤ excessKurtosis xs (mean xs) s := by
  have hlen : (0 : K) < xs.length := by exact_mod_cast List.length_pos_iff.mpr hne
  have hsquares : ((xs.map fun x ↦ (x - mean xs) / s).map fun z ↦ z ^ 2).sum =
      ((xs.map fun x ↦ (x - mean xs) / s).length : K) := by
    have hterm (x : K) : ((x - mean xs) / s) ^ 2 = (variance xs)⁻¹ * (x - mean xs) ^ 2 := by
      rw [div_pow, hs, div_eq_inv_mul]
    rw [List.map_map, List.length_map]
    simp only [Function.comp_def, hterm, List.sum_map_mul_left]
    rw [← length_mul_variance hne, mul_left_comm, inv_mul_cancel₀ hpos.ne', mul_one]
  have hfourth := length_le_sum_pow_four hsquares
  rw [List.map_map, List.length_map] at hfourth
  have hmoment : 1 ≤ 1 / (xs.length : K) * (xs.map fun x ↦ ((x - mean xs) / s) ^ 4).sum := by
    rw [one_div_mul_eq_div, le_div_iff₀ hlen, one_mul]
    exact hfourth
  rw [excessKurtosis]
  linarith

/-- Without the fourth moment only the 3 is left. -/
theorem excessKurtosis_eq_neg_three_iff {xs : List K} (hne : xs ≠ []) {center unit : K}
    (hunit : unit ≠ 0) : excessKurtosis xs center unit = -3 ↔ ∀ x ∈ xs, x = center := by
  have hlen : 1 / (xs.length : K) ≠ 0 := one_div_ne_zero (by simpa using hne)
  have hpow (x : K) : 0 ≤ ((x - center) / unit) ^ 4 := by positivity
  rw [excessKurtosis, sub_eq_neg_self, mul_eq_zero, or_iff_right hlen, sum_map_eq_zero_iff hpow]
  simp only [pow_eq_zero_iff four_ne_zero, div_eq_zero_iff, hunit, or_false, sub_eq_zero]

end Sample
