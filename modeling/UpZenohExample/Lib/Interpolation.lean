import Mathlib.Algebra.Order.Field.Basic
import Mathlib.Algebra.Order.Floor.Semiring
import Mathlib.Data.Rat.Cast.Order
import Mathlib.Data.Rat.Floor
import Mathlib.Tactic.Linarith
import Mathlib.Tactic.Positivity

/-!
# Interpolation and rank

A monotone sequence is interpolated linearly at a fractional position.  The
value lies between the elements at the floor and at the ceiling of the position
and does not decrease with it.  In a sorted list this bounds how many elements
are up to the value and how many are below it.
-/

namespace Interpolation

variable {K : Type*} [Field K] [LinearOrder K] [IsStrictOrderedRing K]

/-- The value at position `r`, counted from 0. -/
def interpolate (v : ℕ → K) (r : ℚ) : K :=
  v ⌊r⌋₊ + ((r - ⌊r⌋₊ : ℚ) : K) * (v (⌊r⌋₊ + 1) - v ⌊r⌋₊)

section Sequence

variable {v : ℕ → K}

omit [LinearOrder K] [IsStrictOrderedRing K] in
@[simp] theorem interpolate_natCast (k : ℕ) : interpolate v k = v k := by
  simp [interpolate]

/-- The weight of the upper element. -/
theorem weight_bounds {r : ℚ} (hr : 0 ≤ r) :
    0 ≤ ((r - ⌊r⌋₊ : ℚ) : K) ∧ ((r - ⌊r⌋₊ : ℚ) : K) ≤ 1 := by
  have hfloor : ((⌊r⌋₊ : ℕ) : ℚ) ≤ r := Nat.floor_le hr
  have hceil : r < ⌊r⌋₊ + 1 := Nat.lt_floor_add_one r
  constructor
  · exact Rat.cast_nonneg.mpr (by linarith)
  · have hle : (r - ⌊r⌋₊ : ℚ) ≤ 1 := by linarith
    exact_mod_cast (Rat.cast_le (K := K)).mpr hle

variable (hv : Monotone v)

include hv

theorem floor_le_interpolate {r : ℚ} (hr : 0 ≤ r) : v ⌊r⌋₊ ≤ interpolate v r := by
  have hstep : 0 ≤ v (⌊r⌋₊ + 1) - v ⌊r⌋₊ := sub_nonneg.mpr (hv (Nat.le_succ _))
  have hweight := mul_nonneg (weight_bounds (K := K) hr).1 hstep
  rw [interpolate]
  linarith

theorem interpolate_le_succ {r : ℚ} (hr : 0 ≤ r) : interpolate v r ≤ v (⌊r⌋₊ + 1) := by
  have hstep : 0 ≤ v (⌊r⌋₊ + 1) - v ⌊r⌋₊ := sub_nonneg.mpr (hv (Nat.le_succ _))
  have hweight := mul_le_mul_of_nonneg_right (weight_bounds (K := K) hr).2 hstep
  rw [interpolate]
  linarith

theorem interpolate_le_ceil {r : ℚ} (hr : 0 ≤ r) : interpolate v r ≤ v ⌈r⌉₊ := by
  by_cases hnat : r = ⌊r⌋₊
  · rw [hnat, interpolate_natCast, Nat.ceil_natCast]
  · have hlt : ((⌊r⌋₊ : ℕ) : ℚ) < r := lt_of_le_of_ne (Nat.floor_le hr) (Ne.symm hnat)
    have hceil : ⌊r⌋₊ + 1 ≤ ⌈r⌉₊ := Nat.lt_ceil.mpr hlt
    exact (interpolate_le_succ hv hr).trans (hv hceil)

/-- In one cell the weight grows; from cell to cell the elements do. -/
theorem interpolate_mono {r s : ℚ} (hr : 0 ≤ r) (hrs : r ≤ s) :
    interpolate v r ≤ interpolate v s := by
  rcases Nat.eq_or_lt_of_le (Nat.floor_mono hrs) with heq | hlt
  · have hstep : 0 ≤ v (⌊r⌋₊ + 1) - v ⌊r⌋₊ := sub_nonneg.mpr (hv (Nat.le_succ _))
    have hweight : ((r - ⌊r⌋₊ : ℚ) : K) ≤ ((s - ⌊s⌋₊ : ℚ) : K) := by
      rw [Rat.cast_le, ← heq]
      linarith
    have hprod := mul_le_mul_of_nonneg_right hweight hstep
    rw [interpolate, interpolate, ← heq]
    rw [← heq] at hprod
    linarith
  · calc
      interpolate v r ≤ v (⌊r⌋₊ + 1) := interpolate_le_succ hv hr
      _ ≤ v ⌊s⌋₊ := hv hlt
      _ ≤ interpolate v s := floor_le_interpolate hv (hr.trans hrs)

theorem interpolate_between {lo hi : K} (hbounds : ∀ k, lo ≤ v k ∧ v k ≤ hi) {r : ℚ}
    (hr : 0 ≤ r) : lo ≤ interpolate v r ∧ interpolate v r ≤ hi :=
  ⟨(hbounds _).1.trans (floor_le_interpolate hv hr),
    (interpolate_le_ceil hv hr).trans (hbounds _).2⟩

end Sequence

/-! ## Sorted lists -/

section List

variable {α : Type*}

/-- The elements of a list, the last one for ever. -/
def clamped (vec : List α) (h : 0 < vec.length) (k : ℕ) : α :=
  vec.get ⟨min k (vec.length - 1), by omega⟩

theorem clamped_of_lt {vec : List α} (hpos : 0 < vec.length) {k : ℕ} (hk : k < vec.length) :
    clamped vec hpos k = vec[k] := by
  have hmin : min k (vec.length - 1) = k := by omega
  simp [clamped, hmin]

theorem head?_eq_clamped {vec : List α} (hpos : 0 < vec.length) :
    vec.head? = some (clamped vec hpos 0) := by
  rw [List.head?_eq_getElem?, clamped_of_lt hpos hpos, List.getElem?_eq_getElem hpos]

theorem getLast?_eq_clamped {vec : List α} (hpos : 0 < vec.length) :
    vec.getLast? = some (clamped vec hpos (vec.length - 1)) := by
  have hlast : vec.length - 1 < vec.length := by omega
  rw [List.getLast?_eq_getElem?, clamped_of_lt hpos hlast, List.getElem?_eq_getElem hlast]

variable [LinearOrder α] {vec : List α} (hsorted : vec.Pairwise (· ≤ ·))

include hsorted

theorem clamped_monotone (hpos : 0 < vec.length) : Monotone (clamped vec hpos) := by
  intro j k hjk
  apply hsorted.rel_get_of_le
  rw [Fin.mk_le_mk]
  omega

theorem succ_le_countP_le {k : ℕ} (hk : k < vec.length) {x : α} (hx : vec[k] ≤ x) :
    k + 1 ≤ vec.countP (· ≤ x) := by
  have hall : ∀ a ∈ vec.take (k + 1), decide (a ≤ x) = true := by
    intro a ha
    obtain ⟨j, hj, rfl⟩ := List.mem_take_iff_getElem.mp ha
    have hle := hsorted.rel_get_of_le (a := ⟨j, by omega⟩) (b := ⟨k, hk⟩)
      (Fin.mk_le_mk.mpr (by omega))
    exact decide_eq_true (hle.trans hx)
  have hcount := (List.take_sublist (k + 1) vec).countP_le (p := fun a ↦ decide (a ≤ x))
  rw [List.countP_eq_length.mpr hall, List.length_take] at hcount
  omega

theorem countP_lt_le {k : ℕ} (hk : k < vec.length) {x : α} (hx : x ≤ vec[k]) :
    vec.countP (· < x) ≤ k := by
  have hnone : ∀ a ∈ vec.drop k, ¬ decide (a < x) = true := by
    intro a ha
    obtain ⟨j, hj, rfl⟩ := List.mem_drop_iff_getElem.mp ha
    have hle := hsorted.rel_get_of_le (a := ⟨k, hk⟩) (b := ⟨k + j, by omega⟩)
      (Fin.mk_le_mk.mpr (by omega))
    simpa using hx.trans hle
  have hcount : (vec.take k ++ vec.drop k).countP (fun a ↦ decide (a < x)) ≤ k := by
    rw [List.countP_append, List.countP_eq_zero.mpr hnone, Nat.add_zero]
    exact List.countP_le_length.trans (List.length_take_le k vec)
  rwa [List.take_append_drop] at hcount

end List

end Interpolation
