import Mathlib.Algebra.Order.Field.Basic
import Mathlib.Algebra.Order.Ring.Rat
import Mathlib.Data.List.Sort
import Mathlib.Tactic.Linarith
import UpZenohExample.Lib.ByteText
import UpZenohExample.Lib.Interpolation

/-!
# The statistics of `utils.h`

The functions only use the operations of the number type, so it stays a
parameter, and so does the square root.  The position of a percentile is
computed in exact rationals.  A statistic that is missing is `none`; taking the
value of a missing one stops the computation.
-/

namespace UpZenohExample

open ByteText
open Interpolation

/-- `std::bad_optional_access`, and an index or a conversion to `int` that is
out of range. -/
inductive Abort where
  | badOptionalAccess
  | outOfRange
  deriving DecidableEq, Repr

structure Stat (α : Type) where
  mean : Option α := none
  median : Option α := none
  min : Option α := none
  max : Option α := none
  std : Option α := none
  skew : Option α := none
  kurtosis : Option α := none
  precentile90 : Option α := none
  precentile95 : Option α := none
  precentile99 : Option α := none
  precentile75 : Option α := none
  deriving DecidableEq, Repr

def getValue {α : Type} : Option α → Except Abort α
  | some x => .ok x
  | none => .error .badOptionalAccess

/-- `vec[i]`. -/
def element {α : Type} (vec : List α) (i : ℕ) : Except Abort α :=
  match vec[i]? with
  | some x => .ok x
  | none => .error .outOfRange

/-- `(int)x` for a nonnegative number. -/
def truncToInt (x : ℚ) : Except Abort ℕ :=
  if x.floor < 2 ^ 31 then .ok x.floor.toNat else .error .outOfRange

section Numbers

variable {α : Type} [Zero α] [Add α] [Sub α] [Mul α] [Div α] [NatCast α] [RatCast α] [Pow α ℕ]
variable [LE α] [DecidableLE α] (sqrt : α → α)

def getAverage (vec : List α) : Option α :=
  let sum := vec.foldl (fun acc e ↦ acc + e) 0
  if vec.length = 0 then none else some (sum / (vec.length : α))

def getMedian (vec : List α) : Except Abort (Option α) :=
  let vec := vec.insertionSort (· ≤ ·)
  let size := vec.length
  if size < 2 then .ok none
  else if size % 2 = 0 then do
    let a ← element vec (size / 2 - 1)
    let b ← element vec (size / 2)
    .ok (some ((a + b) / ((2 : ℕ) : α)))
  else do
    let a ← element vec (size / 2)
    .ok (some a)

def getMedianSorted (vec : List α) : Except Abort (Option α) :=
  let size := vec.length
  if size < 2 then .ok none
  else if size % 2 = 0 then do
    let a ← element vec (size / 2 - 1)
    let b ← element vec (size / 2)
    .ok (some ((a + b) / ((2 : ℕ) : α)))
  else do
    let a ← element vec (size / 2)
    .ok (some a)

/-- `vec.size() - 1`, a `size_t`. -/
def sizePred (vec : List α) : ℕ := if vec.length = 0 then 2 ^ 64 - 1 else vec.length - 1

def getPercentileFromSortedVec (vec : List α) (percentile : ℤ) : Except Abort (Option α) :=
  if percentile < 0 ∨ 100 < percentile then .ok none
  else do
    let index : ℚ := (percentile : ℚ) / 100 * sizePred vec + 1
    let i ← truncToInt index
    if index = (i : ℚ) then do
      let x ← element vec (i - 1)
      .ok (some x)
    else do
      let delta := index - (i : ℚ)
      let a ← element vec (i - 1)
      let b ← element vec i
      .ok (some (a + (delta : α) * (b - a)))

def getVariance (vec : List α) (mean : α) : Option α :=
  if vec.length = 0 then none
  else
    let variance := vec.foldl (fun acc e ↦ acc + (e - mean) ^ 2) 0
    some (variance / (vec.length : α))

def getStd (vec : List α) (mean : α) : Option α := (getVariance vec mean).map sqrt

def getSkew (vec : List α) (mean : α) : Except Abort (Option α) :=
  if vec.length < 3 then .ok none
  else
    match getStd sqrt vec mean with
    | none => .ok none
    | some std => do
        match ← getMedianSorted vec with
        | none => .ok none
        | some median => .ok (some (((3 : ℕ) : α) * (mean - median) / std))

/-- `1 / size` is a division of integers. -/
def getKurtosis (vec : List α) (mean std : α) : Option α :=
  let size := vec.length
  if size < 3 then none
  else
    some (((1 / size : ℕ) : α) *
      vec.foldl (fun acc e ↦ acc + ((e - mean) / std) ^ 4) 0 - ((3 : ℕ) : α))

def getStats (vec : List α) : Except Abort (Option (Stat α)) :=
  if vec.length < 2 then .ok none
  else do
    let vec := vec.insertionSort (· ≤ ·)
    let mean := getAverage vec
    let min ← getPercentileFromSortedVec vec 0
    let max ← getPercentileFromSortedVec vec 100
    let median ← getPercentileFromSortedVec vec 50
    let precentile75 ← getPercentileFromSortedVec vec 75
    let precentile90 ← getPercentileFromSortedVec vec 90
    let precentile95 ← getPercentileFromSortedVec vec 95
    let precentile99 ← getPercentileFromSortedVec vec 99
    let std := getStd sqrt vec (← getValue mean)
    let skew ← getSkew sqrt vec (← getValue mean)
    let kurtosis := getKurtosis vec (← getValue mean) (← getValue std)
    .ok (some {
      mean := mean
      median := median
      min := min
      max := max
      std := std
      skew := skew
      kurtosis := kurtosis
      precentile90 := precentile90
      precentile95 := precentile95
      precentile99 := precentile99
      precentile75 := precentile75 })

end Numbers

theorem bind_eq_ok {ε β γ : Type} {x : Except ε β} {f : β → Except ε γ} {c : γ} :
    (x >>= f) = .ok c ↔ ∃ b, x = .ok b ∧ f b = .ok c := by
  cases x with
  | error e => simp [bind, Except.bind]
  | ok b => simp [bind, Except.bind]

theorem element_eq_ok {α : Type} {vec : List α} {i : ℕ} (h : i < vec.length) :
    element vec i = .ok vec[i] := by
  rw [element, List.getElem?_eq_getElem h]

/-! ## Positions -/

/-- The position of a percentile in a vector of `n` elements, counted from 0. -/
def position (percentile : ℤ) (n : ℕ) : ℚ := (percentile : ℚ) / 100 * (n - 1 : ℕ)

theorem position_nonneg {p : ℤ} (h0 : 0 ≤ p) (n : ℕ) : 0 ≤ position p n := by
  have hp : (0 : ℚ) ≤ p := by exact_mod_cast h0
  unfold position
  positivity

theorem position_mono {p q : ℤ} (hpq : p ≤ q) (n : ℕ) : position p n ≤ position q n := by
  have hcast : (p : ℚ) ≤ q := by exact_mod_cast hpq
  unfold position
  gcongr

theorem position_zero (n : ℕ) : position 0 n = (0 : ℕ) := by simp [position]

theorem position_hundred (n : ℕ) : position 100 n = (n - 1 : ℕ) := by simp [position]

theorem position_le {p : ℤ} (h100 : p ≤ 100) (n : ℕ) : position p n ≤ (n - 1 : ℕ) := by
  rw [← position_hundred]
  exact position_mono h100 n

theorem floor_position_lt {p : ℤ} (h100 : p ≤ 100) {n : ℕ} (hn : 0 < n) :
    ⌊position p n⌋₊ < n := by
  have hle := Nat.floor_le_of_le (position_le h100 n)
  omega

theorem ceil_position_lt {p : ℤ} (h100 : p ≤ 100) {n : ℕ} (hn : 0 < n) :
    ⌈position p n⌉₊ < n := by
  have hle := Nat.ceil_le.mpr (position_le h100 n)
  omega

/-- The position, counted from 1, is below `2 ^ 31`. -/
theorem position_fits_iff (p : ℤ) (n : ℕ) :
    position p n + 1 < 2 ^ 31 ↔ p * (n - 1 : ℕ) < 100 * (2 ^ 31 - 1) := by
  have hscale : position p n + 1 < 2 ^ 31 ↔ (p : ℚ) * (n - 1 : ℕ) < 100 * (2 ^ 31 - 1) := by
    unfold position
    constructor
    · intro h
      linarith
    · intro h
      linarith
  rw [hscale]
  exact_mod_cast Iff.rfl

theorem position_fits {p : ℤ} (h100 : p ≤ 100) {n : ℕ} (hn : 0 < n) (hlt : n < 2 ^ 31) :
    position p n + 1 < 2 ^ 31 := by
  have hle := position_le h100 n
  have hcast : ((n - 1 : ℕ) : ℚ) = n - 1 := by rw [Nat.cast_sub hn, Nat.cast_one]
  have hfit : (n : ℚ) < 2 ^ 31 := by exact_mod_cast hlt
  linarith

theorem truncToInt_of_lt {x : ℚ} (h : x < 2 ^ 31) : truncToInt x = .ok ⌊x⌋₊ := by
  have hfloor : ⌊x⌋ < 2 ^ 31 := Int.floor_lt.mpr (by exact_mod_cast h)
  rw [truncToInt]
  change (if ⌊x⌋ < 2 ^ 31 then Except.ok ⌊x⌋.toNat else _) = _
  rw [if_pos hfloor, Int.floor_toNat]

theorem truncToInt_of_le {x : ℚ} (h : 2 ^ 31 ≤ x) : truncToInt x = .error .outOfRange := by
  have hfloor : ¬ ⌊x⌋ < 2 ^ 31 := not_lt.mpr (Int.le_floor.mpr (by exact_mod_cast h))
  rw [truncToInt]
  change (if ⌊x⌋ < 2 ^ 31 then Except.ok ⌊x⌋.toNat else _) = _
  rw [if_neg hfloor]

theorem sizePred_of_pos {α : Type} {vec : List α} (h : 0 < vec.length) :
    sizePred vec = vec.length - 1 :=
  if_neg h.ne'

section Percentile

variable {α : Type} [Add α] [Sub α] [Mul α] [RatCast α] {vec : List α}

/-- What the two branches return while the position fits an `int`. -/
theorem getPercentile_eq (hpos : 0 < vec.length) {p : ℤ} (h0 : 0 ≤ p) (h100 : p ≤ 100)
    (hfit : position p vec.length + 1 < 2 ^ 31) :
    getPercentileFromSortedVec vec p = .ok (some (
      let r := position p vec.length
      let a := clamped vec hpos ⌊r⌋₊
      let b := clamped vec hpos (⌊r⌋₊ + 1)
      if r = (⌊r⌋₊ : ℕ) then a else a + ((r - (⌊r⌋₊ : ℕ) : ℚ) : α) * (b - a))) := by
  have hrange : ¬ (p < 0 ∨ 100 < p) := by omega
  have hnonneg := position_nonneg h0 vec.length
  have hfloor := floor_position_lt h100 hpos
  have htrunc : truncToInt ((p : ℚ) / 100 * (vec.length - 1 : ℕ) + 1) =
      .ok (⌊position p vec.length⌋₊ + 1) := by
    change truncToInt (position p vec.length + 1) = _
    rw [truncToInt_of_lt hfit, Nat.floor_add_one hnonneg]
  simp only [getPercentileFromSortedVec, if_neg hrange, sizePred_of_pos hpos, htrunc, bind,
    Except.bind, Nat.cast_add, Nat.cast_one, add_left_inj, Nat.add_sub_cancel]
  change (if position p vec.length = ⌊position p vec.length⌋₊ then _ else _) = _
  by_cases hnat : position p vec.length = ⌊position p vec.length⌋₊
  · rw [if_pos hnat, if_pos hnat, element_eq_ok hfloor, ← clamped_of_lt hpos hfloor]
  · -- A position between two elements is before the last one.
    have hlt : ((⌊position p vec.length⌋₊ : ℕ) : ℚ) < (vec.length - 1 : ℕ) :=
      (lt_of_le_of_ne (Nat.floor_le hnonneg) (Ne.symm hnat)).trans_le (position_le h100 _)
    have hnext : ⌊position p vec.length⌋₊ + 1 < vec.length := by
      have hlt' := Nat.cast_lt.mp hlt
      omega
    rw [if_neg hnat, if_neg hnat, element_eq_ok hfloor, element_eq_ok hnext,
      clamped_of_lt hpos hfloor, clamped_of_lt hpos hnext]
    change Except.ok _ = _
    congr 5
    change position p vec.length + 1 - _ = _
    ring

theorem getPercentile_eq_ok (hpos : 0 < vec.length) {p : ℤ} (h0 : 0 ≤ p) (h100 : p ≤ 100)
    (hfit : position p vec.length + 1 < 2 ^ 31) :
    ∃ x, getPercentileFromSortedVec vec p = .ok (some x) :=
  ⟨_, getPercentile_eq hpos h0 h100 hfit⟩

theorem getPercentile_of_le (hpos : 0 < vec.length) {p : ℤ} (h0 : 0 ≤ p) (h100 : p ≤ 100)
    (hfit : 2 ^ 31 ≤ position p vec.length + 1) :
    getPercentileFromSortedVec vec p = .error .outOfRange := by
  have hrange : ¬ (p < 0 ∨ 100 < p) := by omega
  have htrunc : truncToInt ((p : ℚ) / 100 * (vec.length - 1 : ℕ) + 1) = .error .outOfRange :=
    truncToInt_of_le hfit
  simp only [getPercentileFromSortedVec, if_neg hrange, sizePred_of_pos hpos, htrunc]
  rfl

theorem getPercentile_hundred (h : 2 ^ 31 ≤ vec.length) :
    getPercentileFromSortedVec vec 100 = .error .outOfRange := by
  have hfit : ¬ position 100 vec.length + 1 < 2 ^ 31 := by
    rw [position_fits_iff]
    omega
  exact getPercentile_of_le (by omega) (by omega) (by omega) (not_lt.mp hfit)

end Percentile

/-! ## Which statistics there are -/

theorem getMedianSorted_eq_ok {α : Type} [Add α] [Div α] [NatCast α] {vec : List α}
    (h : 2 ≤ vec.length) : ∃ x, getMedianSorted vec = .ok (some x) := by
  have hbefore : vec.length / 2 - 1 < vec.length := by omega
  have hmiddle : vec.length / 2 < vec.length := by omega
  rw [getMedianSorted, if_neg (by omega)]
  split
  · rw [element_eq_ok hbefore, element_eq_ok hmiddle]
    exact ⟨_, rfl⟩
  · rw [element_eq_ok hmiddle]
    exact ⟨_, rfl⟩

/-- The statistics in the order in which a row shows them. -/
def Stat.columns {α : Type} (stat : Stat α) : List (Option α) :=
  [stat.mean, stat.min, stat.max, stat.std, stat.skew, stat.median, stat.kurtosis,
    stat.precentile90, stat.precentile95, stat.precentile99]

section Moments

variable {α : Type} [Zero α] [Add α] [Sub α] [Mul α] [Div α] [NatCast α] [Pow α ℕ]
variable (sqrt : α → α)

theorem getSkew_of_lt {vec : List α} (h : vec.length < 3) (mean : α) :
    getSkew sqrt vec mean = .ok none := by
  rw [getSkew, if_pos h]

theorem getSkew_of_le {vec : List α} (h : 3 ≤ vec.length) (mean : α) :
    ∃ x, getSkew sqrt vec mean = .ok (some x) := by
  have h2 : 2 ≤ vec.length := by omega
  obtain ⟨median, hmedian⟩ := getMedianSorted_eq_ok h2
  have hstd : ∃ std, getStd sqrt vec mean = some std := by
    rw [getStd, getVariance, if_neg (by omega)]
    exact ⟨_, rfl⟩
  obtain ⟨std, hstd⟩ := hstd
  rw [getSkew, if_neg (by omega), hstd, hmedian]
  exact ⟨_, rfl⟩

variable [RatCast α] [LE α] [DecidableLE α]

/-- From two samples on there are statistics, and from three on all of them. -/
theorem getStats_eq_ok {vec : List α} (h2 : 2 ≤ vec.length) (hlt : vec.length < 2 ^ 31) :
    ∃ stat, getStats sqrt vec = .ok (some stat) ∧
      ((∀ column ∈ stat.columns, column.isSome = true) ↔ 3 ≤ vec.length) := by
  have hlen : (vec.insertionSort (· ≤ ·)).length = vec.length := List.length_insertionSort _ _
  generalize hsorted : vec.insertionSort (· ≤ ·) = sorted at hlen
  have hmean : ∃ mean, getAverage sorted = some mean := by
    rw [getAverage, if_neg (by omega)]
    exact ⟨_, rfl⟩
  obtain ⟨mean, hmean⟩ := hmean
  have hstd : ∃ std, getStd sqrt sorted mean = some std := by
    rw [getStd, getVariance, if_neg (by omega)]
    exact ⟨_, rfl⟩
  obtain ⟨std, hstd⟩ := hstd
  have hpercentile (p : ℤ) (h0 : 0 ≤ p) (h100 : p ≤ 100) :
      ∃ x, getPercentileFromSortedVec sorted p = .ok (some x) :=
    getPercentile_eq_ok (by omega) h0 h100 (position_fits h100 (by omega) (by omega))
  obtain ⟨min, hmin⟩ := hpercentile 0 (by omega) (by omega)
  obtain ⟨max, hmax⟩ := hpercentile 100 (by omega) (by omega)
  obtain ⟨median, hmedian⟩ := hpercentile 50 (by omega) (by omega)
  obtain ⟨p75, hp75⟩ := hpercentile 75 (by omega) (by omega)
  obtain ⟨p90, hp90⟩ := hpercentile 90 (by omega) (by omega)
  obtain ⟨p95, hp95⟩ := hpercentile 95 (by omega) (by omega)
  obtain ⟨p99, hp99⟩ := hpercentile 99 (by omega) (by omega)
  rw [getStats, if_neg (by omega)]
  simp only [hsorted, hmean, hmin, hmax, hmedian, hp75, hp90, hp95, hp99, getValue, hstd, bind,
    Except.bind]
  by_cases h3 : 3 ≤ vec.length
  · have hle : 3 ≤ sorted.length := by omega
    obtain ⟨skew, hskew⟩ := getSkew_of_le sqrt hle mean
    simp [hskew, getKurtosis, Stat.columns, h3, not_lt.mpr hle]
  · have hlt3 : sorted.length < 3 := by omega
    have hskew := getSkew_of_lt sqrt hlt3 mean
    simp [hskew, Stat.columns, h3]

theorem getStats_of_lt {vec : List α} (h : vec.length < 2) : getStats sqrt vec = .ok none := by
  rw [getStats, if_pos h]

theorem getStats_of_le {vec : List α} (h : 2 ^ 31 ≤ vec.length) :
    getStats sqrt vec = .error .outOfRange := by
  have hlen : (vec.insertionSort (· ≤ ·)).length = vec.length := List.length_insertionSort _ _
  generalize hsorted : vec.insertionSort (· ≤ ·) = sorted at hlen
  have hpos : 0 < sorted.length := by omega
  have hlong : 2 ^ 31 ≤ sorted.length := by omega
  have hfit : position 0 sorted.length + 1 < 2 ^ 31 := by
    rw [position_fits_iff]
    omega
  obtain ⟨min, hmin⟩ := getPercentile_eq_ok hpos (le_refl 0) (by omega) hfit
  rw [getStats, if_neg (by omega)]
  simp only [hsorted, hmin, getPercentile_hundred hlong, bind, Except.bind]

/-- Where the fields of a `Stat` come from. -/
structure StatsOf (sorted : List α) (stat : Stat α) (mean std : α) : Prop where
  average : getAverage sorted = some mean
  spread : getStd sqrt sorted mean = some std
  mean_eq : stat.mean = some mean
  std_eq : stat.std = some std
  min_eq : getPercentileFromSortedVec sorted 0 = .ok stat.min
  max_eq : getPercentileFromSortedVec sorted 100 = .ok stat.max
  median_eq : getPercentileFromSortedVec sorted 50 = .ok stat.median
  precentile75_eq : getPercentileFromSortedVec sorted 75 = .ok stat.precentile75
  precentile90_eq : getPercentileFromSortedVec sorted 90 = .ok stat.precentile90
  precentile95_eq : getPercentileFromSortedVec sorted 95 = .ok stat.precentile95
  precentile99_eq : getPercentileFromSortedVec sorted 99 = .ok stat.precentile99
  skew_eq : getSkew sqrt sorted mean = .ok stat.skew
  kurtosis_eq : stat.kurtosis = getKurtosis sorted mean std

theorem getValue_eq_ok {β : Type} {o : Option β} {x : β} : getValue o = .ok x ↔ o = some x := by
  cases o <;> simp [getValue]

theorem getStats_eq_some {vec : List α} {stat : Stat α}
    (h : getStats sqrt vec = .ok (some stat)) :
    2 ≤ vec.length ∧ vec.length < 2 ^ 31 ∧
      ∃ mean std, StatsOf sqrt (vec.insertionSort (· ≤ ·)) stat mean std := by
  have h2 : 2 ≤ vec.length := by
    apply not_lt.mp
    intro hlt
    simp [getStats_of_lt sqrt hlt] at h
  have hlt : vec.length < 2 ^ 31 := by
    apply not_le.mp
    intro hle
    simp [getStats_of_le sqrt hle] at h
  refine ⟨h2, hlt, ?_⟩
  simp only [getStats, if_neg (not_lt.mpr h2), bind_eq_ok, getValue_eq_ok, Except.ok.injEq,
    Option.some.injEq] at h
  obtain ⟨min, hmin, max, hmax, median, hmedian, p75, hp75, p90, hp90, p95, hp95, p99, hp99, mean,
    hmean, mean', hmean', skew, hskew, mean'', hmean'', std, hstd, rfl⟩ := h
  obtain rfl : mean = mean' := Option.some.inj (hmean.symm.trans hmean')
  obtain rfl : mean = mean'' := Option.some.inj (hmean.symm.trans hmean'')
  exact ⟨mean, std, {
    average := hmean
    spread := hstd
    mean_eq := hmean
    std_eq := hstd
    min_eq := hmin
    max_eq := hmax
    median_eq := hmedian
    precentile75_eq := hp75
    precentile90_eq := hp90
    precentile95_eq := hp95
    precentile99_eq := hp99
    skew_eq := hskew
    kurtosis_eq := rfl }⟩

end Moments

/-- The statistics are those of the sorted vector, so the order of the samples
does not matter. -/
theorem getStats_perm {α : Type} [Zero α] [Add α] [Sub α] [Mul α] [Div α] [NatCast α]
    [RatCast α] [Pow α ℕ] [LinearOrder α] (sqrt : α → α) {vec vec' : List α}
    (h : vec.Perm vec') : getStats sqrt vec = getStats sqrt vec' := by
  have hsort : vec.insertionSort (· ≤ ·) = vec'.insertionSort (· ≤ ·) := by
    apply List.Perm.eq_of_pairwise' (List.pairwise_insertionSort _ vec)
      (List.pairwise_insertionSort _ vec')
    exact ((List.perm_insertionSort _ vec).trans h).trans (List.perm_insertionSort _ vec').symm
  rw [getStats, getStats, hsort, h.length_eq]

end UpZenohExample
