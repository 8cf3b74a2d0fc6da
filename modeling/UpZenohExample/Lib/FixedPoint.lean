import Mathlib.Algebra.Order.Field.Basic
import Mathlib.Algebra.Order.Ring.Rat
import Mathlib.Data.Rat.Cast.Order
import Mathlib.Tactic.FieldSimp
import Mathlib.Tactic.Linarith
import Mathlib.Tactic.Ring
import UpZenohExample.Lib.ByteText

/-!
# Rational numbers as text

`fixedText k` prints a rational with `k` digits after the point, rounded to
nearest with ties to even, as `operator<<` does under `std::fixed`.
`readDouble` is `operator>>` for a `double`, with the exact value of the text.
What is printed and read again is the rounded number.
-/

namespace FixedPoint

open ByteText

/-! ## Rounding -/

/-- `a / b` rounded to nearest, ties to even. -/
def roundDiv (a b : ℕ) : ℕ :=
  if 2 * (a % b) < b then a / b
  else if b < 2 * (a % b) then a / b + 1
  else if a / b % 2 = 0 then a / b
  else a / b + 1

theorem roundDiv_bounds (a : ℕ) {b : ℕ} (hb : 0 < b) :
    2 * a ≤ 2 * (b * roundDiv a b) + b ∧ 2 * (b * roundDiv a b) ≤ 2 * a + b := by
  have hdiv := Nat.div_add_mod a b
  have hmod := Nat.mod_lt a hb
  have hsucc : b * (a / b + 1) = b * (a / b) + b := Nat.mul_succ b (a / b)
  unfold roundDiv
  split
  · omega
  · split
    · rw [hsucc]
      omega
    · split
      · omega
      · rw [hsucc]
        omega

theorem roundDiv_mul (m : ℕ) {b : ℕ} (hb : 0 < b) : roundDiv (m * b) b = m := by
  have hmod : m * b % b = 0 := Nat.mul_mod_left m b
  rw [roundDiv, hmod, if_pos (by omega), Nat.mul_div_cancel m hb]

/-- The number of units of `10⁻ᵏ` in the absolute value, rounded. -/
def units (k : ℕ) (q : ℚ) : ℕ := roundDiv (q.num.natAbs * 10 ^ k) q.den

def signed (neg : Bool) (q : ℚ) : ℚ := if neg then -q else q

/-- The rational rounded to `k` digits after the point. -/
def rounded (k : ℕ) (q : ℚ) : ℚ := signed (decide (q < 0)) ((units k q : ℚ) / 10 ^ k)

theorem signed_abs (q : ℚ) : signed (decide (q < 0)) |q| = q := by
  unfold signed
  by_cases hq : q < 0
  · simp [hq, abs_of_neg hq]
  · simp [hq, abs_of_nonneg (not_lt.mp hq)]

theorem abs_signed_sub (neg : Bool) (p q : ℚ) : |signed neg p - signed neg q| = |p - q| := by
  cases neg with
  | false => rfl
  | true =>
      simp only [signed, if_true]
      rw [neg_sub_neg, abs_sub_comm]

theorem natAbs_num_div_den (q : ℚ) : (q.num.natAbs : ℚ) / q.den = |q| := by
  rw [Nat.cast_natAbs, Int.cast_abs]
  conv_rhs => rw [← Rat.num_div_den q]
  rw [abs_div, abs_of_nonneg (show (0 : ℚ) ≤ q.den from Nat.cast_nonneg _)]

theorem abs_units_sub_le (k : ℕ) (q : ℚ) :
    |(units k q : ℚ) / 10 ^ k - abs q| ≤ 1 / 2 / 10 ^ k := by
  have hden : (0 : ℚ) < q.den := by exact_mod_cast q.den_pos
  have hpow : (0 : ℚ) < 10 ^ k := by positivity
  obtain ⟨hlo, hhi⟩ := roundDiv_bounds (q.num.natAbs * 10 ^ k) q.den_pos
  have hlo' : 2 * ((q.num.natAbs : ℚ) * 10 ^ k) ≤ 2 * (q.den * units k q) + q.den := by
    exact_mod_cast hlo
  have hhi' : 2 * ((q.den : ℚ) * units k q) ≤ 2 * (q.num.natAbs * 10 ^ k) + q.den := by
    exact_mod_cast hhi
  have hdiff : (units k q : ℚ) / 10 ^ k - q.num.natAbs / q.den =
      (q.den * units k q - q.num.natAbs * 10 ^ k) / (10 ^ k * q.den) := by
    field_simp
  have hbound : 1 / 2 / 10 ^ k * (10 ^ k * (q.den : ℚ)) = q.den / 2 := by
    field_simp
  rw [← natAbs_num_div_den q, hdiff, abs_le, le_div_iff₀ (by positivity),
    div_le_iff₀ (by positivity), neg_mul, hbound]
  constructor
  · linarith
  · linarith

theorem abs_rounded_sub_le (k : ℕ) (q : ℚ) : |rounded k q - q| ≤ 1 / 2 / 10 ^ k := by
  have h := abs_units_sub_le k q
  rwa [← abs_signed_sub (decide (q < 0)), signed_abs] at h

theorem rounded_eq_self {k : ℕ} {q : ℚ} (h : ∃ n : ℤ, q = n / 10 ^ k) : rounded k q = q := by
  obtain ⟨n, hn⟩ := h
  have hden : (q.den : ℚ) ≠ 0 := by exact_mod_cast q.den_nz
  have hcross : (q.num : ℚ) * 10 ^ k = n * q.den := by
    have hq : (q.num : ℚ) / q.den = n / 10 ^ k := by rw [Rat.num_div_den, hn]
    rwa [div_eq_div_iff hden (by positivity)] at hq
  have hint : q.num * 10 ^ k = n * q.den := by exact_mod_cast hcross
  have hnat : q.num.natAbs * 10 ^ k = n.natAbs * q.den := by
    have habs := congrArg Int.natAbs hint
    simpa [Int.natAbs_mul, Int.natAbs_pow] using habs
  have hunits : (units k q : ℚ) / 10 ^ k = |q| := by
    rw [units, hnat, roundDiv_mul _ q.den_pos, hn, abs_div, Nat.cast_natAbs, Int.cast_abs,
      abs_of_pos (show (0 : ℚ) < 10 ^ k by positivity)]
  rw [rounded, hunits, signed_abs]

/-! ## Printing -/

/-- The last `k` decimal digits, with leading zeros. -/
def lastDigits : ℕ → ℕ → Text
  | 0, _ => []
  | k + 1, n => lastDigits k (n / 10) ++ [UInt8.ofNat (48 + n % 10)]

/-- `operator<<` of a floating-point number after `std::fixed` and
`std::setprecision(k)`, for `k` not 0. -/
def fixedText (k : ℕ) (q : ℚ) : Text :=
  (if q < 0 then [byte '-'] else []) ++ decimal (units k q / 10 ^ k) ++
    byte '.' :: lastDigits k (units k q)

theorem toNat_digit (n : ℕ) : (UInt8.ofNat (48 + n % 10)).toNat = 48 + n % 10 := by
  rw [UInt8.toNat_ofNat']
  omega

theorem isDigit_of_mem_lastDigits {k n : ℕ} {b : UInt8} (h : b ∈ lastDigits k n) :
    isDigit b = true := by
  induction k generalizing n with
  | zero => simp [lastDigits] at h
  | succ k ih =>
      rw [lastDigits, List.mem_append, List.mem_singleton] at h
      rcases h with h | rfl
      · exact ih h
      · simp only [isDigit, toNat_digit, Bool.and_eq_true, decide_eq_true_eq]
        omega

theorem length_lastDigits (k n : ℕ) : (lastDigits k n).length = k := by
  induction k generalizing n with
  | zero => rfl
  | succ k ih => simp [lastDigits, ih]

theorem decimalValue_append_singleton (t : Text) (b : UInt8) :
    decimalValue (t ++ [b]) = 10 * decimalValue t + (b.toNat - 48) := by
  simp [decimalValue, List.foldl_append]

theorem decimalValue_append_lastDigits (t : Text) (k n : ℕ) :
    decimalValue (t ++ lastDigits k n) = decimalValue t * 10 ^ k + n % 10 ^ k := by
  induction k generalizing n with
  | zero => simp [lastDigits, Nat.mod_one]
  | succ k ih =>
      have hmod : n % 10 ^ (k + 1) = 10 * (n / 10 % 10 ^ k) + n % 10 := by
        rw [pow_succ', Nat.mod_mul]
        omega
      rw [lastDigits, ← List.append_assoc, decimalValue_append_singleton, ih, toNat_digit, hmod,
        Nat.add_sub_cancel_left]
      ring

theorem notMem_fixedText {b : UInt8} (hdigit : isDigit b = false) (hminus : b ≠ byte '-')
    (hpoint : b ≠ byte '.') (k : ℕ) (q : ℚ) : b ∉ fixedText k q := by
  have hint := (decimal_isDigits (units k q / 10 ^ k)).notMem hdigit
  have hfrac : b ∉ lastDigits k (units k q) := by
    intro hmem
    simp [isDigit_of_mem_lastDigits hmem] at hdigit
  have hsign : b ∉ (if q < 0 then [byte '-'] else []) := by
    split <;> simp [hminus]
  simp only [fixedText, List.mem_append, List.mem_cons, not_or]
  exact ⟨⟨hsign, hint⟩, hpoint, hfrac⟩

/-- The digits on both sides of the point are the number of units. -/
theorem decimalValue_units (k n : ℕ) :
    decimalValue (decimal (n / 10 ^ k) ++ lastDigits k n) = n := by
  rw [decimalValue_append_lastDigits, decimalValue_decimal, Nat.div_add_mod']

/-! ## Reading -/

def takeSign : Text → Bool × Text
  | [] => (false, [])
  | b :: t =>
      if b = byte '-' then (true, t)
      else if b = byte '+' then (false, t)
      else (false, b :: t)

/-- The digits behind a point, and the rest. -/
def takeFraction : Text → Text × Text
  | [] => ([], [])
  | b :: t =>
      if b = byte '.' then (t.takeWhile isDigit, t.dropWhile isDigit) else ([], b :: t)

/-- The factor of an exponent; `none` when no digit follows the letter. -/
def takeExponent : Text → Option ℚ
  | [] => some 1
  | b :: t =>
      if b = byte 'e' ∨ b = byte 'E' then
        let (neg, t) := takeSign t
        let digits := t.takeWhile isDigit
        if digits = [] then none
        else if neg then some (1 / 10 ^ decimalValue digits)
        else some (10 ^ decimalValue digits)
      else some 1

/-- `operator>>` for a `double`: white space, a sign, digits with at most one
point among them, an exponent; the rest of the text stays unread. -/
def readDouble (t : Text) : Option ℚ :=
  let (neg, t) := takeSign (t.dropWhile isSpace)
  let int := t.takeWhile isDigit
  let (frac, t) := takeFraction (t.dropWhile isDigit)
  if int = [] ∧ frac = [] then none
  else
    (takeExponent t).map fun factor ↦
      signed neg ((decimalValue (int ++ frac) : ℚ) / 10 ^ frac.length * factor)

theorem takeWhile_append_cons {p : UInt8 → Bool} {xs : Text} (h : ∀ b ∈ xs, p b = true)
    {y : UInt8} (hy : p y = false) (ys : Text) :
    (xs ++ y :: ys).takeWhile p = xs ∧ (xs ++ y :: ys).dropWhile p = y :: ys := by
  induction xs with
  | nil => simp [hy]
  | cons x xs ih =>
      have hx := h x List.mem_cons_self
      have hrest := ih fun b hb ↦ h b (List.mem_cons_of_mem x hb)
      simp [hx, hrest.1, hrest.2]

theorem takeSign_fixed (neg : Bool) {int : Text} (hint : IsDigits int) (rest : Text) :
    takeSign (((if neg then [byte '-'] else []) ++ int ++ rest).dropWhile isSpace) =
      (neg, int ++ rest) := by
  obtain ⟨hne, hall⟩ := hint
  cases int with
  | nil => exact absurd rfl hne
  | cons b int =>
      have hb := hall b List.mem_cons_self
      cases neg with
      | true => rfl
      | false =>
          have hminus : b ≠ byte '-' := fun heq ↦ absurd hb (by rw [heq]; decide)
          have hplus : b ≠ byte '+' := fun heq ↦ absurd hb (by rw [heq]; decide)
          simp [isSpace_eq_false_of_isDigit hb, takeSign, hminus, hplus]

theorem readDouble_fixed (neg : Bool) {int frac : Text} (hint : IsDigits int)
    (hfrac : ∀ b ∈ frac, isDigit b = true) :
    readDouble ((if neg then [byte '-'] else []) ++ int ++ byte '.' :: frac) =
      some (signed neg ((decimalValue (int ++ frac) : ℚ) / 10 ^ frac.length)) := by
  have hpoint := takeWhile_append_cons hint.2 (show isDigit (byte '.') = false from rfl) frac
  have htake : frac.takeWhile isDigit = frac := List.takeWhile_eq_self_iff.mpr hfrac
  have hdrop : frac.dropWhile isDigit = [] := List.dropWhile_eq_nil_iff.mpr hfrac
  simp only [readDouble, takeSign_fixed neg hint, hpoint.1, hpoint.2, takeFraction, if_true,
    htake, hdrop, hint.1, false_and, if_false, takeExponent, Option.map_some, mul_one]

theorem readDouble_fixedText (k : ℕ) (q : ℚ) :
    readDouble (fixedText k q) = some (rounded k q) := by
  have hread := readDouble_fixed (decide (q < 0)) (decimal_isDigits (units k q / 10 ^ k))
    (fun b ↦ isDigit_of_mem_lastDigits (k := k) (n := units k q))
  rw [decimalValue_units, length_lastDigits] at hread
  simpa [fixedText, rounded] using hread

/-- The reading stops at a byte that can not go on a number. -/
theorem readDouble_fixedText_append (k : ℕ) (q : ℚ) {b : UInt8} (hdigit : isDigit b = false)
    (hlower : b ≠ byte 'e') (hupper : b ≠ byte 'E') (rest : Text) :
    readDouble (fixedText k q ++ b :: rest) = some (rounded k q) := by
  have hint := decimal_isDigits (units k q / 10 ^ k)
  have hfrac : ∀ c ∈ lastDigits k (units k q), isDigit c = true :=
    fun c ↦ isDigit_of_mem_lastDigits
  have hpoint := takeWhile_append_cons hint.2 (show isDigit (byte '.') = false from rfl)
    (lastDigits k (units k q) ++ b :: rest)
  have hend := takeWhile_append_cons hfrac hdigit rest
  have htext : fixedText k q ++ b :: rest =
      (if decide (q < 0) then [byte '-'] else []) ++ decimal (units k q / 10 ^ k) ++
        byte '.' :: (lastDigits k (units k q) ++ b :: rest) := by
    simp [fixedText]
  rw [htext]
  simp only [readDouble, takeSign_fixed _ hint, hpoint.1, hpoint.2, takeFraction, if_true,
    hend.1, hend.2, hint.1, false_and, if_false, takeExponent, hlower, hupper, or_self,
    Option.map_some, mul_one, decimalValue_units, length_lastDigits, rounded]

end FixedPoint
