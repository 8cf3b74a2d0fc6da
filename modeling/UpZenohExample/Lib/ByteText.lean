import Mathlib.Algebra.GroupWithZero.Nat
import Mathlib.Algebra.Ring.Int.Defs
import Mathlib.Data.Int.Basic
import Mathlib.Data.List.TakeWhile

/-!
# Byte strings

C and C++ text as lists of bytes: decimal output of integers, `strtol`, and
NUL-terminated strings in memory.  A `long` is an `Int64`, so `strtol`
saturates at the two ends of that type.
-/

namespace ByteText

abbrev Text := List UInt8

def byte (c : Char) : UInt8 := UInt8.ofNat c.toNat

def text (s : String) : Text := s.toList.map byte

/-! ## Decimal numbers -/

def isDigit (b : UInt8) : Bool := 48 ≤ b.toNat && b.toNat ≤ 57

def decimalValue (t : Text) : ℕ := t.foldl (fun v b ↦ 10 * v + (b.toNat - 48)) 0

def IsDigits (t : Text) : Prop := t ≠ [] ∧ ∀ b ∈ t, isDigit b = true

instance (t : Text) : Decidable (IsDigits t) := inferInstanceAs (Decidable (_ ∧ _))

/-- `operator<<` for a nonnegative integer. -/
def decimal (n : ℕ) : Text := (Nat.toDigits 10 n).map byte

/-- `operator<<` for a signed integer. -/
def decimalInt (z : ℤ) : Text :=
  if z < 0 then byte '-' :: decimal z.natAbs else decimal z.natAbs

theorem toNat_byte_of_isDigit {c : Char} (h : c.isDigit = true) : (byte c).toNat = c.toNat := by
  have hle : c.toNat ≤ 57 := (Char.isDigit_iff_toNat.mp h).2
  rw [byte, UInt8.toNat_ofNat_of_lt']
  exact Nat.lt_of_le_of_lt hle (by decide)

theorem isDigit_byte {c : Char} (h : c.isDigit = true) : isDigit (byte c) = true := by
  have hc := Char.isDigit_iff_toNat.mp h
  rw [isDigit, toNat_byte_of_isDigit h]
  simpa using hc

theorem isDigit_of_mem_decimal {n : ℕ} {b : UInt8} (h : b ∈ decimal n) : isDigit b = true := by
  obtain ⟨c, hc, rfl⟩ := List.mem_map.mp h
  exact isDigit_byte (Nat.isDigit_of_mem_toDigits (by omega) (by omega) hc)

theorem decimal_isDigits (n : ℕ) : IsDigits (decimal n) := by
  refine ⟨?_, fun _ ↦ isDigit_of_mem_decimal⟩
  simp [decimal]

theorem decimalInt_of_nonneg {z : ℤ} (h : 0 ≤ z) : decimalInt z = decimal z.natAbs := by
  rw [decimalInt, if_neg (by omega)]

theorem foldl_map_byte (cs : List Char) (hcs : ∀ c ∈ cs, c.isDigit = true) (v : ℕ) :
    (cs.map byte).foldl (fun v b ↦ 10 * v + (b.toNat - 48)) v = Nat.ofDigitChars 10 cs v := by
  induction cs generalizing v with
  | nil => simp
  | cons c cs ih =>
      rw [List.map_cons, List.foldl_cons, toNat_byte_of_isDigit (hcs c List.mem_cons_self),
        Nat.ofDigitChars_cons]
      exact ih (fun d hd ↦ hcs d (List.mem_cons_of_mem c hd)) _

@[simp] theorem decimalValue_decimal (n : ℕ) : decimalValue (decimal n) = n := by
  rw [decimalValue, decimal, foldl_map_byte, Nat.ofDigitChars_ten_toDigits]
  intro c hc
  exact Nat.isDigit_of_mem_toDigits (by omega) (by omega) hc

theorem length_decimal_le {n k : ℕ} (hk : 0 < k) (h : n < 10 ^ k) : (decimal n).length ≤ k := by
  rw [decimal, List.length_map]
  exact (Nat.length_toDigits_le_iff (by omega) hk).mpr h

theorem length_decimalInt_le {z : ℤ} {k : ℕ} (hk : 0 < k) (h : z.natAbs < 10 ^ k) :
    (decimalInt z).length ≤ k + 1 := by
  have hlen := length_decimal_le hk h
  unfold decimalInt
  split
  · simpa using hlen
  · omega

theorem IsDigits.notMem {t : Text} (h : IsDigits t) {b : UInt8} (hb : isDigit b = false) :
    b ∉ t := by
  intro hmem
  simp [h.2 b hmem] at hb

theorem notMem_decimalInt {z : ℤ} {b : UInt8} (hb : isDigit b = false) (hminus : b ≠ byte '-') :
    b ∉ decimalInt z := by
  have hdigits := (decimal_isDigits z.natAbs).notMem hb
  unfold decimalInt
  split
  · simp [hminus, hdigits]
  · exact hdigits

/-! ## `strtol` -/

def isSpace (b : UInt8) : Bool := b.toNat = 32 || (9 ≤ b.toNat && b.toNat ≤ 13)

/-- `strtol(t, _, 10)`: leading white space, an optional sign, then the
longest run of digits, saturating at the ends of `long`. -/
def strtol (t : Text) : Int64 :=
  match t.dropWhile isSpace with
  | [] => 0
  | b :: rest =>
      if b = byte '-' then Int64.ofIntClamp (-(decimalValue (rest.takeWhile isDigit) : ℤ))
      else if b = byte '+' then Int64.ofIntClamp (decimalValue (rest.takeWhile isDigit))
      else Int64.ofIntClamp (decimalValue ((b :: rest).takeWhile isDigit))

theorem isSpace_eq_false_of_isDigit {b : UInt8} (h : isDigit b = true) : isSpace b = false := by
  simp only [isDigit, Bool.and_eq_true, decide_eq_true_eq] at h
  simp only [isSpace, Bool.or_eq_false_iff, Bool.and_eq_false_iff, decide_eq_false_iff_not]
  omega

theorem strtol_of_isDigits {t : Text} (h : IsDigits t) :
    strtol t = Int64.ofIntClamp (decimalValue t) := by
  obtain ⟨hne, hall⟩ := h
  cases t with
  | nil => exact absurd rfl hne
  | cons b rest =>
      have hb := hall b List.mem_cons_self
      have hminus : b ≠ byte '-' := fun heq ↦ absurd hb (by rw [heq]; decide)
      have hplus : b ≠ byte '+' := fun heq ↦ absurd hb (by rw [heq]; decide)
      have hdrop : (b :: rest).dropWhile isSpace = b :: rest := by
        simp [isSpace_eq_false_of_isDigit hb]
      rw [strtol, hdrop]
      simp only [if_neg hminus, if_neg hplus]
      rw [List.takeWhile_eq_self_iff.mpr hall]

theorem toInt_ofIntClamp_natCast (n : ℕ) :
    (Int64.ofIntClamp n).toInt = min (n : ℤ) (2 ^ 63 - 1) := by
  have hmin := Int64.toInt_minValue
  have hmax := Int64.toInt_maxValue
  by_cases hn : (n : ℤ) ≤ Int64.maxValue.toInt
  · rw [Int64.toInt_ofIntClamp (by omega) hn]
    omega
  · rw [Int64.ofIntClamp, dif_pos (by omega), dif_neg hn]
    omega

theorem toInt_strtol_of_isDigits {t : Text} (h : IsDigits t) :
    (strtol t).toInt = min (decimalValue t : ℤ) (2 ^ 63 - 1) := by
  rw [strtol_of_isDigits h, toInt_ofIntClamp_natCast]

theorem strtol_decimalInt {z : Int64} (h : 0 ≤ z.toInt) : strtol (decimalInt z.toInt) = z := by
  rw [decimalInt_of_nonneg h]
  apply Int64.toInt_inj.mp
  rw [toInt_strtol_of_isDigits (decimal_isDigits _), decimalValue_decimal]
  have hlt := z.toInt_lt
  omega

/-! ## Strings in memory -/

/-- Read bytes up to the first NUL; `none` when the memory ends before. -/
def cString : Text → Option Text
  | [] => none
  | b :: mem => if b = 0 then some [] else (cString mem).map (b :: ·)

theorem cString_append_zero {t : Text} (h : 0 ∉ t) (mem : Text) :
    cString (t ++ 0 :: mem) = some t := by
  induction t with
  | nil => rfl
  | cons b t ih =>
      rw [List.mem_cons, not_or] at h
      simp [cString, ih h.2, Ne.symm h.1]

theorem cString_eq_none_iff {mem : Text} : cString mem = none ↔ 0 ∉ mem := by
  induction mem with
  | nil => simp [cString]
  | cons b mem ih =>
      by_cases hb : b = 0
      · simp [cString, hb]
      · simp [cString, hb, ih, Ne.symm hb]

theorem cString_append {t : Text} (h : 0 ∉ t) (mem : Text) :
    cString (t ++ mem) = (cString mem).map (t ++ ·) := by
  induction t with
  | nil => simp
  | cons b t ih =>
      rw [List.mem_cons, not_or] at h
      rw [List.cons_append, cString, if_neg (Ne.symm h.1), ih h.2, Option.map_map]
      rfl

theorem zero_notMem_of_cString {mem t : Text} (h : cString mem = some t) : 0 ∉ t := by
  induction mem generalizing t with
  | nil => cases h
  | cons b mem ih =>
      rw [cString] at h
      split at h
      · cases h
        exact List.not_mem_nil
      · obtain ⟨rest, hrest, rfl⟩ := Option.map_eq_some_iff.mp h
        simp [ih hrest, Ne.symm ‹_›]

/-- `memcpy(dest, src, src.size())` into a buffer that is long enough. -/
def memcpy (dest src : Text) : Text := src ++ dest.drop src.length

theorem cString_memcpy {t : Text} (h : 0 ∉ t) (dest : Text) :
    cString (memcpy dest (t ++ [0])) = some t := by
  rw [memcpy, List.append_assoc]
  exact cString_append_zero h _

end ByteText
