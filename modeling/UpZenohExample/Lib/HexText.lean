import UpZenohExample.Lib.ByteText

/-!
# Hexadecimal numbers

Output of unsigned numbers in base 16 and formatted input of an `int` in that
base: leading white space, a sign, a prefix `0x`, then the longest run of
digits in either case.  Without any digit the number is 0, and when there is
nothing but white space no number is stored.
-/

namespace HexText

open ByteText

def hex (n : ℕ) : Text := (Nat.toDigits 16 n).map byte

/-- `std::setw` with `std::setfill`. -/
def padded (width : ℕ) (fill : UInt8) (t : Text) : Text :=
  List.replicate (width - t.length) fill ++ t

def hexValue (b : UInt8) : Option ℕ :=
  if isDigit b then some (b.toNat - 48)
  else if 97 ≤ b.toNat ∧ b.toNat ≤ 102 then some (b.toNat - 87)
  else if 65 ≤ b.toNat ∧ b.toNat ≤ 70 then some (b.toNat - 55)
  else none

def isHexDigit (b : UInt8) : Bool := (hexValue b).isSome

def hexDigitsValue (t : Text) : ℕ := t.foldl (fun v b ↦ 16 * v + (hexValue b).getD 0) 0

def dropHexPrefix : Text → Text
  | b :: x :: t => if b = byte '0' ∧ (x = byte 'x' ∨ x = byte 'X') then t else b :: x :: t
  | t => t

def readHexNat (t : Text) : ℕ := hexDigitsValue ((dropHexPrefix t).takeWhile isHexDigit)

/-- The nearest `int`. -/
def clampInt (z : ℤ) : ℤ := max (-2 ^ 31) (min z (2 ^ 31 - 1))

/-- `s >> val` for an `int`; `none` when `val` keeps what it held. -/
def readHexInt (t : Text) : Option ℤ :=
  match t.dropWhile isSpace with
  | [] => none
  | b :: rest =>
      if b = byte '-' then some (clampInt (-(readHexNat rest : ℤ)))
      else if b = byte '+' then some (clampInt (readHexNat rest))
      else some (clampInt (readHexNat (b :: rest)))

def toLower (b : UInt8) : UInt8 := if 65 ≤ b.toNat ∧ b.toNat ≤ 90 then b + 32 else b

/-! ## Two digits -/

def digit (n : ℕ) : UInt8 := byte (Nat.digitChar n)

theorem hexValue_digit {n : ℕ} (h : n < 16) : hexValue (digit n) = some n := by
  have hall : ∀ k : Fin 16, hexValue (digit k) = some k.val := by decide
  exact hall ⟨n, h⟩

theorem padded_hex {n : ℕ} (h : n < 256) :
    padded 2 (byte '0') (hex n) = [digit (n / 16), digit (n % 16)] := by
  by_cases hlt : n < 16
  · rw [Nat.div_eq_of_lt hlt, Nat.mod_eq_of_lt hlt, hex, Nat.toDigits_of_lt_base hlt]
    rfl
  · have htens : n / 16 < 16 := by omega
    rw [hex, Nat.toDigits_of_base_le (by omega) (not_lt.mp hlt), Nat.toDigits_of_lt_base htens]
    rfl

set_option maxRecDepth 4000 in
theorem digit_of_hexValue {b : UInt8} {x : ℕ} (h : hexValue b = some x) :
    x < 16 ∧ digit x = toLower b := by
  have hall : ∀ k : Fin 256, ∀ x ∈ hexValue (UInt8.ofNat k),
      x < 16 ∧ digit x = toLower (UInt8.ofNat k) := by decide
  have hb := hall ⟨b.toNat, b.toNat_lt⟩ x
  rw [UInt8.ofNat_toNat] at hb
  exact hb h

theorem ne_of_hexValue {b c : UInt8} {x : ℕ} (h : hexValue b = some x) (hc : hexValue c = none) :
    b ≠ c := by
  rintro rfl
  rw [hc] at h
  cases h

theorem isSpace_of_hexValue {b : UInt8} {x : ℕ} (h : hexValue b = some x) : isSpace b = false := by
  by_contra hspace
  simp only [isSpace, Bool.not_eq_false, Bool.or_eq_true, Bool.and_eq_true,
    decide_eq_true_eq] at hspace
  have hnone : hexValue b = none := by
    simp only [hexValue, isDigit, Bool.and_eq_true, decide_eq_true_eq]
    rw [if_neg (by omega), if_neg (by omega), if_neg (by omega)]
  rw [hnone] at h
  cases h

theorem readHexInt_pair {a b : UInt8} {x y : ℕ} (ha : hexValue a = some x)
    (hb : hexValue b = some y) : readHexInt [a, b] = some ((16 * x + y : ℕ) : ℤ) := by
  have hx := (digit_of_hexValue ha).1
  have hy := (digit_of_hexValue hb).1
  have hdrop : [a, b].dropWhile isSpace = [a, b] := by
    rw [List.dropWhile_cons_of_neg (by simp [isSpace_of_hexValue ha])]
  have hprefix : dropHexPrefix [a, b] = [a, b] := by
    rw [dropHexPrefix, if_neg]
    rintro ⟨-, hx | hx⟩
    · exact ne_of_hexValue hb rfl hx
    · exact ne_of_hexValue hb rfl hx
  have hvalue : readHexNat [a, b] = 16 * x + y := by
    simp [readHexNat, hprefix, isHexDigit, hexDigitsValue, ha, hb]
  have hclamp : clampInt ((16 * x + y : ℕ) : ℤ) = (16 * x + y : ℕ) := by
    rw [clampInt]
    omega
  rw [readHexInt, hdrop]
  simp only [if_neg (ne_of_hexValue ha rfl : a ≠ byte '-'),
    if_neg (ne_of_hexValue ha rfl : a ≠ byte '+'), hvalue, hclamp]

end HexText
