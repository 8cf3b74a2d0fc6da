import Mathlib.Algebra.Group.Nat.Even
import UpZenohExample.Lib.HexText

/-!
# URIs on the command line

`run_tests` hands the serialized URIs to its children as hexadecimal text, two
digits for a byte, and the children read the digits back.
-/

namespace UpZenohExample

open ByteText HexText

/-- The width is set again for every byte. -/
def convertSerializedURItoString (uriVec : List UInt8) : Text :=
  uriVec.foldl (fun s e ↦ s ++ padded 2 (byte '0') (hex e.toNat)) []

/-- One call of `substr(i, 2)` for each even `i`; `none` when some `val` is read
before it is set. -/
def convertHexStringToUint8Vec : Text → Option (List UInt8)
  | [] => some []
  | [a] => do
      let val ← readHexInt [a]
      some [UInt8.ofInt val]
  | a :: b :: str => do
      let val ← readHexInt [a, b]
      let res ← convertHexStringToUint8Vec str
      some (UInt8.ofInt val :: res)

/-- `strncpy(dest, src.c_str(), n)`. -/
def strncpy (src : Text) (n : ℕ) : Text :=
  let t := (src.takeWhile fun b ↦ b ≠ 0).take n
  t ++ List.replicate (n - t.length) 0

/-- The text a child finds in `argv` for a string of its parent. -/
def argument (s : Text) : Option Text := cString (strncpy s s.length ++ [0])

/-! ## Bytes and digits -/

theorem convertSerializedURItoString_eq (uriVec : List UInt8) :
    convertSerializedURItoString uriVec =
      uriVec.flatMap fun e ↦ [digit (e.toNat / 16), digit (e.toNat % 16)] := by
  have hloop (s : Text) : uriVec.foldl (fun s e ↦ s ++ padded 2 (byte '0') (hex e.toNat)) s =
      s ++ uriVec.flatMap fun e ↦ [digit (e.toNat / 16), digit (e.toNat % 16)] := by
    induction uriVec generalizing s with
    | nil => simp
    | cons e uriVec ih => rw [List.foldl_cons, ih, padded_hex e.toNat_lt]; simp
  exact hloop []

theorem convertSerializedURItoString_cons (e : UInt8) (uriVec : List UInt8) :
    convertSerializedURItoString (e :: uriVec) =
      digit (e.toNat / 16) :: digit (e.toNat % 16) :: convertSerializedURItoString uriVec := by
  simp [convertSerializedURItoString_eq]

theorem ofInt_natCast {n : ℕ} (h : n < 256) : UInt8.ofInt n = UInt8.ofNat n := by
  rw [UInt8.ofInt]
  congr 1
  omega

/-- A pair of digits becomes the byte with these digits. -/
theorem convertHexStringToUint8Vec_cons {a b : UInt8} {x y : ℕ} (ha : hexValue a = some x)
    (hb : hexValue b = some y) (str : Text) :
    convertHexStringToUint8Vec (a :: b :: str) =
      (convertHexStringToUint8Vec str).map fun res ↦ UInt8.ofNat (16 * x + y) :: res := by
  have hx := (digit_of_hexValue ha).1
  have hy := (digit_of_hexValue hb).1
  rw [convertHexStringToUint8Vec, readHexInt_pair ha hb]
  simp only [Option.bind_eq_bind, Option.bind_some, ofInt_natCast (show 16 * x + y < 256 by omega)]
  cases convertHexStringToUint8Vec str <;> rfl

theorem convertHexStringToUint8Vec_convert (v : List UInt8) :
    convertHexStringToUint8Vec (convertSerializedURItoString v) = some v := by
  induction v with
  | nil => rfl
  | cons e v ih =>
      have he := e.toNat_lt
      have htens : hexValue (digit (e.toNat / 16)) = some (e.toNat / 16) :=
        hexValue_digit (by omega)
      have hones : hexValue (digit (e.toNat % 16)) = some (e.toNat % 16) :=
        hexValue_digit (by omega)
      rw [convertSerializedURItoString_cons, convertHexStringToUint8Vec_cons htens hones, ih,
        Nat.div_add_mod, UInt8.ofNat_toNat, Option.map_some]

/-- Texts of hexadecimal digits, a pair for every byte. -/
theorem convertSerializedURItoString_convert {s : Text} (heven : Even s.length)
    (hdigits : ∀ b ∈ s, isHexDigit b = true) :
    ∃ v, convertHexStringToUint8Vec s = some v ∧
      convertSerializedURItoString v = s.map toLower := by
  induction s using convertHexStringToUint8Vec.induct with
  | case1 => exact ⟨[], rfl, rfl⟩
  | case2 a => exact absurd heven (by simp)
  | case3 a b str ih =>
      obtain ⟨x, ha⟩ := Option.isSome_iff_exists.mp (hdigits a (by simp))
      obtain ⟨y, hb⟩ := Option.isSome_iff_exists.mp (hdigits b (by simp))
      obtain ⟨hx, hax⟩ := digit_of_hexValue ha
      obtain ⟨hy, hby⟩ := digit_of_hexValue hb
      have hstr : Even str.length := by
        simpa [Nat.even_add_one] using heven
      obtain ⟨v, hv, htext⟩ := ih hstr fun c hc ↦ hdigits c (by simp [hc])
      have hbyte : (UInt8.ofNat (16 * x + y)).toNat = 16 * x + y := by
        rw [UInt8.toNat_ofNat']
        omega
      refine ⟨UInt8.ofNat (16 * x + y) :: v, ?_, ?_⟩
      · rw [convertHexStringToUint8Vec_cons ha hb, hv, Option.map_some]
      · rw [convertSerializedURItoString_cons, hbyte, htext,
          show (16 * x + y) / 16 = x by omega, show (16 * x + y) % 16 = y by omega, hax, hby]
        rfl

/-! ## Arguments -/

theorem argument_eq {s : Text} (h : 0 ∉ s) : argument s = some s := by
  have hall : ∀ b ∈ s, decide (b ≠ 0) = true := by
    intro b hb
    exact decide_eq_true fun heq ↦ h (heq ▸ hb)
  rw [argument, strncpy, List.takeWhile_eq_self_iff.mpr hall, List.take_length, Nat.sub_self,
    List.replicate_zero, List.append_nil]
  exact cString_append_zero h []

theorem digit_ne_zero {n : ℕ} (h : n < 16) : digit n ≠ 0 :=
  ne_of_hexValue (hexValue_digit h) rfl

theorem zero_notMem_convertSerializedURItoString (v : List UInt8) :
    0 ∉ convertSerializedURItoString v := by
  induction v with
  | nil => simp [convertSerializedURItoString]
  | cons e v ih =>
      have he := e.toNat_lt
      have htens := digit_ne_zero (show e.toNat / 16 < 16 by omega)
      have hones := digit_ne_zero (show e.toNat % 16 < 16 by omega)
      rw [convertSerializedURItoString_cons]
      simp [htens.symm, hones.symm, ih]

theorem uri_hex_lossless :
    (∀ v, convertHexStringToUint8Vec (convertSerializedURItoString v) = some v) ∧
      (∀ s : Text, Even s.length → (∀ b ∈ s, isHexDigit b = true) →
        ∃ v, convertHexStringToUint8Vec s = some v ∧
          convertSerializedURItoString v = s.map toLower) ∧
      ∀ v w, argument (convertSerializedURItoString v) =
        argument (convertSerializedURItoString w) → v = w := by
  refine ⟨convertHexStringToUint8Vec_convert, ?_, ?_⟩
  · intro s heven hdigits
    exact convertSerializedURItoString_convert heven hdigits
  · intro v w h
    rw [argument_eq (zero_notMem_convertSerializedURItoString v),
      argument_eq (zero_notMem_convertSerializedURItoString w), Option.some.injEq] at h
    have hread := congrArg convertHexStringToUint8Vec h
    rw [convertHexStringToUint8Vec_convert, convertHexStringToUint8Vec_convert] at hread
    exact Option.some.inj hread

theorem uri_hex_lossless_upper :
    ∃ v, convertHexStringToUint8Vec (text "0aF3") = some v ∧
      convertSerializedURItoString v = (text "0aF3").map toLower :=
  uri_hex_lossless.2.1 (text "0aF3") ⟨2, rfl⟩ (List.all_eq_true.mp rfl)

end UpZenohExample
