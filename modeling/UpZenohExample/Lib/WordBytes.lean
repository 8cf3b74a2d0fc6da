import Mathlib.Algebra.GroupWithZero.Nat
import Mathlib.Algebra.Order.Group.Nat

/-!
# Words in memory

A word of `k` bytes is stored in one of the two byte orders.  `readWord` takes a
word from the start of a memory area and fails when the area is too short.
-/

namespace WordBytes

inductive ByteOrder where
  | little
  | big
  deriving DecidableEq, Repr

def littleBytes : ℕ → ℕ → List UInt8
  | 0, _ => []
  | k + 1, n => UInt8.ofNat n :: littleBytes k (n / 256)

def littleValue : List UInt8 → ℕ
  | [] => 0
  | b :: bs => b.toNat + 256 * littleValue bs

/-- The `k` bytes of a word. -/
def bytes (order : ByteOrder) (k n : ℕ) : List UInt8 :=
  match order with
  | .little => littleBytes k n
  | .big => (littleBytes k n).reverse

def value (order : ByteOrder) (bs : List UInt8) : ℕ :=
  match order with
  | .little => littleValue bs
  | .big => littleValue bs.reverse

/-- The word in the first `k` bytes. -/
def readWord (order : ByteOrder) (k : ℕ) (mem : List UInt8) : Option ℕ :=
  if k ≤ mem.length then some (value order (mem.take k)) else none

theorem length_littleBytes (k n : ℕ) : (littleBytes k n).length = k := by
  induction k generalizing n with
  | zero => rfl
  | succ k ih => rw [littleBytes, List.length_cons, ih]

@[simp] theorem length_bytes (order : ByteOrder) (k n : ℕ) : (bytes order k n).length = k := by
  cases order <;> simp [bytes, length_littleBytes]

theorem littleValue_littleBytes {k n : ℕ} (h : n < 256 ^ k) :
    littleValue (littleBytes k n) = n := by
  induction k generalizing n with
  | zero =>
      rw [pow_zero] at h
      rw [littleBytes, littleValue]
      omega
  | succ k ih =>
      have hdiv : n / 256 < 256 ^ k := by
        rw [pow_succ] at h
        omega
      rw [littleBytes, littleValue, ih hdiv, UInt8.toNat_ofNat']
      omega

theorem value_bytes (order : ByteOrder) {k n : ℕ} (h : n < 256 ^ k) :
    value order (bytes order k n) = n := by
  cases order with
  | little => exact littleValue_littleBytes h
  | big =>
      simp only [value, bytes, List.reverse_reverse]
      exact littleValue_littleBytes h

theorem readWord_bytes (order : ByteOrder) {k n : ℕ} (h : n < 256 ^ k) :
    readWord order k (bytes order k n) = some n := by
  have htake : (bytes order k n).take k = bytes order k n :=
    List.take_of_length_le (by rw [length_bytes])
  rw [readWord, length_bytes, if_pos (le_refl k), htake, value_bytes order h]

end WordBytes
