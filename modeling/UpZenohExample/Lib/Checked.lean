import Mathlib.Algebra.Field.Defs
import Mathlib.Data.List.Sort
import Mathlib.Data.Rat.Cast.CharZero

/-!
# Numbers that record a division by zero

A division by zero has a result of its own here, and every operation on that
result gives it again.  A computation that only uses the operations of its number
type is run at `Checked K` to see whether it divides by zero.
-/

inductive Checked (K : Type*) where
  | value (x : K)
  | divByZero
  deriving DecidableEq, Repr

namespace Checked

variable {K : Type*}

def map (f : K → K) : Checked K → Checked K
  | value x => value (f x)
  | divByZero => divByZero

def map₂ (f : K → K → K) : Checked K → Checked K → Checked K
  | value x, value y => value (f x y)
  | _, _ => divByZero

/-- A recorded division by zero compares with nothing. -/
protected def le [LE K] : Checked K → Checked K → Prop
  | value x, value y => x ≤ y
  | _, _ => False

protected def div [Zero K] [Div K] [DecidableEq K] : Checked K → Checked K → Checked K
  | value x, value y => if y = 0 then divByZero else value (x / y)
  | _, _ => divByZero

instance [Zero K] : Zero (Checked K) := ⟨value 0⟩
instance [Add K] : Add (Checked K) := ⟨map₂ (· + ·)⟩
instance [Sub K] : Sub (Checked K) := ⟨map₂ (· - ·)⟩
instance [Mul K] : Mul (Checked K) := ⟨map₂ (· * ·)⟩
instance [Zero K] [Div K] [DecidableEq K] : Div (Checked K) := ⟨Checked.div⟩
instance [NatCast K] : NatCast (Checked K) := ⟨fun n ↦ value (n : K)⟩
instance [RatCast K] : RatCast (Checked K) := ⟨fun q ↦ value (q : K)⟩
instance [Pow K ℕ] : Pow (Checked K) ℕ := ⟨fun x n ↦ x.map (· ^ n)⟩
instance [LE K] : LE (Checked K) := ⟨Checked.le⟩

instance [LE K] [DecidableLE K] : DecidableLE (Checked K)
  | value x, value y => inferInstanceAs (Decidable (x ≤ y))
  | value _, divByZero => isFalse id
  | divByZero, value _ => isFalse id
  | divByZero, divByZero => isFalse id

section Values

@[simp] theorem value_zero [Zero K] : (0 : Checked K) = value 0 := rfl

@[simp] theorem value_add [Add K] (x y : K) : value x + value y = value (x + y) := rfl

@[simp] theorem value_sub [Sub K] (x y : K) : value x - value y = value (x - y) := rfl

@[simp] theorem natCast_eq [NatCast K] (n : ℕ) : (n : Checked K) = value (n : K) := rfl

@[simp] theorem value_pow [Monoid K] (x : K) (n : ℕ) : value x ^ n = value (x ^ n) := rfl

@[simp] theorem value_le_value [LE K] {x y : K} : value x ≤ value y ↔ x ≤ y := Iff.rfl

variable [Zero K] [Div K] [DecidableEq K]

theorem value_div {y : K} (hy : y ≠ 0) (x : K) : value x / value y = value (x / y) :=
  if_neg hy

@[simp] theorem value_div_zero (x : K) : value x / value 0 = divByZero := if_pos rfl

end Values

@[simp] theorem add_divByZero [Add K] (x : Checked K) : x + divByZero = divByZero := by
  cases x <;> rfl

@[simp] theorem divByZero_sub [Sub K] (x : Checked K) : divByZero - x = divByZero := rfl

@[simp] theorem mul_divByZero [Mul K] (x : Checked K) : x * divByZero = divByZero := by
  cases x <;> rfl

@[simp] theorem divByZero_pow [Monoid K] (n : ℕ) : (divByZero : Checked K) ^ n = divByZero := rfl

/-! ## Lists of values -/

/-- A fold of values is that of the numbers. -/
theorem foldl_value {α : Type*} (g : K → α → K) (g' : Checked K → Checked α → Checked K)
    (h : ∀ x a, g' (value x) (value a) = value (g x a)) (xs : List α) (x : K) :
    (xs.map value).foldl g' (value x) = value (xs.foldl g x) := by
  rw [List.foldl_map]
  exact List.foldl_hom value h

/-- A step that always divides by zero leaves nothing else. -/
theorem foldl_divByZero {α : Type*} {g : Checked K → α → Checked K}
    (h : ∀ x a, g x a = divByZero) {xs : List α} (hne : xs ≠ []) (x : Checked K) :
    xs.foldl g x = divByZero := by
  obtain ⟨front, last, rfl⟩ := List.eq_nil_or_concat' xs |>.resolve_left hne
  rw [List.foldl_append]
  exact h _ _

theorem insertionSort_value [LE K] [DecidableLE K] (xs : List K) :
    (xs.map value).insertionSort (· ≤ ·) = (xs.insertionSort (· ≤ ·)).map value :=
  (List.map_insertionSort (· ≤ ·) (· ≤ ·) value xs fun _ _ _ _ ↦ value_le_value.symm).symm

end Checked
