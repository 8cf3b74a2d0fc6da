import Mathlib.Data.List.Lex
import Mathlib.Data.List.Sort
import Mathlib.Order.Nat
import UpZenohExample.Lib.ByteText

/-!
# The order of names

Names are compared byte by byte.  Numbers below 100 written with two digits
compare like the numbers, also in front of further text.  A list sorted by an
injective key has its greatest element last, and a prefix of it holds its least
elements.  A search for a key finds the element that has it, if no other does.
-/

namespace NameOrder

open ByteText

def codes (t : Text) : List ℕ := t.map UInt8.toNat

theorem codes_injective {s t : Text} (h : codes s = codes t) : s = t :=
  List.map_injective_iff.mpr (fun _ _ ↦ UInt8.toNat_inj.mp) h

/-! ## Two digits -/

def twoDigits (n : ℕ) : Text := [UInt8.ofNat (48 + n / 10), UInt8.ofNat (48 + n % 10)]

theorem codes_twoDigits_append {n : ℕ} (h : n < 100) (t : Text) :
    codes (twoDigits n ++ t) = (48 + n / 10) :: (48 + n % 10) :: codes t := by
  have htens : (UInt8.ofNat (48 + n / 10)).toNat = 48 + n / 10 := by
    rw [UInt8.toNat_ofNat']
    omega
  have hones : (UInt8.ofNat (48 + n % 10)).toNat = 48 + n % 10 := by
    rw [UInt8.toNat_ofNat']
    omega
  rw [codes, List.map_append, twoDigits, List.map_cons, List.map_cons, htens, hones]
  rfl

theorem cons_lt_cons_iff {a b : ℕ} {l m : List ℕ} : a :: l < b :: m ↔ a < b ∨ a = b ∧ l < m :=
  List.cons_lt_cons_iff

theorem twoDigits_append_lt_iff {m n : ℕ} (hm : m < 100) (hn : n < 100) (s t : Text) :
    codes (twoDigits m ++ s) < codes (twoDigits n ++ t) ↔ m < n ∨ m = n ∧ codes s < codes t := by
  rw [codes_twoDigits_append hm, codes_twoDigits_append hn, cons_lt_cons_iff, cons_lt_cons_iff]
  constructor
  · rintro (htens | ⟨htens, hones | ⟨hones, hrest⟩⟩)
    · exact Or.inl (by omega)
    · exact Or.inl (by omega)
    · exact Or.inr ⟨by omega, hrest⟩
  · rintro (hlt | ⟨rfl, hrest⟩)
    · by_cases htens : m / 10 = n / 10
      · exact Or.inr ⟨by omega, Or.inl (by omega)⟩
      · exact Or.inl (by omega)
    · exact Or.inr ⟨rfl, Or.inr ⟨rfl, hrest⟩⟩

theorem append_lt_append_iff (sep s t : Text) :
    codes (sep ++ s) < codes (sep ++ t) ↔ codes s < codes t := by
  induction sep with
  | nil => rfl
  | cons b sep ih =>
      show b.toNat :: codes (sep ++ s) < b.toNat :: codes (sep ++ t) ↔ _
      rw [cons_lt_cons_iff, ih]
      simp

/-! ## Sorting -/

section Sorting

variable {α β : Type*} [LinearOrder β] (key : α → β)

def sortBy (l : List α) : List α := l.insertionSort fun a b ↦ key a ≤ key b

theorem sortBy_perm (l : List α) : (sortBy key l).Perm l := List.perm_insertionSort _ _

theorem mem_sortBy {l : List α} {a : α} : a ∈ sortBy key l ↔ a ∈ l := (sortBy_perm key l).mem_iff

theorem pairwise_sortBy (l : List α) : (sortBy key l).Pairwise fun a b ↦ key a ≤ key b := by
  have : Std.Total fun a b ↦ key a ≤ key b := ⟨fun a b ↦ le_total (key a) (key b)⟩
  have : IsTrans α fun a b ↦ key a ≤ key b := ⟨fun _ _ _ ↦ le_trans⟩
  exact List.pairwise_insertionSort _ l

variable {key}

theorem pairwise_lt_sortBy (hkey : key.Injective) {l : List α} (hl : l.Nodup) :
    (sortBy key l).Pairwise fun a b ↦ key a < key b := by
  have hnodup : (sortBy key l).Pairwise (· ≠ ·) := (sortBy_perm key l).nodup_iff.mpr hl
  exact (pairwise_sortBy key l).imp₂ (fun _ _ hle hne ↦ lt_of_le_of_ne hle (hkey.ne hne)) hnodup

/-- Removing a prefix of the sorted list removes the least elements. -/
theorem lt_of_mem_take_drop (hkey : key.Injective) {l : List α} (hl : l.Nodup) {k : ℕ} {a b : α}
    (ha : a ∈ (sortBy key l).take k) (hb : b ∈ (sortBy key l).drop k) : key a < key b := by
  have hsorted := pairwise_lt_sortBy hkey hl
  rw [← List.take_append_drop k (sortBy key l), List.pairwise_append] at hsorted
  exact hsorted.2.2 a ha b hb

theorem getLast?_sortBy (hkey : key.Injective) {l : List α} {a : α} (ha : a ∈ l)
    (hmax : ∀ b ∈ l, key b ≤ key a) : (sortBy key l).getLast? = some a := by
  have hmem : a ∈ sortBy key l := (mem_sortBy key).mpr ha
  obtain ⟨init, last, hsort⟩ : ∃ init last, sortBy key l = init ++ [last] :=
    ⟨_, _, (List.dropLast_concat_getLast (List.ne_nil_of_mem hmem)).symm⟩
  have hlast : key last ≤ key a := by
    apply hmax
    rw [← mem_sortBy key, hsort]
    simp
  have hle : key a ≤ key last := by
    have hsorted := pairwise_sortBy key l
    rw [hsort, List.pairwise_append] at hsorted
    rw [hsort, List.mem_append, List.mem_singleton] at hmem
    rcases hmem with hinit | rfl
    · exact hsorted.2.2 a hinit last (by simp)
    · exact le_refl _
  rw [hsort, List.getLast?_concat, hkey (le_antisymm hlast hle)]

end Sorting

/-! ## Searching -/

theorem find?_key {α β : Type*} [DecidableEq β] {key : α → β} {l : List α}
    (hkey : ∀ a ∈ l, ∀ b ∈ l, key a = key b → a = b) {a : α} (ha : a ∈ l) :
    l.find? (fun b ↦ key b = key a) = some a := by
  cases hfind : l.find? fun b ↦ key b = key a with
  | none =>
      have hnone := List.find?_eq_none.mp hfind a ha
      simp at hnone
  | some b =>
      have hb : key b = key a := by simpa using List.find?_some hfind
      rw [hkey b (List.mem_of_find?_eq_some hfind) a ha hb]

end NameOrder
