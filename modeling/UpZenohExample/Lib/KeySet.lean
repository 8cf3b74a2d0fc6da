import Mathlib.Data.List.Perm.Lattice
import Mathlib.Order.Lattice

/-!
# Ordered sets by a key

A `std::set` whose comparison looks at a key only: the list of its elements in
increasing order of their keys.  An element is not inserted when one with the
same key is there.
-/

namespace KeySet

variable {α β : Type*} [LinearOrder β] (key : α → β)

def insert (x : α) : List α → List α
  | [] => [x]
  | y :: ys =>
      if key x < key y then x :: y :: ys
      else if key y < key x then y :: insert x ys
      else y :: ys

/-- One insertion after the other into an empty set. -/
def ofList (xs : List α) : List α := xs.foldl (fun set x ↦ insert key x set) []

def Sorted (set : List α) : Prop := set.Pairwise fun a b ↦ key a < key b

theorem mem_keys_insert {x : α} {set : List α} {k : β} :
    k ∈ (insert key x set).map key ↔ k = key x ∨ k ∈ set.map key := by
  induction set with
  | nil => simp [insert]
  | cons y ys ih =>
      unfold insert
      split
      · simp
      · split
        · rw [List.map_cons, List.mem_cons, ih, List.map_cons, List.mem_cons, or_left_comm]
        · rename_i hxy hyx
          have heq : key x = key y := le_antisymm (not_lt.mp hyx) (not_lt.mp hxy)
          simp [heq]

variable {key}

theorem Sorted.insert {set : List α} (h : Sorted key set) (x : α) :
    Sorted key (KeySet.insert key x set) := by
  induction set with
  | nil => exact List.pairwise_singleton _ _
  | cons y ys ih =>
      obtain ⟨hy, hys⟩ := List.pairwise_cons.mp h
      unfold KeySet.insert
      split
      · rename_i hxy
        refine List.pairwise_cons.mpr ⟨?_, h⟩
        intro z hz
        rcases List.mem_cons.mp hz with rfl | hz
        · exact hxy
        · exact lt_trans hxy (hy z hz)
      · split
        · rename_i hyx
          refine List.pairwise_cons.mpr ⟨?_, ih hys⟩
          intro z hz
          have hkey := (mem_keys_insert key).mp (List.mem_map_of_mem hz)
          rcases hkey with heq | hkey
          · rwa [heq]
          · obtain ⟨w, hw, heq⟩ := List.mem_map.mp hkey
            rw [← heq]
            exact hy w hw
        · exact h

/-- A new key makes a new element. -/
theorem insert_perm_of_notMem {x : α} {set : List α} (h : key x ∉ set.map key) :
    (KeySet.insert key x set).Perm (x :: set) := by
  induction set with
  | nil => exact List.Perm.refl _
  | cons y ys ih =>
      rw [List.map_cons, List.mem_cons, not_or] at h
      unfold KeySet.insert
      split
      · exact List.Perm.refl _
      · split
        · exact ((ih h.2).cons y).trans (List.Perm.swap x y ys)
        · rename_i hxy hyx
          exact absurd (le_antisymm (not_lt.mp hyx) (not_lt.mp hxy)) h.1

theorem sorted_ofList (xs : List α) : Sorted key (ofList key xs) := by
  have hfold : ∀ set, Sorted key set →
      Sorted key (xs.foldl (fun set x ↦ KeySet.insert key x set) set) := by
    induction xs with
    | nil => exact fun _ h ↦ h
    | cons x xs ih => exact fun set h ↦ ih _ (h.insert x)
  exact hfold [] List.Pairwise.nil

/-- Elements with different keys all get into the set. -/
theorem ofList_perm {xs : List α} (h : (xs.map key).Nodup) : (ofList key xs).Perm xs := by
  have hfold : ∀ set, ((xs ++ set).map key).Nodup →
      (xs.foldl (fun set x ↦ KeySet.insert key x set) set).Perm (xs ++ set) := by
    clear h
    induction xs with
    | nil => exact fun _ _ ↦ List.Perm.refl _
    | cons x xs ih =>
        intro set hnodup
        rw [List.cons_append, List.map_cons, List.nodup_cons] at hnodup
        have hx : key x ∉ set.map key := by
          intro hmem
          apply hnodup.1
          rw [List.map_append]
          exact List.mem_append_right _ hmem
        have hinsert := insert_perm_of_notMem hx
        have hnext : (xs ++ KeySet.insert key x set).Perm (x :: (xs ++ set)) :=
          (hinsert.append_left xs).trans List.perm_middle
        have hkeys : ((xs ++ KeySet.insert key x set).map key).Nodup := by
          rw [(hnext.map key).nodup_iff, List.map_cons, List.nodup_cons]
          exact hnodup
        exact (ih _ hkeys).trans hnext
  have hall := hfold [] (by rwa [List.append_nil])
  rwa [List.append_nil] at hall

end KeySet
