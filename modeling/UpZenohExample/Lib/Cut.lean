import Mathlib.Data.List.Basic
import Mathlib.Data.List.Infix

/-!
# Cutting a list at a delimiter

A list is cut at the left-to-right, non-overlapping occurrences of a
nonempty delimiter.  `cut` keeps the empty pieces and `pieces` drops them.
For a delimiter of one element the cut is determined by its first piece,
which is the form used by the parsers built on top of it.
-/

namespace ListCut

variable {α : Type*} [DecidableEq α]

/-- The position of the first occurrence of `delim`, if there is one. -/
def firstOccurrence (delim : List α) : List α → Option ℕ
  | [] => if delim = [] then some 0 else none
  | x :: xs => if delim <+: x :: xs then some 0 else (firstOccurrence delim xs).map (· + 1)

theorem firstOccurrence_eq_some {delim xs : List α} {p : ℕ}
    (h : firstOccurrence delim xs = some p) :
    delim <+: xs.drop p ∧ ∀ q < p, ¬ delim <+: xs.drop q := by
  induction xs generalizing p with
  | nil =>
      have hp : delim = [] ∧ 0 = p := by simpa [firstOccurrence, ite_eq_iff] using h
      simp [hp.1, ← hp.2]
  | cons x xs ih =>
      by_cases hpre : delim <+: x :: xs
      · have hp : 0 = p := by simpa [firstOccurrence, hpre] using h
        subst hp
        exact ⟨hpre, by simp⟩
      · obtain ⟨r, hr, rfl⟩ : ∃ r, firstOccurrence delim xs = some r ∧ r + 1 = p := by
          simpa [firstOccurrence, hpre] using h
        obtain ⟨hat, hbefore⟩ := ih hr
        refine ⟨hat, ?_⟩
        intro q hq
        cases q with
        | zero => exact hpre
        | succ q => exact hbefore q (by omega)

theorem firstOccurrence_add_length_le {delim xs : List α} {p : ℕ}
    (h : firstOccurrence delim xs = some p) : p ≤ xs.length ∧ p + delim.length ≤ xs.length := by
  have hle : p ≤ xs.length := by
    by_contra hlt
    obtain ⟨hat, hbefore⟩ := firstOccurrence_eq_some h
    rw [List.drop_eq_nil_of_le (by omega)] at hat
    apply hbefore xs.length (by omega)
    rw [List.prefix_nil.mp hat]
    exact List.nil_prefix
  have hlen := (firstOccurrence_eq_some h).1.length_le
  rw [List.length_drop] at hlen
  exact ⟨hle, by omega⟩

/-- Pieces of a list between the occurrences of a nonempty delimiter, empty
pieces included. -/
def cut (delim : List α) (hdelim : delim ≠ []) (xs : List α) : List (List α) :=
  match _h : firstOccurrence delim xs with
  | none => [xs]
  | some p => xs.take p :: cut delim hdelim (xs.drop (p + delim.length))
termination_by xs.length
decreasing_by
  have hpos := List.length_pos_iff.mpr hdelim
  have hle := (firstOccurrence_add_length_le _h).2
  rw [List.length_drop]
  omega

theorem cut_of_none {delim : List α} (hdelim : delim ≠ []) {xs : List α}
    (h : firstOccurrence delim xs = none) : cut delim hdelim xs = [xs] := by
  rw [cut]
  split
  · rfl
  · simp_all

theorem cut_of_some {delim : List α} (hdelim : delim ≠ []) {xs : List α} {p : ℕ}
    (h : firstOccurrence delim xs = some p) :
    cut delim hdelim xs = xs.take p :: cut delim hdelim (xs.drop (p + delim.length)) := by
  rw [cut]
  split
  · simp_all
  · simp_all

def pieces (delim : List α) (hdelim : delim ≠ []) (xs : List α) : List (List α) :=
  (cut delim hdelim xs).filter fun p ↦ !p.isEmpty

theorem pieces_of_none {delim : List α} (hdelim : delim ≠ []) {xs : List α}
    (h : firstOccurrence delim xs = none) :
    pieces delim hdelim xs = if xs.isEmpty then [] else [xs] := by
  rw [pieces, cut_of_none hdelim h]
  cases xs <;> simp

theorem pieces_of_some {delim : List α} (hdelim : delim ≠ []) {xs : List α} {p : ℕ}
    (h : firstOccurrence delim xs = some p) :
    pieces delim hdelim xs =
      (if (xs.take p).isEmpty then [] else [xs.take p]) ++
        pieces delim hdelim (xs.drop (p + delim.length)) := by
  rw [pieces, cut_of_some hdelim h, List.filter_cons, pieces]
  cases (xs.take p).isEmpty <;> simp

theorem ne_nil_of_mem_pieces {delim : List α} {hdelim : delim ≠ []} {xs p : List α}
    (hp : p ∈ pieces delim hdelim xs) : p ≠ [] := by
  have hne := (List.mem_filter.mp hp).2
  simpa using hne

theorem pieces_nil {delim : List α} (hdelim : delim ≠ []) : pieces delim hdelim [] = [] := by
  rw [pieces_of_none hdelim (by simp [firstOccurrence, hdelim])]
  rfl

/-! ## What a cut is -/

/-- `ps` are the pieces before, between and behind the leftmost occurrence of
`delim`, the leftmost one behind that, and so on. -/
inductive IsCut (delim : List α) : List α → List (List α) → Prop
  | last {xs : List α} (h : ¬ delim <:+: xs) : IsCut delim xs [xs]
  | cons {p rest : List α} {ps : List (List α)}
      (hfirst : ∀ q < p.length, ¬ delim <+: (p ++ delim ++ rest).drop q)
      (h : IsCut delim rest ps) : IsCut delim (p ++ delim ++ rest) (p :: ps)

theorem firstOccurrence_eq_none_iff {delim xs : List α} :
    firstOccurrence delim xs = none ↔ ¬ delim <:+: xs := by
  induction xs with
  | nil => simp [firstOccurrence]
  | cons x xs ih =>
      rw [List.infix_cons_iff, not_or, ← ih, firstOccurrence]
      by_cases h : delim <+: x :: xs <;> simp [h]

theorem eq_append_of_firstOccurrence {delim xs : List α} {p : ℕ}
    (h : firstOccurrence delim xs = some p) :
    xs = xs.take p ++ delim ++ xs.drop (p + delim.length) := by
  have hat := List.prefix_iff_eq_append.mp (firstOccurrence_eq_some h).1
  rw [List.drop_drop] at hat
  rw [List.append_assoc, hat, List.take_append_drop]

theorem firstOccurrence_append {delim p rest : List α}
    (hfirst : ∀ q < p.length, ¬ delim <+: (p ++ delim ++ rest).drop q) :
    firstOccurrence delim (p ++ delim ++ rest) = some p.length := by
  cases hocc : firstOccurrence delim (p ++ delim ++ rest) with
  | none => exact absurd ⟨p, rest, rfl⟩ (firstOccurrence_eq_none_iff.mp hocc)
  | some r =>
      obtain ⟨hat, hbefore⟩ := firstOccurrence_eq_some hocc
      have hge : p.length ≤ r := not_lt.mp fun hlt ↦ hfirst r hlt hat
      have hle : r ≤ p.length := by
        apply not_lt.mp
        intro hlt
        apply hbefore p.length hlt
        rw [List.append_assoc, List.drop_left]
        exact List.prefix_append _ _
      rw [le_antisymm hle hge]

theorem isCut_cut (delim : List α) (hdelim : delim ≠ []) (xs : List α) :
    IsCut delim xs (cut delim hdelim xs) := by
  induction hlen : xs.length using Nat.strong_induction_on generalizing xs with
  | _ n ih =>
      cases hocc : firstOccurrence delim xs with
      | none =>
          rw [cut_of_none hdelim hocc]
          exact IsCut.last (firstOccurrence_eq_none_iff.mp hocc)
      | some p =>
          have hpos := List.length_pos_iff.mpr hdelim
          obtain ⟨hp, hend⟩ := firstOccurrence_add_length_le hocc
          have hsplit := eq_append_of_firstOccurrence hocc
          have hrest := ih (xs.drop (p + delim.length)).length
            (by rw [List.length_drop]; omega) _ rfl
          have hfirst : ∀ q < (xs.take p).length,
              ¬ delim <+: (xs.take p ++ delim ++ xs.drop (p + delim.length)).drop q := by
            intro q hq
            rw [← hsplit]
            exact (firstOccurrence_eq_some hocc).2 q (by rw [List.length_take] at hq; omega)
          rw [cut_of_some hdelim hocc]
          conv => arg 2; rw [hsplit]
          exact IsCut.cons hfirst hrest

/-- There is one cut. -/
theorem isCut_iff {delim : List α} (hdelim : delim ≠ []) {xs : List α} {ps : List (List α)} :
    IsCut delim xs ps ↔ ps = cut delim hdelim xs := by
  constructor
  · intro h
    induction h with
    | last h => rw [cut_of_none hdelim (firstOccurrence_eq_none_iff.mpr h)]
    | @cons p rest ps hfirst h ih =>
        rw [cut_of_some hdelim (firstOccurrence_append hfirst), ih, ← List.length_append,
          List.drop_left, List.append_assoc, List.take_left]
  · rintro rfl
    exact isCut_cut delim hdelim xs

omit [DecidableEq α] in
theorem IsCut.ne_nil {delim xs : List α} {ps : List (List α)} (h : IsCut delim xs ps) :
    ps ≠ [] := by
  cases h <;> simp

omit [DecidableEq α] in
theorem IsCut.eq_intercalate {delim xs : List α} {ps : List (List α)} (h : IsCut delim xs ps) :
    xs = delim.intercalate ps := by
  induction h with
  | last h => simp
  | @cons p rest ps hfirst h ih =>
      obtain ⟨q, qs, rfl⟩ := List.exists_cons_of_ne_nil h.ne_nil
      rw [List.intercalate_cons_cons, ← ih]

omit [DecidableEq α] in
theorem IsCut.notInfix {delim xs : List α} (hdelim : delim ≠ []) {ps : List (List α)}
    (h : IsCut delim xs ps) : ∀ p ∈ ps, ¬ delim <:+: p := by
  induction h with
  | last h => simpa using h
  | @cons p rest ps hfirst h ih =>
      rw [List.forall_mem_cons]
      refine ⟨?_, ih⟩
      rintro ⟨s, t, rfl⟩
      have hpos := List.length_pos_iff.mpr hdelim
      apply hfirst s.length (by simp only [List.length_append]; omega)
      rw [List.append_assoc, List.append_assoc, List.append_assoc, List.drop_left]
      exact List.prefix_append _ _

omit [DecidableEq α] in
theorem flatten_filter_ne_nil (ps : List (List α)) :
    (ps.filter fun p ↦ !p.isEmpty).flatten = ps.flatten := by
  induction ps with
  | nil => rfl
  | cons p ps ih => cases p <;> simp [ih]

/-! ## Delimiters of one element -/

section Single

variable (d : α)

/-- The nonempty fields of a list separated by one element. -/
def fields (xs : List α) : List (List α) :=
  pieces [d] (List.cons_ne_nil d []) xs

theorem firstOccurrence_singleton_of_notMem {xs : List α} (h : d ∉ xs) :
    firstOccurrence [d] xs = none := by
  induction xs with
  | nil => simp [firstOccurrence]
  | cons x xs ih =>
      rw [List.mem_cons, not_or] at h
      simp [firstOccurrence, List.cons_prefix_cons, h.1, ih h.2]

theorem firstOccurrence_singleton_append {xs : List α} (h : d ∉ xs) (ys : List α) :
    firstOccurrence [d] (xs ++ d :: ys) = some xs.length := by
  induction xs with
  | nil => simp [firstOccurrence]
  | cons x xs ih =>
      rw [List.mem_cons, not_or] at h
      simp [firstOccurrence, List.cons_prefix_cons, h.1, ih h.2]

@[simp] theorem fields_nil : fields d [] = [] :=
  pieces_nil _

theorem fields_of_notMem {xs : List α} (hne : xs ≠ []) (h : d ∉ xs) : fields d xs = [xs] := by
  rw [fields, pieces_of_none _ (firstOccurrence_singleton_of_notMem d h)]
  simp [hne]

theorem fields_append_cons {xs : List α} (hne : xs ≠ []) (h : d ∉ xs) (ys : List α) :
    fields d (xs ++ d :: ys) = xs :: fields d ys := by
  rw [fields, pieces_of_some _ (firstOccurrence_singleton_append d h ys)]
  simp [hne, fields]

@[simp] theorem fields_cons_self (ys : List α) : fields d (d :: ys) = fields d ys := by
  have hnil : d ∉ ([] : List α) := by simp
  have h := pieces_of_some (List.cons_ne_nil d []) (firstOccurrence_singleton_append d hnil ys)
  simpa [fields] using h

@[simp] theorem fields_replicate_append (n : ℕ) (ys : List α) :
    fields d (List.replicate n d ++ ys) = fields d ys := by
  induction n with
  | zero => rfl
  | succ n ih => rw [List.replicate_succ, List.cons_append, fields_cons_self, ih]

@[simp] theorem fields_replicate (n : ℕ) : fields d (List.replicate n d) = [] := by
  simpa using fields_replicate_append d n []

/-- What may follow a field: the end of the list or a delimiter. -/
def Ends (rest : List α) : Prop :=
  rest = [] ∨ ∃ ys, rest = d :: ys

theorem fields_append {xs rest : List α} (hne : xs ≠ []) (h : d ∉ xs) (hrest : Ends d rest) :
    fields d (xs ++ rest) = xs :: fields d rest := by
  rcases hrest with rfl | ⟨ys, rfl⟩
  · simpa using fields_of_notMem d hne h
  · rw [fields_append_cons d hne h, fields_cons_self]

/-- Every list is some delimiters, then a part without delimiters, then an
end or a delimiter. -/
theorem exists_span (xs : List α) :
    ∃ n ys rest, xs = List.replicate n d ++ ys ++ rest ∧ d ∉ ys ∧ Ends d rest ∧
      (ys = [] → rest = []) := by
  induction xs with
  | nil => exact ⟨0, [], [], by simp, by simp, Or.inl rfl, fun _ ↦ rfl⟩
  | cons x xs ih =>
      obtain ⟨n, ys, rest, hxs, hys, hrest, hempty⟩ := ih
      by_cases hx : x = d
      · exact ⟨n + 1, ys, rest, by simp [hxs, hx, List.replicate_succ], hys, hrest, hempty⟩
      · cases n with
        | zero =>
            refine ⟨0, x :: ys, rest, by simp [hxs], ?_, hrest, by simp⟩
            simp [hys, Ne.symm hx]
        | succ n =>
            refine ⟨0, [x], d :: (List.replicate n d ++ ys ++ rest), ?_, ?_, Or.inr ⟨_, rfl⟩,
              by simp⟩
            · simp [hxs, List.replicate_succ]
            · simpa using Ne.symm hx

theorem fields_eq_nil_iff (xs : List α) : fields d xs = [] ↔ ∃ n, xs = List.replicate n d := by
  constructor
  · intro h
    obtain ⟨n, ys, rest, rfl, hys, hrest, hempty⟩ := exists_span d xs
    by_cases hne : ys = []
    · exact ⟨n, by simp [hne, hempty hne]⟩
    · rw [List.append_assoc, fields_replicate_append, fields_append d hne hys hrest] at h
      simp at h
  · rintro ⟨n, rfl⟩
    exact fields_replicate d n

theorem fields_eq_cons_iff (xs p : List α) (ps : List (List α)) :
    fields d xs = p :: ps ↔ ∃ n rest, xs = List.replicate n d ++ p ++ rest ∧
      p ≠ [] ∧ d ∉ p ∧ Ends d rest ∧ fields d rest = ps := by
  constructor
  · intro h
    obtain ⟨n, ys, rest, rfl, hys, hrest, hempty⟩ := exists_span d xs
    by_cases hne : ys = []
    · simp [hne, hempty hne] at h
    · rw [List.append_assoc, fields_replicate_append, fields_append d hne hys hrest,
        List.cons.injEq] at h
      obtain ⟨rfl, hps⟩ := h
      exact ⟨n, rest, rfl, hne, hys, hrest, hps⟩
  · rintro ⟨n, rest, rfl, hne, hp, hrest, rfl⟩
    rw [List.append_assoc, fields_replicate_append, fields_append d hne hp hrest]

/-- The first two fields, which are apart by at least one delimiter. -/
theorem fields_eq_cons_cons_iff (xs p q : List α) (ps : List (List α)) :
    fields d xs = p :: q :: ps ↔ ∃ m n rest,
      xs = List.replicate m d ++ p ++ List.replicate (n + 1) d ++ q ++ rest ∧
        p ≠ [] ∧ d ∉ p ∧ q ≠ [] ∧ d ∉ q ∧ Ends d rest ∧ fields d rest = ps := by
  constructor
  · intro h
    obtain ⟨m, tail, rfl, hp, hdp, htail, hfields⟩ := (fields_eq_cons_iff d _ _ _).mp h
    obtain ⟨n, rest, rfl, hq, hdq, hrest, hps⟩ := (fields_eq_cons_iff d _ _ _).mp hfields
    cases n with
    | succ n => exact ⟨m, n, rest, by simp, hp, hdp, hq, hdq, hrest, hps⟩
    | zero =>
        -- Without a delimiter in between, `p` would not end before `q`.
        cases q with
        | nil => exact absurd rfl hq
        | cons y q =>
            exfalso
            rcases htail with hnil | ⟨ys, hcons⟩
            · simp at hnil
            · have hy : y = d := by simpa using congrArg List.head? hcons
              exact hdq (hy ▸ List.mem_cons_self)
  · rintro ⟨m, n, rest, rfl, hp, hdp, hq, hdq, hrest, rfl⟩
    refine (fields_eq_cons_iff d _ _ _).mpr
      ⟨m, List.replicate (n + 1) d ++ q ++ rest, by simp, hp, hdp, ?_, ?_⟩
    · exact Or.inr ⟨List.replicate n d ++ q ++ rest, by simp [List.replicate_succ]⟩
    · exact (fields_eq_cons_iff d _ _ _).mpr ⟨n + 1, rest, rfl, hq, hdq, hrest, rfl⟩

theorem fields_eq_pair_iff (xs p q : List α) :
    fields d xs = [p, q] ↔ ∃ m n k,
      xs = List.replicate m d ++ p ++ List.replicate (n + 1) d ++ q ++ List.replicate k d ∧
        p ≠ [] ∧ d ∉ p ∧ q ≠ [] ∧ d ∉ q := by
  rw [fields_eq_cons_cons_iff]
  constructor
  · rintro ⟨m, n, rest, rfl, hp, hdp, hq, hdq, -, hrest⟩
    obtain ⟨k, rfl⟩ := (fields_eq_nil_iff d rest).mp hrest
    exact ⟨m, n, k, rfl, hp, hdp, hq, hdq⟩
  · rintro ⟨m, n, k, rfl, hp, hdp, hq, hdq⟩
    refine ⟨m, n, List.replicate k d, rfl, hp, hdp, hq, hdq, ?_, fields_replicate d k⟩
    cases k with
    | zero => exact Or.inl rfl
    | succ k => exact Or.inr ⟨List.replicate k d, List.replicate_succ⟩

theorem fields_eq_singleton_iff (xs p : List α) :
    fields d xs = [p] ↔ ∃ m k, xs = List.replicate m d ++ p ++ List.replicate k d ∧
      p ≠ [] ∧ d ∉ p := by
  rw [fields_eq_cons_iff]
  constructor
  · rintro ⟨m, rest, rfl, hp, hdp, -, hrest⟩
    obtain ⟨k, rfl⟩ := (fields_eq_nil_iff d rest).mp hrest
    exact ⟨m, k, rfl, hp, hdp⟩
  · rintro ⟨m, k, rfl, hp, hdp⟩
    refine ⟨m, List.replicate k d, rfl, hp, hdp, ?_, fields_replicate d k⟩
    cases k with
    | zero => exact Or.inl rfl
    | succ k => exact Or.inr ⟨List.replicate k d, List.replicate_succ⟩

end Single

end ListCut
