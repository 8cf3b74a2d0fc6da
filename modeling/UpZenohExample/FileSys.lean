import UpZenohExample.Lib.FixedPoint

/-!
# The result files of `filesys.h`

A file is its text, or absent.  Values are exact rationals and are written with
nine digits after the point, one on a line.
-/

namespace UpZenohExample

open ByteText FixedPoint

abbrev File := Option Text

/-- `output_file << std::fixed << std::setprecision(9) << d << std::endl`. -/
def writeLine (d : ℚ) : Text := fixedText 9 d ++ [byte '\n']

/-- `writeVecToFile`, which appends and creates an absent file. -/
def writeVecToFile (file : File) (vec : List ℚ) : File :=
  some (vec.foldl (fun out d ↦ out ++ writeLine d) (file.getD []))

/-- The lines that calls of `getline` yield until one fails. -/
def getlines : Text → List Text
  | [] => []
  | b :: t =>
      if b = byte '\n' then [] :: getlines t
      else
        match getlines t with
        | [] => [[b]]
        | line :: lines => (b :: line) :: lines

/-- `readFileToVec` with the code it returns. -/
def readFileToVec (file : File) (vec : List ℚ) : Int × List ℚ :=
  match file with
  | none => (-1, vec)
  | some input =>
      (0, (getlines input).foldl (fun vec line ↦
        match readDouble line with
        | some val => vec ++ [val]
        | none => vec) vec)

/-! ## Lines -/

theorem getlines_append_cons {line : Text} (h : byte '\n' ∉ line) (rest : Text) :
    getlines (line ++ byte '\n' :: rest) = line :: getlines rest := by
  induction line with
  | nil => simp [getlines]
  | cons b line ih =>
      rw [List.mem_cons, not_or] at h
      simp [getlines, ih h.2, Ne.symm h.1]

theorem getlines_flatMap {lines : List Text} (h : ∀ line ∈ lines, byte '\n' ∉ line) :
    getlines (lines.flatMap (· ++ [byte '\n'])) = lines := by
  induction lines with
  | nil => rfl
  | cons line lines ih =>
      have hline := h line List.mem_cons_self
      have hrest := ih fun l hl ↦ h l (List.mem_cons_of_mem line hl)
      rw [List.flatMap_cons, List.append_assoc, List.singleton_append, getlines_append_cons hline,
        hrest]

theorem foldl_read (lines : List Text) (vec : List ℚ) :
    lines.foldl (fun vec line ↦
        match readDouble line with
        | some val => vec ++ [val]
        | none => vec) vec = vec ++ lines.filterMap readDouble := by
  induction lines generalizing vec with
  | nil => simp
  | cons line lines ih =>
      rw [List.foldl_cons, ih]
      cases hread : readDouble line <;> simp [hread]

theorem readFileToVec_eq (file : File) (vec : List ℚ) :
    (readFileToVec file vec).2 = vec ++ (getlines (file.getD [])).filterMap readDouble := by
  cases file with
  | none => simp [readFileToVec, getlines]
  | some input => exact foldl_read _ _

/-! ## Round trip -/

theorem writeVecToFile_eq (file : File) (vec : List ℚ) :
    writeVecToFile file vec = some (file.getD [] ++ vec.flatMap writeLine) := by
  rw [writeVecToFile]
  generalize file.getD [] = out
  induction vec generalizing out with
  | nil => simp
  | cons d vec ih =>
      have hrest := Option.some.inj (ih (out ++ writeLine d))
      rw [List.foldl_cons, hrest, List.flatMap_cons, List.append_assoc]

/-- The vectors of successive calls, one file. -/
def writeAll (vecs : List (List ℚ)) : File := vecs.foldl writeVecToFile none

theorem getD_foldl_writeVecToFile (vecs : List (List ℚ)) (file : File) :
    (vecs.foldl writeVecToFile file).getD [] =
      file.getD [] ++ vecs.flatten.flatMap writeLine := by
  induction vecs generalizing file with
  | nil => simp
  | cons vec vecs ih =>
      rw [List.foldl_cons, ih, writeVecToFile_eq, Option.getD_some, List.flatten_cons,
        List.flatMap_append, List.append_assoc]

theorem readFileToVec_writeAll (vecs : List (List ℚ)) (w : List ℚ) :
    (readFileToVec (writeAll vecs) w).2 = w ++ vecs.flatten.map (rounded 9) := by
  have htext := getD_foldl_writeVecToFile vecs none
  have hlines : vecs.flatten.flatMap writeLine =
      (vecs.flatten.map (fixedText 9)).flatMap (· ++ [byte '\n']) := by
    rw [List.flatMap_map]
    rfl
  have hread (values : List ℚ) :
      (values.map (fixedText 9)).filterMap readDouble = values.map (rounded 9) := by
    rw [List.filterMap_map, ← List.filterMap_eq_map]
    apply List.filterMap_congr
    intro d _
    exact readDouble_fixedText 9 d
  have hnewline : ∀ line ∈ vecs.flatten.map (fixedText 9), byte '\n' ∉ line := by
    intro line hline
    obtain ⟨d, -, rfl⟩ := List.mem_map.mp hline
    exact notMem_fixedText rfl (by decide) (by decide) 9 d
  rw [readFileToVec_eq, writeAll, htext, Option.getD_none, List.nil_append, hlines,
    getlines_flatMap hnewline, hread]

/-- What reading makes of a written value. -/
structure ReadBack (written read : ℚ) : Prop where
  close : |read - written| ≤ 1 / 2 / 10 ^ 9
  exact_of_nanoseconds : (∃ n : ℤ, written = n / 10 ^ 9) → read = written

theorem readBack_rounded (d : ℚ) : ReadBack d (rounded 9 d) where
  close := abs_rounded_sub_le 9 d
  exact_of_nanoseconds := rounded_eq_self

theorem result_files_round_trip (vecs : List (List ℚ)) (w : List ℚ) :
    ∃ values, (readFileToVec (writeAll vecs) w).2 = w ++ values ∧
      List.Forall₂ ReadBack vecs.flatten values := by
  refine ⟨vecs.flatten.map (rounded 9), readFileToVec_writeAll vecs w, ?_⟩
  rw [List.forall₂_map_right_iff, List.forall₂_same]
  intro d _
  exact readBack_rounded d

end UpZenohExample
