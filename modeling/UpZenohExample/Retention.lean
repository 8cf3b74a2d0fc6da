import Mathlib.Data.List.Perm.Subperm
import UpZenohExample.Lib.NameOrder

/-!
# The directories of the runs

`run_tests` creates `benchmarks/%y-%m-%d_%H-%M-%S`, and when there are more than
eight directories whose names start with a digit it removes the first five.
Its children take the last one.  The operations of the file system succeed.
-/

namespace UpZenohExample

open ByteText NameOrder

/-! ## Local time -/

structure LocalTime where
  year : ℕ
  month : ℕ
  day : ℕ
  hour : ℕ
  minute : ℕ
  second : ℕ
  month_le : month ≤ 12
  day_le : day ≤ 31
  hour_le : hour ≤ 23
  minute_le : minute ≤ 59
  second_le : second ≤ 60
  deriving DecidableEq

namespace LocalTime

def century (t : LocalTime) : ℕ := t.year / 100

def fields (t : LocalTime) : List ℕ := [t.year, t.month, t.day, t.hour, t.minute, t.second]

theorem fields_injective : fields.Injective := by
  rintro ⟨⟩ ⟨⟩ h
  simp only [fields, List.cons.injEq, and_true] at h
  simpa only [mk.injEq] using h

instance : LinearOrder LocalTime := LinearOrder.lift' fields fields_injective

theorem lt_iff (s t : LocalTime) : s < t ↔ s.fields < t.fields := Iff.rfl

end LocalTime

/-- `std::put_time` with `%y-%m-%d_%H-%M-%S`. -/
def dirName (t : LocalTime) : Text :=
  twoDigits (t.year % 100) ++ (text "-" ++ (twoDigits t.month ++ (text "-" ++ (twoDigits t.day ++
    (text "_" ++ (twoDigits t.hour ++ (text "-" ++ (twoDigits t.minute ++ (text "-" ++
      (twoDigits t.second ++ []))))))))))

example : dirName ⟨2024, 11, 5, 9, 30, 0, by decide, by decide, by decide, by decide, by decide⟩ =
    text "24-11-05_09-30-00" := by decide

theorem dirName_lt_iff {s t : LocalTime} (h : s.century = t.century) :
    codes (dirName s) < codes (dirName t) ↔ s < t := by
  have hsm := s.month_le
  have hsd := s.day_le
  have hsh := s.hour_le
  have hsi := s.minute_le
  have hss := s.second_le
  have htm := t.month_le
  have htd := t.day_le
  have hth := t.hour_le
  have hti := t.minute_le
  have hts := t.second_le
  -- In one century the last two digits of the years decide.
  have hlt : s.year % 100 < t.year % 100 ↔ s.year < t.year := by
    unfold LocalTime.century at h
    omega
  have heq : s.year % 100 = t.year % 100 ↔ s.year = t.year := by
    unfold LocalTime.century at h
    omega
  rw [LocalTime.lt_iff, dirName, dirName,
    twoDigits_append_lt_iff (by omega) (by omega), append_lt_append_iff,
    twoDigits_append_lt_iff (by omega) (by omega), append_lt_append_iff,
    twoDigits_append_lt_iff (by omega) (by omega), append_lt_append_iff,
    twoDigits_append_lt_iff (by omega) (by omega), append_lt_append_iff,
    twoDigits_append_lt_iff (by omega) (by omega), append_lt_append_iff,
    twoDigits_append_lt_iff (by omega) (by omega), hlt, heq]
  simp only [LocalTime.fields, cons_lt_cons_iff]
  rfl

theorem dirName_le_of_le {s t : LocalTime} (h : s.century = t.century) (hle : s ≤ t) :
    codes (dirName s) ≤ codes (dirName t) := by
  apply le_of_not_gt
  intro hlt
  exact hle.not_gt ((dirName_lt_iff h.symm).mp hlt)

/-- `std::isdigit((entry.path().filename().string())[0])`. -/
def digitNamed (name : Text) : Bool := name.head?.any isDigit

theorem digitNamed_dirName (t : LocalTime) : digitNamed (dirName t) = true := by
  have hcode : (UInt8.ofNat (48 + t.year % 100 / 10)).toNat = 48 + t.year % 100 / 10 := by
    rw [UInt8.toNat_ofNat']
    omega
  show isDigit (UInt8.ofNat (48 + t.year % 100 / 10)) = true
  rw [isDigit, hcode]
  simp only [Bool.and_eq_true, decide_eq_true_eq]
  omega

/-! ## Directories -/

/-- A path is its list of names; paths are compared name by name. -/
abbrev Path := List Text

def pathCodes (p : Path) : List (List ℕ) := p.map codes

theorem pathCodes_injective : pathCodes.Injective :=
  List.map_injective_iff.mpr fun _ _ ↦ codes_injective

/-- The names in the directory `benchmarks`. -/
structure Bench where
  entries : List Text
  nodup : entries.Nodup

/-- `std::filesystem::create_directory`. -/
def createDirectory (bench : Bench) (name : Text) : Bench :=
  ⟨bench.entries.insert name, bench.nodup.insert⟩

section Bench

variable (dirPath : Path)

def removeDirectory (bench : Bench) (dir : Path) : Bench :=
  ⟨bench.entries.filter fun name ↦ dirPath ++ [name] ≠ dir, bench.nodup.filter _⟩

def getDirectories (listing : List Text) : List Path :=
  (listing.filter digitNamed).map fun name ↦ dirPath ++ [name]

def sortedDirs (listing : List Text) : List Path :=
  sortBy pathCodes (getDirectories dirPath listing)

/-- `none` is an access out of bounds. -/
def getWorkingDir (listing : List Text) : Option Path :=
  let dirs := sortedDirs dirPath listing
  dirs[dirs.length - 1]?

/-- The retention step of `run_tests`. -/
def retain (bench : Bench) (listing : List Text) : Bench :=
  let dirs := sortedDirs dirPath listing
  if dirs.length > 8 then (dirs.take 5).foldl (removeDirectory dirPath) bench else bench

end Bench

/-! ## Runs -/

/-- The next run after runs at `times` left `bench`.  Only runs create entries
whose names start with a digit. -/
structure NextRun (century : ℕ) (times : List LocalTime) (bench : Bench) where
  time : LocalTime
  century_eq : time.century = century
  latest : ∀ t ∈ times, t ≤ time
  before : Bench
  before_subset : ∀ name ∈ before.entries, digitNamed name = true → name ∈ bench.entries
  listing : List Text
  listing_perm : listing.Perm (createDirectory before (dirName time)).entries

namespace NextRun

variable {century : ℕ} {times : List LocalTime} {bench : Bench} (next : NextRun century times bench)
variable (dirPath : Path)

def created : Bench := createDirectory next.before (dirName next.time)

/-- The directory from which the run reads the samples. -/
def path : Path := dirPath ++ [dirName next.time]

def after : Bench := retain dirPath next.created next.listing

def removed : List Text :=
  next.created.entries.filter fun name ↦ !(next.after dirPath).entries.contains name

end NextRun

/-- Runs that do not overlap, the last one first. -/
inductive Runs (dirPath : Path) (century : ℕ) : List LocalTime → Bench → Prop
  | start (bench : Bench) (h : ∀ name ∈ bench.entries, digitNamed name = false) :
      Runs dirPath century [] bench
  | run {times : List LocalTime} {bench : Bench} (h : Runs dirPath century times bench)
      (next : NextRun century times bench) :
      Runs dirPath century (next.time :: times) (next.after dirPath)

/-- What the runs at `times` leave. -/
structure Kept (century : ℕ) (times : List LocalTime) (bench : Bench) : Prop where
  century_eq : ∀ t ∈ times, t.century = century
  named : ∀ name ∈ bench.entries, digitNamed name = true → ∃ t ∈ times, dirName t = name
  few : (bench.entries.filter digitNamed).length ≤ 8

theorem mem_createDirectory {bench : Bench} {name entry : Text} :
    entry ∈ (createDirectory bench name).entries ↔ entry = name ∨ entry ∈ bench.entries :=
  List.mem_insert_iff

section Bench

variable {dirPath : Path}

theorem append_name_inj {s t : Text} : dirPath ++ [s] = dirPath ++ [t] ↔ s = t := by
  rw [List.append_cancel_left_eq, List.cons.injEq]
  exact and_iff_left rfl

theorem pathCodes_lt_iff {s t : Text} :
    pathCodes (dirPath ++ [s]) < pathCodes (dirPath ++ [t]) ↔ codes s < codes t := by
  induction dirPath with
  | nil => simp [pathCodes, List.cons_lt_cons_iff]
  | cons p dirPath ih => simpa [pathCodes, List.cons_lt_cons_iff] using ih

theorem pathCodes_le_iff {s t : Text} :
    pathCodes (dirPath ++ [s]) ≤ pathCodes (dirPath ++ [t]) ↔ codes s ≤ codes t := by
  rw [← not_lt, pathCodes_lt_iff, not_lt]

theorem mem_foldl_removeDirectory {dirs : List Path} {bench : Bench} {name : Text} :
    name ∈ (dirs.foldl (removeDirectory dirPath) bench).entries ↔
      name ∈ bench.entries ∧ dirPath ++ [name] ∉ dirs := by
  induction dirs generalizing bench with
  | nil => simp
  | cons dir dirs ih =>
      rw [List.foldl_cons, ih]
      simp [removeDirectory, and_assoc]

theorem mem_getDirectories {listing : List Text} {dir : Path} :
    dir ∈ getDirectories dirPath listing ↔
      ∃ name ∈ listing, digitNamed name = true ∧ dirPath ++ [name] = dir := by
  simp [getDirectories, and_assoc]

theorem mem_sortedDirs {listing : List Text} {dir : Path} :
    dir ∈ sortedDirs dirPath listing ↔
      ∃ name ∈ listing, digitNamed name = true ∧ dirPath ++ [name] = dir :=
  (mem_sortBy _).trans mem_getDirectories

theorem mem_sortedDirs_append {listing : List Text} {name : Text} :
    dirPath ++ [name] ∈ sortedDirs dirPath listing ↔ name ∈ listing ∧ digitNamed name = true := by
  simp [mem_sortedDirs]

theorem nodup_getDirectories {listing : List Text} (h : listing.Nodup) :
    (getDirectories dirPath listing).Nodup :=
  (h.filter _).map fun _ _ heq ↦ append_name_inj.mp heq

theorem length_sortedDirs (listing : List Text) :
    (sortedDirs dirPath listing).length = (listing.filter digitNamed).length := by
  rw [sortedDirs, (sortBy_perm _ _).length_eq, getDirectories, List.length_map]

/-- The greatest of the digit-named directories is the working directory. -/
theorem getWorkingDir_eq {listing : List Text} {own : Text} (hown : own ∈ listing)
    (hdigit : digitNamed own = true)
    (hmax : ∀ name ∈ listing, digitNamed name = true → codes name ≤ codes own) :
    getWorkingDir dirPath listing = some (dirPath ++ [own]) := by
  rw [getWorkingDir, ← List.getLast?_eq_getElem?, sortedDirs]
  apply getLast?_sortBy pathCodes_injective
  · exact mem_getDirectories.mpr ⟨own, hown, hdigit, rfl⟩
  · intro dir hdir
    obtain ⟨name, hname, hnamed, rfl⟩ := mem_getDirectories.mp hdir
    exact pathCodes_le_iff.mpr (hmax name hname hnamed)

/-- The retention step removes a name when it is among the first five of more
than eight. -/
theorem mem_retain {bench : Bench} {listing : List Text} {name : Text} :
    name ∈ (retain dirPath bench listing).entries ↔
      name ∈ bench.entries ∧ ¬ ((sortedDirs dirPath listing).length > 8 ∧
        dirPath ++ [name] ∈ (sortedDirs dirPath listing).take 5) := by
  rw [retain]
  split
  next h => rw [mem_foldl_removeDirectory, and_iff_right h]
  next h => rw [and_iff_left fun hremoved ↦ h hremoved.1]

end Bench

namespace NextRun

variable {dirPath : Path} {century : ℕ} {times : List LocalTime} {bench : Bench}

theorem mem_listing (next : NextRun century times bench) {name : Text} :
    name ∈ next.listing ↔ name = dirName next.time ∨ name ∈ next.before.entries := by
  rw [next.listing_perm.mem_iff, mem_createDirectory]

theorem nodup_listing (next : NextRun century times bench) : next.listing.Nodup :=
  next.listing_perm.nodup_iff.mpr next.created.nodup

theorem named (next : NextRun century times bench) (h : Kept century times bench) {name : Text}
    (hname : name ∈ next.listing) (hdigit : digitNamed name = true) :
    ∃ t ∈ next.time :: times, dirName t = name := by
  rcases next.mem_listing.mp hname with rfl | hbefore
  · exact ⟨next.time, List.mem_cons_self, rfl⟩
  · obtain ⟨t, ht, hdir⟩ := h.named name (next.before_subset name hbefore hdigit) hdigit
    exact ⟨t, List.mem_cons_of_mem _ ht, hdir⟩

theorem century_of_mem (next : NextRun century times bench) (h : Kept century times bench)
    {t : LocalTime} (ht : t ∈ next.time :: times) : t.century = century := by
  rcases List.mem_cons.mp ht with rfl | hold
  · exact next.century_eq
  · exact h.century_eq t hold

theorem le_time (next : NextRun century times bench) {t : LocalTime}
    (ht : t ∈ next.time :: times) : t ≤ next.time := by
  rcases List.mem_cons.mp ht with rfl | hold
  · exact le_refl _
  · exact next.latest t hold

/-- The run's own name is the greatest. -/
theorem codes_le_own (next : NextRun century times bench) (h : Kept century times bench)
    {name : Text} (hname : name ∈ next.listing) (hdigit : digitNamed name = true) :
    codes name ≤ codes (dirName next.time) := by
  obtain ⟨t, ht, rfl⟩ := next.named h hname hdigit
  apply dirName_le_of_le _ (next.le_time ht)
  rw [next.century_of_mem h ht, next.century_eq]

theorem length_dirs_le (next : NextRun century times bench) (h : Kept century times bench) :
    (sortedDirs dirPath next.listing).length ≤ 9 := by
  have hsubset : next.listing.filter digitNamed ⊆
      dirName next.time :: bench.entries.filter digitNamed := by
    intro name hname
    obtain ⟨hlisting, hdigit⟩ := List.mem_filter.mp hname
    rcases next.mem_listing.mp hlisting with rfl | hbefore
    · exact List.mem_cons_self
    · apply List.mem_cons_of_mem
      exact List.mem_filter.mpr ⟨next.before_subset name hbefore hdigit, hdigit⟩
  have hlength := (List.subperm_of_subset (next.nodup_listing.filter _) hsubset).length_le
  have hfew := h.few
  rw [List.length_cons] at hlength
  rw [length_sortedDirs]
  omega

theorem mem_after (next : NextRun century times bench) {name : Text} :
    name ∈ (next.after dirPath).entries ↔
      name ∈ next.listing ∧ ¬ ((sortedDirs dirPath next.listing).length > 8 ∧
        dirPath ++ [name] ∈ (sortedDirs dirPath next.listing).take 5) := by
  rw [after, mem_retain, next.listing_perm.mem_iff, created]

theorem mem_removed (next : NextRun century times bench) {name : Text} :
    name ∈ next.removed dirPath ↔ (sortedDirs dirPath next.listing).length > 8 ∧
      dirPath ++ [name] ∈ (sortedDirs dirPath next.listing).take 5 := by
  rw [removed, List.mem_filter, Bool.not_eq_true', List.contains_eq_mem, decide_eq_false_iff_not,
    next.mem_after, created, ← next.listing_perm.mem_iff]
  constructor
  · intro ⟨hlisting, hnot⟩
    exact not_not.mp fun hremoved ↦ hnot ⟨hlisting, hremoved⟩
  · intro hremoved
    have hdir := mem_sortedDirs_append.mp (List.mem_of_mem_take hremoved.2)
    exact ⟨hdir.1, fun hafter ↦ hafter.2 hremoved⟩

/-- What is removed is before what remains. -/
theorem codes_removed_lt (next : NextRun century times bench) {s t : Text}
    (hs : s ∈ next.removed dirPath) (ht : t ∈ (next.after dirPath).entries)
    (hdigit : digitNamed t = true) : codes s < codes t := by
  obtain ⟨hmany, hfirst⟩ := next.mem_removed.mp hs
  obtain ⟨hlisting, hnot⟩ := next.mem_after.mp ht
  have hdir : dirPath ++ [t] ∈ sortedDirs dirPath next.listing :=
    mem_sortedDirs_append.mpr ⟨hlisting, hdigit⟩
  have hrest : dirPath ++ [t] ∈ (sortedDirs dirPath next.listing).drop 5 := by
    rw [← List.take_append_drop 5 (sortedDirs dirPath next.listing), List.mem_append] at hdir
    exact hdir.resolve_left fun hfirst' ↦ hnot ⟨hmany, hfirst'⟩
  exact pathCodes_lt_iff.mp (lt_of_mem_take_drop pathCodes_injective
    (nodup_getDirectories next.nodup_listing) hfirst hrest)

theorem own_mem_after (next : NextRun century times bench) (h : Kept century times bench) :
    dirName next.time ∈ (next.after dirPath).entries := by
  refine next.mem_after.mpr ⟨next.mem_listing.mpr (Or.inl rfl), ?_⟩
  intro ⟨hmany, hfirst⟩
  -- The last directory is not among the first five.
  obtain ⟨dir, hdir⟩ := List.exists_mem_of_length_pos
    (show 0 < ((sortedDirs dirPath next.listing).drop 5).length by rw [List.length_drop]; omega)
  have hlt := lt_of_mem_take_drop pathCodes_injective
    (nodup_getDirectories next.nodup_listing) hfirst hdir
  obtain ⟨name, hname, hdigit, rfl⟩ := mem_sortedDirs.mp (List.mem_of_mem_drop hdir)
  exact (next.codes_le_own h hname hdigit).not_gt (pathCodes_lt_iff.mp hlt)

/-- What the children take for their directory, as long as no other run creates or
removes one. -/
theorem getWorkingDir_eq_path (next : NextRun century times bench) (h : Kept century times bench)
    {during : Bench} {listing : List Text} (hperm : listing.Perm during.entries)
    (hsame : ∀ name, digitNamed name = true →
      (name ∈ during.entries ↔ name ∈ (next.after dirPath).entries)) :
    getWorkingDir dirPath listing = some (next.path dirPath) := by
  have hdigit := digitNamed_dirName next.time
  have hown := (hsame _ hdigit).mpr (next.own_mem_after h)
  apply getWorkingDir_eq (hperm.mem_iff.mpr hown) hdigit
  intro name hname hnamed
  have hafter := (hsame name hnamed).mp (hperm.mem_iff.mp hname)
  exact next.codes_le_own h (next.mem_after.mp hafter).1 hnamed

theorem removed_eq_nil (next : NextRun century times bench)
    (hfew : ¬ (sortedDirs dirPath next.listing).length > 8) : next.removed dirPath = [] := by
  apply List.eq_nil_iff_forall_not_mem.mpr
  intro name hname
  exact hfew (next.mem_removed.mp hname).1

theorem removed_perm (next : NextRun century times bench)
    (hmany : (sortedDirs dirPath next.listing).length > 8) :
    ((next.removed dirPath).map fun name ↦ dirPath ++ [name]).Perm
      ((sortedDirs dirPath next.listing).take 5) := by
  have hsorted : (sortedDirs dirPath next.listing).Nodup :=
    (sortBy_perm _ _).nodup_iff.mpr (nodup_getDirectories next.nodup_listing)
  have hremoved : (next.removed dirPath).Nodup := next.created.nodup.filter _
  apply (List.perm_ext_iff_of_nodup (hremoved.map fun _ _ heq ↦ append_name_inj.mp heq)
    (hsorted.sublist (List.take_sublist 5 _))).mpr
  intro dir
  rw [List.mem_map]
  constructor
  · rintro ⟨name, hname, rfl⟩
    exact (next.mem_removed.mp hname).2
  · intro hdir
    obtain ⟨name, -, -, rfl⟩ := mem_sortedDirs.mp (List.mem_of_mem_take hdir)
    exact ⟨name, next.mem_removed.mpr ⟨hmany, hdir⟩, rfl⟩

theorem length_removed (next : NextRun century times bench)
    (hmany : (sortedDirs dirPath next.listing).length > 8) :
    (next.removed dirPath).length = 5 := by
  have hlength := (next.removed_perm hmany).length_eq
  rw [List.length_map, List.length_take] at hlength
  omega

/-- The digit-named entries are those that remain and those that are removed. -/
theorem length_after (next : NextRun century times bench) :
    ((next.after dirPath).entries.filter digitNamed).length + (next.removed dirPath).length =
      (sortedDirs dirPath next.listing).length := by
  have hdisjoint : ((next.after dirPath).entries.filter digitNamed).Disjoint
      (next.removed dirPath) := by
    intro name hafter hremoved
    exact (next.mem_after.mp (List.mem_of_mem_filter hafter)).2 (next.mem_removed.mp hremoved)
  have hnodup : ((next.after dirPath).entries.filter digitNamed ++ next.removed dirPath).Nodup :=
    ((next.after dirPath).nodup.filter _).append (next.created.nodup.filter _) hdisjoint
  have hperm : ((next.after dirPath).entries.filter digitNamed ++ next.removed dirPath).Perm
      (next.listing.filter digitNamed) := by
    apply (List.perm_ext_iff_of_nodup hnodup (next.nodup_listing.filter _)).mpr
    intro name
    rw [List.mem_append, List.mem_filter, List.mem_filter, next.mem_after, next.mem_removed]
    constructor
    · rintro (⟨⟨hlisting, -⟩, hdigit⟩ | ⟨-, hfirst⟩)
      · exact ⟨hlisting, hdigit⟩
      · exact mem_sortedDirs_append.mp (List.mem_of_mem_take hfirst)
    · intro ⟨hlisting, hdigit⟩
      by_cases hremoved : (sortedDirs dirPath next.listing).length > 8 ∧
          dirPath ++ [name] ∈ (sortedDirs dirPath next.listing).take 5
      · exact Or.inr hremoved
      · exact Or.inl ⟨⟨hlisting, hremoved⟩, hdigit⟩
  rw [length_sortedDirs, ← hperm.length_eq, List.length_append]

theorem few_after (next : NextRun century times bench) (h : Kept century times bench) :
    ((next.after dirPath).entries.filter digitNamed).length ≤ 8 := by
  have hdirs : (sortedDirs dirPath next.listing).length ≤ 9 := next.length_dirs_le h
  have hafter : ((next.after dirPath).entries.filter digitNamed).length +
      (next.removed dirPath).length = (sortedDirs dirPath next.listing).length := next.length_after
  by_cases hmany : (sortedDirs dirPath next.listing).length > 8
  · rw [next.length_removed hmany] at hafter
    omega
  · omega

theorem kept (next : NextRun century times bench) (h : Kept century times bench) :
    Kept century (next.time :: times) (next.after dirPath) where
  century_eq _ ht := next.century_of_mem h ht
  named _ hname hdigit := next.named h (next.mem_after.mp hname).1 hdigit
  few := next.few_after h

/-- The removed names are those of earlier runs, older than every run whose
directory remains. -/
theorem removed_oldest (next : NextRun century times bench) (h : Kept century times bench)
    {name : Text} (hname : name ∈ next.removed dirPath) :
    ∃ s ∈ times, dirName s = name ∧
      ∀ t ∈ next.time :: times, dirName t ∈ (next.after dirPath).entries → s < t := by
  obtain ⟨hlisting, hdigit⟩ :=
    mem_sortedDirs_append.mp (List.mem_of_mem_take (next.mem_removed.mp hname).2)
  obtain ⟨s, hs, rfl⟩ := next.named h hlisting hdigit
  have holder : ∀ t ∈ next.time :: times, dirName t ∈ (next.after dirPath).entries → s < t := by
    intro t ht hafter
    apply (dirName_lt_iff _).mp (next.codes_removed_lt hname hafter (digitNamed_dirName t))
    rw [next.century_of_mem h hs, next.century_of_mem h ht]
  have hlt := holder next.time List.mem_cons_self (next.own_mem_after h)
  refine ⟨s, ?_, rfl, holder⟩
  exact (List.mem_cons.mp hs).resolve_left hlt.ne

end NextRun

theorem Runs.kept {dirPath : Path} {century : ℕ} {times : List LocalTime} {bench : Bench}
    (h : Runs dirPath century times bench) : Kept century times bench := by
  induction h with
  | start bench hbench =>
      have hnone : bench.entries.filter digitNamed = [] :=
        List.filter_eq_nil_iff.mpr fun name hname ↦ by simp [hbench name hname]
      refine ⟨by simp, fun name hname hdigit ↦ ?_, by simp [hnone]⟩
      rw [hbench name hname] at hdigit
      contradiction
  | run _ next ih => exact next.kept ih

/-- After the retention step the children find the directory of the run, and
only the five oldest directories may be gone. -/
theorem run_keeps_own_directory (dirPath : Path) (century : ℕ) (times : List LocalTime)
    (bench : Bench) (h : Runs dirPath century times bench) (next : NextRun century times bench) :
    dirName next.time ∈ (next.after dirPath).entries ∧
      (∀ (during : Bench) (listing : List Text), listing.Perm during.entries →
        (∀ name, digitNamed name = true →
          (name ∈ during.entries ↔ name ∈ (next.after dirPath).entries)) →
        getWorkingDir dirPath listing = some (next.path dirPath)) ∧
      (next.removed dirPath = [] ∨ (next.removed dirPath).length = 5 ∧
        ∀ name ∈ next.removed dirPath, ∃ s ∈ times, dirName s = name ∧
          ∀ t ∈ next.time :: times, dirName t ∈ (next.after dirPath).entries → s < t) ∧
      ((next.after dirPath).entries.filter digitNamed).length ≤ 8 := by
  have hkept := h.kept
  refine ⟨next.own_mem_after hkept, ?_, ?_, next.few_after hkept⟩
  · intro during listing hperm hsame
    exact next.getWorkingDir_eq_path hkept hperm hsame
  · by_cases hmany : (sortedDirs dirPath next.listing).length > 8
    · exact Or.inr ⟨next.length_removed hmany, fun name hname ↦ next.removed_oldest hkept hname⟩
    · exact Or.inl (next.removed_eq_nil hmany)

/-! ## Nine runs in one minute -/

def clockAt (s : ℕ) : LocalTime :=
  ⟨2024, 11, 5, 9, 30, s % 60, by decide, by decide, by decide, by decide, by omega⟩

/-- The first `n` seconds, the last one first. -/
def seconds : ℕ → List LocalTime
  | 0 => []
  | n + 1 => clockAt n :: seconds n

theorem mem_seconds {n : ℕ} {t : LocalTime} : t ∈ seconds n ↔ ∃ i < n, clockAt i = t := by
  induction n with
  | zero => simp [seconds]
  | succ n ih =>
      rw [seconds, List.mem_cons, ih]
      constructor
      · rintro (rfl | ⟨i, hi, rfl⟩)
        · exact ⟨n, Nat.lt_succ_self n, rfl⟩
        · exact ⟨i, Nat.lt_succ_of_lt hi, rfl⟩
      · rintro ⟨i, hi, rfl⟩
        rcases Nat.lt_succ_iff_lt_or_eq.mp hi with hlt | rfl
        · exact Or.inr ⟨i, hlt, rfl⟩
        · exact Or.inl rfl

theorem clockAt_lt {i n : ℕ} (hi : i < n) (hn : n < 60) : clockAt i < clockAt n := by
  rw [LocalTime.lt_iff]
  simp only [LocalTime.fields, clockAt, cons_lt_cons_iff, Nat.mod_eq_of_lt hn,
    Nat.mod_eq_of_lt (hi.trans hn)]
  simp [hi]

theorem dirName_clockAt_notMem {n : ℕ} (hn : n < 60) :
    dirName (clockAt n) ∉ (seconds n).map dirName := by
  intro hmem
  obtain ⟨t, ht, heq⟩ := List.mem_map.mp hmem
  obtain ⟨i, hi, rfl⟩ := mem_seconds.mp ht
  have hlt := (dirName_lt_iff (show (clockAt i).century = (clockAt n).century from rfl)).mpr
    (clockAt_lt hi hn)
  rw [heq] at hlt
  exact lt_irrefl _ hlt

/-- The run of second `n`, when those of the earlier seconds are all there. -/
def runAt (n : ℕ) (hn : n < 60) (bench : Bench) : NextRun 20 (seconds n) bench where
  time := clockAt n
  century_eq := show 2024 / 100 = 20 from rfl
  latest t ht := by
    obtain ⟨i, hi, rfl⟩ := mem_seconds.mp ht
    exact (clockAt_lt hi hn).le
  before := bench
  before_subset _ hname _ := hname
  listing := (createDirectory bench (dirName (clockAt n))).entries
  listing_perm := List.Perm.refl _

theorem runAt_listing {n : ℕ} (hn : n < 60) {bench : Bench}
    (h : bench.entries = (seconds n).map dirName) :
    (runAt n hn bench).listing = (seconds (n + 1)).map dirName := by
  show List.insert (dirName (clockAt n)) bench.entries = _
  rw [h, List.insert_of_not_mem (dirName_clockAt_notMem hn)]
  rfl

theorem length_runAt_dirs (dirPath : Path) {n : ℕ} (hn : n < 60) {bench : Bench}
    (h : bench.entries = (seconds n).map dirName) :
    (sortedDirs dirPath (runAt n hn bench).listing).length = n + 1 := by
  have hall : ∀ name ∈ (seconds (n + 1)).map dirName, digitNamed name = true := by
    intro name hname
    obtain ⟨t, -, rfl⟩ := List.mem_map.mp hname
    exact digitNamed_dirName t
  have hlength : ∀ m, (seconds m).length = m := by
    intro m
    induction m with
    | zero => rfl
    | succ m ih => rw [seconds, List.length_cons, ih]
  rw [length_sortedDirs, runAt_listing hn h, List.filter_eq_self.mpr hall, List.length_map,
    hlength]

/-- Up to eight runs keep all their directories. -/
theorem exists_runs (dirPath : Path) {n : ℕ} (hn : n ≤ 8) :
    ∃ bench, Runs dirPath 20 (seconds n) bench ∧ bench.entries = (seconds n).map dirName := by
  induction n with
  | zero => exact ⟨⟨[], List.nodup_nil⟩, .start _ (by simp), rfl⟩
  | succ n ih =>
      obtain ⟨bench, hruns, hentries⟩ := ih (Nat.le_of_succ_le hn)
      have hlt : n < 60 := by omega
      refine ⟨_, hruns.run (runAt n hlt bench), ?_⟩
      have hfew : ¬ (sortedDirs dirPath (runAt n hlt bench).listing).length > 8 := by
        rw [length_runAt_dirs dirPath hlt hentries]
        omega
      rw [NextRun.after, retain, if_neg hfew]
      exact runAt_listing hlt hentries

/-- The ninth run in a minute: the directories of the eight earlier ones are
there, and the retention step removes five of them. -/
theorem run_keeps_own_directory_ninth :
    ∃ (bench : Bench) (next : NextRun 20 (seconds 8) bench),
      Runs [text "benchmarks"] 20 (seconds 8) bench ∧ next.time = clockAt 8 ∧
      bench.entries = (seconds 8).map dirName ∧
      (next.removed [text "benchmarks"]).length = 5 ∧
      dirName (clockAt 8) ∈ (next.after [text "benchmarks"]).entries ∧
      getWorkingDir [text "benchmarks"] (next.after [text "benchmarks"]).entries =
        some [text "benchmarks", dirName (clockAt 8)] ∧
      ∀ name ∈ next.removed [text "benchmarks"], ∃ s ∈ seconds 8, dirName s = name ∧
        ∀ t ∈ seconds 9, dirName t ∈ (next.after [text "benchmarks"]).entries → s < t := by
  obtain ⟨bench, hruns, hentries⟩ := exists_runs [text "benchmarks"] (le_refl 8)
  let next := runAt 8 (by decide) bench
  have hmany : (sortedDirs [text "benchmarks"] next.listing).length > 8 := by
    rw [length_runAt_dirs _ _ hentries]
    decide
  have hfive : (next.removed [text "benchmarks"]).length = 5 := next.length_removed hmany
  obtain ⟨hown, hworking, hremoved, -⟩ :=
    run_keeps_own_directory [text "benchmarks"] 20 (seconds 8) bench hruns next
  refine ⟨bench, next, hruns, rfl, hentries, hfive, hown,
    hworking _ _ (List.Perm.refl _) fun _ _ ↦ Iff.rfl, ?_⟩
  rcases hremoved with hnone | ⟨-, holdest⟩
  · rw [hnone] at hfive
    cases hfive
  · exact holdest

end UpZenohExample
