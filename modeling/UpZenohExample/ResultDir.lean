import UpZenohExample.FileSys
import UpZenohExample.Lib.NameOrder
import UpZenohExample.Stats

/-!
# Reading the samples of a run

`run_tests` lists the result directory, reads the regular files whose names
start with `p` or `s`, and computes the statistics of the two vectors.  The
order of the listing and the layout of the lines over the files do not matter,
because the statistics are those of the sorted vectors.
-/

namespace UpZenohExample

open ByteText FixedPoint

inductive DirEntry where
  | regular (name content : Text)
  | other (name : Text)
  deriving DecidableEq, Repr

def DirEntry.name : DirEntry → Text
  | .regular name _ => name
  | .other name => name

def DirEntry.isRegularFile : DirEntry → Bool
  | .regular _ _ => true
  | .other _ => false

structure Directory where
  path : Text
  entries : List DirEntry
  nodup_names : (entries.map DirEntry.name).Nodup
  slash_notMem : ∀ entry ∈ entries, byte '/' ∉ entry.name

/-- An order in which `directory_iterator` may list a directory. -/
structure Listing (d : Directory) where
  order : List DirEntry
  perm : order.Perm d.entries

namespace Directory

variable (d : Directory)

def pathOf (name : Text) : Text := d.path ++ byte '/' :: name

/-- The file a stream opens. -/
def openFile (path : Text) : File :=
  match d.entries.find? fun entry ↦ d.pathOf entry.name = path with
  | some (.regular _ content) => some content
  | _ => none

end Directory

/-- `local_path.filename().string()`. -/
def filename (path : Text) : Text := (path.reverse.takeWhile fun b ↦ b ≠ byte '/').reverse

def getFilesFromDir (d : Directory) (listing : List DirEntry) : List Text :=
  listing.map fun entry ↦ if entry.isRegularFile then d.pathOf entry.name else []

/-- One iteration of the loop of `run_tests` over the file list; the vectors
are those of `p` and of `s`. -/
def readSample (d : Directory) (vecs : List ℚ × List ℚ) (l : Text) : List ℚ × List ℚ :=
  let fileName := filename l
  let pubVec :=
    if fileName.take 1 = text "p" then (readFileToVec (d.openFile l) vecs.1).2 else vecs.1
  let subVec :=
    if fileName.take 1 = text "s" then (readFileToVec (d.openFile l) vecs.2).2 else vecs.2
  (pubVec, subVec)

def readSamples (d : Directory) (listing : List DirEntry) : List ℚ × List ℚ :=
  (getFilesFromDir d listing).foldl (readSample d) ([], [])

/-- The statistics of `publish` and `subscribe`. -/
def computeStats (sqrt : ℚ → ℚ) (d : Directory) (listing : List DirEntry) :
    Except Abort (Option (Stat ℚ)) × Except Abort (Option (Stat ℚ)) :=
  let vecs := readSamples d listing
  (getStats sqrt vecs.1, getStats sqrt vecs.2)

/-! ## The lines of a class of files -/

/-- The lines an entry contributes to the files whose names start with
`letter`. -/
def entryLines (letter : Text) : DirEntry → List Text
  | .regular name content => if name.take 1 = letter then getlines content else []
  | .other _ => []

def linesOf (letter : Text) (entries : List DirEntry) : List Text :=
  entries.flatMap (entryLines letter)

theorem filename_pathOf (d : Directory) {name : Text} (h : byte '/' ∉ name) :
    filename (d.pathOf name) = name := by
  have hall : ∀ b ∈ name.reverse, decide (b ≠ byte '/') = true := by
    intro b hb
    have hne : b ≠ byte '/' := fun heq ↦ h (heq ▸ List.mem_reverse.mp hb)
    simpa using hne
  have hrev : (d.pathOf name).reverse = name.reverse ++ byte '/' :: d.path.reverse := by
    simp [Directory.pathOf]
  rw [filename, hrev, (takeWhile_append_cons hall (by simp) _).1, List.reverse_reverse]

theorem openFile_pathOf {d : Directory} {name content : Text}
    (h : DirEntry.regular name content ∈ d.entries) :
    d.openFile (d.pathOf name) = some content := by
  -- No two entries have one name.
  have hkey : ∀ a ∈ d.entries, ∀ b ∈ d.entries, d.pathOf a.name = d.pathOf b.name → a = b := by
    intro a ha b hb heq
    apply List.inj_on_of_nodup_map d.nodup_names ha hb
    exact List.cons_injective (List.append_cancel_left heq)
  have hfind := NameOrder.find?_key hkey h
  rw [DirEntry.name] at hfind
  rw [Directory.openFile, hfind]

/-- An entry adds its lines to the vector of its class. -/
theorem readSample_eq {d : Directory} {entry : DirEntry} (h : entry ∈ d.entries)
    (vecs : List ℚ × List ℚ) :
    readSample d vecs (if entry.isRegularFile then d.pathOf entry.name else []) =
      (vecs.1 ++ (entryLines (text "p") entry).filterMap readDouble,
        vecs.2 ++ (entryLines (text "s") entry).filterMap readDouble) := by
  cases entry with
  | other name =>
      have hp : [] ≠ text "p" := by decide
      have hs : [] ≠ text "s" := by decide
      simp [readSample, DirEntry.isRegularFile, filename, entryLines, hp, hs]
  | regular name content =>
      have hname : filename (d.pathOf name) = name := filename_pathOf d (d.slash_notMem _ h)
      simp only [readSample, DirEntry.isRegularFile, if_true, DirEntry.name, hname,
        openFile_pathOf h, readFileToVec_eq, entryLines, Option.getD_some]
      split <;> split <;> simp

theorem readSamples_eq {d : Directory} {listing : List DirEntry}
    (h : ∀ entry ∈ listing, entry ∈ d.entries) :
    readSamples d listing = ((linesOf (text "p") listing).filterMap readDouble,
      (linesOf (text "s") listing).filterMap readDouble) := by
  have hloop (vecs : List ℚ × List ℚ) :
      (getFilesFromDir d listing).foldl (readSample d) vecs =
        (vecs.1 ++ (linesOf (text "p") listing).filterMap readDouble,
          vecs.2 ++ (linesOf (text "s") listing).filterMap readDouble) := by
    induction listing generalizing vecs with
    | nil => simp [getFilesFromDir, linesOf]
    | cons entry listing ih =>
        have hentry := readSample_eq (h entry List.mem_cons_self) vecs
        have hrest := ih fun e he ↦ h e (List.mem_cons_of_mem _ he)
        rw [getFilesFromDir, List.map_cons, List.foldl_cons, hentry]
        rw [getFilesFromDir] at hrest
        simp [hrest, linesOf]
  simpa [readSamples] using hloop ([], [])

/-! ## Layout -/

theorem linesOf_perm (letter : Text) {entries entries' : List DirEntry}
    (h : entries.Perm entries') : (linesOf letter entries).Perm (linesOf letter entries') :=
  h.flatMap_right _

theorem linesOf_regular (letter : Text) (entries : List DirEntry) :
    linesOf letter (entries.filter DirEntry.isRegularFile) = linesOf letter entries := by
  induction entries with
  | nil => rfl
  | cons entry entries ih =>
      unfold linesOf at ih ⊢
      cases entry with
      | regular name content =>
          rw [List.filter_cons_of_pos rfl, List.flatMap_cons, List.flatMap_cons, ih]
      | other name =>
          rw [List.filter_cons_of_neg (by simp [DirEntry.isRegularFile]), List.flatMap_cons, ih]
          rfl

theorem readSamples_listing {d : Directory} (listing : Listing d) :
    readSamples d listing.order = ((linesOf (text "p") listing.order).filterMap readDouble,
      (linesOf (text "s") listing.order).filterMap readDouble) :=
  readSamples_eq fun _ hentry ↦ listing.perm.mem_iff.mp hentry

/-- The two statistics only depend on the lines of each class of files: they are
`getStats` of the numbers that these lines hold. -/
theorem statistics_independent_of_layout (sqrt : ℚ → ℚ) (d d' : Directory)
    (hp : (linesOf (text "p") d.entries).Perm (linesOf (text "p") d'.entries))
    (hs : (linesOf (text "s") d.entries).Perm (linesOf (text "s") d'.entries))
    (listing : Listing d) (listing' : Listing d') :
    computeStats sqrt d listing.order = computeStats sqrt d' listing'.order ∧
      computeStats sqrt d listing.order =
        computeStats sqrt d (listing.order.filter DirEntry.isRegularFile) ∧
      (readSamples d listing.order).1.Perm
        ((linesOf (text "p") d.entries).filterMap readDouble) ∧
      (readSamples d listing.order).2.Perm
        ((linesOf (text "s") d.entries).filterMap readDouble) ∧
      computeStats sqrt d listing.order =
        (getStats sqrt ((linesOf (text "p") d.entries).filterMap readDouble),
          getStats sqrt ((linesOf (text "s") d.entries).filterMap readDouble)) := by
  have hlisting (letter : Text) := linesOf_perm letter listing.perm
  have hlisting' (letter : Text) := linesOf_perm letter listing'.perm
  have hpub := ((hlisting (text "p")).trans hp).trans (hlisting' (text "p")).symm
  have hsub := ((hlisting (text "s")).trans hs).trans (hlisting' (text "s")).symm
  have hregular : ∀ entry ∈ listing.order.filter DirEntry.isRegularFile, entry ∈ d.entries := by
    intro entry hentry
    exact listing.perm.mem_iff.mp (List.mem_of_mem_filter hentry)
  refine ⟨?_, ?_, ?_, ?_, ?_⟩
  · rw [computeStats, computeStats, readSamples_listing, readSamples_listing,
      getStats_perm sqrt (hpub.filterMap readDouble),
      getStats_perm sqrt (hsub.filterMap readDouble)]
  · rw [computeStats, computeStats, readSamples_listing, readSamples_eq hregular,
      linesOf_regular, linesOf_regular]
  · rw [readSamples_listing]
    exact (hlisting (text "p")).filterMap readDouble
  · rw [readSamples_listing]
    exact (hlisting (text "s")).filterMap readDouble
  · rw [computeStats, readSamples_listing,
      getStats_perm sqrt ((hlisting (text "p")).filterMap readDouble),
      getStats_perm sqrt ((hlisting (text "s")).filterMap readDouble)]

/-- Three lines in one file and a subdirectory, or in two files. -/
theorem statistics_independent_of_layout_two :
    let d : Directory := ⟨text "d", [.regular (text "pub-app0") (text "1\n2\n3\n"),
      .other (text "sub")], by decide, by decide⟩
    let d' : Directory := ⟨text "d", [.regular (text "pub-app2") (text "3\n"),
      .regular (text "pub-app0") (text "2\n1\n")], by decide, by decide⟩
    computeStats (fun q ↦ q) d d.entries = computeStats (fun q ↦ q) d' d'.entries ∧
      computeStats (fun q ↦ q) d d.entries =
        computeStats (fun q ↦ q) d (d.entries.filter DirEntry.isRegularFile) ∧
      (readSamples d d.entries).1.Perm
        ((linesOf (text "p") d.entries).filterMap readDouble) ∧
      (readSamples d d.entries).2.Perm
        ((linesOf (text "s") d.entries).filterMap readDouble) ∧
      computeStats (fun q ↦ q) d d.entries =
        (getStats (fun q ↦ q) ((linesOf (text "p") d.entries).filterMap readDouble),
          getStats (fun q ↦ q) ((linesOf (text "s") d.entries).filterMap readDouble)) := by
  intro d d'
  have hp : (linesOf (text "p") d.entries).Perm (linesOf (text "p") d'.entries) := by decide
  have hs : (linesOf (text "s") d.entries).Perm (linesOf (text "s") d'.entries) := by decide
  exact statistics_independent_of_layout (fun q ↦ q) d d' hp hs ⟨d.entries, List.Perm.refl _⟩
    ⟨d'.entries, List.Perm.refl _⟩

end UpZenohExample
