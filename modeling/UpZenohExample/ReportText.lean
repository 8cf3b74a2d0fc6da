import UpZenohExample.Divisions
import UpZenohExample.Lib.Cut
import UpZenohExample.Report

/-!
# Reading a report

A row of a report is cut at its bars: the first piece is the name column, and
the others begin with the numbers of the row.  Nothing of a statistic is lost
but the digits behind the ninth.  The arithmetic is exact, and the numbers record
a division by zero, which has no digits.
-/

namespace UpZenohExample

open ByteText FixedPoint ListCut

variable {α : Type}

/-- The name and the numbers of a row. -/
def readRow (row : Text) : Option (Text × List ℚ) :=
  match fields (byte '|') row with
  | [] => none
  | name :: cells => (cells.mapM readDouble).map fun numbers ↦ (name, numbers)

/-- The values before the first one that is missing. -/
def shownValues : List (Option α) → List α
  | some x :: columns => x :: shownValues columns
  | _ => []

/-- What stands between a value and the bar behind it. -/
def columnEnds : List UInt8 := List.replicate 9 (byte '\t') ++ [byte ' ']

def valueCells (shown : α → Text) (values : List α) (ends : List UInt8) : List Text :=
  (values.zip ends).map fun v ↦ shown v.1 ++ [v.2]

theorem printColumns_zipWith (shown : α → Text) (columns : List (Option α)) (ends : List UInt8) :
    printColumns shown (List.zipWith (fun c e ↦ (c, [e, byte '|'])) columns ends) =
      cellsText (valueCells shown (shownValues columns) ends) := by
  induction columns generalizing ends with
  | nil => simp [printColumns, shownValues, valueCells, cellsText]
  | cons column columns ih =>
      cases ends with
      | nil => simp [printColumns, valueCells, cellsText]
      | cons e ends =>
          cases column with
          | none => simp [printColumns, shownValues, valueCells, cellsText]
          | some x =>
              have hrest := ih ends
              simp only [valueCells, cellsText] at hrest
              simp [printColumns, shownValues, valueCells, cellsText, hrest]

theorem printStat_eq (shown : α → Text) (name : Text) (stat : Stat α) :
    printStat shown name stat = nameColumn name ++ byte '|' ::
      cellsText (valueCells shown (shownValues stat.columns) columnEnds) := by
  rw [← printColumns_zipWith, printStat, List.append_assoc]
  rfl

theorem fields_cellsText {cells : List Text}
    (hcells : ∀ cell ∈ cells, cell ≠ [] ∧ byte '|' ∉ cell) :
    fields (byte '|') (cellsText cells) = cells := by
  induction cells with
  | nil => exact fields_nil _
  | cons cell cells ih =>
      obtain ⟨hne, hbar⟩ := hcells cell List.mem_cons_self
      have hrest := ih fun c hc ↦ hcells c (List.mem_cons_of_mem cell hc)
      have htext : cellsText (cell :: cells) = cell ++ byte '|' :: cellsText cells := by
        simp [cellsText]
      rw [htext, fields_append_cons _ hne hbar, hrest]

theorem bar_notMem_nameColumn {name : Text} (hname : byte '|' ∉ name) :
    byte '|' ∉ nameColumn name := by
  intro hmem
  have hmem := List.mem_of_mem_take hmem
  split at hmem
  · rcases List.mem_append.mp hmem with hmem | hmem
    · exact hname hmem
    · exact absurd (List.eq_of_mem_replicate hmem) (by decide)
  · exact hname hmem

/-- A byte that ends a number without being part of the row's bars. -/
def EndsNumber (e : UInt8) : Prop :=
  isDigit e = false ∧ e ≠ byte 'e' ∧ e ≠ byte 'E' ∧ e ≠ byte '|'

theorem bar_notMem_valueCells {ends : List UInt8} (hends : ∀ e ∈ ends, EndsNumber e)
    (values : List ℚ) :
    ∀ cell ∈ valueCells (fixedText 9) values ends, cell ≠ [] ∧ byte '|' ∉ cell := by
  intro cell hcell
  obtain ⟨⟨x, e⟩, hmem, rfl⟩ := List.mem_map.mp hcell
  obtain ⟨-, -, -, hbar⟩ := hends e (List.of_mem_zip hmem).2
  have hshown : byte '|' ∉ fixedText 9 x := notMem_fixedText rfl (by decide) (by decide) 9 x
  simp [hshown, Ne.symm hbar]

theorem mapM_readDouble_valueCells {ends : List UInt8} (hends : ∀ e ∈ ends, EndsNumber e)
    {values : List ℚ} (hlen : values.length ≤ ends.length) :
    (valueCells (fixedText 9) values ends).mapM readDouble = some (values.map (rounded 9)) := by
  induction values generalizing ends with
  | nil => simp [valueCells]
  | cons x values ih =>
      cases ends with
      | nil => simp at hlen
      | cons e ends =>
          obtain ⟨hdigit, hlower, hupper, -⟩ := hends e List.mem_cons_self
          have hread := readDouble_fixedText_append 9 x hdigit hlower hupper []
          have hrest := ih (fun c hc ↦ hends c (List.mem_cons_of_mem e hc)) (by simpa using hlen)
          simp only [valueCells] at hrest
          simp [valueCells, hread, hrest]

theorem length_shownValues_le (columns : List (Option α)) :
    (shownValues columns).length ≤ columns.length := by
  induction columns with
  | nil => exact le_rfl
  | cons column columns ih =>
      cases column with
      | none => exact Nat.zero_le _
      | some x => simpa [shownValues] using ih

theorem readRow_printStat {name : Text} (hname : byte '|' ∉ name) (stat : Stat ℚ) :
    readRow (printStat (fixedText 9) name stat) =
      some (nameColumn name, (shownValues stat.columns).map (rounded 9)) := by
  have hends : ∀ e ∈ columnEnds, EndsNumber e := by
    intro e he
    rcases List.mem_append.mp he with he | he
    · rw [List.eq_of_mem_replicate he]
      exact ⟨rfl, by decide, by decide, by decide⟩
    · rw [List.mem_singleton.mp he]
      exact ⟨rfl, by decide, by decide, by decide⟩
  have hne : nameColumn name ≠ [] := by
    apply List.ne_nil_of_length_pos
    rw [length_nameColumn]
    decide
  have hlen : (shownValues stat.columns).length ≤ columnEnds.length :=
    length_shownValues_le stat.columns
  have hfields : fields (byte '|') (printStat (fixedText 9) name stat) =
      nameColumn name :: valueCells (fixedText 9) (shownValues stat.columns) columnEnds := by
    rw [printStat_eq, fields_append_cons _ hne (bar_notMem_nameColumn hname),
      fields_cellsText (bar_notMem_valueCells hends _)]
  simp [readRow, hfields, mapM_readDouble_valueCells hends hlen]

theorem map_some_shownValues (columns : List (Option α)) :
    (shownValues columns).map some = columns.take (shownValues columns).length := by
  induction columns with
  | nil => rfl
  | cons column columns ih =>
      cases column with
      | none => rfl
      | some x => simp [shownValues, ih]

theorem length_shownValues_eq {columns : List (Option α)}
    (h : ∀ column ∈ columns, column.isSome = true) :
    (shownValues columns).length = columns.length := by
  induction columns with
  | nil => rfl
  | cons column columns ih =>
      obtain ⟨x, rfl⟩ := Option.isSome_iff_exists.mp (h column List.mem_cons_self)
      simp [shownValues, ih fun c hc ↦ h c (List.mem_cons_of_mem _ hc)]

section Numbers

variable [Zero α] [Add α] [Sub α] [Mul α] [Div α] [NatCast α] [RatCast α] [Pow α ℕ]
variable [LE α] [DecidableLE α] (sqrt : α → α)

/-- Two samples have no skew, and the row ends before it. -/
theorem length_shownValues {vec : List α} {stat : Stat α}
    (h : getStats sqrt vec = .ok (some stat)) :
    (shownValues stat.columns).length = if vec.length = 2 then 4 else 10 := by
  obtain ⟨h2, hlt, mean, std, hstat⟩ := getStats_eq_some sqrt h
  have hlen : (vec.insertionSort (· ≤ ·)).length = vec.length := List.length_insertionSort _ _
  split
  · next htwo =>
      have hvalue (p : ℤ) (h0 : 0 ≤ p) (h100 : p ≤ 100) {o : Option α}
          (ho : getPercentileFromSortedVec (vec.insertionSort (· ≤ ·)) p = .ok o) :
          ∃ x, o = some x := by
        obtain ⟨x, hx⟩ :
            ∃ x, getPercentileFromSortedVec (vec.insertionSort (· ≤ ·)) p = .ok (some x) :=
          getPercentile_eq_ok (by omega) h0 h100 (position_fits h100 (by omega) (by omega))
        exact ⟨x, Except.ok.inj (ho.symm.trans hx)⟩
      obtain ⟨min, hmin⟩ := hvalue 0 le_rfl (by decide) hstat.min_eq
      obtain ⟨max, hmax⟩ := hvalue 100 (by decide) le_rfl hstat.max_eq
      have hskew : stat.skew = none :=
        Except.ok.inj (hstat.skew_eq.symm.trans (getSkew_of_lt sqrt (by omega) mean))
      simp [Stat.columns, shownValues, hstat.mean_eq, hmin, hmax, hstat.std_eq, hskew]
  · next hmore =>
      obtain ⟨stat', hstat', hcolumns⟩ := getStats_eq_ok sqrt h2 hlt
      obtain rfl : stat = stat' := Option.some.inj (Except.ok.inj (h.symm.trans hstat'))
      exact length_shownValues_eq (hcolumns.mpr (by omega))

end Numbers

/-- The text of a number; `undefined` stands for a quotient by zero. -/
def checkedText (undefined : Text) : Checked ℚ → Text
  | .value q => fixedText 9 q
  | .divByZero => undefined

theorem shownValues_map_value (columns : List (Option ℚ)) :
    shownValues (columns.map (Option.map Checked.value)) =
      (shownValues columns).map Checked.value := by
  induction columns with
  | nil => rfl
  | cons column columns ih => cases column <;> simp [shownValues, ih]

/-- A row without a quotient by zero is the row of its values. -/
theorem printStat_map_value (undefined name : Text) (stat : Stat ℚ) :
    printStat (checkedText undefined) name (stat.map Checked.value) =
      printStat (fixedText 9) name stat := by
  have hcolumns : (stat.map Checked.value).columns =
      stat.columns.map (Option.map Checked.value) := rfl
  rw [printStat_eq, printStat_eq, hcolumns, shownValues_map_value, valueCells, valueCells,
    List.zip_map_left, List.map_map]
  rfl

/-- Samples that are not all equal have a standard deviation. -/
theorem std_ne_zero {sqrt : ℚ → ℚ} (hsqrt : ∀ q, 0 < q → sqrt q ≠ 0) {vec : List ℚ}
    {stat : Stat ℚ} (h : getStats sqrt vec = .ok (some stat))
    (hvary : ∃ a ∈ vec, ∃ b ∈ vec, a ≠ b) : stat.std ≠ some 0 := by
  obtain ⟨_, _, _, hfields⟩ := getStats_describes h
  obtain ⟨a, ha, b, hb, hne⟩ := hvary
  have hvariance : Sample.variance vec ≠ 0 := by
    intro hzero
    have hmean := (Sample.variance_eq_zero_iff (List.ne_nil_of_mem ha)).mp hzero
    exact hne ((hmean a ha).trans (hmean b hb).symm)
  rw [hfields.std_eq, Ne, Option.some.injEq]
  exact hsqrt _ (lt_of_le_of_ne (Sample.variance_nonneg vec) hvariance.symm)

/-- The row shows the first statistics of `v` in the order of the header, all ten
of them or, for two samples, four. -/
def ShowsStat (sqrt : ℚ → ℚ) (v : Text × List ℚ) (r : Row (Checked ℚ)) : Prop :=
  ∃ stat numbers, getStats sqrt v.2 = .ok (some stat) ∧
    readRow r.text = some (nameColumn v.1, numbers) ∧
    numbers.length = (if v.2.length = 2 then 4 else 10) ∧
    numbers.map some = (stat.columns.take numbers.length).map (Option.map (rounded 9))

theorem showsStat_of_row {sqrt : ℚ → ℚ} (hsqrt : ∀ q, 0 < q → sqrt q ≠ 0) {undefined name : Text}
    {vec : List ℚ} {o : Option (Stat (Checked ℚ))} {r : Row (Checked ℚ)}
    (hname : byte '|' ∉ name) (hvary : vec.length = 2 ∨ ∃ a ∈ vec, ∃ b ∈ vec, a ≠ b)
    (hstats : getStats (Checked.map sqrt) (vec.map .value) = .ok o)
    (hrow : row (checkedText undefined) name o = .ok r) : ShowsStat sqrt (name, vec) r := by
  obtain ⟨checked, hvalue, hr⟩ := bind_eq_ok.mp hrow
  obtain rfl := getValue_eq_ok.mp hvalue
  obtain ⟨h2, hlt, -⟩ := getStats_eq_some (Checked.map sqrt) hstats
  rw [List.length_map] at h2 hlt
  obtain ⟨stat, hstat, -⟩ := getStats_eq_ok sqrt h2 hlt
  have hsafe : vec.length < 3 ∨ stat.std ≠ some 0 := by
    rcases hvary with htwo | hvary
    · exact Or.inl (by omega)
    · exact Or.inr (std_ne_zero hsqrt hstat hvary)
  obtain rfl := getStats_value hstat hstats hsafe
  have hshown := length_shownValues sqrt hstat
  rw [← Except.ok.inj hr]
  refine ⟨stat, (shownValues stat.columns).map (rounded 9), hstat, ?_, by simpa using hshown, ?_⟩
  · rw [printStat_map_value]
    exact readRow_printStat hname stat
  · rw [List.length_map, ← map_some_shownValues, List.map_map, List.map_map]
    rfl

/-- A report can be read back, unless a row divides by a standard deviation of
zero. -/
theorem report_reads_back (undefined : Text) (sqrt : ℚ → ℚ) (hsqrt : ∀ q, 0 < q → sqrt q ≠ 0)
    (vecs : List (Text × List ℚ)) (hnames : ∀ v ∈ vecs, byte '|' ∉ v.1)
    (hlen : ∀ v ∈ vecs, Reportable v.2.length)
    (hvary : ∀ v ∈ vecs, v.2.length = 2 ∨ ∃ a ∈ v.2, ∃ b ∈ v.2, a ≠ b) :
    ∃ rows, logStats (Checked.map sqrt) (checkedText undefined)
        (vecs.map fun v ↦ (v.1, v.2.map Checked.value)) = .ok rows ∧
      List.Forall₂ (ShowsStat sqrt) vecs rows := by
  have hlen' : ∀ w ∈ vecs.map fun v ↦ (v.1, v.2.map Checked.value), Reportable w.2.length := by
    intro w hw
    obtain ⟨v, hv, rfl⟩ := List.mem_map.mp hw
    rw [List.length_map]
    exact hlen v hv
  obtain ⟨rows, hrows⟩ :=
    (exists_logStats_iff (Checked.map sqrt) (checkedText undefined) _).mpr hlen'
  refine ⟨rows, hrows, ?_⟩
  clear hlen hlen'
  induction vecs generalizing rows with
  | nil =>
      obtain rfl : [] = rows := Except.ok.inj hrows
      exact List.Forall₂.nil
  | cons v vecs ih =>
      obtain ⟨o, r, rest, hstat, hr, hrest, rfl⟩ :=
        (logStats_cons_eq_ok (Checked.map sqrt)).mp hrows
      rw [List.forall_mem_cons] at hnames hvary
      have hfirst := showsStat_of_row hsqrt hnames.1 hvary.1 hstat hr
      exact List.Forall₂.cons hfirst (ih hnames.2 hvary.2 rest hrest)

/-- The report of a run with two samples on one side. -/
theorem report_reads_back_two :
    ∃ rows, logStats (Checked.map fun q : ℚ ↦ q) (checkedText (text "nan"))
        [(text "subscribe", [.value 1, .value 3]),
          (text "publish", [.value 1, .value 2, .value 4])] = .ok rows ∧
      List.Forall₂ (ShowsStat fun q ↦ q)
        [(text "subscribe", [1, 3]), (text "publish", [1, 2, 4])] rows :=
  report_reads_back (text "nan") _ (fun _ hq ↦ hq.ne')
    [(text "subscribe", [1, 3]), (text "publish", [1, 2, 4])] (by decide) (by decide) (by decide)

end UpZenohExample
