import UpZenohExample.Lib.FixedPoint
import UpZenohExample.Lib.Loop
import UpZenohExample.Stats

/-!
# The report phases

`run_tests`, `pub`, `sub` and `start_session` collect samples, compute their
statistics and log one row for each vector.  `printStat` guards every value it
takes, but its callers do not guard the statistics they pass.
-/

namespace UpZenohExample

open ByteText

/-! ## Rows -/

def sizeOfName : ℕ := 10

def statsHeader : Text :=
  text "Mean\t|Min\t\t|Max\t\t|STD\t\t|SKEW\t\t|Median\t\t|Kurtosis\t|90%\t\t|95%\t\t|99%   \t|"

def printHeader : Text := List.replicate sizeOfName (byte ' ') ++ text "|" ++ statsHeader

/-- The name after `resize` and `substr`. -/
def nameColumn (name : Text) : Text :=
  let name := if name.length < sizeOfName then
    name ++ List.replicate (sizeOfName - name.length) (byte ' ') else name
  name.take sizeOfName

theorem length_nameColumn (name : Text) : (nameColumn name).length = sizeOfName := by
  simp only [nameColumn, List.length_take]
  split
  · simp only [List.length_append, List.length_replicate]
    omega
  · omega

section Rows

variable {α : Type} (shown : α → Text)

/-- The values of a row, each with the text behind it, up to the first one that
is missing. -/
def printColumns : List (Option α × Text) → Text
  | [] => []
  | (none, _) :: _ => []
  | (some x, rest) :: columns => shown x ++ rest ++ printColumns columns

/-- `printStat`, with `operator<<` of a number as a parameter. -/
def printStat (name : Text) (stat : Stat α) : Text :=
  nameColumn name ++ text "|" ++ printColumns shown
    [(stat.mean, text "\t|"), (stat.min, text "\t|"), (stat.max, text "\t|"),
      (stat.std, text "\t|"), (stat.skew, text "\t|"), (stat.median, text "\t|"),
      (stat.kurtosis, text "\t|"), (stat.precentile90, text "\t|"),
      (stat.precentile95, text "\t|"), (stat.precentile99, text " |")]

/-- The columns of the header. -/
def headerCells : List Text :=
  [text "Mean\t", text "Min\t\t", text "Max\t\t", text "STD\t\t", text "SKEW\t\t",
    text "Median\t\t", text "Kurtosis\t", text "90%\t\t", text "95%\t\t", text "99%   \t"]

def cellsText (cells : List Text) : Text := cells.flatMap (· ++ [byte '|'])

theorem printHeader_eq :
    printHeader = List.replicate sizeOfName (byte ' ') ++ byte '|' :: cellsText headerCells := by
  decide

/-- A name column, then a cell for every column of the header, which begins
with the statistic of that column. -/
def RowComplete (stat : Stat α) (row : Text) : Prop :=
  ∃ name cells, row = name ++ byte '|' :: cellsText cells ∧ name.length = sizeOfName ∧
    cells.length = headerCells.length ∧ (∀ cell ∈ cells, byte '|' ∉ cell) ∧
    List.Forall₂ (fun column cell ↦ ∃ x, column = some x ∧ shown x <+: cell) stat.columns cells

variable {shown}

theorem printColumns_complete (hshown : ∀ x, byte '|' ∉ shown x) {columns : List (Option α)}
    {ends : List Text} (hends : ∀ e ∈ ends, byte '|' ∉ e) (hlen : columns.length = ends.length)
    (hall : ∀ column ∈ columns, column.isSome = true) :
    ∃ cells, printColumns shown (List.zipWith (fun c e ↦ (c, e ++ [byte '|'])) columns ends) =
        cellsText cells ∧ (∀ cell ∈ cells, byte '|' ∉ cell) ∧
      List.Forall₂ (fun column cell ↦ ∃ x, column = some x ∧ shown x <+: cell) columns cells := by
  induction columns generalizing ends with
  | nil => exact ⟨[], by simp [printColumns, cellsText], by simp, List.Forall₂.nil⟩
  | cons column columns ih =>
      cases ends with
      | nil => simp at hlen
      | cons e ends =>
          obtain ⟨x, hx⟩ := Option.isSome_iff_exists.mp (hall column List.mem_cons_self)
          obtain ⟨cells, hprint, hbar, hforall⟩ :=
            ih (fun e he ↦ hends e (List.mem_cons_of_mem _ he)) (by simpa using hlen)
              fun c hc ↦ hall c (List.mem_cons_of_mem _ hc)
          refine ⟨(shown x ++ e) :: cells, ?_, ?_, ?_⟩
          · simp [printColumns, hx, hprint, cellsText]
          · intro cell hcell
            rcases List.mem_cons.mp hcell with rfl | hcell
            · have he := hends e List.mem_cons_self
              simp [hshown x, he]
            · exact hbar cell hcell
          · exact List.Forall₂.cons ⟨x, hx, List.prefix_append _ _⟩ hforall

theorem isSome_of_forall₂ {columns : List (Option α)} {cells : List Text}
    (h : List.Forall₂ (fun column cell ↦ ∃ x, column = some x ∧ shown x <+: cell)
      columns cells) : ∀ column ∈ columns, column.isSome = true := by
  induction h with
  | nil => simp
  | cons hcell _ ih =>
      obtain ⟨x, hx, -⟩ := hcell
      intro column hcolumn
      rcases List.mem_cons.mp hcolumn with rfl | hcolumn
      · simp [hx]
      · exact ih column hcolumn

theorem printStat_complete_iff (hshown : ∀ x, byte '|' ∉ shown x) (name : Text)
    (stat : Stat α) :
    RowComplete shown stat (printStat shown name stat) ↔
      ∀ column ∈ stat.columns, column.isSome = true := by
  constructor
  · rintro ⟨-, cells, -, -, -, -, hforall⟩
    exact isSome_of_forall₂ hforall
  · intro hall
    let ends : List Text := List.replicate 9 (text "\t") ++ [text " "]
    have hends : ∀ e ∈ ends, byte '|' ∉ e := by decide
    obtain ⟨cells, hprint, hbar, hforall⟩ := printColumns_complete hshown hends rfl hall
    refine ⟨nameColumn name, cells, ?_, length_nameColumn name, ?_, hbar, hforall⟩
    · rw [← hprint, printStat, List.append_assoc]
      rfl
    · exact hforall.length_eq.symm

end Rows

/-! ## The report of `run_tests` -/

/-- A logged row and the statistics it shows. -/
structure Row (α : Type) where
  stat : Stat α
  text : Text

/-- `printStat(name, stat.value())`. -/
def row {α : Type} (shown : α → Text) (name : Text) (stat : Option (Stat α)) :
    Except Abort (Row α) := do
  let stat ← getValue stat
  .ok ⟨stat, printStat shown name stat⟩

section Programs

variable {α : Type} [Zero α] [Add α] [Sub α] [Mul α] [Div α] [NatCast α] [RatCast α] [Pow α ℕ]
variable [LE α] [DecidableLE α] (sqrt : α → α) (shown : α → Text)

/-- The statistics of all vectors, then one row for each of them. -/
def logStats (vecs : List (Text × List α)) : Except Abort (List (Row α)) := do
  let stats ← vecs.mapM fun v ↦ getStats sqrt v.2
  (vecs.zip stats).mapM fun v ↦ row shown v.1.1 v.2

/-- The end of `run_tests`: the rows, and the objects handed to
`removeSharedMem`. -/
def reportRunTests (subVec pubVec : List α) (shmVec : List Text) :
    Except Abort (List (Row α) × List Text) := do
  let rows ← logStats sqrt shown [(text "subscribe", subVec), (text "publish", pubVec)]
  .ok (rows, shmVec)

/-! ## `pub` -/

/-- What the calls of `pub` return, and the durations it measures. -/
structure PubCalls (α : Type) where
  init : Bool
  send : ℕ → ℕ → Bool
  duration : ℕ → ℕ → α

/-- Round `i` of the publishing loop; the durations of round 0 are skipped. -/
def pubRound (calls : PubCalls α) (uris : ℕ) (pubVec : List α) (i : ℕ) : Option (List α) :=
  Loop.forLoop uris (fun pubVec u ↦
    if calls.send i u then
      some (if i ≠ 0 then pubVec ++ [calls.duration i u] else pubVec)
    else none) pubVec

def pubLoop (calls : PubCalls α) (loops uris : ℕ) : Option (List α) :=
  Loop.forLoop loops (pubRound calls uris) []

/-- The number of iterations of a loop up to an `int`. -/
def iterations (n : Int32) : ℕ := n.toInt.toNat

/-- `pub`; `none` is an early return without a report. -/
def pub (calls : PubCalls α) (loops numOfUri : Int32) : Except Abort (Option (List (Row α))) :=
  if calls.init = false then .ok none
  else
    match pubLoop calls (iterations loops) (iterations numOfUri) with
    | none => .ok none
    | some pubVec => (logStats sqrt shown [(text "publish", pubVec)]).map some

/-! ## `sub` -/

structure SubCalls (α : Type) where
  init : Bool
  registerListener : ℕ → ℕ → Bool
  unregisterListener : ℕ → ℕ → Bool
  subscribeDuration : ℕ → ℕ → α
  unsubscribeDuration : ℕ → ℕ → α

def subRound (calls : SubCalls α) (uris : ℕ) (vecs : List α × List α) (i : ℕ) :
    Option (List α × List α) := do
  let subscribe ← Loop.forLoop uris (fun subscribe u ↦
    if calls.registerListener i u then some (subscribe ++ [calls.subscribeDuration i u])
    else none) vecs.1
  let unsubscribe ← Loop.forLoop uris (fun unsubscribe u ↦
    if calls.unregisterListener i u then some (unsubscribe ++ [calls.unsubscribeDuration i u])
    else none) vecs.2
  some (subscribe, unsubscribe)

def subLoop (calls : SubCalls α) (loops uris : ℕ) : Option (List α × List α) :=
  Loop.forLoop loops (subRound calls uris) ([], [])

def sub (calls : SubCalls α) (loops numOfUri : Int32) : Except Abort (Option (List (Row α))) :=
  if calls.init = false then .ok none
  else
    match subLoop calls (iterations loops) (iterations numOfUri) with
    | none => .ok none
    | some (subscribe, unsubscribe) =>
        (logStats sqrt shown
          [(text "subscribe", subscribe), (text "unsubscribe", unsubscribe)]).map some

/-! ## `start_session` -/

structure SessionCalls (α : Type) where
  init : ℕ → Bool
  send : ℕ → ℕ → Bool
  openDuration : ℕ → α
  duration : ℕ → ℕ → α
  closeDuration : ℕ → α

structure SessionVecs (α : Type) where
  openSession : List α
  closeSession : List α
  pubVec : List α

def sessionRound (calls : SessionCalls α) (uris : ℕ) (vecs : SessionVecs α) (i : ℕ) :
    Option (SessionVecs α) :=
  if calls.init i = false then none
  else do
    let openSession := vecs.openSession ++ [calls.openDuration i]
    let pubVec ← Loop.forLoop uris (fun pubVec u ↦
      if calls.send i u then some (pubVec ++ [calls.duration i u]) else none) vecs.pubVec
    some ⟨openSession, vecs.closeSession ++ [calls.closeDuration i], pubVec⟩

def sessionLoop (calls : SessionCalls α) (loops uris : ℕ) : Option (SessionVecs α) :=
  Loop.forLoop loops (sessionRound calls uris) ⟨[], [], []⟩

def startSession (calls : SessionCalls α) (loops maxUri : Int32) :
    Except Abort (Option (List (Row α))) :=
  match sessionLoop calls (iterations loops) (iterations maxUri) with
  | none => .ok none
  | some vecs =>
      (logStats sqrt shown
        [(text "open session", vecs.openSession), (text "close session", vecs.closeSession),
          (text "first publish", vecs.pubVec)]).map some

end Programs

/-! ## One row -/

/-- Enough samples for every statistic, and positions that fit an `int`. -/
def InRange (n : ℕ) : Prop := 3 ≤ n ∧ n < 2 ^ 31

instance (n : ℕ) : Decidable (InRange n) := inferInstanceAs (Decidable (_ ∧ _))

/-- Enough samples for a row, which may end early. -/
def Reportable (n : ℕ) : Prop := 2 ≤ n ∧ n < 2 ^ 31

instance (n : ℕ) : Decidable (Reportable n) := inferInstanceAs (Decidable (_ ∧ _))

section Rows

variable {α : Type} [Zero α] [Add α] [Sub α] [Mul α] [Div α] [NatCast α] [RatCast α] [Pow α ℕ]
variable [LE α] [DecidableLE α] (sqrt : α → α) {shown : α → Text}

theorem row_complete_iff (hshown : ∀ x, byte '|' ∉ shown x) (name : Text) (vec : List α) :
    (∃ stat r, getStats sqrt vec = .ok stat ∧ row shown name stat = .ok r ∧
        RowComplete shown r.stat r.text) ↔ InRange vec.length := by
  by_cases h2 : 2 ≤ vec.length
  · by_cases hlt : vec.length < 2 ^ 31
    · obtain ⟨stat, hstat, hcolumns⟩ := getStats_eq_ok sqrt h2 hlt
      have hrow : row shown name (some stat) = .ok ⟨stat, printStat shown name stat⟩ := rfl
      constructor
      · rintro ⟨stat', r, hstat', hr, hcomplete⟩
        rw [hstat, Except.ok.injEq] at hstat'
        rw [← hstat', hrow, Except.ok.injEq] at hr
        rw [← hr] at hcomplete
        exact ⟨hcolumns.mp ((printStat_complete_iff hshown name stat).mp hcomplete), hlt⟩
      · rintro ⟨h3, -⟩
        refine ⟨some stat, _, hstat, hrow, ?_⟩
        exact (printStat_complete_iff hshown name stat).mpr (hcolumns.mpr h3)
    · refine iff_of_false ?_ (fun h ↦ hlt h.2)
      rintro ⟨stat, r, hstat, -⟩
      simp [getStats_of_le sqrt (not_lt.mp hlt)] at hstat
  · refine iff_of_false ?_ (fun h ↦ h2 (by have := h.1; omega))
    rintro ⟨stat, r, hstat, hr, -⟩
    rw [getStats_of_lt sqrt (not_le.mp h2), Except.ok.injEq] at hstat
    simp [← hstat, row, getValue, bind, Except.bind] at hr

theorem logStats_cons_eq_ok {name : Text} {vec : List α} {vecs : List (Text × List α)}
    {rows : List (Row α)} :
    logStats sqrt shown ((name, vec) :: vecs) = .ok rows ↔ ∃ stat r rest,
      getStats sqrt vec = .ok stat ∧ row shown name stat = .ok r ∧
        logStats sqrt shown vecs = .ok rest ∧ r :: rest = rows := by
  simp only [logStats, List.mapM_cons, bind_eq_ok]
  constructor
  · rintro ⟨stats, ⟨stat, hstat, stats', hstats, heq⟩, hrows⟩
    obtain rfl : stat :: stats' = stats := Except.ok.inj heq
    rw [List.zip_cons_cons, List.mapM_cons] at hrows
    obtain ⟨r, hr, hrest⟩ := bind_eq_ok.mp hrows
    obtain ⟨rest, hrest, heq⟩ := bind_eq_ok.mp hrest
    exact ⟨stat, r, rest, hstat, hr, ⟨stats', hstats, hrest⟩, Except.ok.inj heq⟩
  · rintro ⟨stat, r, rest, hstat, hr, ⟨stats, hstats, hrest⟩, rfl⟩
    refine ⟨stat :: stats, ⟨stat, hstat, stats, hstats, rfl⟩, ?_⟩
    rw [List.zip_cons_cons, List.mapM_cons]
    exact bind_eq_ok.mpr ⟨r, hr, bind_eq_ok.mpr ⟨rest, hrest, rfl⟩⟩

theorem exists_row_iff (shown : α → Text) (name : Text) (vec : List α) :
    (∃ stat r, getStats sqrt vec = .ok stat ∧ row shown name stat = .ok r) ↔
      Reportable vec.length := by
  by_cases h2 : 2 ≤ vec.length
  · by_cases hlt : vec.length < 2 ^ 31
    · obtain ⟨stat, hstat, -⟩ := getStats_eq_ok sqrt h2 hlt
      exact iff_of_true ⟨some stat, _, hstat, rfl⟩ ⟨h2, hlt⟩
    · refine iff_of_false ?_ fun h ↦ hlt h.2
      rintro ⟨stat, r, hstat, -⟩
      simp [getStats_of_le sqrt (not_lt.mp hlt)] at hstat
  · refine iff_of_false ?_ fun h ↦ h2 h.1
    rintro ⟨stat, r, hstat, hr⟩
    rw [getStats_of_lt sqrt (not_le.mp h2), Except.ok.injEq] at hstat
    simp [← hstat, row, getValue, bind, Except.bind] at hr

theorem exists_logStats_iff (shown : α → Text) (vecs : List (Text × List α)) :
    (∃ rows, logStats sqrt shown vecs = .ok rows) ↔
      ∀ v ∈ vecs, Reportable v.2.length := by
  induction vecs with
  | nil => exact iff_of_true ⟨[], rfl⟩ (by simp)
  | cons v vecs ih =>
      obtain ⟨name, vec⟩ := v
      rw [List.forall_mem_cons, ← ih, ← exists_row_iff sqrt shown name vec]
      simp only [logStats_cons_eq_ok]
      constructor
      · rintro ⟨rows, stat, r, rest, hstat, hr, hrest, -⟩
        exact ⟨⟨stat, r, hstat, hr⟩, rest, hrest⟩
      · rintro ⟨⟨stat, r, hstat, hr⟩, rest, hrest⟩
        exact ⟨r :: rest, stat, r, rest, hstat, hr, hrest, rfl⟩

theorem logStats_complete_iff (hshown : ∀ x, byte '|' ∉ shown x)
    (vecs : List (Text × List α)) :
    (∃ rows, logStats sqrt shown vecs = .ok rows ∧
        ∀ row ∈ rows, RowComplete shown row.stat row.text) ↔
      ∀ v ∈ vecs, InRange v.2.length := by
  induction vecs with
  | nil => exact iff_of_true ⟨[], rfl, by simp⟩ (by simp)
  | cons v vecs ih =>
      obtain ⟨name, vec⟩ := v
      rw [List.forall_mem_cons, ← ih, ← row_complete_iff sqrt hshown name vec]
      simp only [logStats_cons_eq_ok]
      constructor
      · rintro ⟨rows, ⟨stat, r, rest, hstat, hr, hrest, rfl⟩, hall⟩
        rw [List.forall_mem_cons] at hall
        exact ⟨⟨stat, r, hstat, hr, hall.1⟩, ⟨rest, hrest, hall.2⟩⟩
      · rintro ⟨⟨stat, r, hstat, hr, hcomplete⟩, ⟨rest, hrest, hall⟩⟩
        exact ⟨r :: rest, ⟨stat, r, rest, hstat, hr, hrest, rfl⟩,
          List.forall_mem_cons.mpr ⟨hcomplete, hall⟩⟩

/-! ## The loops -/

omit [Zero α] [Add α] [Sub α] [Mul α] [Div α] [NatCast α] [RatCast α] [Pow α ℕ] [LE α]
  [DecidableLE α]

/-- One pass over the URIs that appends a sample for each of them. -/
theorem isSome_collect_iff (ok : ℕ → Bool) (sample : ℕ → List α → List α) (uris : ℕ)
    (vec : List α) :
    (Loop.forLoop uris (fun vec u ↦ if ok u then some (sample u vec) else none) vec).isSome ↔
      ∀ u < uris, ok u = true := by
  apply Loop.forLoop_isSome_iff
  intro vec u
  cases ok u <;> simp

theorem length_collect {ok : ℕ → Bool} {sample : ℕ → List α → List α} {c : ℕ}
    (hsample : ∀ u vec, (sample u vec).length = vec.length + c) {uris : ℕ} {vec vec' : List α}
    (h : Loop.forLoop uris (fun vec u ↦ if ok u then some (sample u vec) else none) vec =
      some vec') : vec'.length = vec.length + uris * c := by
  rw [← Loop.total_const]
  refine Loop.measure_forLoop List.length ?_ h
  intro vec u vec' hstep
  cases hok : ok u with
  | false => simp [hok] at hstep
  | true =>
      rw [hok, if_pos rfl, Option.some.injEq] at hstep
      rw [← hstep, hsample]

theorem pubLoop_isSome_iff (calls : PubCalls α) (loops uris : ℕ) :
    (pubLoop calls loops uris).isSome ↔ ∀ i < loops, ∀ u < uris, calls.send i u = true := by
  apply Loop.forLoop_isSome_iff
  intro vec i
  exact isSome_collect_iff (calls.send i) _ uris vec

theorem length_pubLoop {calls : PubCalls α} {loops uris : ℕ} {pubVec : List α}
    (h : pubLoop calls loops uris = some pubVec) : pubVec.length = (loops - 1) * uris := by
  rw [← Loop.total_skip_first, ← Nat.zero_add (Loop.total _ _)]
  refine Loop.measure_forLoop List.length ?_ h
  intro vec i vec' hstep
  have hsample (u : ℕ) (vec : List α) :
      (if i ≠ 0 then vec ++ [calls.duration i u] else vec).length =
        vec.length + if i ≠ 0 then 1 else 0 := by
    split <;> simp
  rw [length_collect hsample hstep]
  split <;> simp

theorem subLoop_isSome_iff (calls : SubCalls α) (loops uris : ℕ) :
    (subLoop calls loops uris).isSome ↔ ∀ i < loops,
      (∀ u < uris, calls.registerListener i u = true) ∧
        ∀ u < uris, calls.unregisterListener i u = true := by
  apply Loop.forLoop_isSome_iff
  intro vecs i
  rw [← isSome_collect_iff (calls.registerListener i)
      (fun u subscribe ↦ subscribe ++ [calls.subscribeDuration i u]) uris vecs.1,
    ← isSome_collect_iff (calls.unregisterListener i)
      (fun u unsubscribe ↦ unsubscribe ++ [calls.unsubscribeDuration i u]) uris vecs.2]
  simp [subRound, Option.isSome_bind, Option.any_eq_true, Option.isSome_iff_exists]

theorem length_subLoop {calls : SubCalls α} {loops uris : ℕ} {vecs : List α × List α}
    (h : subLoop calls loops uris = some vecs) :
    vecs.1.length = loops * uris ∧ vecs.2.length = loops * uris := by
  have hround {vecs : List α × List α} {i : ℕ} {vecs' : List α × List α}
      (hbody : subRound calls uris vecs i = some vecs') :
      vecs'.1.length = vecs.1.length + uris ∧ vecs'.2.length = vecs.2.length + uris := by
    obtain ⟨subscribe, hsubscribe, hrest⟩ := Option.bind_eq_some_iff.mp hbody
    obtain ⟨unsubscribe, hunsubscribe, hvecs⟩ := Option.bind_eq_some_iff.mp hrest
    rw [← Option.some.inj hvecs]
    have hfirst := length_collect (c := 1) (fun u vec ↦ by simp) hsubscribe
    have hsecond := length_collect (c := 1) (fun u vec ↦ by simp) hunsubscribe
    exact ⟨by simpa using hfirst, by simpa using hsecond⟩
  have hfirst := Loop.measure_forLoop (fun vecs ↦ vecs.1.length)
    (fun _ _ _ hbody ↦ (hround hbody).1) h
  have hsecond := Loop.measure_forLoop (fun vecs ↦ vecs.2.length)
    (fun _ _ _ hbody ↦ (hround hbody).2) h
  rw [Loop.total_const] at hfirst hsecond
  exact ⟨by simpa using hfirst, by simpa using hsecond⟩

theorem sessionLoop_isSome_iff (calls : SessionCalls α) (loops uris : ℕ) :
    (sessionLoop calls loops uris).isSome ↔ ∀ i < loops,
      calls.init i = true ∧ ∀ u < uris, calls.send i u = true := by
  apply Loop.forLoop_isSome_iff
  intro vecs i
  rw [← isSome_collect_iff (calls.send i) (fun u pubVec ↦ pubVec ++ [calls.duration i u]) uris
    vecs.pubVec]
  cases hinit : calls.init i <;>
    simp [sessionRound, hinit, Option.isSome_bind, Option.isSome_iff_exists]

theorem length_sessionLoop {calls : SessionCalls α} {loops uris : ℕ} {vecs : SessionVecs α}
    (h : sessionLoop calls loops uris = some vecs) :
    vecs.openSession.length = loops ∧ vecs.closeSession.length = loops ∧
      vecs.pubVec.length = loops * uris := by
  have hround {vecs : SessionVecs α} {i : ℕ} {vecs' : SessionVecs α}
      (hbody : sessionRound calls uris vecs i = some vecs') :
      vecs'.openSession.length = vecs.openSession.length + 1 ∧
        vecs'.closeSession.length = vecs.closeSession.length + 1 ∧
        vecs'.pubVec.length = vecs.pubVec.length + uris := by
    unfold sessionRound at hbody
    split at hbody
    · simp at hbody
    · obtain ⟨pubVec, hpub, hvecs⟩ := Option.bind_eq_some_iff.mp hbody
      have hlen := length_collect (c := 1) (fun u vec ↦ by simp) hpub
      rw [← Option.some.inj hvecs]
      exact ⟨by simp, by simp, by simpa using hlen⟩
  have hopen := Loop.measure_forLoop (fun vecs ↦ vecs.openSession.length)
    (fun _ _ _ hbody ↦ (hround hbody).1) h
  have hclose := Loop.measure_forLoop (fun vecs ↦ vecs.closeSession.length)
    (fun _ _ _ hbody ↦ (hround hbody).2.1) h
  have hpub := Loop.measure_forLoop (fun vecs ↦ vecs.pubVec.length)
    (fun _ _ _ hbody ↦ (hround hbody).2.2) h
  rw [Loop.total_const] at hopen hclose hpub
  exact ⟨by simpa using hopen, by simpa using hclose, by simpa using hpub⟩

end Rows

/-! ## The four reports -/

/-- A call that returns early logs nothing; a call that does not logs complete
rows. -/
def Reported {α : Type} (shown : α → Text) (result : Except Abort (Option (List (Row α)))) :
    Prop :=
  ∃ rows, result = .ok rows ∧ ∀ r ∈ rows, ∀ row ∈ r, RowComplete shown row.stat row.text

/-- Some call of `pub` fails, so it returns early. -/
def PubCalls.Fails {α : Type} (calls : PubCalls α) (loops uris : ℕ) : Prop :=
  calls.init = false ∨ ∃ i < loops, ∃ u < uris, calls.send i u = false

def SubCalls.Fails {α : Type} (calls : SubCalls α) (loops uris : ℕ) : Prop :=
  calls.init = false ∨ ∃ i < loops, (∃ u < uris, calls.registerListener i u = false) ∨
    ∃ u < uris, calls.unregisterListener i u = false

def SessionCalls.Fails {α : Type} (calls : SessionCalls α) (loops uris : ℕ) : Prop :=
  ∃ i < loops, calls.init i = false ∨ ∃ u < uris, calls.send i u = false

theorem PubCalls.fails_iff {α : Type} {calls : PubCalls α} (hinit : calls.init = true)
    (loops uris : ℕ) : calls.Fails loops uris ↔ pubLoop calls loops uris = none := by
  rw [← Option.not_isSome_iff_eq_none, pubLoop_isSome_iff, PubCalls.Fails]
  simp [hinit]

theorem SubCalls.fails_iff {α : Type} {calls : SubCalls α} (hinit : calls.init = true)
    (loops uris : ℕ) : calls.Fails loops uris ↔ subLoop calls loops uris = none := by
  rw [← Option.not_isSome_iff_eq_none, subLoop_isSome_iff, SubCalls.Fails]
  simp [hinit, imp_iff_not_or]

theorem SessionCalls.fails_iff {α : Type} (calls : SessionCalls α) (loops uris : ℕ) :
    calls.Fails loops uris ↔ sessionLoop calls loops uris = none := by
  rw [← Option.not_isSome_iff_eq_none, sessionLoop_isSome_iff, SessionCalls.Fails]
  simp [imp_iff_not_or]

section Reports

variable {α : Type} [Zero α] [Add α] [Sub α] [Mul α] [Div α] [NatCast α] [RatCast α] [Pow α ℕ]
variable [LE α] [DecidableLE α] (sqrt : α → α) {shown : α → Text}
variable (hshown : ∀ x, byte '|' ∉ shown x)

include hshown

theorem reportRunTests_iff (subVec pubVec : List α) (shmVec : List Text) :
    (∃ rows, reportRunTests sqrt shown subVec pubVec shmVec = .ok (rows, shmVec) ∧
        ∀ row ∈ rows, RowComplete shown row.stat row.text) ↔
      InRange subVec.length ∧ InRange pubVec.length := by
  have hlog := logStats_complete_iff sqrt hshown
    [(text "subscribe", subVec), (text "publish", pubVec)]
  rw [List.forall_mem_cons, List.forall_mem_singleton] at hlog
  rw [← hlog]
  simp [reportRunTests, bind_eq_ok]

theorem reported_logStats_iff (vecs : List (Text × List α)) :
    Reported shown ((logStats sqrt shown vecs).map some) ↔ ∀ v ∈ vecs, InRange v.2.length := by
  rw [← logStats_complete_iff sqrt hshown]
  cases hlog : logStats sqrt shown vecs <;> simp [Reported, Except.map]

/-- A program returns early when its loop does; otherwise it logs the rows of
what the loop collected. -/
theorem reported_loop_iff {β : Type} {loop : Option β} (rows : β → List (Text × List α))
    {result : Except Abort (Option (List (Row α)))} {fails inRange : Prop}
    (hfails : fails ↔ ¬ loop.isSome)
    (hnone : loop = none → result = .ok none)
    (hsome : ∀ v, loop = some v → result = (logStats sqrt shown (rows v)).map some)
    (hlength : ∀ v, loop = some v → ((∀ r ∈ rows v, InRange r.2.length) ↔ inRange)) :
    Reported shown result ↔ fails ∨ inRange := by
  cases hloop : loop with
  | none =>
      have hearly : fails := hfails.mpr (by simp [hloop])
      simp [Reported, hnone hloop, hearly]
  | some v =>
      have hlate : ¬ fails := mt hfails.mp (by simp [hloop])
      rw [or_iff_right hlate, hsome v hloop, reported_logStats_iff sqrt hshown, hlength v hloop]

theorem pub_reported_iff (calls : PubCalls α) (loops numOfUri : Int32) :
    Reported shown (pub sqrt shown calls loops numOfUri) ↔
      calls.Fails (iterations loops) (iterations numOfUri) ∨
        InRange ((iterations loops - 1) * iterations numOfUri) := by
  cases hinit : calls.init with
  | false => simp [Reported, pub, PubCalls.Fails, hinit]
  | true =>
      have hfails : calls.Fails (iterations loops) (iterations numOfUri) ↔
          ¬ (pubLoop calls (iterations loops) (iterations numOfUri)).isSome := by
        rw [pubLoop_isSome_iff, PubCalls.Fails]
        simp [hinit]
      refine reported_loop_iff sqrt hshown (fun pubVec ↦ [(text "publish", pubVec)]) hfails
        ?_ ?_ ?_
      · intro hvec
        simp [pub, hinit, hvec]
      · intro pubVec hvec
        simp [pub, hinit, hvec]
      · intro pubVec hvec
        simp [length_pubLoop hvec]

theorem sub_reported_iff (calls : SubCalls α) (loops numOfUri : Int32) :
    Reported shown (sub sqrt shown calls loops numOfUri) ↔
      calls.Fails (iterations loops) (iterations numOfUri) ∨
        InRange (iterations loops * iterations numOfUri) := by
  cases hinit : calls.init with
  | false => simp [Reported, sub, SubCalls.Fails, hinit]
  | true =>
      have hfails : calls.Fails (iterations loops) (iterations numOfUri) ↔
          ¬ (subLoop calls (iterations loops) (iterations numOfUri)).isSome := by
        rw [subLoop_isSome_iff, SubCalls.Fails]
        simp [hinit, imp_iff_not_or]
      refine reported_loop_iff sqrt hshown
        (fun vecs ↦ [(text "subscribe", vecs.1), (text "unsubscribe", vecs.2)]) hfails ?_ ?_ ?_
      · intro hvec
        simp [sub, hinit, hvec]
      · intro vecs hvec
        simp [sub, hinit, hvec]
      · intro vecs hvec
        obtain ⟨hsubscribe, hunsubscribe⟩ := length_subLoop hvec
        simp [hsubscribe, hunsubscribe]

theorem startSession_reported_iff (calls : SessionCalls α) (loops maxUri : Int32) :
    Reported shown (startSession sqrt shown calls loops maxUri) ↔
      calls.Fails (iterations loops) (iterations maxUri) ∨
        InRange (iterations loops) ∧ InRange (iterations loops * iterations maxUri) := by
  have hfails : calls.Fails (iterations loops) (iterations maxUri) ↔
      ¬ (sessionLoop calls (iterations loops) (iterations maxUri)).isSome := by
    rw [sessionLoop_isSome_iff, SessionCalls.Fails]
    simp [imp_iff_not_or]
  refine reported_loop_iff sqrt hshown
    (fun vecs ↦ [(text "open session", vecs.openSession),
      (text "close session", vecs.closeSession), (text "first publish", vecs.pubVec)])
    hfails ?_ ?_ ?_
  · intro hvec
    simp [startSession, hvec]
  · intro vecs hvec
    simp [startSession, hvec]
  · intro vecs hvec
    obtain ⟨hopen, hclose, hpub⟩ := length_sessionLoop hvec
    simp [hopen, hclose, hpub]

/-- The reports end and their rows are complete exactly when every vector they
show has from 3 up to `2 ^ 31 - 1` samples. -/
theorem reports_complete_iff :
    (∀ (subVec pubVec : List α) (shmVec : List Text),
      (∃ rows, reportRunTests sqrt shown subVec pubVec shmVec = .ok (rows, shmVec) ∧
          ∀ row ∈ rows, RowComplete shown row.stat row.text) ↔
        InRange subVec.length ∧ InRange pubVec.length) ∧
    (∀ (calls : PubCalls α) (loops numOfUri : Int32),
      Reported shown (pub sqrt shown calls loops numOfUri) ↔
        calls.Fails (iterations loops) (iterations numOfUri) ∨
          InRange ((iterations loops - 1) * iterations numOfUri)) ∧
    (∀ (calls : SubCalls α) (loops numOfUri : Int32),
      Reported shown (sub sqrt shown calls loops numOfUri) ↔
        calls.Fails (iterations loops) (iterations numOfUri) ∨
          InRange (iterations loops * iterations numOfUri)) ∧
    ∀ (calls : SessionCalls α) (loops maxUri : Int32),
      Reported shown (startSession sqrt shown calls loops maxUri) ↔
        calls.Fails (iterations loops) (iterations maxUri) ∨
          InRange (iterations loops) ∧ InRange (iterations loops * iterations maxUri) :=
  ⟨reportRunTests_iff sqrt hshown, pub_reported_iff sqrt hshown, sub_reported_iff sqrt hshown,
    startSession_reported_iff sqrt hshown⟩

end Reports

/-- The square root of the variances 0 and 1 of these samples is the variance
itself. -/
theorem reports_complete_iff_four :
    ∃ rows, reportRunTests (fun q : ℚ ↦ q) (FixedPoint.fixedText 9) [1, 1, 1] [1, 1, 3, 3]
        [text "/pub_test.app0"] = .ok (rows, [text "/pub_test.app0"]) ∧
      ∀ row ∈ rows, RowComplete (FixedPoint.fixedText 9) row.stat row.text := by
  have hshown (q : ℚ) : byte '|' ∉ FixedPoint.fixedText 9 q :=
    FixedPoint.notMem_fixedText rfl (by decide) (by decide) 9 q
  exact ((reports_complete_iff (fun q : ℚ ↦ q) hshown).1 _ _ _).mpr ⟨by decide, by decide⟩

/-- Without samples the report stops before any object is removed. -/
theorem report_without_samples :
    reportRunTests (fun q : ℚ ↦ q) (FixedPoint.fixedText 9) [] [] [text "/pub_test.app0"] =
      .error .badOptionalAccess :=
  rfl

end UpZenohExample
