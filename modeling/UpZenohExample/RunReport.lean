import UpZenohExample.ListenerRuns
import UpZenohExample.ResultDir
import UpZenohExample.TestSchedules

/-!
# From the processes to the statistics

When `run_tests` comes to its report, its directory holds one file for every
child that has kept a duration, and the two vectors of the report are what the
history says.  In exact arithmetic every duration survives its nine digits.
-/

namespace UpZenohExample

open ByteText Function LabelledRun FixedPoint

variable {cfg : Config} {p : Place} {slots : ℕ → Text} {b b' : TestRun}
  {trace : List Occurrence} {s : State} {k : ℕ}

/-! ## The result directory -/

/-- The files of `d`, in one order or another, are `files`. -/
def Directory.Shows (d : Directory) (files : Text → File) : Prop :=
  ∀ entry, entry ∈ d.entries ↔
    ∃ name content, files name = some content ∧ entry = .regular name content

theorem fileName_class (k : ℕ) :
    ((fileName k).take 1 = text "p" ↔ k % 2 = 0) ∧
      ((fileName k).take 1 = text "s" ↔ k % 2 = 1) := by
  have hpub (t : Text) : (text "pub-" ++ t).take 1 = text "p" := by simp [text, byte]
  have hsub (t : Text) : (text "sub-" ++ t).take 1 = text "s" := by simp [text, byte]
  have hne : text "p" ≠ text "s" := by decide
  unfold fileName
  split
  · rw [hpub]
    exact ⟨by simp [*], by simp [*]⟩
  · rw [hsub]
    exact ⟨by simp [*, hne.symm], by simp; omega⟩

theorem slash_notMem_fileName (k : ℕ) : byte '/' ∉ fileName k := by
  have hinstance : byte '/' ∉ instanceName k := by
    rw [instanceName, List.mem_append, not_or]
    exact ⟨by decide, (decimal_isDigits k).notMem rfl⟩
  unfold fileName
  split
  · rw [List.mem_append, not_or]
    exact ⟨by decide, hinstance⟩
  · rw [List.mem_append, not_or]
    exact ⟨by decide, hinstance⟩

/-- The files of the children, in their order. -/
def TestRun.entries (cfg : Config) (p : Place) (b : TestRun) : List DirEntry :=
  (List.range cfg.maxProcess).filterMap fun k ↦
    (b.files p.path (fileName k)).map (.regular (fileName k))

theorem nodup_entries (cfg : Config) (p : Place) (b : TestRun) :
    ((b.entries cfg p).map DirEntry.name).Nodup := by
  rw [TestRun.entries, List.map_filterMap]
  apply List.Nodup.filterMap _ List.nodup_range
  intro j k name hj hk
  simp only [Option.map_map, Option.mem_def, Option.map_eq_some_iff] at hj hk
  obtain ⟨_, -, rfl⟩ := hj
  obtain ⟨_, -, heq⟩ := hk
  exact (fileName_injective heq).symm

theorem mem_entries {entry : DirEntry} : entry ∈ b.entries cfg p ↔
    ∃ k < cfg.maxProcess, ∃ content, b.files p.path (fileName k) = some content ∧
      entry = .regular (fileName k) content := by
  simp [TestRun.entries, eq_comm]

def TestRun.directory (cfg : Config) (p : Place) (b : TestRun) (path : Text) : Directory where
  path := path
  entries := b.entries cfg p
  nodup_names := nodup_entries cfg p b
  slash_notMem := by
    intro entry hentry
    obtain ⟨k, -, content, -, rfl⟩ := mem_entries.mp hentry
    exact slash_notMem_fileName k

/-- A process that has not been created has no file. -/
theorem Tracks.files_none (hb : Tracks cfg p slots trace b) (hs : WellFormed cfg b.state)
    (hk : ¬ k < cfg.maxProcess) : b.files p.path (fileName k) = none := by
  have hchild := hb.child k
  rw [(hs.unborn k).resolve_left fun h ↦ hk h.1] at hchild
  have hq : (b.proc k).leaving = .running := by
    have hleaving := hchild.leaving
    cases hl : (b.proc k).leaving <;> simp_all [LeavingOk]
  rw [hchild.file, hq]
  rfl

theorem Tracks.mem_entries (hb : Tracks cfg p slots trace b) (hs : WellFormed cfg b.state)
    {entry : DirEntry} : entry ∈ b.entries cfg p ↔
      ∃ name content, b.files p.path name = some content ∧ entry = .regular name content := by
  rw [UpZenohExample.mem_entries]
  constructor
  · rintro ⟨k, -, content, hfile, rfl⟩
    exact ⟨fileName k, content, hfile, rfl⟩
  · rintro ⟨name, content, hfile, rfl⟩
    obtain ⟨k, rfl⟩ : ∃ k, name = fileName k := by
      by_contra hnone
      rw [hb.only name fun k heq ↦ hnone ⟨k, heq⟩] at hfile
      cases hfile
    refine ⟨k, ?_, content, hfile, rfl⟩
    by_contra hk
    rw [hb.files_none hs hk] at hfile
    cases hfile

theorem Tracks.shows (heven : cfg.maxProcess % 2 = 0) (hb : Tracks cfg p slots trace b)
    (path : Text) : (b.directory cfg p path).Shows (b.files p.path) :=
  fun _ ↦ hb.mem_entries (hb.wellFormed heven)

theorem Tracks.entries_perm (hb : Tracks cfg p slots trace b) (hs : WellFormed cfg b.state)
    {d : Directory} (hd : d.Shows (b.files p.path)) : d.entries.Perm (b.entries cfg p) := by
  apply (List.perm_ext_iff_of_nodup d.nodup_names.of_map (nodup_entries cfg p b).of_map).mpr
  intro entry
  rw [hd entry, hb.mem_entries hs]

theorem linesOf_entries (letter : Text) :
    linesOf letter (b.entries cfg p) = (List.range cfg.maxProcess).flatMap fun k ↦
      if (fileName k).take 1 = letter then getlines ((b.files p.path (fileName k)).getD [])
      else [] := by
  rw [TestRun.entries]
  induction List.range cfg.maxProcess with
  | nil => rfl
  | cons k ks ih =>
      rw [List.flatMap_cons, ← ih]
      cases hfile : b.files p.path (fileName k) with
      | none => simp [hfile, getlines]
      | some content => simp [hfile, linesOf, entryLines]

/-- The durations that child `k` leaves for the report. -/
def saved (cfg : Config) (k : ℕ) (trace : List Occurrence) (leaving : Leaving) : List ℚ :=
  (List.range (leaving.count cfg)).flatMap fun i ↦ vector cfg k i trace

theorem ProcOk.readDouble_lines {c : Child} {q : Proc} {file : File}
    (h : ProcOk cfg k trace c q file) :
    (getlines (file.getD [])).filterMap readDouble =
      (saved cfg k trace q.leaving).map (rounded 9) := by
  have hread := readFileToVec_eq file []
  have hwritten := readFileToVec_writeAll (((List.range (q.leaving.count cfg)).map fun i ↦
    vector cfg k i trace).filter fun vec ↦ !vec.isEmpty) []
  rw [writeAll, ← appendVecs, ← h.file, ListCut.flatten_filter_ne_nil, hread, List.nil_append,
    List.nil_append] at hwritten
  rw [hwritten, saved, List.flatMap]

/-! ## The samples of the report -/

theorem getDuration_exact (stop start : Timespec) :
    ∃ n : ℤ, getDuration stop start = n / 10 ^ 9 := by
  refine ⟨(stop.tvSec.toInt - start.tvSec.toInt) * 10 ^ 9 +
    (stop.tvNsec.toInt - start.tvNsec.toInt), ?_⟩
  simp only [getDuration, Timespec.seconds]
  push_cast
  ring

/-- The durations of all publishers, without those of the first round. -/
def publishedSamples (cfg : Config) (trace : List Occurrence) : List ℚ :=
  (List.range cfg.maxProcess).flatMap fun k ↦
    if roleOf k = text "p" then (sends k trace).drop cfg.uris else []

/-- The durations of the messages that the subscribers which have got Stop had
accepted when they wrote their vectors. -/
def receivedSamples (cfg : Config) (s : State) (trace : List Occurrence) : List ℚ :=
  (List.range cfg.maxProcess).flatMap fun k ↦
    if s.child k = .exited then
      (List.range cfg.uris).flatMap fun i ↦ (ledger (counted k i trace)).map Entry.duration
    else []

theorem mem_sends {d : ℚ} (h : d ∈ sends k trace) : ∃ n : ℤ, d = n / 10 ^ 9 := by
  obtain ⟨e, -, he⟩ := List.mem_filterMap.mp h
  cases e with
  | send j start stop =>
      rw [Occurrence.sent, Option.ite_none_right_eq_some, Option.some.injEq] at he
      exact he.2 ▸ getDuration_exact stop start
  | parent | child | fail | receive | save | unregister | unregisterFails => cases he

theorem mem_ledger_duration {ms : List Message} {d : ℚ}
    (h : d ∈ (ledger ms).map Entry.duration) : ∃ n : ℤ, d = n / 10 ^ 9 := by
  obtain ⟨entry, hentry, rfl⟩ := List.mem_map.mp h
  obtain ⟨m, -, hm⟩ := List.mem_filterMap.mp hentry
  obtain ⟨data, sec, nsec, counter, -, -, rfl⟩ := entry_eq_some_iff.mp hm
  exact getDuration_exact _ _

/-- Durations survive the nine digits of the result files. -/
theorem map_rounded {vec : List ℚ} (h : ∀ d ∈ vec, ∃ n : ℤ, d = n / 10 ^ 9) :
    vec.map (rounded 9) = vec := by
  conv_rhs => rw [← List.map_id vec]
  apply List.map_congr_left
  intro d hd
  exact rounded_eq_self (h d hd)

theorem LeavingOk.count_eq {c : Child} {leaving : Leaving} (h : LeavingOk cfg c leaving) :
    (c = .stopped → leaving.count cfg = 1) ∧ (c = .exited → leaving.count cfg = cfg.uris) ∧
      (c = .failed → leaving.count cfg = 0) := by
  cases leaving with
  | running =>
      obtain ⟨hstopped, hexited⟩ := h
      exact ⟨fun h ↦ absurd h hstopped, fun h ↦ absurd h hexited, fun _ ↦ rfl⟩
  | saving i => rcases h with ⟨rfl, ⟨sent, rfl, -⟩ | rfl⟩ | ⟨-, rfl⟩ <;> simp [Leaving.count]
  | unregistering i => rcases h with rfl | rfl <;> simp [Leaving.count]

theorem Tracks.lines_perm (hb : Tracks cfg p slots trace b) (hs : WellFormed cfg b.state)
    {d : Directory} (hd : d.Shows (b.files p.path)) (listing : Listing d) (letter : Text) :
    ((linesOf letter listing.order).filterMap readDouble).Perm
      ((List.range cfg.maxProcess).flatMap fun k ↦ if (fileName k).take 1 = letter then
        (saved cfg k trace (b.proc k).leaving).map (rounded 9) else []) := by
  have hlines : (linesOf letter (b.entries cfg p)).filterMap readDouble =
      (List.range cfg.maxProcess).flatMap fun k ↦ if (fileName k).take 1 = letter then
        (saved cfg k trace (b.proc k).leaving).map (rounded 9) else [] := by
    rw [linesOf_entries, List.filterMap_flatMap]
    congr 1
    funext k
    split
    · exact (hb.child k).readDouble_lines
    · rfl
  rw [← hlines]
  exact (linesOf_perm letter (listing.perm.trans (hb.entries_perm hs hd))).filterMap readDouble

/-- Behind the loops of the children every publisher has written its vector. -/
theorem Tracks.published (hb : Tracks cfg p slots trace b) (hs : WellFormed cfg b.state)
    (hp : b.state.parent = .reporting) :
    ((List.range cfg.maxProcess).flatMap fun k ↦ if (fileName k).take 1 = text "p" then
      (saved cfg k trace (b.proc k).leaving).map (rounded 9) else []) =
      publishedSamples cfg trace := by
  rw [publishedSamples]
  apply List.flatMap_congr
  intro k hk
  rw [List.mem_range] at hk
  by_cases hpub : k % 2 = 0
  · have hstopped := (hs.pub_done (by simp [hp, Parent.phase]) hk hpub).1
    have hsaved : saved cfg k trace (b.proc k).leaving = (sends k trace).drop cfg.uris := by
      rw [saved, (hb.child k).leaving.count_eq.1 hstopped]
      simp [vector, hpub]
    rw [if_pos ((fileName_class k).1.mpr hpub), if_pos ((roleOf_eq_pub_iff k).mpr hpub), hsaved]
    exact map_rounded fun d hd ↦ mem_sends (List.mem_of_mem_drop hd)
  · rw [if_neg (mt (fileName_class k).1.mp hpub), if_neg (mt (roleOf_eq_pub_iff k).mp hpub)]

/-- A subscriber has failed, or has written one vector for each listener. -/
theorem Tracks.received (hb : Tracks cfg p slots trace b) (hs : WellFormed cfg b.state)
    (hp : b.state.parent = .reporting) :
    ((List.range cfg.maxProcess).flatMap fun k ↦ if (fileName k).take 1 = text "s" then
      (saved cfg k trace (b.proc k).leaving).map (rounded 9) else []) =
      receivedSamples cfg b.state trace := by
  rw [receivedSamples]
  apply List.flatMap_congr
  intro k hk
  rw [List.mem_range] at hk
  have hrole := hs.roles k
  have hcount := (hb.child k).leaving.count_eq
  have hdone := hs.reaped k hk (by simp [hp, Parent.Reaped])
  cases hc : b.state.child k with
  | exited =>
      rw [hc] at hrole
      have hsub : ¬ k % 2 = 0 := by
        have hodd : k % 2 = 1 := hrole
        omega
      have hsaved : saved cfg k trace (b.proc k).leaving = (List.range cfg.uris).flatMap fun i ↦
          (ledger (counted k i trace)).map Entry.duration := by
        rw [saved, hcount.2.1 hc]
        simp only [vector, if_neg hsub]
      rw [if_pos ((fileName_class k).2.mpr hrole), if_pos rfl, hsaved]
      apply map_rounded
      intro d hd
      obtain ⟨i, -, hi⟩ := List.mem_flatMap.mp hd
      exact mem_ledger_duration hi
  | failed =>
      rw [saved, hcount.2.2 hc]
      simp
  | stopped =>
      rw [hc] at hrole
      have hpub : ¬ k % 2 = 1 := by
        have heven : k % 2 = 0 := hrole
        omega
      rw [if_neg (mt (fileName_class k).2.mp hpub), if_neg (by simp)]
  | unborn | launched | publishing | waitStart | registering | waitStop =>
      simp [hc, Child.terminated] at hdone

theorem length_every_second (n c : ℕ) {f : ℕ → List ℚ}
    (hf : ∀ k < n, k % 2 = 0 → (f k).length = c) :
    ((List.range n).flatMap fun k ↦ if k % 2 = 0 then f k else []).length = (n + 1) / 2 * c := by
  induction n with
  | zero => simp
  | succ n ih =>
      have hn := ih fun k hk ↦ hf k (Nat.lt_succ_of_lt hk)
      rw [List.range_succ, List.flatMap_append, List.length_append, hn, List.flatMap_singleton]
      split
      · rename_i hpub
        have hhalf : (n + 1 + 1) / 2 = (n + 1) / 2 + 1 := by omega
        rw [hf n (Nat.lt_succ_self n) hpub, hhalf, Nat.succ_mul]
      · rename_i hsub
        have hhalf : (n + 1 + 1) / 2 = (n + 1) / 2 := by omega
        simp [hhalf]

theorem Tracks.length_published (hb : Tracks cfg p slots trace b) (hs : WellFormed cfg b.state)
    (hp : b.state.parent = .reporting) (heven : cfg.maxProcess % 2 = 0) :
    (publishedSamples cfg trace).length = cfg.maxProcess / 2 * (99999 * cfg.uris) := by
  have hlength : ∀ k < cfg.maxProcess, k % 2 = 0 →
      ((sends k trace).drop cfg.uris).length = 99999 * cfg.uris := by
    intro k hk hkpub
    have hsent := (hb.child k).sent
    rw [(hs.pub_done (by simp [hp, Parent.phase]) hk hkpub).1] at hsent
    rw [List.length_drop, show (sends k trace).length = cfg.messages from hsent, Config.messages]
    omega
  have hhalf : (cfg.maxProcess + 1) / 2 = cfg.maxProcess / 2 := by omega
  simp only [publishedSamples, roleOf_eq_pub_iff]
  rw [length_every_second _ _ hlength, hhalf]

/-- The two vectors of the report, in the order of the directory. -/
theorem Tracks.readSamples_perm (hb : Tracks cfg p slots trace b) (hs : WellFormed cfg b.state)
    (hp : b.state.parent = .reporting) {d : Directory} (hd : d.Shows (b.files p.path))
    (listing : Listing d) :
    (readSamples d listing.order).1.Perm (publishedSamples cfg trace) ∧
      (readSamples d listing.order).2.Perm (receivedSamples cfg b.state trace) := by
  rw [readSamples_listing, ← hb.published hs hp, ← hb.received hs hp]
  exact ⟨hb.lines_perm hs hd listing (text "p"), hb.lines_perm hs hd listing (text "s")⟩

/-- **The report shows every sample once.**  When `run_tests` comes to its
report, the two vectors it reads from its directory are the durations of all
messages of all publishers after their first round, and of all messages that a
subscriber has accepted before it wrote the vector of the listener.  The files of
earlier runs are as they were. -/
theorem report_shows_all_samples (heven : cfg.maxProcess % 2 = 0)
    (hrun : run (testStep cfg p) (.initial p slots) trace = some b)
    (hp : b.state.parent = .reporting) (d : Directory) (hd : d.Shows (b.files p.path))
    (listing : Listing d) (sqrt : ℚ → ℚ) :
    (readSamples d listing.order).1.Perm (publishedSamples cfg trace) ∧
      (readSamples d listing.order).2.Perm (receivedSamples cfg b.state trace) ∧
      (publishedSamples cfg trace).length = cfg.maxProcess / 2 * (99999 * cfg.uris) ∧
      computeStats sqrt d listing.order =
        (getStats sqrt (publishedSamples cfg trace),
          getStats sqrt (receivedSamples cfg b.state trace)) ∧
      ∀ dir ≠ p.path, b.files dir = p.old dir := by
  have hb := tracks_of_run heven hrun
  have hs := hb.wellFormed heven
  obtain ⟨hpub, hsub⟩ := hb.readSamples_perm hs hp hd listing
  refine ⟨hpub, hsub, hb.length_published hs hp heven, ?_, hb.others⟩
  rw [computeStats, getStats_perm sqrt hpub, getStats_perm sqrt hsub]

/-- Every distribution returns its lower bound. -/
def lowestDraws : ℕ → Draw := fun _ ↦ ⟨0, 0, 0, 0⟩

/-- Stamped at 0 in round 5 and received at second 1. -/
def inTime : WireMessage := ⟨⟨1, 0⟩, .published ⟨0, 0⟩ 5 lowestDraws⟩

def tooLate : WireMessage := ⟨⟨2, 0⟩, .published ⟨0, 0⟩ 6 lowestDraws⟩

theorem inTime_duration : (ledger [inTime.toMessage]).map Entry.duration = [1] := by
  have hzero : strtol (decimal (0 : Int64).toInt.natAbs) = 0 := strtol_decimal_natAbs (by decide)
  have hduration : getDuration ⟨1, 0⟩ ⟨0, 0⟩ = 1 := by
    simp [getDuration, Timespec.seconds]
  rw [ledger, List.filterMap_cons_some (entry_toMessage inTime)]
  show [getDuration ⟨1, 0⟩ ⟨strtol (decimal _), strtol (decimal _)⟩] = [1]
  rw [hzero, hduration]

/-- The shipped configuration behind eight earlier runs: 99999 rounds of 10
messages, one message received in time and one too late. -/
theorem report_shows_all_samples_shipped :
    ∃ (p : Place) (trace : List Occurrence) (b : TestRun) (d : Directory),
      (p.next.removed p.dirPath).length = 5 ∧
      run (testStep shipped p) (.initial p freshSlots) trace = some b ∧
      b.state.parent = .reporting ∧ d.Shows (b.files p.path) ∧
      receives 1 0 trace = [inTime.toMessage, tooLate.toMessage] ∧
      (publishedSamples shipped trace).length = 999990 ∧
      (readSamples d d.entries).1.Perm (publishedSamples shipped trace) ∧
      (readSamples d d.entries).2 = [1] := by
  obtain ⟨p, -, hfive, -⟩ := exists_place
  have hentry : ∀ m ∈ [inTime.toMessage, tooLate.toMessage], m.entry.isSome := by
    simp [entry_toMessage]
  obtain ⟨d, hd⟩ := exists_run_of_entry hentry .fresh
  obtain ⟨trace, b, hrun, hp, hexited, hreceives, hcounted, -⟩ := exists_run_receiving p hd
  have hb := tracks_of_run rfl hrun
  have hshows := hb.shows rfl (text "d")
  obtain ⟨hpub, hsub, hlength, -⟩ := report_shows_all_samples rfl hrun hp _ hshows
    ⟨b.entries shipped p, List.Perm.refl _⟩ fun q ↦ q
  have hone : receivedSamples shipped b.state trace = [1] := by
    have hdurations (k i : ℕ) : (ledger (counted k i trace)).map Entry.duration =
        if k = 1 ∧ i = 0 then [1] else [] := by
      rw [hcounted]
      split
      · exact inTime_duration
      · rfl
    simp [receivedSamples, hdurations, hexited, shipped, List.range_succ]
  rw [hone] at hsub
  exact ⟨p, trace, b, b.directory shipped p (text "d"), hfive, hrun, hp, hshows, hreceives 1 0,
    hlength, hpub, List.perm_singleton.mp hsub⟩

end UpZenohExample
