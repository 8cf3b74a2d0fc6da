import UpZenohExample.Moments
import UpZenohExample.RunReport
import UpZenohExample.Wire

/-!
# Latencies from end to end

A message carries the clock reading of its publisher.  What the report of
`run_tests` shows for the subscribers is the time from that reading to the call
of the listener, whatever stands behind the payload in memory, and no duration
of the report is negative or longer than the run.
-/

namespace UpZenohExample

open ByteText LabelledRun

/-! ## Stamped messages -/

/-- The payload is a text that `pub_test` built at `sent`.  The listener reads on
behind its end, up to the next NUL. -/
structure Message.Carries (m : Message) (sent : Timespec) : Prop where
  sec_nonneg : 0 ≤ sent.tvSec.toInt
  nsec_nonneg : 0 ≤ sent.tvNsec.toInt
  data_eq : ∃ (i : Int32) (draws : ℕ → Draw) (mem : Text), 0 ≤ i.toInt ∧ 0 ∈ mem ∧
    m.payload.data = buildText msgSize sent i draws ++ mem

/-- The text of a publisher with further bytes behind its padding. -/
def WireText.extended (tm : Timespec) (i : Int32) (draws : ℕ → Draw) {more : Text}
    (h : 0 ∉ more) : WireText :=
  { WireText.published tm i draws with
    rest := some (padOf tm i draws ++ more)
    zero_notMem_rest := by
      intro r hr
      obtain rfl := Option.mem_some_iff.mp hr
      rw [List.mem_append, not_or]
      exact ⟨notMem_generateRandomString rfl, h⟩ }

theorem toText_extended (tm : Timespec) (i : Int32) (draws : ℕ → Draw) {more : Text}
    (h : 0 ∉ more) :
    (WireText.extended tm i draws h).toText = (WireText.published tm i draws).toText ++ more := by
  simp [WireText.toText, WireText.stamp, WireText.tail, WireText.extended, WireText.published]

variable {m : Message} {sent : Timespec}

theorem Message.Carries.text (h : m.Carries sent) :
    ∃ data counter, m.payload.toText = .ok data ∧
      decode data = .accepted (decimal sent.tvSec.toInt.natAbs)
        (decimal sent.tvNsec.toInt.natAbs) counter := by
  obtain ⟨i, draws, mem, hi, hmem, hdata⟩ := h.data_eq
  obtain ⟨more, hmore⟩ : ∃ more, cString mem = some more :=
    Option.ne_none_iff_exists'.mp (mt cString_eq_none_iff.mp (not_not.mpr hmem))
  let w := WireText.extended sent i draws (zero_notMem_of_cString hmore)
  refine ⟨w.toText, w.counter, ?_, w.decode_toText⟩
  rw [UPayload.toText, hdata, cString_append (zero_notMem_buildText sent i draws), hmore,
    Option.map_some, toText_extended, buildText_eq_published h.sec_nonneg h.nsec_nonneg hi]

/-- The listener measures the time since the stamp. -/
theorem Message.Carries.entry (h : m.Carries sent) :
    ∃ e, m.entry = some e ∧ e.duration = getDuration m.tm sent := by
  obtain ⟨data, counter, htext, hdecode⟩ := h.text
  refine ⟨_, entry_eq_some_iff.mpr ⟨data, _, _, counter, htext, hdecode, rfl⟩, ?_⟩
  rw [strtol_decimal_natAbs h.sec_nonneg, strtol_decimal_natAbs h.nsec_nonneg]

theorem Message.Carries.code (h : m.Carries sent) : m.code = .ok := by
  obtain ⟨e, he, -⟩ := h.entry
  rw [Message.code, he]
  rfl

theorem durations_of_carries {stamp : Message → Timespec} {ms : List Message}
    (h : ∀ m ∈ ms, m.Carries (stamp m)) :
    (ledger ms).map Entry.duration = ms.map fun m ↦ getDuration m.tm (stamp m) := by
  induction ms with
  | nil => rfl
  | cons m ms ih =>
      obtain ⟨e, he, hduration⟩ := (h m List.mem_cons_self).entry
      have hrest := ih fun m' hm' ↦ h m' (List.mem_cons_of_mem m hm')
      rw [ledger] at hrest ⊢
      rw [List.filterMap_cons_some he, List.map_cons, List.map_cons, hduration, hrest]

theorem length_ledger_of_carries {stamp : Message → Timespec} {ms : List Message}
    (h : ∀ m ∈ ms, m.Carries (stamp m)) : (ledger ms).length = ms.length := by
  have hlength := congrArg List.length (durations_of_carries h)
  rwa [List.length_map, List.length_map] at hlength

theorem codes_of_carries {stamp : Message → Timespec} {ms : List Message}
    (h : ∀ m ∈ ms, m.Carries (stamp m)) : ms.map Message.code = List.replicate ms.length .ok := by
  rw [List.eq_replicate_iff]
  refine ⟨List.length_map _, ?_⟩
  intro code hcode
  obtain ⟨m, hm, rfl⟩ := List.mem_map.mp hcode
  exact (h m hm).code

/-! ## The samples -/

variable {cfg : Config} {p : Place} {slots : ℕ → Text} {b : TestRun} {trace : List Occurrence}
  {stamp : Message → Timespec} {lo hi d : ℚ}

/-- The time from the stamp to the listener, for every message that a subscriber
which has got Stop received before it wrote the vector of the listener. -/
def latencies (cfg : Config) (s : State) (stamp : Message → Timespec)
    (trace : List Occurrence) : List ℚ :=
  (List.range cfg.maxProcess).flatMap fun k ↦
    if s.child k = .exited then
      (List.range cfg.uris).flatMap fun i ↦
        (counted k i trace).map fun m ↦ getDuration m.tm (stamp m)
    else []

theorem receivedSamples_eq_latencies {s : State}
    (h : ∀ k i, ∀ m ∈ receives k i trace, m.Carries (stamp m)) :
    receivedSamples cfg s trace = latencies cfg s stamp trace := by
  have hdurations (k i : ℕ) : (ledger (counted k i trace)).map Entry.duration =
      (counted k i trace).map fun m ↦ getDuration m.tm (stamp m) :=
    durations_of_carries fun m hm ↦ h k i m ((counted_sublist k i trace).subset hm)
  simp only [receivedSamples, latencies, hdurations]

/-- The clock readings of an occurrence are in order, between `lo` and `hi`. -/
def Occurrence.Within (stamp : Message → Timespec) (lo hi : ℚ) : Occurrence → Prop
  | .send _ start stop =>
      lo ≤ start.seconds ∧ start.seconds ≤ stop.seconds ∧ stop.seconds ≤ hi
  | .receive _ _ m =>
      lo ≤ (stamp m).seconds ∧ (stamp m).seconds ≤ m.tm.seconds ∧ m.tm.seconds ≤ hi
  | .parent | .child _ | .fail _ | .save .. | .unregister .. | .unregisterFails .. => True

theorem getDuration_between {stop start : Timespec}
    (h : lo ≤ start.seconds ∧ start.seconds ≤ stop.seconds ∧ stop.seconds ≤ hi) :
    0 ≤ getDuration stop start ∧ getDuration stop start ≤ hi - lo := by
  obtain ⟨hlo, hmid, hhi⟩ := h
  rw [getDuration]
  constructor <;> linarith

theorem sends_between {k : ℕ} (h : ∀ e ∈ trace, e.Within stamp lo hi) (hd : d ∈ sends k trace) :
    0 ≤ d ∧ d ≤ hi - lo := by
  obtain ⟨e, he, hsent⟩ := List.mem_filterMap.mp hd
  have hwithin := h e he
  cases e with
  | send j start stop =>
      rw [Occurrence.sent, Option.ite_none_right_eq_some, Option.some.injEq] at hsent
      exact hsent.2 ▸ getDuration_between hwithin
  | parent | child | fail | receive | save | unregister | unregisterFails => cases hsent

theorem receives_between {k i : ℕ} (h : ∀ e ∈ trace, e.Within stamp lo hi)
    (hm : m ∈ receives k i trace) :
    0 ≤ getDuration m.tm (stamp m) ∧ getDuration m.tm (stamp m) ≤ hi - lo := by
  obtain ⟨e, he, hreceived⟩ := List.mem_filterMap.mp hm
  have hwithin := h e he
  cases e with
  | receive j l m' =>
      rw [Occurrence.received, Option.ite_none_right_eq_some, Option.some.injEq] at hreceived
      exact hreceived.2 ▸ getDuration_between hwithin
  | parent | child | fail | send | save | unregister | unregisterFails => cases hreceived

theorem publishedSamples_between (h : ∀ e ∈ trace, e.Within stamp lo hi)
    (hd : d ∈ publishedSamples cfg trace) : 0 ≤ d ∧ d ≤ hi - lo := by
  obtain ⟨k, -, hk⟩ := List.mem_flatMap.mp hd
  split at hk
  · exact sends_between h (List.mem_of_mem_drop hk)
  · cases hk

theorem latencies_between {s : State} (h : ∀ e ∈ trace, e.Within stamp lo hi)
    (hd : d ∈ latencies cfg s stamp trace) : 0 ≤ d ∧ d ≤ hi - lo := by
  obtain ⟨k, -, hk⟩ := List.mem_flatMap.mp hd
  split at hk
  · obtain ⟨i, -, hi⟩ := List.mem_flatMap.mp hk
    obtain ⟨m, hm, rfl⟩ := List.mem_map.mp hi
    exact receives_between h ((counted_sublist k i trace).subset hm)
  · cases hk

/-- **The report shows latencies.**  If the subscribers receive what publishers
have built, every call of a listener returns OK and is counted, and the report's
vector for the subscribers holds the time from the stamp of each message to its
reception, unless it came too late.  When the clock never goes back and the run
lies between `lo` and `hi`, no duration of either row is negative or exceeds the
run. -/
theorem report_shows_latencies (stamp : Message → Timespec) (heven : cfg.maxProcess % 2 = 0)
    (hrun : run (testStep cfg p) (.initial p slots) trace = some b)
    (hp : b.state.parent = .reporting)
    (hcarries : ∀ k i, ∀ m ∈ receives k i trace, m.Carries (stamp m)) (d : Directory)
    (hd : d.Shows (b.files p.path)) (listing : Listing d) (sqrt : ℚ → ℚ) :
    (readSamples d listing.order).2.Perm (latencies cfg b.state stamp trace) ∧
      (∀ k i, ((b.proc k).listeners i).codes =
          List.replicate (receives k i trace).length .ok ∧
        ((b.proc k).listeners i).listener.countArraived =
          Int32.ofNat (receives k i trace).length) ∧
      ∀ lo hi, (∀ e ∈ trace, e.Within stamp lo hi) → ∀ stat,
        (computeStats sqrt d listing.order).1 = .ok (some stat) ∨
        (computeStats sqrt d listing.order).2 = .ok (some stat) →
        stat.Between 0 (hi - lo) := by
  have hb := tracks_of_run heven hrun
  have hs := hb.wellFormed heven
  obtain ⟨hpub, hsub⟩ := hb.readSamples_perm hs hp hd listing
  rw [receivedSamples_eq_latencies hcarries] at hsub
  refine ⟨hsub, ?_, ?_⟩
  · intro k i
    obtain ⟨hrefines, hcodes⟩ := run_refines ((hb.child k).listeners i)
    rw [hcodes, codes_of_carries (hcarries k i), hrefines.countArraived,
      length_ledger_of_carries (hcarries k i)]
    exact ⟨rfl, rfl⟩
  · intro lo hi hwithin stat hstat
    rw [computeStats, getStats_perm sqrt hpub, getStats_perm sqrt hsub] at hstat
    rcases hstat with hstat | hstat
    · exact getStats_between hstat fun d hd ↦ publishedSamples_between hwithin hd
    · exact getStats_between hstat fun d hd ↦ latencies_between hwithin hd

/-- Stamped at 0, received at `tm`. -/
def messageAt (tm : Timespec) : Message :=
  ⟨tm, .ofText (buildText msgSize ⟨0, 0⟩ 0 lowestDraws)⟩

theorem messageAt_carries (tm : Timespec) : (messageAt tm).Carries ⟨0, 0⟩ where
  sec_nonneg := by decide
  nsec_nonneg := by decide
  data_eq := ⟨0, _, [0], by decide, by decide, rfl⟩

theorem Occurrence.Quiet.within {e : Occurrence} (h : e.Quiet) (stamp : Message → Timespec) :
    e.Within stamp 0 2 := by
  cases e with
  | send k start stop =>
      obtain ⟨rfl, rfl⟩ := h
      simp [Occurrence.Within, Timespec.seconds]
  | receive => exact h.elim
  | parent | child | fail | save | unregister | unregisterFails => trivial

theorem report_shows_latencies_one : ∃ (p : Place) (trace : List Occurrence) (b : TestRun)
    (d : Directory),
    run (testStep shipped p) (.initial p freshSlots) trace = some b ∧
      b.state.parent = .reporting ∧ d.Shows (b.files p.path) ∧
      receives 1 0 trace = [messageAt ⟨1, 0⟩, messageAt ⟨2, 0⟩] ∧
      (readSamples d d.entries).2 = [1] ∧ ((b.proc 1).listeners 0).codes = [.ok, .ok] ∧
      ∃ stat, (computeStats (fun q ↦ q) d d.entries).1 = .ok (some stat) ∧
        stat.Between 0 (2 - 0) := by
  obtain ⟨p, -⟩ := exists_place
  have hentry : ∀ m ∈ [messageAt ⟨1, 0⟩, messageAt ⟨2, 0⟩], m.entry.isSome := by
    intro m hm
    obtain ⟨e, he, -⟩ : ∃ e, m.entry = some e ∧ e.duration = getDuration m.tm ⟨0, 0⟩ := by
      apply Message.Carries.entry
      rcases List.mem_pair.mp hm with rfl | rfl <;> exact messageAt_carries _
    exact Option.isSome_iff_exists.mpr ⟨e, he⟩
  obtain ⟨d, hd⟩ := exists_run_of_entry hentry .fresh
  obtain ⟨trace, b, hrun, hp, hexited, hreceives, hcounted, hquiet⟩ := exists_run_receiving p hd
  have hwithin : ∀ e ∈ trace, e.Within (fun _ ↦ ⟨0, 0⟩) 0 2 := by
    intro e he
    rcases hquiet e he with hquiet | rfl | rfl
    · exact hquiet.within _
    · simp [Occurrence.Within, messageAt, Timespec.seconds]
    · simp [Occurrence.Within, messageAt, Timespec.seconds]
  have hcarries : ∀ k i, ∀ m ∈ receives k i trace, m.Carries ⟨0, 0⟩ := by
    intro k i m hm
    rw [hreceives] at hm
    split at hm
    · rcases List.mem_pair.mp hm with rfl | rfl <;> exact messageAt_carries _
    · cases hm
  have hb := tracks_of_run rfl hrun
  have hs := hb.wellFormed rfl
  have hshows := hb.shows rfl (text "d")
  obtain ⟨hsub, hcodes, hbetween⟩ := report_shows_latencies (fun _ ↦ ⟨0, 0⟩) rfl hrun hp hcarries
    _ hshows ⟨b.entries shipped p, List.Perm.refl _⟩ fun q ↦ q
  have hpub := (hb.readSamples_perm hs hp hshows ⟨b.entries shipped p, .refl _⟩).1.length_eq
  rw [hb.length_published hs hp rfl] at hpub
  obtain ⟨stat, hstat, -⟩ := getStats_eq_ok (fun q : ℚ ↦ q) (by rw [hpub]; decide)
    (by rw [hpub]; decide)
  have hlatencies : latencies shipped b.state (fun _ ↦ ⟨0, 0⟩) trace = [1] := by
    simp [latencies, hcounted, hexited, shipped, List.range_succ, messageAt, getDuration,
      Timespec.seconds]
  refine ⟨p, trace, b, _, hrun, hp, hshows, hreceives 1 0, ?_, ?_, stat, hstat,
    hbetween 0 2 hwithin stat (Or.inl hstat)⟩
  · rw [hlatencies] at hsub
    exact List.perm_singleton.mp hsub
  · rw [(hcodes 1 0).1, hreceives]
    rfl

end UpZenohExample
