import UpZenohExample.Ledger

/-!
# Laws of the listener over runs

The counters of one listener after any sequence of messages: how many were
accepted, how many bytes they had, and which counter came first.  The number of
accepted messages is exact as long as it fits an `int`; the byte total counts
every accepted message twice; the first counter is kept unless it is zero.
-/

namespace UpZenohExample

open ByteText LabelledRun

/-! ## Counts and rejections -/

/-- In every state of a run the two counts agree with the returned codes, and a
rejected message changes nothing. -/
theorem listener_bookkeeping (ms : List Message) :
    (∀ d, Reaches deliver .fresh ms d →
      d.listener.durationVec.length = d.codes.count .ok ∧
        (d.codes.count .ok < 2 ^ 31 →
          d.listener.countArraived.toInt = d.codes.count .ok)) ∧
    ∀ d m l', Takes deliver .fresh ms d m →
      d.listener.onReceive m.tm m.payload = .ok (.invalidArgument, l') → l' = d.listener := by
  constructor
  · intro d hd
    obtain ⟨pre, hrun, -⟩ := hd.exists_prefix
    obtain ⟨hrefines, hcodes⟩ := run_refines hrun
    have hcount : d.codes.count .ok = (ledger pre).length := by
      rw [hcodes, count_ok_map_code]
    refine ⟨by rw [hcount, hrefines.durationVec, List.length_map], ?_⟩
    intro hlt
    rw [hrefines.countArraived, hcount, Int32.toInt_ofNat_of_lt (hcount ▸ hlt)]
  · intro d m l' _ hcall
    rcases onReceive_eq_ok hcall with ⟨-, hl', -⟩ | ⟨_, _, _, _, -, -, hcode, -⟩
    · exact hl'
    · simp at hcode

theorem exists_run_of_entry {ms : List Message} (h : ∀ m ∈ ms, m.entry.isSome) (d : Delivery) :
    ∃ d', run deliver d ms = some d' := by
  induction ms generalizing d with
  | nil => exact ⟨d, rfl⟩
  | cons m ms ih =>
      obtain ⟨e, he⟩ := Option.isSome_iff_exists.mp (h m List.mem_cons_self)
      obtain ⟨data, sec, nsec, counter, hread, hdecode, -⟩ := entry_eq_some_iff.mp he
      let next : Delivery :=
        ⟨d.listener.record m.tm data.length sec nsec counter, d.codes ++ [.ok]⟩
      have hstep : deliver d m = some next := by
        simp [deliver, onReceive_eq _ _ hread, hdecode, next]
      obtain ⟨d', hd'⟩ := ih (fun k hk ↦ h k (List.mem_cons_of_mem m hk)) next
      exact ⟨d', (run_cons_eq_some deliver).mpr ⟨next, hstep, hd'⟩⟩

theorem ledger_length_of_entry {ms : List Message} (h : ∀ m ∈ ms, m.entry.isSome) :
    (ledger ms).length = ms.length := by
  induction ms with
  | nil => rfl
  | cons m ms ih =>
      obtain ⟨e, he⟩ := Option.isSome_iff_exists.mp (h m List.mem_cons_self)
      have hms := ih fun k hk ↦ h k (List.mem_cons_of_mem m hk)
      rw [ledger] at hms
      simp [ledger, he, hms]

def sampleMessage : Message := ⟨⟨0, 0⟩, .ofText (text "1.2|3")⟩

/-- An `int` cannot count `2 ^ 31` accepted messages. -/
theorem listener_count_overflow :
    ∃ d, run deliver .fresh (List.replicate (2 ^ 31) sampleMessage) = some d ∧
      d.codes.count .ok = 2 ^ 31 ∧ d.listener.durationVec.length = 2 ^ 31 ∧
      d.listener.countArraived.toInt = -2 ^ 31 := by
  have hsample : decode (text "1.2|3") = .accepted (text "1") (text "2") (text "3") := by
    refine (decode_eq_accepted_iff _ _ _ _).mpr ⟨0, text "1.2", 0, [], by decide, by decide,
      by decide, by decide, by decide, Or.inl rfl, 0, 0, 0, by decide, by decide, by decide,
      by decide, by decide⟩
  have hentry : ∀ m ∈ List.replicate (2 ^ 31) sampleMessage, m.entry.isSome := by
    intro m hm
    rw [List.eq_of_mem_replicate hm]
    exact Option.isSome_iff_exists.mpr ⟨_, entry_eq_some_iff.mpr
      ⟨_, _, _, _, toText_ofText (by decide), hsample, rfl⟩⟩
  obtain ⟨d, hd⟩ := exists_run_of_entry hentry .fresh
  obtain ⟨hrefines, hcodes⟩ := run_refines hd
  have hlen := ledger_length_of_entry hentry
  rw [List.length_replicate] at hlen
  refine ⟨d, hd, ?_, ?_, ?_⟩
  · rw [hcodes, count_ok_map_code, hlen]
  · rw [hrefines.durationVec, List.length_map, hlen]
  · rw [hrefines.countArraived, hlen]
    decide

/-! ## The byte total -/

/-- The text lengths of the messages whose calls returned `OK`. -/
def acceptedBytes (ms : List Message) (codes : List UCode) : ℕ :=
  ((ms.zip codes).map fun call ↦ if call.2 = .ok then call.1.textLength else 0).sum

theorem textLength_of_entry {m : Message} {e : Entry} (h : m.entry = some e) :
    m.textLength = e.bytes := by
  obtain ⟨data, sec, nsec, counter, hread, -, rfl⟩ := entry_eq_some_iff.mp h
  simp [Message.textLength, hread]

theorem acceptedBytes_map_code (ms : List Message) :
    acceptedBytes ms (ms.map Message.code) = ((ledger ms).map Entry.bytes).sum := by
  induction ms with
  | nil => rfl
  | cons m ms ih =>
      have hrest : ((ms.zip (ms.map Message.code)).map fun call ↦
          if call.2 = .ok then call.1.textLength else 0).sum =
            ((ms.filterMap Message.entry).map Entry.bytes).sum := ih
      cases hentry : m.entry with
      | none => simp [acceptedBytes, ledger, Message.code, hentry, hrest]
      | some e =>
          simp [acceptedBytes, ledger, Message.code, hentry, hrest, textLength_of_entry hentry]

def Message.Acceptable (m : Message) : Prop :=
  ∃ data sec nsec counter, m.payload.toText = .ok data ∧ AcceptedShape data sec nsec counter

theorem entry_eq_none_iff {m : Message} : m.entry = none ↔ ¬ m.Acceptable := by
  constructor
  · rintro hnone ⟨data, sec, nsec, counter, hread, hshape⟩
    have hsome := entry_eq_some_iff.mpr
      ⟨data, sec, nsec, counter, hread, (decode_eq_accepted_iff _ _ _ _).mpr hshape, rfl⟩
    simp [hnone] at hsome
  · intro hnot
    by_contra hsome
    obtain ⟨e, he⟩ := Option.ne_none_iff_exists'.mp hsome
    obtain ⟨data, sec, nsec, counter, hread, hdecode, -⟩ := entry_eq_some_iff.mp he
    exact hnot ⟨data, sec, nsec, counter, hread, (decode_eq_accepted_iff _ _ _ _).mp hdecode⟩

theorem ledger_eq_nil_iff {ms : List Message} :
    ledger ms = [] ↔ ∀ m ∈ ms, ¬ m.Acceptable := by
  simp only [ledger, List.filterMap_eq_nil_iff, entry_eq_none_iff]

theorem bytes_pos_of_mem_ledger {ms : List Message} {e : Entry} (h : e ∈ ledger ms) :
    0 < e.bytes := by
  obtain ⟨m, -, hm⟩ := List.mem_filterMap.mp h
  obtain ⟨data, sec, nsec, counter, -, hdecode, rfl⟩ := entry_eq_some_iff.mp hm
  obtain ⟨_, stamp, _, _, rfl, hstamp, -⟩ := (decode_eq_accepted_iff _ _ _ _).mp hdecode
  have hpos := List.length_pos_iff.mpr hstamp
  simp only [List.length_append]
  omega

/-- The total is twice the accepted bytes, so it is exact only when nothing
was accepted. -/
theorem listener_total_exact_iff {ms : List Message} {d : Delivery}
    (h : run deliver .fresh ms = some d) :
    d.listener.messegesSize.toInt = acceptedBytes ms d.codes ↔
      ∀ m ∈ ms, ¬ m.Acceptable := by
  obtain ⟨hrefines, hcodes⟩ := run_refines h
  have hbytes : acceptedBytes ms d.codes = ((ledger ms).map Entry.bytes).sum := by
    rw [hcodes, acceptedBytes_map_code]
  rw [hrefines.messegesSize, hbytes, ← ledger_eq_nil_iff, Int64.toInt_ofNat', Int.bmod_def]
  constructor
  · intro heq
    have hzero : ((ledger ms).map Entry.bytes).sum = 0 := by
      have hsize : Int64.size = 2 ^ 64 := rfl
      rw [hsize] at heq
      split at heq <;> omega
    cases hledger : ledger ms with
    | nil => rfl
    | cons e entries =>
        have hmem : e ∈ ledger ms := by simp [hledger]
        have hpos := bytes_pos_of_mem_ledger hmem
        simp only [hledger, List.map_cons, List.sum_cons] at hzero
        omega
  · intro hnil
    simp [hnil]

theorem listener_total_exact_iff_sample :
    ∃ d, run deliver .fresh [sampleMessage] = some d ∧
      (d.listener.messegesSize.toInt = acceptedBytes [sampleMessage] d.codes ↔
        ∀ m ∈ [sampleMessage], ¬ m.Acceptable) :=
  ⟨_, rfl, listener_total_exact_iff rfl⟩

theorem listener_total_doubled :
    ∃ d, run deliver .fresh [sampleMessage] = some d ∧ d.codes = [.ok] ∧
      acceptedBytes [sampleMessage] d.codes = 5 ∧ d.listener.messegesSize.toInt = 10 :=
  ⟨_, rfl, by decide, by decide, by decide⟩

/-! ## The first counter -/

structure WireMessage where
  tm : Timespec
  wire : WireText

def WireMessage.toMessage (m : WireMessage) : Message := ⟨m.tm, .ofText m.wire.toText⟩

def WireMessage.readCounter (m : WireMessage) : Int64 := strtol m.wire.counter

theorem entry_toMessage (m : WireMessage) :
    m.toMessage.entry = some ⟨getDuration m.tm ⟨strtol m.wire.sec, strtol m.wire.nsec⟩,
      m.wire.toText.length, m.readCounter⟩ :=
  entry_eq_some_iff.mpr ⟨m.wire.toText, m.wire.sec, m.wire.nsec, m.wire.counter,
    toText_ofText m.wire.zero_notMem_toText, m.wire.decode_toText, rfl⟩

theorem toInt_readCounter (m : WireMessage) :
    m.readCounter.toInt = min (m.wire.counterValue : ℤ) (2 ^ 63 - 1) :=
  toInt_strtol_of_isDigits m.wire.counter_isDigits

theorem readCounter_eq_zero_iff (m : WireMessage) :
    m.readCounter = 0 ↔ m.wire.counterValue = 0 := by
  have hread := toInt_readCounter m
  constructor
  · intro hzero
    rw [hzero] at hread
    have h0 : (0 : Int64).toInt = 0 := rfl
    omega
  · intro hzero
    apply Int64.toInt_inj.mp
    rw [hread, hzero]
    rfl

/-- The first nonzero counter of a sequence, after `c`. -/
def firstNonzero (c : Int64) (rs : List Int64) : Int64 :=
  rs.foldl (fun c r ↦ if c = 0 then r else c) c

theorem firstNonzero_of_ne_zero {c : Int64} (h : c ≠ 0) (rs : List Int64) :
    firstNonzero c rs = c := by
  induction rs with
  | nil => rfl
  | cons r rs ih => simpa [firstNonzero, h] using ih

theorem firstNonzero_eq_zero_iff (rs : List Int64) :
    firstNonzero 0 rs = 0 ↔ ∀ r ∈ rs, r = 0 := by
  induction rs with
  | nil => simp [firstNonzero]
  | cons r rs ih =>
      have hcons : firstNonzero 0 (r :: rs) = firstNonzero r rs := by simp [firstNonzero]
      rw [hcons]
      by_cases hr : r = 0
      · rw [hr, ih]
        simp
      · rw [firstNonzero_of_ne_zero hr]
        simp [hr]

theorem foldl_keepFirst_ledger (c : Int64) (ms : List WireMessage) :
    (ledger (ms.map WireMessage.toMessage)).foldl keepFirst c =
      firstNonzero c (ms.map WireMessage.readCounter) := by
  induction ms generalizing c with
  | nil => rfl
  | cons m ms ih =>
      have hrest := ih (if c = 0 then m.readCounter else c)
      rw [ledger] at hrest
      simpa [ledger, entry_toMessage, keepFirst, firstNonzero] using hrest

/-- A run of well-formed messages meets no fault, and leaves the first nonzero
counter it has read. -/
theorem exists_run_counter (first : WireMessage) (ms : List WireMessage) :
    ∃ d, run deliver .fresh ((first :: ms).map WireMessage.toMessage) = some d ∧
      d.listener.counter = firstNonzero first.readCounter (ms.map WireMessage.readCounter) := by
  have hentry : ∀ m ∈ (first :: ms).map WireMessage.toMessage, m.entry.isSome := by
    intro m hm
    obtain ⟨w, -, rfl⟩ := List.mem_map.mp hm
    simp [entry_toMessage]
  obtain ⟨d, hd⟩ := exists_run_of_entry hentry .fresh
  refine ⟨d, hd, ?_⟩
  rw [(run_refines hd).1.counter, foldl_keepFirst_ledger]
  simp [firstNonzero]

/-- The counter of the first message is kept through all prefixes of a run if
and only if it is a nonzero `long`, or no message has a nonzero counter. -/
theorem first_counter_kept_iff (first : WireMessage) (ms : List WireMessage) :
    (∀ pre post, ms = pre ++ post → ∃ d,
      run deliver .fresh ((first :: pre).map WireMessage.toMessage) = some d ∧
        d.listener.counter.toInt = first.wire.counterValue) ↔
      (0 < first.wire.counterValue ∧ first.wire.counterValue < 2 ^ 63) ∨
        ∀ m ∈ first :: ms, m.wire.counterValue = 0 := by
  have hread := toInt_readCounter first
  have hzero := readCounter_eq_zero_iff first
  constructor
  · intro hkept
    -- The whole sequence suffices: a nonzero counter is never given up again.
    obtain ⟨d, hd, hvalue⟩ := hkept ms [] (by simp)
    obtain ⟨d', hd', hcounter⟩ := exists_run_counter first ms
    have hdd : d = d' := Option.some.inj (hd.symm.trans hd')
    rw [hdd, hcounter] at hvalue
    by_cases hfirst : first.readCounter = 0
    · right
      have hlast : firstNonzero 0 (ms.map WireMessage.readCounter) = 0 := by
        apply Int64.toInt_inj.mp
        rw [← hfirst, hvalue, hzero.mp hfirst, hfirst]
        rfl
      have hall := (firstNonzero_eq_zero_iff _).mp hlast
      intro m hm
      rcases List.mem_cons.mp hm with rfl | hm
      · exact hzero.mp hfirst
      · exact (readCounter_eq_zero_iff m).mp (hall _ (List.mem_map_of_mem hm))
    · left
      have hpos : first.wire.counterValue ≠ 0 := fun h ↦ hfirst (hzero.mpr h)
      rw [firstNonzero_of_ne_zero hfirst] at hvalue
      omega
  · rintro hcond pre post rfl
    obtain ⟨d, hd, hcounter⟩ := exists_run_counter first pre
    refine ⟨d, hd, ?_⟩
    rw [hcounter]
    rcases hcond with ⟨hpos, hlt⟩ | hzeros
    · have hfirst : first.readCounter ≠ 0 := fun h ↦ hpos.ne' (hzero.mp h)
      rw [firstNonzero_of_ne_zero hfirst]
      omega
    · have hfirst := hzeros first List.mem_cons_self
      have hall : ∀ r ∈ pre.map WireMessage.readCounter, r = 0 := by
        intro r hr
        obtain ⟨m, hm, rfl⟩ := List.mem_map.mp hr
        exact (readCounter_eq_zero_iff m).mpr (hzeros m (by simp [hm]))
      rw [hzero.mpr hfirst, (firstNonzero_eq_zero_iff _).mpr hall, hfirst]
      rfl

/-- The first two rounds of `pub_test`: the counter is one, not zero. -/
theorem first_counter_overwritten :
    ∃ d, run deliver .fresh
        [⟨⟨2, 0⟩, .ofText (text "1.0|0|a")⟩, ⟨⟨2, 1⟩, .ofText (text "1.5|1|b")⟩] = some d ∧
      d.codes = [.ok, .ok] ∧ d.listener.counter = 1 :=
  ⟨_, rfl, by decide, by decide⟩

end UpZenohExample
