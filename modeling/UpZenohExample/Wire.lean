import UpZenohExample.PubTest

/-!
# The wire text between `pub_test` and `sub_test`

`WireText` is the format the publisher writes, with its invariants as fields.
The listener recovers the fields of every such text that a NUL ends, but the
payload of the publisher ends before the NUL.
-/

namespace UpZenohExample

open ByteText

/-! ## Well-formed texts -/

theorem dot_notMem {t : Text} (h : IsDigits t) : byte '.' ∉ t := h.notMem rfl

theorem bar_notMem {t : Text} (h : IsDigits t) : byte '|' ∉ t := h.notMem rfl

theorem zero_notMem {t : Text} (h : IsDigits t) : 0 ∉ t := h.notMem rfl

/-- `sec '.' nsec '|' counter`, with or without `'|' rest` behind it. -/
structure WireText where
  sec : Text
  nsec : Text
  counter : Text
  rest : Option Text
  sec_isDigits : IsDigits sec
  nsec_isDigits : IsDigits nsec
  counter_isDigits : IsDigits counter
  zero_notMem_rest : ∀ r ∈ rest, 0 ∉ r

namespace WireText

def tail (w : WireText) : Text :=
  match w.rest with
  | none => []
  | some r => byte '|' :: r

def stamp (w : WireText) : Text := w.sec ++ byte '.' :: w.nsec

def toText (w : WireText) : Text := w.stamp ++ byte '|' :: (w.counter ++ w.tail)

def counterValue (w : WireText) : ℕ := decimalValue w.counter

theorem tail_ends (w : WireText) : ListCut.Ends (byte '|') w.tail := by
  unfold tail
  cases w.rest with
  | none => exact Or.inl rfl
  | some r => exact Or.inr ⟨r, rfl⟩

theorem bar_notMem_stamp (w : WireText) : byte '|' ∉ w.stamp := by
  have hsec := bar_notMem w.sec_isDigits
  have hnsec := bar_notMem w.nsec_isDigits
  have hdot : byte '|' ≠ byte '.' := by decide
  simp [stamp, hsec, hnsec, hdot]

theorem fields_stamp (w : WireText) : ListCut.fields (byte '.') w.stamp = [w.sec, w.nsec] := by
  rw [stamp, ListCut.fields_append_cons _ w.sec_isDigits.1 (dot_notMem w.sec_isDigits),
    ListCut.fields_of_notMem _ w.nsec_isDigits.1 (dot_notMem w.nsec_isDigits)]

theorem fields_toText (w : WireText) :
    ListCut.fields (byte '|') w.toText =
      w.stamp :: w.counter :: ListCut.fields (byte '|') w.tail := by
  have hne : w.stamp ≠ [] := by simp [stamp]
  rw [toText, ListCut.fields_append_cons _ hne w.bar_notMem_stamp,
    ListCut.fields_append _ w.counter_isDigits.1 (bar_notMem w.counter_isDigits) w.tail_ends]

theorem decode_toText (w : WireText) :
    decode w.toText = .accepted w.sec w.nsec w.counter := by
  simp [decode, w.fields_toText, w.fields_stamp]

theorem zero_notMem_toText (w : WireText) : 0 ∉ w.toText := by
  have hsec := zero_notMem w.sec_isDigits
  have hnsec := zero_notMem w.nsec_isDigits
  have hcounter := zero_notMem w.counter_isDigits
  have hdot : 0 ≠ byte '.' := by decide
  have hbar : 0 ≠ byte '|' := by decide
  have htail : 0 ∉ w.tail := by
    unfold tail
    cases hrest : w.rest with
    | none => simp
    | some r => simp [hbar, w.zero_notMem_rest r hrest]
  simp [toText, stamp, hsec, hnsec, hcounter, hdot, hbar, htail]

end WireText

def UPayload.ofText (data : Text) : UPayload := ⟨data ++ [0]⟩

@[simp] theorem toText_ofText {data : Text} (h : 0 ∉ data) :
    (UPayload.ofText data).toText = .ok data := by
  simp [UPayload.toText, UPayload.ofText, cString_append_zero h]

theorem onReceive_wireText (l : CustomListener) (tm : Timespec) (w : WireText) :
    l.onReceive tm (.ofText w.toText) =
      .ok (.ok, l.record tm w.toText.length w.sec w.nsec w.counter) := by
  rw [onReceive_eq l tm (toText_ofText w.zero_notMem_toText), w.decode_toText]

/-! ## Published texts -/

def WireText.published (tm : Timespec) (i : Int32) (draws : ℕ → Draw) : WireText where
  sec := decimal tm.tvSec.toInt.natAbs
  nsec := decimal tm.tvNsec.toInt.natAbs
  counter := decimal i.toInt.natAbs
  rest := some (padOf tm i draws)
  sec_isDigits := decimal_isDigits _
  nsec_isDigits := decimal_isDigits _
  counter_isDigits := decimal_isDigits _
  zero_notMem_rest := by
    rintro r ⟨⟩
    exact notMem_generateRandomString rfl

theorem buildText_eq_published {tm : Timespec} {i : Int32} (hsec : 0 ≤ tm.tvSec.toInt)
    (hnsec : 0 ≤ tm.tvNsec.toInt) (hi : 0 ≤ i.toInt) (draws : ℕ → Draw) :
    buildText msgSize tm i draws = (WireText.published tm i draws).toText := by
  rw [buildText_eq, header, decimalInt_of_nonneg hsec, decimalInt_of_nonneg hnsec,
    decimalInt_of_nonneg hi, text_dot, text_bar]
  simp [WireText.toText, WireText.stamp, WireText.tail, WireText.published]

theorem strtol_decimal_natAbs {z : Int64} (h : 0 ≤ z.toInt) :
    strtol (decimal z.toInt.natAbs) = z := by
  rw [← decimalInt_of_nonneg h, strtol_decimalInt h]

/-- What the publisher writes is what the listener reads: both cuts, the three
numbers, the status and the recorded duration. -/
theorem listener_decodes_published (sent now : Timespec) (i : Int32) (draws : ℕ → Draw)
    (l : CustomListener) (hsec : 0 ≤ sent.tvSec.toInt)
    (hnsec : 0 ≤ sent.tvNsec.toInt ∧ sent.tvNsec.toInt < 10 ^ 9)
    (hi : 0 ≤ i.toInt ∧ i.toInt < 100000) :
    ∃ stamp sec nsec counter rest l',
      split (buildText msgSize sent i draws) (text "|") = .ok (stamp :: counter :: rest) ∧
      split stamp (text ".") = .ok [sec, nsec] ∧
      strtol sec = sent.tvSec ∧ strtol nsec = sent.tvNsec ∧ strtol counter = i.toInt64 ∧
      l.onReceive now (.ofText (buildText msgSize sent i draws)) = .ok (.ok, l') ∧
      l'.durationVec = l.durationVec ++ [now.seconds - sent.seconds] ∧
      l'.counter = if l.counter = 0 then i.toInt64 else l.counter := by
  let w := WireText.published sent i draws
  have hdata : buildText msgSize sent i draws = w.toText :=
    buildText_eq_published hsec hnsec.1 hi.1 draws
  have hs : strtol w.sec = sent.tvSec := strtol_decimal_natAbs hsec
  have hn : strtol w.nsec = sent.tvNsec := strtol_decimal_natAbs hnsec.1
  have hc : strtol w.counter = i.toInt64 := by
    have hwide : (0 : ℤ) ≤ i.toInt64.toInt := by rw [Int32.toInt_toInt64]; exact hi.1
    have hround := strtol_decimal_natAbs hwide
    rwa [Int32.toInt_toInt64] at hround
  refine ⟨w.stamp, w.sec, w.nsec, w.counter, ListCut.fields (byte '|') w.tail,
    l.record now w.toText.length w.sec w.nsec w.counter, ?_, ?_, hs, hn, hc, ?_, ?_, ?_⟩
  · rw [hdata, text_bar, split_eq_fields, w.fields_toText]
  · rw [text_dot, split_eq_fields, w.fields_stamp]
  · rw [hdata, onReceive_wireText]
  · simp [CustomListener.record, hs, hn, getDuration]
  · simp [CustomListener.record, hc]

theorem listener_decodes_published_half :
    ∃ stamp sec nsec counter rest l',
      split (buildText msgSize ⟨12, 500000000⟩ 7 fun _ ↦ ⟨0, 0, 0, 0⟩) (text "|") =
        .ok (stamp :: counter :: rest) ∧
      split stamp (text ".") = .ok [sec, nsec] ∧
      strtol sec = 12 ∧ strtol nsec = 500000000 ∧ strtol counter = Int32.toInt64 7 ∧
      ({} : CustomListener).onReceive ⟨13, 0⟩
          (.ofText (buildText msgSize ⟨12, 500000000⟩ 7 fun _ ↦ ⟨0, 0, 0, 0⟩)) =
        .ok (.ok, l') ∧
      l'.durationVec = [] ++ [Timespec.seconds ⟨13, 0⟩ - Timespec.seconds ⟨12, 500000000⟩] ∧
      l'.counter = if (0 : Int64) = 0 then Int32.toInt64 7 else 0 :=
  listener_decodes_published ⟨12, 500000000⟩ ⟨13, 0⟩ 7 (fun _ ↦ ⟨0, 0, 0, 0⟩) {} (by decide)
    (by decide) (by decide)

/-! ## The end of the text -/

/-- The payload has no byte for the end of the text, so reading the text
always leaves the payload. -/
theorem published_payload_overRead (tm : Timespec) (i : Int32) (draws : ℕ → Draw) :
    ∃ payload, buildPayload msgSize (buildText msgSize tm i draws) = .ok payload ∧
      payload.data = (buildText msgSize tm i draws).take 200 ∧
      payload.toText = .error .overRead ∧
      ∀ l now, CustomListener.onReceive l now payload = .error .overRead := by
  have hlen := length_buildText tm i draws
  have hread : UPayload.toText ⟨buildText msgSize tm i draws⟩ = .error .overRead := by
    simp [UPayload.toText, cString_eq_none_iff.mpr (zero_notMem_buildText tm i draws)]
  refine ⟨_, buildPayload_buildText tm i draws, ?_, hread, ?_⟩
  · rw [← hlen, List.take_length]
  · intro l now
    have hempty : UPayload.isEmpty ⟨buildText msgSize tm i draws⟩ = false := by
      cases hdata : buildText msgSize tm i draws with
      | nil => simp [hdata] at hlen
      | cons b mem => rfl
    simp [CustomListener.onReceive, hempty, hread, bind, Except.bind]

theorem published_payload_overRead_first :
    (buildPayload msgSize (buildText msgSize ⟨0, 0⟩ 0 fun _ ↦ ⟨0, 0, 0, 0⟩)).bind
        UPayload.toText = .error .overRead := by
  rw [buildPayload_buildText]
  simp [Except.bind, UPayload.toText,
    cString_eq_none_iff.mpr (zero_notMem_buildText ⟨0, 0⟩ 0 fun _ ↦ ⟨0, 0, 0, 0⟩)]

end UpZenohExample
