import UpZenohExample.Wire

/-!
# The language the listener accepts

The handler drops empty pieces and reads numbers with `strtol`, so it accepts
more than the publisher writes.  `AcceptedShape` describes the accepted texts
without the cuts.  A text with a time stamp and no counter behind it is neither
accepted nor rejected: the handler indexes past the end of its fields.
-/

namespace UpZenohExample

open ByteText

/-- The first nonempty piece of a text between bars. -/
def FirstField (data stamp : Text) : Prop :=
  ∃ m rest, data = List.replicate m (byte '|') ++ stamp ++ rest ∧
    stamp ≠ [] ∧ byte '|' ∉ stamp ∧ ListCut.Ends (byte '|') rest

/-- Two nonempty texts separated by dots, with any number of dots around. -/
def StampShape (stamp sec nsec : Text) : Prop :=
  ∃ m n k, stamp = List.replicate m (byte '.') ++ sec ++ List.replicate (n + 1) (byte '.') ++
      nsec ++ List.replicate k (byte '.') ∧
    sec ≠ [] ∧ byte '.' ∉ sec ∧ nsec ≠ [] ∧ byte '.' ∉ nsec

/-- A time stamp, then at least one bar, then the counter up to the next bar. -/
def AcceptedShape (data sec nsec counter : Text) : Prop :=
  ∃ m stamp n rest, data = List.replicate m (byte '|') ++ stamp ++
      List.replicate (n + 1) (byte '|') ++ counter ++ rest ∧
    stamp ≠ [] ∧ byte '|' ∉ stamp ∧ counter ≠ [] ∧ byte '|' ∉ counter ∧
    ListCut.Ends (byte '|') rest ∧ StampShape stamp sec nsec

theorem decode_eq_accepted_iff_fields (data sec nsec counter : Text) :
    decode data = .accepted sec nsec counter ↔ ∃ stamp rest,
      ListCut.fields (byte '|') data = stamp :: counter :: rest ∧
        ListCut.fields (byte '.') stamp = [sec, nsec] := by
  unfold decode
  constructor
  · intro h
    split at h
    · simp at h
    · rename_i stamp fields hfields
      split at h
      · simp at h
      · rename_i first second third others htime
        simp only [Decoded.accepted.injEq] at h
        obtain ⟨rfl, rfl, rfl⟩ := h
        exact ⟨stamp, others, hfields, htime⟩
      · simp at h
  · rintro ⟨stamp, rest, hfields, htime⟩
    simp [hfields, htime]

theorem decode_eq_accepted_iff (data sec nsec counter : Text) :
    decode data = .accepted sec nsec counter ↔ AcceptedShape data sec nsec counter := by
  rw [decode_eq_accepted_iff_fields]
  constructor
  · rintro ⟨stamp, others, hfields, htime⟩
    obtain ⟨m, n, rest, hdata, hstamp, hbar, hcounter, hbar', hrest, -⟩ :=
      (ListCut.fields_eq_cons_cons_iff _ _ _ _ _).mp hfields
    exact ⟨m, stamp, n, rest, hdata, hstamp, hbar, hcounter, hbar', hrest,
      (ListCut.fields_eq_pair_iff _ _ _ _).mp htime⟩
  · rintro ⟨m, stamp, n, rest, hdata, hstamp, hbar, hcounter, hbar', hrest, hshape⟩
    refine ⟨stamp, ListCut.fields (byte '|') rest, ?_, ?_⟩
    · exact (ListCut.fields_eq_cons_cons_iff _ _ _ _ _).mpr
        ⟨m, n, rest, hdata, hstamp, hbar, hcounter, hbar', hrest, rfl⟩
    · exact (ListCut.fields_eq_pair_iff _ _ _ _).mpr hshape

/-- Without a time stamp in the first field the text is rejected. -/
theorem decode_eq_rejected {data : Text}
    (h : ¬ ∃ stamp sec nsec, FirstField data stamp ∧ StampShape stamp sec nsec) :
    decode data = .rejected := by
  unfold decode
  cases hfields : ListCut.fields (byte '|') data with
  | nil => rfl
  | cons stamp rest =>
      obtain ⟨m, tail, hdata, hstamp, hbar, htail, -⟩ :=
        (ListCut.fields_eq_cons_iff _ _ _ _).mp hfields
      have hfirst : FirstField data stamp := ⟨m, tail, hdata, hstamp, hbar, htail⟩
      have htime : ∀ sec nsec, ListCut.fields (byte '.') stamp ≠ [sec, nsec] := by
        intro sec nsec htime
        exact h ⟨stamp, sec, nsec, hfirst, (ListCut.fields_eq_pair_iff _ _ _ _).mp htime⟩
      dsimp only
      split
      · rename_i sec nsec hpair
        exact absurd hpair (htime sec nsec)
      · rename_i sec nsec counter others hpair
        exact absurd hpair (htime sec nsec)
      · rfl

theorem listener_accepts_exactly (data : Text) (h0 : 0 ∉ data) (l : CustomListener)
    (tm : Timespec) :
    (∀ l', l.onReceive tm (.ofText data) = .ok (.ok, l') →
      ∃ sec nsec counter, AcceptedShape data sec nsec counter ∧
        l'.durationVec = l.durationVec ++ [getDuration tm ⟨strtol sec, strtol nsec⟩] ∧
        l'.counter = if l.counter = 0 then strtol counter else l.counter) ∧
    (∀ sec nsec counter, AcceptedShape data sec nsec counter →
      ∃ l', l.onReceive tm (.ofText data) = .ok (.ok, l')) ∧
    ((¬ ∃ stamp sec nsec, FirstField data stamp ∧ StampShape stamp sec nsec) →
      l.onReceive tm (.ofText data) = .ok (.invalidArgument, l)) ∧
    ∀ digits, IsDigits digits → decimalValue digits < 2 ^ 63 →
      (strtol digits).toInt = decimalValue digits := by
  have hread := toText_ofText h0
  refine ⟨?_, ?_, ?_, ?_⟩
  · intro l' h
    rcases onReceive_eq_ok h with ⟨hcode, -, -⟩ | ⟨t, sec, nsec, counter, ht, hdecode, -, hl'⟩
    · simp at hcode
    · have htd : data = t := by simpa [hread] using ht
      subst htd
      exact ⟨sec, nsec, counter, (decode_eq_accepted_iff _ _ _ _).mp hdecode, by
        rw [hl', CustomListener.record], by rw [hl', CustomListener.record]⟩
  · intro sec nsec counter hshape
    rw [onReceive_eq l tm hread, (decode_eq_accepted_iff _ _ _ _).mpr hshape]
    exact ⟨_, rfl⟩
  · intro hnone
    rw [onReceive_eq l tm hread, decode_eq_rejected hnone]
  · intro digits hdigits hlt
    rw [toInt_strtol_of_isDigits hdigits]
    omega

theorem listener_accepts_exactly_letters :
    (∀ l', CustomListener.onReceive {} ⟨0, 0⟩ (.ofText (text "x.y|z")) = .ok (.ok, l') →
      ∃ sec nsec counter, AcceptedShape (text "x.y|z") sec nsec counter ∧
        l'.durationVec = [] ++ [getDuration ⟨0, 0⟩ ⟨strtol sec, strtol nsec⟩] ∧
        l'.counter = if (0 : Int64) = 0 then strtol counter else 0) ∧
    (∀ sec nsec counter, AcceptedShape (text "x.y|z") sec nsec counter →
      ∃ l', CustomListener.onReceive {} ⟨0, 0⟩ (.ofText (text "x.y|z")) = .ok (.ok, l')) ∧
    ((¬ ∃ stamp sec nsec, FirstField (text "x.y|z") stamp ∧ StampShape stamp sec nsec) →
      CustomListener.onReceive {} ⟨0, 0⟩ (.ofText (text "x.y|z")) = .ok (.invalidArgument, {})) ∧
    ∀ digits, IsDigits digits → decimalValue digits < 2 ^ 63 →
      (strtol digits).toInt = decimalValue digits :=
  listener_accepts_exactly (text "x.y|z") (by decide) {} ⟨0, 0⟩

/-- A text with letters for numbers is accepted although it is no
`WireText`. -/
theorem listener_accepts_letters :
    (∃ l', CustomListener.onReceive {} ⟨0, 0⟩ (.ofText (text "x.y|z")) = .ok (.ok, l')) ∧
      ¬ ∃ w : WireText, w.toText = text "x.y|z" := by
  constructor
  · exact ⟨_, rfl⟩
  · rintro ⟨w, hw⟩
    obtain ⟨hne, hall⟩ := w.sec_isDigits
    cases hsec : w.sec with
    | nil => exact hne hsec
    | cons b rest =>
        have hx : (text "x.y|z").head? = some (byte 'x') := by decide
        have hb : b = byte 'x' := by
          have hhead := congrArg List.head? hw
          simpa [WireText.toText, WireText.stamp, hsec, hx] using hhead
        have hdigit := hall b (by simp [hsec])
        rw [hb] at hdigit
        exact absurd hdigit (by decide)

/-! ## Texts without a counter -/

/-- A time stamp with nothing but bars around it. -/
def LacksCounter (data : Text) : Prop :=
  ∃ m stamp sec nsec k, data = List.replicate m (byte '|') ++ stamp ++ List.replicate k (byte '|') ∧
    stamp ≠ [] ∧ byte '|' ∉ stamp ∧ StampShape stamp sec nsec

theorem decode_eq_noCounter_iff_fields (data : Text) :
    decode data = .noCounter ↔ ∃ stamp sec nsec,
      ListCut.fields (byte '|') data = [stamp] ∧
        ListCut.fields (byte '.') stamp = [sec, nsec] := by
  unfold decode
  constructor
  · intro h
    split at h
    · simp at h
    · rename_i stamp fields hfields
      split at h
      · rename_i sec nsec htime
        exact ⟨stamp, sec, nsec, hfields, htime⟩
      · simp at h
      · simp at h
  · rintro ⟨stamp, sec, nsec, hfields, htime⟩
    simp [hfields, htime]

theorem decode_eq_noCounter_iff (data : Text) :
    decode data = .noCounter ↔ LacksCounter data := by
  rw [decode_eq_noCounter_iff_fields]
  constructor
  · rintro ⟨stamp, sec, nsec, hfields, htime⟩
    obtain ⟨m, k, hdata, hstamp, hbar⟩ := (ListCut.fields_eq_singleton_iff _ _ _).mp hfields
    exact ⟨m, stamp, sec, nsec, k, hdata, hstamp, hbar,
      (ListCut.fields_eq_pair_iff _ _ _ _).mp htime⟩
  · rintro ⟨m, stamp, sec, nsec, k, hdata, hstamp, hbar, hshape⟩
    refine ⟨stamp, sec, nsec, ?_, (ListCut.fields_eq_pair_iff _ _ _ _).mpr hshape⟩
    exact (ListCut.fields_eq_singleton_iff _ _ _).mpr ⟨m, k, hdata, hstamp, hbar⟩

/-- Every access of the handler is in range, and it returns one of its two
codes, except on a text without a counter. -/
theorem listener_indexes_in_range_iff (data : Text) (h0 : 0 ∉ data) (l : CustomListener)
    (tm : Timespec) :
    (∃ code l', l.onReceive tm (.ofText data) = .ok (code, l') ∧
      (code = .ok ∨ code = .invalidArgument)) ↔ ¬ LacksCounter data := by
  rw [onReceive_eq l tm (toText_ofText h0), ← decode_eq_noCounter_iff]
  cases hdecode : decode data with
  | noCounter => simp
  | rejected => simp
  | accepted sec nsec counter => simp

theorem listener_indexes_in_range_iff_stamp :
    (∃ code l', CustomListener.onReceive {} ⟨0, 0⟩ (.ofText (text "1.2")) = .ok (code, l') ∧
      (code = .ok ∨ code = .invalidArgument)) ↔ ¬ LacksCounter (text "1.2") :=
  listener_indexes_in_range_iff (text "1.2") (by decide) {} ⟨0, 0⟩

/-- A time stamp alone makes the handler read a second field that is not there. -/
theorem listener_index_out_of_range :
    CustomListener.onReceive {} ⟨0, 0⟩ (.ofText (text "1.2")) = .error .outOfRange :=
  rfl

end UpZenohExample
