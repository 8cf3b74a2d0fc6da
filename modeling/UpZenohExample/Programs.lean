import UpZenohExample.Lifecycle

/-!
# What the programs report

`pub` and `start_session` as whole programs, with the size of their messages.  A
text that gets too long ends them with an exception, whatever they have measured
until then; where every text is built they are the programs of the report phases.
-/

namespace UpZenohExample

open ByteText Traced

/-- What ends a program with an exception: its report, or a text that gets too
long. -/
inductive Thrown where
  | abort (e : Abort)
  | lengthError
  deriving DecidableEq, Repr

section Programs

variable {α : Type} [Zero α] [Add α] [Sub α] [Mul α] [Div α] [NatCast α] [RatCast α] [Pow α ℕ]
variable [LE α] [DecidableLE α] (sqrt : α → α) (shown : α → Text)

/-- The end of a program whose loop has the result `result`; `none` is an early return
without a report. -/
def reportLoop {β : Type} (rows : β → List (Text × List α)) (result : Except Ending β) :
    Except Thrown (Option (List (Row α))) :=
  match result with
  | .error .failed => .ok none
  | .error .lengthError => .error .lengthError
  | .ok vecs => ((logStats sqrt shown (rows vecs)).map some).mapError .abort

def pubProgram (calls : PubCalls α) (m : Messages) (loops numOfUri : Int32) :
    Except Thrown (Option (List (Row α))) :=
  reportLoop sqrt shown (fun pubVec ↦ [(text "publish", pubVec)])
    (pubUses calls m (iterations loops) (iterations numOfUri)).result

def startSessionProgram (calls : SessionCalls α) (m : Messages) (loops maxUri : Int32) :
    Except Thrown (Option (List (Row α))) :=
  reportLoop sqrt shown
    (fun vecs ↦ [(text "open session", vecs.openSession),
      (text "close session", vecs.closeSession), (text "first publish", vecs.pubVec)])
    (sessionUses calls m (iterations loops) (iterations maxUri)).result

/-- A program reports nothing when a call fails or a text gets too long, whichever
comes first, and otherwise reports on `vecs`. -/
def ReportsOn (why : Option Ending) (vecs : List (Text × List α))
    (result : Except Thrown (Option (List (Row α)))) : Prop :=
  (why = some .failed → result = .ok none) ∧
    (why = some .lengthError → result = .error .lengthError) ∧
    (why = none → result = ((logStats sqrt shown vecs).map some).mapError .abort)

theorem reportsOn_reportLoop {β : Type} (rows : β → List (Text × List α)) (why : Option Ending)
    (vecs : β) :
    ReportsOn sqrt shown why (rows vecs) (reportLoop sqrt shown rows (resultOf why vecs)) := by
  refine ⟨?_, ?_, ?_⟩
  · rintro rfl
    rfl
  · rintro rfl
    rfl
  · rintro rfl
    rfl

theorem pubProgram_reportsOn (calls : PubCalls α) (m : Messages) (loops numOfUri : Int32) :
    ReportsOn sqrt shown (calls.ending m (iterations loops) (iterations numOfUri))
      [(text "publish", roundSamples (List.range (iterations loops)).tail (iterations numOfUri)
        calls.duration)] (pubProgram sqrt shown calls m loops numOfUri) := by
  rw [pubProgram, result_pubUses]
  exact reportsOn_reportLoop sqrt shown _ _ _

theorem startSessionProgram_reportsOn (calls : SessionCalls α) (m : Messages)
    (loops maxUri : Int32) :
    ReportsOn sqrt shown (calls.ending m (iterations loops) (iterations maxUri))
      [(text "open session", (List.range (iterations loops)).map calls.openDuration),
        (text "close session", (List.range (iterations loops)).map calls.closeDuration),
        (text "first publish", roundSamples (List.range (iterations loops)) (iterations maxUri)
          calls.duration)] (startSessionProgram sqrt shown calls m loops maxUri) := by
  rw [startSessionProgram, result_sessionUses]
  exact reportsOn_reportLoop sqrt shown _ _ _

/-- A program ends without an exception when a call fails before a text gets too
long, or when all went well and every vector has enough samples. -/
theorem ReportsOn.exists_ok_iff {why : Option Ending} {vecs : List (Text × List α)}
    {result : Except Thrown (Option (List (Row α)))} (h : ReportsOn sqrt shown why vecs result) :
    (∃ rows, result = .ok rows) ↔
      why = some .failed ∨ why = none ∧ ∀ v ∈ vecs, Reportable v.2.length := by
  obtain ⟨hfailed, hlength, hreport⟩ := h
  cases why with
  | none =>
      rw [← exists_logStats_iff sqrt shown, hreport rfl]
      cases logStats sqrt shown vecs <;> simp [Except.map, Except.mapError]
  | some e =>
      cases e with
      | failed => simp [hfailed rfl]
      | lengthError => simp [hlength rfl]

/-! ## Where every text is built -/

/-- Where no text gets too long, a program is that of its report phase. -/
theorem ReportsOn.eq_mapError {why : Option Ending} {fails : Prop}
    {vecs : List (Text × List α)} {result : Except Thrown (Option (List (Row α)))}
    {result' : Except Abort (Option (List (Row α)))} (h : ReportsOn sqrt shown why vecs result)
    (hlength : why ≠ some .lengthError) (hnone : why = none ↔ ¬ fails)
    (h' : (fails → result' = .ok none) ∧
      (¬ fails → result' = (logStats sqrt shown vecs).map some)) :
    result = result'.mapError .abort := by
  cases hwhy : why with
  | none => rw [h.2.2 hwhy, h'.2 (hnone.mp hwhy)]
  | some e =>
      cases e with
      | lengthError => exact absurd hwhy hlength
      | failed =>
          have hfails : fails := by
            by_contra hnot
            rw [hnone.mpr hnot] at hwhy
            cases hwhy
          rw [h.1 hwhy, h'.1 hfails]
          rfl

theorem findSome?_messageEnding_ne {builds send : ℕ → Bool} {uris : ℕ}
    (h : ∀ u < uris, builds u = true) :
    ((List.range uris).findSome? fun u ↦ messageEnding (builds u) (send u)) ≠
      some .lengthError := by
  intro hfind
  obtain ⟨u, hu, hending⟩ := List.exists_of_findSome?_eq_some hfind
  rw [h u (List.mem_range.mp hu)] at hending
  cases hsend : send u <;> simp [messageEnding, hsend] at hending

variable {m : Messages} {loops uris : Int32}
variable (h : ∀ i < iterations loops, ∀ u < iterations uris, m.builds i u = true)

include h

theorem pubProgram_of_builds (calls : PubCalls α) :
    pubProgram sqrt shown calls m loops uris =
      (pub sqrt shown calls loops uris).mapError .abort := by
  refine (pubProgram_reportsOn sqrt shown calls m loops uris).eq_mapError sqrt shown ?_ ?_
    (pub_eq sqrt shown calls loops uris)
  · unfold PubCalls.ending
    split
    · intro hfind
      obtain ⟨i, hi, hround⟩ := List.exists_of_findSome?_eq_some hfind
      exact findSome?_messageEnding_ne (h i (List.mem_range.mp hi)) hround
    · simp
  · rw [PubCalls.ending_eq_none_iff, PubCalls.Ok, PubCalls.Fails]
    simp +contextual [h]

theorem startSessionProgram_of_builds (calls : SessionCalls α) :
    startSessionProgram sqrt shown calls m loops uris =
      (startSession sqrt shown calls loops uris).mapError .abort := by
  refine (startSessionProgram_reportsOn sqrt shown calls m loops uris).eq_mapError sqrt shown
    ?_ ?_ (startSession_eq sqrt shown calls loops uris)
  · intro hfind
    obtain ⟨i, hi, hround⟩ := List.exists_of_findSome?_eq_some hfind
    unfold SessionCalls.roundEnding at hround
    split at hround
    · exact findSome?_messageEnding_ne (h i (List.mem_range.mp hi)) hround
    · simp at hround
  · rw [SessionCalls.ending_eq_none_iff, SessionCalls.Fails]
    simp +contextual [SessionCalls.RoundOk, h]

omit h

/-- A program of which a call fails reports nothing, and one of which a text gets too
long ends with an exception, whichever comes first.  Otherwise it reports on the
duration of every call in the order of the calls, but for the sends of round 0 of
`pub`. -/
theorem programs_report_all_calls :
    (∀ (calls : PubCalls α) (m : Messages) (loops numOfUri : Int32),
      ReportsOn sqrt shown (calls.ending m (iterations loops) (iterations numOfUri))
        [(text "publish", roundSamples (List.range (iterations loops)).tail
          (iterations numOfUri) calls.duration)] (pubProgram sqrt shown calls m loops numOfUri)) ∧
    (∀ (calls : SubCalls α) (loops numOfUri : Int32),
      (calls.Fails (iterations loops) (iterations numOfUri) →
          sub sqrt shown calls loops numOfUri = .ok none) ∧
        (¬ calls.Fails (iterations loops) (iterations numOfUri) →
          sub sqrt shown calls loops numOfUri = (logStats sqrt shown
            [(text "subscribe", roundSamples (List.range (iterations loops))
                (iterations numOfUri) calls.subscribeDuration),
              (text "unsubscribe", roundSamples (List.range (iterations loops))
                (iterations numOfUri) calls.unsubscribeDuration)]).map some)) ∧
    ∀ (calls : SessionCalls α) (m : Messages) (loops maxUri : Int32),
      ReportsOn sqrt shown (calls.ending m (iterations loops) (iterations maxUri))
        [(text "open session", (List.range (iterations loops)).map calls.openDuration),
          (text "close session", (List.range (iterations loops)).map calls.closeDuration),
          (text "first publish", roundSamples (List.range (iterations loops))
            (iterations maxUri) calls.duration)] (startSessionProgram sqrt shown calls m loops
              maxUri) :=
  ⟨pubProgram_reportsOn sqrt shown, sub_eq sqrt shown, startSessionProgram_reportsOn sqrt shown⟩

end Programs

end UpZenohExample
