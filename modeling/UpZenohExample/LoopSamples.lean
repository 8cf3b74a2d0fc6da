import UpZenohExample.Report

/-!
# The samples of the loops

The vectors that `pub`, `sub` and `start_session` report on, given by the
durations of the calls alone: a sample for every round and URI, in the order of
the calls.  Round 0 of `pub` has none.
-/

namespace UpZenohExample

open ByteText

variable {α : Type}

/-- A sample for every URI in every one of the rounds. -/
def roundSamples (rounds : List ℕ) (uris : ℕ) (duration : ℕ → ℕ → α) : List α :=
  rounds.flatMap fun i ↦ (List.range uris).map (duration i)

theorem length_roundSamples (rounds : List ℕ) (uris : ℕ) (duration : ℕ → ℕ → α) :
    (roundSamples rounds uris duration).length = rounds.length * uris := by
  simp [roundSamples, List.length_flatMap]

/-- The first round adds nothing. -/
theorem flatMap_skip_first (loops uris : ℕ) (duration : ℕ → ℕ → α) :
    ((List.range loops).flatMap fun i ↦
      if i = 0 then [] else (List.range uris).map (duration i)) =
        roundSamples (List.range loops).tail uris duration := by
  cases loops with
  | zero => rfl
  | succ n =>
      rw [List.range_succ_eq_map, List.flatMap_cons, List.flatMap_map]
      simp [roundSamples, List.flatMap_map]

/-- What one pass over the URIs appends. -/
theorem collect_eq {ok : ℕ → Bool} {append : ℕ → List α → List α} {sample : ℕ → List α}
    (happend : ∀ u vec, append u vec = vec ++ sample u) {uris : ℕ} {vec vec' : List α}
    (h : Loop.forLoop uris (fun vec u ↦ if ok u then some (append u vec) else none) vec =
      some vec') : vec' = vec ++ (List.range uris).flatMap sample := by
  refine Loop.view_forLoop (fun vec ↦ vec) ?_ h
  intro vec u vec' hstep
  split at hstep
  · exact (Option.some.inj hstep).symm.trans (happend u vec)
  · cases hstep

/-- A pass that appends one sample for each URI. -/
theorem collect_one_eq {ok : ℕ → Bool} {sample : ℕ → α} {uris : ℕ} {vec vec' : List α}
    (h : Loop.forLoop uris (fun vec u ↦ if ok u then some (vec ++ [sample u]) else none) vec =
      some vec') : vec' = vec ++ (List.range uris).map sample := by
  rw [List.map_eq_flatMap]
  exact collect_eq (fun _ _ ↦ rfl) h

theorem pubLoop_eq {calls : PubCalls α} {loops uris : ℕ} {pubVec : List α}
    (h : pubLoop calls loops uris = some pubVec) :
    pubVec = roundSamples (List.range loops).tail uris calls.duration := by
  have hround (vec : List α) (i : ℕ) (vec' : List α)
      (hstep : pubRound calls uris vec i = some vec') :
      vec' = vec ++ if i = 0 then [] else (List.range uris).map (calls.duration i) := by
    have happend (u : ℕ) (vec : List α) :
        (if i ≠ 0 then vec ++ [calls.duration i u] else vec) =
          vec ++ if i = 0 then [] else [calls.duration i u] := by
      by_cases hi : i = 0 <;> simp [hi]
    rw [collect_eq happend hstep]
    by_cases hi : i = 0
    · simp [hi]
    · simp only [hi, if_false, List.map_eq_flatMap]
  rw [← flatMap_skip_first]
  exact Loop.view_forLoop (fun vec ↦ vec) hround h

theorem subLoop_eq {calls : SubCalls α} {loops uris : ℕ} {vecs : List α × List α}
    (h : subLoop calls loops uris = some vecs) :
    vecs = (roundSamples (List.range loops) uris calls.subscribeDuration,
      roundSamples (List.range loops) uris calls.unsubscribeDuration) := by
  have hround (vecs : List α × List α) (i : ℕ) (vecs' : List α × List α)
      (hstep : subRound calls uris vecs i = some vecs') :
      vecs'.1 = vecs.1 ++ (List.range uris).map (calls.subscribeDuration i) ∧
        vecs'.2 = vecs.2 ++ (List.range uris).map (calls.unsubscribeDuration i) := by
    obtain ⟨subscribe, hsubscribe, hrest⟩ := Option.bind_eq_some_iff.mp hstep
    obtain ⟨unsubscribe, hunsubscribe, hvecs⟩ := Option.bind_eq_some_iff.mp hrest
    rw [← Option.some.inj hvecs]
    exact ⟨collect_one_eq hsubscribe, collect_one_eq hunsubscribe⟩
  have hfirst := Loop.view_forLoop (fun vecs ↦ vecs.1)
    (fun vecs i vecs' hstep ↦ (hround vecs i vecs' hstep).1) h
  have hsecond := Loop.view_forLoop (fun vecs ↦ vecs.2)
    (fun vecs i vecs' hstep ↦ (hround vecs i vecs' hstep).2) h
  exact Prod.ext hfirst hsecond

theorem sessionLoop_eq {calls : SessionCalls α} {loops uris : ℕ} {vecs : SessionVecs α}
    (h : sessionLoop calls loops uris = some vecs) :
    vecs = ⟨(List.range loops).map calls.openDuration, (List.range loops).map calls.closeDuration,
      roundSamples (List.range loops) uris calls.duration⟩ := by
  have hround (vecs : SessionVecs α) (i : ℕ) (vecs' : SessionVecs α)
      (hstep : sessionRound calls uris vecs i = some vecs') :
      vecs'.openSession = vecs.openSession ++ [calls.openDuration i] ∧
        vecs'.closeSession = vecs.closeSession ++ [calls.closeDuration i] ∧
        vecs'.pubVec = vecs.pubVec ++ (List.range uris).map (calls.duration i) := by
    unfold sessionRound at hstep
    split at hstep
    · cases hstep
    · obtain ⟨pubVec, hpub, hvecs⟩ := Option.bind_eq_some_iff.mp hstep
      rw [← Option.some.inj hvecs]
      exact ⟨rfl, rfl, collect_one_eq hpub⟩
  have hopen := Loop.view_forLoop (fun vecs ↦ vecs.openSession)
    (fun vecs i vecs' hstep ↦ (hround vecs i vecs' hstep).1) h
  have hclose := Loop.view_forLoop (fun vecs ↦ vecs.closeSession)
    (fun vecs i vecs' hstep ↦ (hround vecs i vecs' hstep).2.1) h
  have hpub := Loop.view_forLoop (fun vecs ↦ vecs.pubVec)
    (fun vecs i vecs' hstep ↦ (hround vecs i vecs' hstep).2.2) h
  cases vecs
  rw [SessionVecs.mk.injEq]
  refine ⟨?_, ?_, hpub⟩
  · rw [List.map_eq_flatMap]
    exact hopen
  · rw [List.map_eq_flatMap]
    exact hclose

section Programs

variable [Zero α] [Add α] [Sub α] [Mul α] [Div α] [NatCast α] [RatCast α] [Pow α ℕ]
variable [LE α] [DecidableLE α] (sqrt : α → α) (shown : α → Text)

/-- A program is an early return when its loop is, and otherwise the report on
what its loop has collected. -/
theorem report_of_loop {β : Type} {loop : Option β} {fails : Prop} (samples : β)
    (rows : β → List (Text × List α)) {result : Except Abort (Option (List (Row α)))}
    (hfails : fails ↔ loop = none) (hsamples : ∀ v, loop = some v → v = samples)
    (hnone : loop = none → result = .ok none)
    (hsome : ∀ v, loop = some v → result = (logStats sqrt shown (rows v)).map some) :
    (fails → result = .ok none) ∧
      (¬ fails → result = (logStats sqrt shown (rows samples)).map some) := by
  refine ⟨fun h ↦ hnone (hfails.mp h), ?_⟩
  intro hnot
  obtain ⟨v, hv⟩ := Option.ne_none_iff_exists'.mp (mt hfails.mpr hnot)
  rw [hsome v hv, hsamples v hv]

theorem pub_eq (calls : PubCalls α) (loops numOfUri : Int32) :
    (calls.Fails (iterations loops) (iterations numOfUri) →
        pub sqrt shown calls loops numOfUri = .ok none) ∧
      (¬ calls.Fails (iterations loops) (iterations numOfUri) →
        pub sqrt shown calls loops numOfUri = (logStats sqrt shown [(text "publish",
          roundSamples (List.range (iterations loops)).tail (iterations numOfUri)
            calls.duration)]).map some) := by
  cases hinit : calls.init with
  | false => simp [PubCalls.Fails, pub, hinit]
  | true =>
      refine report_of_loop sqrt shown (roundSamples _ _ calls.duration)
        (fun pubVec ↦ [(text "publish", pubVec)])
        (PubCalls.fails_iff hinit _ _) (fun pubVec ↦ pubLoop_eq) ?_ ?_
      · intro hvec
        simp [pub, hinit, hvec]
      · intro pubVec hvec
        simp [pub, hinit, hvec]

theorem sub_eq (calls : SubCalls α) (loops numOfUri : Int32) :
    (calls.Fails (iterations loops) (iterations numOfUri) →
        sub sqrt shown calls loops numOfUri = .ok none) ∧
      (¬ calls.Fails (iterations loops) (iterations numOfUri) →
        sub sqrt shown calls loops numOfUri = (logStats sqrt shown
          [(text "subscribe", roundSamples (List.range (iterations loops)) (iterations numOfUri)
              calls.subscribeDuration),
            (text "unsubscribe", roundSamples (List.range (iterations loops))
              (iterations numOfUri) calls.unsubscribeDuration)]).map some) := by
  cases hinit : calls.init with
  | false => simp [SubCalls.Fails, sub, hinit]
  | true =>
      refine report_of_loop sqrt shown
        (roundSamples _ _ calls.subscribeDuration, roundSamples _ _ calls.unsubscribeDuration)
        (fun vecs ↦ [(text "subscribe", vecs.1), (text "unsubscribe", vecs.2)])
        (SubCalls.fails_iff hinit _ _) (fun vecs ↦ subLoop_eq) ?_ ?_
      · intro hvec
        simp [sub, hinit, hvec]
      · intro vecs hvec
        simp [sub, hinit, hvec]

theorem startSession_eq (calls : SessionCalls α) (loops maxUri : Int32) :
    (calls.Fails (iterations loops) (iterations maxUri) →
        startSession sqrt shown calls loops maxUri = .ok none) ∧
      (¬ calls.Fails (iterations loops) (iterations maxUri) →
        startSession sqrt shown calls loops maxUri = (logStats sqrt shown
          [(text "open session", (List.range (iterations loops)).map calls.openDuration),
            (text "close session", (List.range (iterations loops)).map calls.closeDuration),
            (text "first publish", roundSamples (List.range (iterations loops))
              (iterations maxUri) calls.duration)]).map some) := by
  refine report_of_loop sqrt shown
    (⟨(List.range _).map calls.openDuration, (List.range _).map calls.closeDuration,
      roundSamples _ _ calls.duration⟩ : SessionVecs α)
    (fun vecs ↦ [(text "open session", vecs.openSession),
      (text "close session", vecs.closeSession), (text "first publish", vecs.pubVec)])
    (calls.fails_iff _ _) (fun vecs ↦ sessionLoop_eq) ?_ ?_
  · intro hvec
    simp [startSession, hvec]
  · intro vecs hvec
    simp [startSession, hvec]

/-- A report throws when one of its vectors is too short or too long. -/
theorem exists_report_iff {fails : Prop} {vecs : List (Text × List α)}
    {result : Except Abort (Option (List (Row α)))}
    (h : (fails → result = .ok none) ∧ (¬ fails → result = (logStats sqrt shown vecs).map some)) :
    (∃ rows, result = .ok rows) ↔ fails ∨ ∀ v ∈ vecs, Reportable v.2.length := by
  by_cases hfails : fails
  · exact iff_of_true ⟨none, h.1 hfails⟩ (Or.inl hfails)
  · rw [or_iff_right hfails, ← exists_logStats_iff sqrt shown, h.2 hfails]
    cases logStats sqrt shown vecs <;> simp [Except.map]

theorem exists_sub_iff (calls : SubCalls α) (loops numOfUri : Int32) :
    (∃ rows, sub sqrt shown calls loops numOfUri = .ok rows) ↔
      calls.Fails (iterations loops) (iterations numOfUri) ∨
        Reportable (iterations loops * iterations numOfUri) := by
  rw [exists_report_iff sqrt shown (sub_eq sqrt shown calls loops numOfUri)]
  simp [length_roundSamples]

end Programs

end UpZenohExample
