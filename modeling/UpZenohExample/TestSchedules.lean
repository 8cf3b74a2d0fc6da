import UpZenohExample.TestHistory

/-!
# Test runs that exist

Every run of the processes is the run of a test, and in the shipped configuration
a subscriber can receive one message in time and one too late.
-/

namespace UpZenohExample

open ByteText Function LabelledRun

variable {cfg : Config} {p : Place} {slots : ℕ → Text} {b b' : TestRun}
  {trace : List Occurrence} {s : State} {k : ℕ}

/-! ## The end of a subscriber -/

/-- A message is sent in no time, and none is received. -/
def Occurrence.Quiet : Occurrence → Prop
  | .send _ start stop => start = ⟨0, 0⟩ ∧ stop = ⟨0, 0⟩
  | .receive .. => False
  | .parent | .child _ | .fail _ | .save .. | .unregister .. | .unregisterFails .. => True

/-- No child is between its loop and its end. -/
def Resting (b : TestRun) : Prop :=
  ∀ k, (b.proc k).leaving = .running ∨ (b.state.child k).terminated = true

theorem Resting.running (h : Resting b) {c : Child} (hc : b.state.child k = c)
    (hnot : c.terminated = false) : (b.proc k).leaving = .running := by
  rcases h k with hq | hdone
  · exact hq
  · rw [hc, hnot] at hdone
    cases hdone

/-- What child `k` has left to do after its loop. -/
def Leaving.left (cfg : Config) : Leaving → ℕ
  | .running => 0
  | .saving i => (cfg.uris - i) + cfg.uris + 2
  | .unregistering i => (cfg.uris - i) + 1

/-- One step of a subscriber that has got Stop. -/
theorem exists_leave_step (cfg : Config) (p : Place) (hc : b.state.child k = .waitStop)
    (hq : (b.proc k).leaving ≠ .running) :
    ∃ e b', testStep cfg p b e = some b' ∧ e.Quiet ∧ (∀ j ≠ k, b'.proc j = b.proc j) ∧
      (b'.state = b.state.setChild k .exited ∨
        b'.state = b.state ∧ (b'.proc k).leaving ≠ .running ∧
          (b'.proc k).leaving.left cfg < (b.proc k).leaving.left cfg) := by
  have hset (q : Proc) : ∀ j ≠ k, update b.proc k q j = b.proc j :=
    fun j hj ↦ update_of_ne hj q b.proc
  cases hl : (b.proc k).leaving with
  | running => exact absurd hl hq
  | saving i =>
      by_cases hi : i < cfg.uris
      · refine ⟨.save k i, { b.setProc k { b.proc k with leaving := .saving (i + 1) } with
          files := saveIn p.path (fileName k) b.files
            ((b.proc k).listeners i).listener.durationVec }, ?_, trivial, hset _,
          Or.inr ⟨rfl, ?_, ?_⟩⟩
        · simp [testStep, hc, hl, hi, TestRun.save, p.workingDir_eq]
        · simp [TestRun.setProc]
        · simp [TestRun.setProc, Leaving.left]
          omega
      · refine ⟨.child k, b.setProc k { b.proc k with leaving := .unregistering 0 }, ?_, trivial,
          hset _, Or.inr ⟨rfl, ?_, ?_⟩⟩
        · simp [testStep, hc, hl, hi]
        · simp [TestRun.setProc]
        · simp only [TestRun.setProc, update_self, Leaving.left]
          omega
  | unregistering i =>
      by_cases hi : i < cfg.uris
      · refine ⟨.unregister k i, b.setProc k { b.proc k with leaving := .unregistering (i + 1) },
          ?_, trivial, hset _, Or.inr ⟨rfl, ?_, ?_⟩⟩
        · simp [testStep, hc, hl, hi]
        · simp [TestRun.setProc]
        · simp [TestRun.setProc, Leaving.left]
          omega
      · refine ⟨.child k, b.withState (b.state.setChild k .exited), ?_, trivial, fun _ _ ↦ rfl,
          Or.inl rfl⟩
        simp [testStep, hc, hl, hi]

theorem exists_leave (cfg : Config) (p : Place) (hc : b.state.child k = .waitStop)
    (hq : (b.proc k).leaving ≠ .running) :
    ∃ trace b', run (testStep cfg p) b trace = some b' ∧ (∀ e ∈ trace, e.Quiet) ∧
      (∀ j ≠ k, b'.proc j = b.proc j) ∧ b'.state = b.state.setChild k .exited := by
  induction hn : (b.proc k).leaving.left cfg using Nat.strong_induction_on generalizing b with
  | _ n ih =>
      obtain ⟨e, mid, hmid, he, hothers, hexited | ⟨hsame, hleaving, hlt⟩⟩ :=
        exists_leave_step cfg p hc hq
      · exact ⟨[e], mid, by simp [run, hmid], by simpa using he, hothers, hexited⟩
      · obtain ⟨trace, b', hrun, hquiet, hrest, hexited⟩ :=
          ih _ (hn ▸ hlt) (hsame ▸ hc) hleaving rfl
        refine ⟨e :: trace, b', (run_cons_eq_some (testStep cfg p)).mpr ⟨mid, hmid, hrun⟩,
          List.forall_mem_cons.mpr ⟨he, hquiet⟩, ?_, hsame ▸ hexited⟩
        intro j hj
        rw [hrest j hj, hothers j hj]

/-! ## Every run of the processes -/

theorem Resting.step {a : Action} (hb : Resting b) (hs : WellFormed cfg b.state)
    (h : Step cfg b.state a s)
    (hsame : ∀ j, (b'.proc j).leaving = (b.proc j).leaving) (hstate : b'.state = s) :
    Resting b' := by
  intro j
  rw [hsame, hstate]
  rcases hb j with hq | hdone
  · exact Or.inl hq
  · right
    apply h.terminated _ hdone
    apply hs.not_creating
    intro hunborn
    rw [hunborn] at hdone
    cases hdone

theorem Resting.done (hb : Resting b) (hothers : ∀ j ≠ k, b'.proc j = b.proc j)
    (hchild : ∀ j ≠ k, b'.state.child j = b.state.child j)
    (hdone : (b'.state.child k).terminated = true) : Resting b' := by
  intro j
  by_cases hj : j = k
  · exact Or.inr (hj ▸ hdone)
  · rw [hothers j hj, hchild j hj]
    exact hb j

/-- A publisher that has sent everything writes its vector before its Stop. -/
theorem exists_pubStop {sent : ℕ} (hb : Resting b) (hc : b.state.child k = .publishing sent)
    (hsent : ¬ sent < cfg.messages) :
    ∃ trace b', run (testStep cfg p) b trace = some b' ∧ (∀ e ∈ trace, e.Quiet) ∧ Resting b' ∧
      b'.state = b.state.withStop k := by
  have hq := hb.running hc rfl
  let u : TestRun := { b.setProc k { b.proc k with leaving := .saving 1 } with
    files := saveIn p.path (fileName k) b.files (b.proc k).pubVec }
  have hsave : testStep cfg p b (.save k 0) = some u := by
    simp [testStep, hc, hq, hsent, TestRun.save, p.workingDir_eq, u]
  have hstop : testStep cfg p u (.child k) = some (u.withState (b.state.withStop k)) := by
    simp [testStep, step, childStep, u, TestRun.setProc, hc, hsent, State.withStop]
  refine ⟨[.save k 0, .child k], u.withState (b.state.withStop k), by simp [run, hsave, hstop],
    by simp [Occurrence.Quiet], ?_, rfl⟩
  apply hb.done (k := k) (fun j hj ↦ update_of_ne hj _ b.proc) (setChild_of_ne b.state .stopped)
  simp [TestRun.withState, State.withStop, Child.terminated]

theorem exists_gotStop (hb : Resting b) (hc : b.state.child k = .waitStop)
    (hslot : Holds (b.state.slot k) stop) :
    ∃ trace b', run (testStep cfg p) b trace = some b' ∧ (∀ e ∈ trace, e.Quiet) ∧ Resting b' ∧
      b'.state = b.state.setChild k .exited := by
  have hq := hb.running hc rfl
  let u : TestRun := b.setProc k { b.proc k with leaving := .saving 0 }
  have hread : testStep cfg p b (.child k) = some u := by
    simp [testStep, hc, hq, hslot, u]
  obtain ⟨trace, b', hrun, hquiet, hothers, hexited⟩ :=
    exists_leave cfg p (b := u) hc (by simp [u, TestRun.setProc])
  refine ⟨.child k :: trace, b', (run_cons_eq_some (testStep cfg p)).mpr ⟨u, hread, hrun⟩,
    List.forall_mem_cons.mpr ⟨trivial, hquiet⟩, ?_, hexited⟩
  apply hb.done (k := k)
  · intro j hj
    rw [hothers j hj]
    exact update_of_ne hj _ b.proc
  · rw [hexited]
    exact setChild_of_ne b.state .exited
  · simp [hexited, Child.terminated]

theorem exists_testStep (hb : Resting b) (hs : WellFormed cfg b.state) {a : Action}
    (h : UpZenohExample.step cfg b.state a = some s) :
    ∃ trace b', run (testStep cfg p) b trace = some b' ∧ (∀ e ∈ trace, e.Quiet) ∧ Resting b' ∧
      b'.state = s := by
  have hone {e : Occurrence} {u : TestRun} (he : e.Quiet)
      (hsame : ∀ j, (u.proc j).leaving = (b.proc j).leaving)
      (hstep : testStep cfg p b e = some (u.withState s)) :
      ∃ trace b', run (testStep cfg p) b trace = some b' ∧ (∀ e ∈ trace, e.Quiet) ∧ Resting b' ∧
        b'.state = s :=
    ⟨[e], u.withState s, by simp [run, hstep], by simpa using he,
      hb.step hs (step_cases h) hsame rfl, rfl⟩
  have hquiet {e : Occurrence} (he : e.Quiet)
      (hstep : testStep cfg p b e = some (b.withState s)) := hone he (fun _ ↦ rfl) hstep
  cases a with
  | parent => exact hquiet (e := .parent) trivial (by rw [testStep, h, Option.map_some])
  | fail k =>
      have hq : (b.proc k).leaving = .running := by
        cases hc : b.state.child k with
        | launched | publishing | registering => exact hb.running hc rfl
        | unborn | stopped | waitStart | waitStop | exited | failed =>
            simp [UpZenohExample.step, failStep, hc] at h
      exact hquiet (e := .fail k) trivial (by rw [testStep, if_pos hq, h, Option.map_some])
  | child k =>
      cases hc : b.state.child k with
      | publishing sent =>
          by_cases hsent : sent < cfg.messages
          · apply hone (e := .send k ⟨0, 0⟩ ⟨0, 0⟩)
              (u := b.setProc k ((b.proc k).push cfg sent (getDuration ⟨0, 0⟩ ⟨0, 0⟩))) ⟨rfl, rfl⟩
            · intro j
              by_cases hj : j = k
              · simp [TestRun.setProc, hj]
              · simp [TestRun.setProc, hj]
            · simp only [testStep, hc, if_pos hsent, h, Option.map_some]
          · have hstop : b.state.withStop k = s := by
              simpa [UpZenohExample.step, childStep, hc, hsent, State.withStop] using h
            exact hstop ▸ exists_pubStop hb hc hsent
      | waitStop =>
          by_cases hslot : Holds (b.state.slot k) stop
          · have hexit : b.state.setChild k .exited = s := by
              simpa [UpZenohExample.step, childStep, hc, hslot] using h
            exact hexit ▸ exists_gotStop hb hc hslot
          · have hq := hb.running hc rfl
            have hstay : b.state = s := by
              simpa [UpZenohExample.step, childStep, hc, hslot] using h
            apply hquiet (e := .child k) trivial
            simp [testStep, hc, hq, hslot, ← hstay, TestRun.withState]
      | unborn | launched | stopped | waitStart | registering | exited | failed =>
          apply hquiet (e := .child k) trivial
          simp only [testStep, hc, h, Option.map_some]

theorem exists_trace (heven : cfg.maxProcess % 2 = 0) (hs : WellFormed cfg b.state)
    (hb : Resting b) (h : Leads (step cfg) b.state s) :
    ∃ trace b', run (testStep cfg p) b trace = some b' ∧ (∀ e ∈ trace, e.Quiet) ∧ Resting b' ∧
      b'.state = s := by
  obtain ⟨acts, hacts⟩ := h
  induction acts generalizing b with
  | nil => exact ⟨[], b, rfl, by simp, hb, by simpa using hacts⟩
  | cons a acts ih =>
      obtain ⟨t, ht, hrest⟩ := (run_cons_eq_some (step cfg)).mp hacts
      obtain ⟨front, mid, hfront, hquiet, hmid, rfl⟩ := exists_testStep (p := p) hb hs ht
      obtain ⟨back, b', hback, hquiet', hb'⟩ :=
        ih ((step_cases ht).wellFormed heven hs) hmid hrest
      refine ⟨front ++ back, b', (run_append_eq_some _).mpr ⟨mid, hfront, hback⟩, ?_, hb'⟩
      intro e he
      exact (List.mem_append.mp he).elim (hquiet e) (hquiet' e)

/-! ## A run behind eight others -/

/-- The run of second 8.  The earlier runs have left files of the same name. -/
def placeAt {bench : Bench} (hruns : Runs [text "benchmarks"] 20 (seconds 8) bench)
    (hentries : bench.entries = (seconds 8).map dirName) : Place where
  dirPath := [text "benchmarks"]
  century := 20
  times := seconds 8
  bench := bench
  runs := hruns
  next := runAt 8 (by decide) bench
  isNew := by
    show dirName (clockAt 8) ∉ bench.entries
    rw [hentries]
    exact dirName_clockAt_notMem (by decide)
  during _ := (runAt 8 (by decide) bench).after [text "benchmarks"]
  during_eq _ _ _ := Iff.rfl
  listing _ := ((runAt 8 (by decide) bench).after [text "benchmarks"]).entries
  listing_perm _ := List.Perm.refl _
  old _ name := if name = fileName 0 then writeAll [[1]] else none

theorem exists_place : ∃ p : Place, p.next.time = clockAt 8 ∧
    (p.next.removed p.dirPath).length = 5 ∧ p.old p.path (fileName 0) = writeAll [[1]] := by
  obtain ⟨bench, hruns, hentries⟩ := exists_runs [text "benchmarks"] (le_refl 8)
  refine ⟨placeAt hruns hentries, rfl, ?_, ?_⟩
  · apply NextRun.length_removed
    show (sortedDirs [text "benchmarks"] (runAt 8 (by decide) bench).listing).length > 8
    rw [length_runAt_dirs _ _ hentries]
    decide
  · simp [placeAt]

/-! ## One message in time, one too late -/

theorem receives_of_quiet (k i : ℕ) (h : ∀ e ∈ trace, e.Quiet) : receives k i trace = [] := by
  rw [receives, List.filterMap_eq_nil_iff]
  intro e he
  have hquiet := h e he
  cases e with
  | receive => exact hquiet.elim
  | parent | child | fail | send | save | unregister | unregisterFails => rfl

theorem receives_single (k i : ℕ) (m : Message) :
    receives k i [.receive 1 0 m] = if k = 1 ∧ i = 0 then [m] else [] := by
  by_cases hki : k = 1 ∧ i = 0
  · simp [receives, Occurrence.received, hki]
  · have hki' : ¬ (1 = k ∧ 0 = i) := by omega
    simp [receives, Occurrence.received, hki, hki']

theorem receives_late (k i : ℕ) (m : Message) (h : ∀ e ∈ trace, e.Quiet) :
    receives k i (.child 1 :: .save 1 0 :: .receive 1 0 m :: trace) =
      if k = 1 ∧ i = 0 then [m] else [] := by
  have hfront : ∀ e ∈ [Occurrence.child 1, .save 1 0], e.Quiet := by
    simp [Occurrence.Quiet]
  have hsplit : Occurrence.child 1 :: .save 1 0 :: .receive 1 0 m :: trace =
      [.child 1, .save 1 0] ++ ([.receive 1 0 m] ++ trace) := rfl
  rw [hsplit, receives_append, receives_append, receives_of_quiet k i hfront, receives_single,
    receives_of_quiet k i h, List.nil_append, List.append_nil]

theorem counted_sublist (k i : ℕ) (trace : List Occurrence) :
    (counted k i trace).Sublist (receives k i trace) :=
  (List.takeWhile_sublist _).filterMap _

theorem testStep_receive {i : ℕ} {m : Message} {d : Delivery} (hi : i < cfg.uris)
    (hlistens : Listens (b.state.child k) (b.proc k).leaving i = true)
    (hd : deliver ((b.proc k).listeners i) m = some d) :
    testStep cfg p b (.receive k i m) =
      some (b.setProc k { b.proc k with listeners := update (b.proc k).listeners i d }) := by
  rw [testStep, if_pos ⟨hi, hlistens⟩, hd, Option.map_some]

/-- Listener 0 is still registered when its vector has been written. -/
theorem exists_late (p : Place) {m : Message} {d : Delivery} (huris : 0 < cfg.uris)
    (hc : b.state.child k = .waitStop) (hq : (b.proc k).leaving = .running)
    (hslot : Holds (b.state.slot k) stop) (hd : deliver ((b.proc k).listeners 0) m = some d) :
    ∃ rest b', run (testStep cfg p) b (.child k :: .save k 0 :: .receive k 0 m :: rest) = some b' ∧
      (∀ e ∈ rest, e.Quiet) ∧ (∀ j ≠ k, b'.proc j = b.proc j) ∧
      b'.state = b.state.setChild k .exited := by
  let u : TestRun := b.setProc k { b.proc k with leaving := .saving 0 }
  let v : TestRun := { u.setProc k { u.proc k with leaving := .saving 1 } with
    files := saveIn p.path (fileName k) u.files ((u.proc k).listeners 0).listener.durationVec }
  let w : TestRun := v.setProc k { v.proc k with listeners := update (v.proc k).listeners 0 d }
  have hu : testStep cfg p b (.child k) = some u := by
    simp [testStep, hc, hq, hslot, u]
  have hv : testStep cfg p u (.save k 0) = some v := by
    simp [testStep, u, v, TestRun.setProc, hc, huris, TestRun.save, p.workingDir_eq]
  have hw : testStep cfg p v (.receive k 0 m) = some w := by
    apply testStep_receive huris
    · simp [u, v, TestRun.setProc, hc, Listens]
    · simpa [u, v, TestRun.setProc] using hd
  obtain ⟨rest, b', hrest, hquiet, hothers, hexited⟩ := exists_leave cfg p
    (b := w) hc (by simp [u, v, w, TestRun.setProc])
  refine ⟨rest, b', by simp [run, hu, hv, hw, hrest], hquiet, ?_, hexited⟩
  intro j hj
  rw [hothers j hj]
  simp [u, v, w, TestRun.setProc, hj]

/-- Subscriber 1 is registered before publisher 0 has started. -/
theorem exists_registered (p : Place) :
    ∃ trace b, run (testStep shipped p) (.initial p freshSlots) trace = some b ∧
      (∀ e ∈ trace, e.Quiet) ∧ b.state.parent = .polling 0 0 ∧ b.state.child 0 = .launched ∧
      b.state.child 1 = .waitStop ∧ b.proc = fun _ ↦ .fresh := by
  refine ⟨List.replicate 8 .parent ++ List.replicate 3 (.child 1), _, rfl, ?_, rfl, rfl, rfl, rfl⟩
  simp [Occurrence.Quiet]

/-- Listener 0 of subscriber 1 gets a message, and everything is sent. -/
theorem exists_in_time (p : Place) {m : Message} {d : Delivery}
    (hd : deliver .fresh m = some d) :
    ∃ trace b, run (testStep shipped p) (.initial p freshSlots) trace = some b ∧
      (∀ e ∈ trace, e.Quiet ∨ e = .receive 1 0 m) ∧
      (∀ k i, receives k i trace = if k = 1 ∧ i = 0 then [m] else []) ∧ Resting b ∧
      b.state.parent = .waiting 0 ∧ b.state.child 0 = .stopped ∧ b.state.child 1 = .waitStop ∧
      Holds (b.state.slot 1) stop := by
  obtain ⟨front, b, hfront, hquiet, hp, hpub, hsub, hproc⟩ := exists_registered p
  have hs := (tracks_of_run rfl hfront).wellFormed rfl
  let u := b.setProc 1 { b.proc 1 with listeners := update (b.proc 1).listeners 0 d }
  have hu : testStep shipped p b (.receive 1 0 m) = some u := by
    apply testStep_receive (by decide)
    · rw [hsub, hproc]
      rfl
    · rw [hproc]
      exact hd
  have hresting : Resting u := by
    intro k
    left
    by_cases hk : k = 1 <;> simp [u, TestRun.setProc, hproc, hk, Proc.fresh]
  obtain ⟨s, hleads, hstops⟩ := leads_stops hp hpub hsub
  obtain ⟨back, v, hback, hquiet', hv, rfl⟩ := exists_trace (b := u) rfl hs hresting hleads
  refine ⟨front ++ .receive 1 0 m :: back, v, ?_, ?_, ?_, hv, hstops⟩
  · exact (run_append_eq_some _).mpr ⟨b, hfront, (run_cons_eq_some _).mpr ⟨u, hu, hback⟩⟩
  · intro e he
    rcases List.mem_append.mp he with he | he
    · exact Or.inl (hquiet e he)
    · rcases List.mem_cons.mp he with rfl | he
      · exact Or.inr rfl
      · exact Or.inl (hquiet' e he)
  · intro k i
    rw [← List.singleton_append, receives_append, receives_append, receives_of_quiet k i hquiet,
      receives_of_quiet k i hquiet', receives_single, List.nil_append, List.append_nil]

/-- In the shipped configuration listener 0 of subscriber 1 gets `m` before its
vector is written and `m'` after it. -/
theorem exists_run_receiving (p : Place) {m m' : Message} {d' : Delivery}
    (h : run deliver .fresh [m, m'] = some d') :
    ∃ trace b, run (testStep shipped p) (.initial p freshSlots) trace = some b ∧
      b.state.parent = .reporting ∧ b.state.child 1 = .exited ∧
      (∀ k i, receives k i trace = if k = 1 ∧ i = 0 then [m, m'] else []) ∧
      (∀ k i, counted k i trace = if k = 1 ∧ i = 0 then [m] else []) ∧
      ∀ e ∈ trace, e.Quiet ∨ e = .receive 1 0 m ∨ e = .receive 1 0 m' := by
  obtain ⟨d, hd, hlate⟩ := (run_cons_eq_some deliver).mp h
  obtain ⟨d'', hd', -⟩ := (run_cons_eq_some deliver).mp hlate
  obtain ⟨pre, b, hpre, hquiet, hreceives, hresting, hp, hstopped, hwaits, hslot⟩ :=
    exists_in_time p hd
  have hb := tracks_of_run rfl hpre
  have hq : (b.proc 1).leaving = .running := hresting.running hwaits rfl
  have hlistener : (b.proc 1).listeners 0 = d := by
    have hlast := (hb.child 1).listeners 0
    rw [hreceives, if_pos ⟨rfl, rfl⟩] at hlast
    simpa [run, hd, eq_comm] using hlast
  obtain ⟨rest, u, hrest, hquiet', hothers, hexited⟩ := exists_late p
    (show 0 < shipped.uris by decide) hwaits hq hslot (hlistener.symm ▸ hd')
  have hu := tracks_of_run rfl ((run_append_eq_some _).mpr ⟨b, hpre, hrest⟩)
  have hresting' : Resting u := by
    apply hresting.done hothers
    · rw [hexited]
      exact setChild_of_ne b.state .exited
    · simp [hexited, Child.terminated]
  obtain ⟨t, hleads, ht⟩ := leads_reaped hp hstopped
  obtain ⟨back, v, hback, hquiet'', -, rfl⟩ := exists_trace (p := p) (b := u) rfl
    (hu.wellFormed rfl) hresting' (hexited.symm ▸ hleads)
  have hrun : run (testStep shipped p) b
      (.child 1 :: .save 1 0 :: .receive 1 0 m' :: (rest ++ back)) = some v :=
    (run_append_eq_some _).mpr ⟨u, hrest, hback⟩
  have hend : ∀ e ∈ rest ++ back, e.Quiet := by
    intro e he
    exact (List.mem_append.mp he).elim (hquiet' e) (hquiet'' e)
  have hnone : ∀ e ∈ pre, e.saves 1 0 = false := (hb.child 1).notSaved (by simp [hq, Leaving.count])
  refine ⟨pre ++ .child 1 :: .save 1 0 :: .receive 1 0 m' :: (rest ++ back), v,
    (run_append_eq_some _).mpr ⟨b, hpre, hrun⟩, ht.1, ht.2, ?_, ?_, ?_⟩
  · intro k i
    rw [receives_append, hreceives, receives_late k i m' hend]
    split <;> rfl
  · intro k i
    by_cases hki : k = 1 ∧ i = 0
    · obtain ⟨rfl, rfl⟩ := hki
      rw [counted_append hnone, hreceives, if_pos ⟨rfl, rfl⟩]
      simp [counted, receives, Occurrence.saves, Occurrence.received]
    · rw [if_neg hki]
      apply List.eq_nil_of_sublist_nil
      have hsub := counted_sublist k i
        (pre ++ .child 1 :: .save 1 0 :: .receive 1 0 m' :: (rest ++ back))
      rwa [receives_append, hreceives, receives_late k i m' hend, if_neg hki, if_neg hki] at hsub
  · intro e he
    rcases List.mem_append.mp he with he | he
    · rcases hquiet e he with hquiet | heq
      · exact Or.inl hquiet
      · exact Or.inr (Or.inl heq)
    · simp only [List.mem_cons] at he
      rcases he with rfl | rfl | rfl | he
      · exact Or.inl trivial
      · exact Or.inl trivial
      · exact Or.inr (Or.inr rfl)
      · exact Or.inl (hend e he)

end UpZenohExample
