import UpZenohExample.Schedules

/-!
# The Start and Stop handshakes

Start and Stop share the slot of a child, and neither of them is acknowledged.
The parent's Start can overwrite a Stop that a publisher has written already,
and the parent's Stop can overwrite a Start that a subscriber has not read yet.
-/

namespace UpZenohExample

open ByteText Function LabelledRun

variable {cfg : Config} {s t : State} {a : Action}

theorem phase_le_of_run {acts : List Action} (h : run (step cfg) s acts = some t) :
    s.parent.phase ≤ t.parent.phase := by
  have hstep : ∀ u b v, step cfg u b = some v → u.parent.phase ≤ v.parent.phase :=
    fun _ _ _ hv ↦ (step_cases hv).phase_le
  exact run_monotone (f := fun u ↦ u.parent.phase) hstep h

theorem phase_le_of_takes {acts : List Action} {u : State}
    (h : Takes (step cfg) s acts u a) (hrun : run (step cfg) s acts = some t) :
    u.parent.phase ≤ t.parent.phase := by
  obtain ⟨post, hpost⟩ := h.exists_suffix hrun
  exact phase_le_of_run hpost

theorem step_starting {k : ℕ} (hp : s.parent = .starting k) (hk : k < cfg.maxProcess) :
    step cfg s .parent = some { s with
      parent := .starting (k + 1)
      slot := update s.slot k (writeSlot (s.slot k) start) } := by
  simp [step, parentStep, hp, hk]

theorem step_stopping {k : ℕ} (hp : s.parent = .stopping k) (hk : k < cfg.maxProcess)
    (hsub : k % 2 = 1) :
    step cfg s .parent = some { s with
      parent := .stopping (k + 1)
      slot := update s.slot k (writeSlot (s.slot k) stop) } := by
  simp [step, parentStep, hp, hk, hsub]

/-! ## The Stop of a publisher -/

/-- The parent has counted slot `k` in the run of `acts`. -/
def Counted (cfg : Config) (slots : ℕ → Text) (acts : List Action) (k : ℕ) : Prop :=
  ∃ u c, Takes (step cfg) (.initial slots) acts u .parent ∧ u.parent = .polling k c ∧
    k < cfg.maxProcess ∧ roleOf k = text "p" ∧ Holds (u.slot k) stop

/-- After a publisher's Stop its slot holds Stop until the parent has counted it. -/
def StopKept (cfg : Config) (slots : ℕ → Text) (acts : List Action) : Prop :=
  ∀ pre post s k, acts = pre ++ post → run (step cfg) (.initial slots) pre = some s →
    s.child k = .stopped → ¬ Counted cfg slots pre k → Holds (s.slot k) stop

/-- Each Start of the parent is written before the publisher's Stop. -/
def StartBeforeStop (cfg : Config) (slots : ℕ → Text) (acts : List Action) : Prop :=
  ∀ s k, Takes (step cfg) (.initial slots) acts s .parent → s.parent = .starting k →
    k < cfg.maxProcess → s.child k ≠ .stopped

def StopsHeld (s : State) : Prop := ∀ k, s.child k = .stopped → Holds (s.slot k) stop

/-- Only a Start of the parent can remove the Stop of a publisher. -/
theorem Step.stopsHeld (h : Step cfg s a t) (hs : StopsHeld s)
    (hstart : ∀ k, a = .parent → s.parent = .starting k → k < cfg.maxProcess →
      s.child k ≠ .stopped) :
    StopsHeld t := by
  intro k hk
  rcases h.slot_cases k with hsame | ⟨ha, hp, hlt, -⟩ | ⟨-, -, -, -, hwrite⟩ | ⟨-, -, hwrite⟩
  · rcases h.stopped_cases hk with hbefore | ⟨-, hwrite⟩
    · rw [hsame]
      exact hs k hbefore
    · rw [hwrite]
      simp
  · rcases h.stopped_cases hk with hbefore | ⟨hchild, -⟩
    · exact absurd hbefore (hstart k ha hp hlt)
    · rw [ha] at hchild
      cases hchild
  · rw [hwrite]
    simp
  · rw [hwrite]
    simp

theorem not_counted_of_starting {slots : ℕ → Text} {acts : List Action} {i : ℕ}
    (hrun : run (step cfg) (.initial slots) acts = some s) (hp : s.parent = .starting i) (k : ℕ) :
    ¬ Counted cfg slots acts k := by
  rintro ⟨u, c, htakes, hpolling, -⟩
  have hphase := phase_le_of_takes htakes hrun
  rw [hpolling, hp] at hphase
  simp [Parent.phase] at hphase

theorem publisher_stop_kept_iff (cfg : Config) (slots : ℕ → Text) (acts : List Action) :
    StopKept cfg slots acts ↔ StartBeforeStop cfg slots acts := by
  constructor
  · rintro hkept s k ⟨pre, post, hacts, hpre⟩ hp hk hstopped
    have hnext := step_starting hp hk
    have hrun := (run_snoc_eq_some (step cfg)).mpr ⟨s, hpre, hnext⟩
    have hnot : ¬ Counted cfg slots (pre ++ [.parent]) k := not_counted_of_starting hrun rfl k
    have hholds := hkept (pre ++ [.parent]) post _ k (by simp [hacts]) hrun
    simpa using hholds hstopped hnot
  · intro hbefore pre post s k hacts hrun hstopped _
    have h0 : StopsHeld (.initial slots) := by
      intro j hj
      cases hj
    have hreaches : Reaches (step cfg) (.initial slots) acts s := ⟨pre, post, hacts, hrun⟩
    refine hreaches.invariant_of_steps (C := fun u b ↦ ∀ j, b = .parent →
      u.parent = .starting j → j < cfg.maxProcess → u.child j ≠ .stopped) ?_ h0 ?_ k hstopped
    · intro u b v hu hC hv
      exact (step_cases hv).stopsHeld hu hC
    · rintro u b htakes j rfl hp hj
      exact hbefore u j htakes hp hj

/-- Process 0 publishes everything between its `fork` and the Start of the parent. -/
theorem publisher_stop_lost :
    ¬ StopKept shipped freshSlots
      (.parent :: List.replicate 1000002 (.child 0) ++ List.replicate 5 .parent) := by
  intro hkept
  have hlife : ∀ s : State, s.child 0 = .launched →
      run (step shipped) s (List.replicate 1000002 (.child 0)) = some (s.withStop 0) :=
    fun s hc ↦ run_withStop shipped rfl hc
  have hfork : step shipped (.initial freshSlots) .parent =
      some ⟨.mapping 0, update (fun _ ↦ .unborn) 0 .launched, freshSlots⟩ := rfl
  obtain ⟨u, hstart, hp, hc, hslot⟩ : ∃ u : State, run (step shipped)
      (State.withStop ⟨.mapping 0, update (fun _ ↦ .unborn) 0 .launched, freshSlots⟩ 0)
      (List.replicate 5 .parent) = some u ∧ u.parent = .starting 1 ∧ u.child 0 = .stopped ∧
      u.slot 0 = writeSlot (writeSlot (freshSlots 0) stop) start := ⟨_, rfl, rfl, rfl, rfl⟩
  have hrun : run (step shipped) (.initial freshSlots)
      (.parent :: List.replicate 1000002 (.child 0) ++ List.replicate 5 .parent) = some u := by
    refine (run_append_eq_some (step shipped)).mpr ⟨_, ?_, hstart⟩
    exact (run_cons_eq_some (step shipped)).mpr ⟨_, hfork, hlife _ rfl⟩
  have hholds := hkept _ [] u 0 (by rw [List.append_nil]) hrun hc
    (not_counted_of_starting hrun hp 0)
  rw [hslot] at hholds
  simp at hholds

/-! ## The Start of a subscriber -/

/-- The child is past the wait-for-Start loop. -/
def Child.PastStart : Child → Prop
  | .registering | .waitStop | .exited | .failed => True
  | .unborn | .launched | .publishing _ | .stopped | .waitStart => False

/-- Subscriber `k` still polls for Start on a slot that holds the parent's Stop. -/
def MissedStart (s : State) (k : ℕ) : Prop :=
  s.child k = .waitStart ∧ s.parent.StopWritten k ∧ Holds (s.slot k) stop

/-- Each Stop of the parent is written when the subscriber is past its Start. -/
def StopAfterStart (cfg : Config) (slots : ℕ → Text) (acts : List Action) : Prop :=
  ∀ s k, Takes (step cfg) (.initial slots) acts s .parent → s.parent = .stopping k →
    k < cfg.maxProcess → roleOf k = text "s" → (s.child k).PastStart

def StartHeard (cfg : Config) (slots : ℕ → Text) (acts : List Action) : Prop :=
  ∀ s k, Reaches (step cfg) (.initial slots) acts s → k < cfg.maxProcess → ¬ MissedStart s k

/-- A subscriber whose slot the Stop broadcast has passed is past its Start. -/
def StopsHeard (cfg : Config) (s : State) : Prop :=
  ∀ k < cfg.maxProcess, s.parent.StopWritten k → k % 2 = 1 → (s.child k).PastStart

theorem ChildMove.pastStart {mem : Text} {k : ℕ} {c d : Child} (h : ChildMove cfg mem k c d)
    (hc : c.PastStart) : d.PastStart := by
  cases h <;> trivial

theorem ChildMove.ne_unborn {mem : Text} {k : ℕ} {c d : Child} (h : ChildMove cfg mem k c d) :
    d ≠ .unborn := by
  cases h <;> simp

theorem Step.pastStart (h : Step cfg s a t) {k : ℕ} (hp : s.parent ≠ .creating k)
    (hs : (s.child k).PastStart) : (t.child k).PastStart := by
  rcases h.child_cases k with hsame | ⟨-, hcreating, -⟩ | ⟨-, hmove⟩
  · rwa [hsame]
  · exact absurd hcreating hp
  · exact hmove.pastStart hs

theorem Step.stopsHeard (h : Step cfg s a t) (hs : StopsHeard cfg s)
    (hstop : ∀ k, a = .parent → s.parent = .stopping k → k < cfg.maxProcess →
      roleOf k = text "s" → (s.child k).PastStart) :
    StopsHeard cfg t := by
  intro k hk hwritten hsub
  rcases h.stopWritten_cases hk hwritten with hbefore | ⟨ha, hp⟩
  · apply h.pastStart _ (hs k hk hbefore hsub)
    intro hp
    rw [hp] at hbefore
    exact hbefore
  · apply h.pastStart _ (hstop k ha hp hk ((roleOf_eq_sub_iff k).mpr hsub))
    simp [hp]

def Parent.Forked (k : ℕ) : Parent → Prop
  | .creating i => k < i
  | .mapping i => k ≤ i
  | .starting _ | .polling _ _ | .stopping _ | .waiting _ | .reporting => True

theorem Step.forked_cases (h : Step cfg s a t) {k : ℕ} (hk : k < cfg.maxProcess)
    (ht : t.parent.Forked k) : s.parent.Forked k ∨ t.child k = .launched := by
  cases h <;> simp_all [Parent.Forked, update_apply] <;> omega

theorem Step.ne_unborn (h : Step cfg s a t) {k : ℕ} (hs : s.child k ≠ .unborn) :
    t.child k ≠ .unborn := by
  rcases h.child_cases k with hsame | ⟨-, -, hlaunched⟩ | ⟨-, hmove⟩
  · rwa [hsame]
  · simp [hlaunched]
  · exact hmove.ne_unborn

theorem ne_unborn_of_reaches {slots : ℕ → Text} {acts : List Action} {k : ℕ}
    (h : Reaches (step cfg) (.initial slots) acts s) (hk : k < cfg.maxProcess)
    (hp : s.parent.Forked k) : s.child k ≠ .unborn := by
  have h0 : (State.initial slots).parent.Forked k → (State.initial slots).child k ≠ .unborn := by
    intro hforked
    simp [State.initial, Parent.Forked] at hforked
  refine invariant_of_reaches (P := fun u ↦ u.parent.Forked k → u.child k ≠ .unborn) ?_ h0 h hp
  intro u b v hu hstep hforked
  rcases hstep.forked_cases hk hforked with hbefore | hlaunched
  · exact hstep.ne_unborn (hu hbefore)
  · simp [hlaunched]

/-- A Stop that comes too early leads to a subscriber that misses its Start. -/
theorem leads_missedStart {k : ℕ} (hroles : RolesOk s) (hborn : s.child k ≠ .unborn)
    (hp : s.parent = .stopping k) (hk : k < cfg.maxProcess) (hsub : k % 2 = 1)
    (hearly : ¬ (s.child k).PastStart) : ∃ t, Leads (step cfg) s t ∧ MissedStart t k := by
  have hwrite := (Leads.refl s).tail (step_stopping hp hk hsub)
  have hrole := hroles k
  cases hc : s.child k with
  | launched =>
      have hopen : step cfg { s with
          parent := .stopping (k + 1)
          slot := update s.slot k (writeSlot (s.slot k) stop) } (.child k) = some
            (State.setChild { s with
              parent := .stopping (k + 1)
              slot := update s.slot k (writeSlot (s.slot k) stop) } k .waitStart) := by
        simp [step, childStep, hc, hsub]
      refine ⟨_, hwrite.tail hopen, ?_⟩
      simp [MissedStart, Parent.StopWritten]
  | waitStart =>
      refine ⟨_, hwrite, ?_⟩
      simp [MissedStart, Parent.StopWritten, hc]
  | unborn => exact absurd hc hborn
  | publishing sent | stopped =>
      rw [hc] at hrole
      have hpub : k % 2 = 0 := hrole
      omega
  | _ => simp [hc, Child.PastStart] at hearly

theorem subscriber_start_heard (cfg : Config) (slots : ℕ → Text) (acts : List Action) :
    (StopAfterStart cfg slots acts → StartHeard cfg slots acts) ∧
      ∀ s k, Takes (step cfg) (.initial slots) acts s .parent → s.parent = .stopping k →
        k < cfg.maxProcess → roleOf k = text "s" → ¬ (s.child k).PastStart →
        ∃ t, Leads (step cfg) s t ∧ MissedStart t k := by
  constructor
  · rintro hafter s k hreaches hk ⟨hwait, hwritten, -⟩
    have h0 : StopsHeard cfg (.initial slots) := fun _ _ hwritten ↦ False.elim hwritten
    have hheard : StopsHeard cfg s := by
      refine hreaches.invariant_of_steps (C := fun u b ↦ ∀ j, b = .parent →
        u.parent = .stopping j → j < cfg.maxProcess → roleOf j = text "s" →
        (u.child j).PastStart) ?_ h0 ?_
      · intro u b v hu hC hv
        exact (step_cases hv).stopsHeard hu hC
      · rintro u b htakes j rfl hp hj hsub
        exact hafter u j htakes hp hj hsub
    have hsub : k % 2 = 1 := by
      have hrole := rolesOk_of_reaches hreaches k
      rwa [hwait] at hrole
    have hpast := hheard k hk hwritten hsub
    rw [hwait] at hpast
    exact hpast
  · intro s k htakes hp hk hsub hearly
    have hborn := ne_unborn_of_reaches (k := k) htakes.reaches hk (by simp [hp, Parent.Forked])
    exact leads_missedStart (rolesOk_of_reaches htakes.reaches) hborn hp hk
      ((roleOf_eq_sub_iff k).mp hsub) hearly

theorem Step.stopWritten_mono (h : Step cfg s a t) {k : ℕ} (hk : s.parent.StopWritten k) :
    t.parent.StopWritten k := by
  cases h <;> simp_all [Parent.StopWritten] <;> omega

/-- A subscriber that has missed its Start polls for ever. -/
theorem Step.missedStart (h : Step cfg s a t) {k : ℕ} (hs : MissedStart s k) :
    MissedStart t k := by
  obtain ⟨hwait, hwritten, hstop⟩ := hs
  have hchild : t.child k = .waitStart := by
    rcases h.child_cases k with hsame | ⟨-, hp, -⟩ | ⟨-, hmove⟩
    · exact hsame.trans hwait
    · rw [hp] at hwritten
      exact False.elim hwritten
    · rw [hwait] at hmove
      generalize t.child k = d at hmove
      cases hmove with
      | gotStart hstart => exact absurd (hstart.unique hstop) start_ne_stop
  refine ⟨hchild, h.stopWritten_mono hwritten, ?_⟩
  rcases h.slot_cases k with hsame | ⟨-, hp, -⟩ | ⟨-, -, -, -, hwrite⟩ | ⟨-, hstopped, -⟩
  · rwa [hsame]
  · rw [hp] at hwritten
    exact False.elim hwritten
  · rw [hwrite]
    simp
  · rw [hstopped] at hchild
    cases hchild

def Parent.Reaped (k : ℕ) : Parent → Prop
  | .waiting i => k < i
  | .reporting => True
  | .creating _ | .mapping _ | .starting _ | .polling _ _ | .stopping _ => False

theorem Step.reaped_cases (h : Step cfg s a t) {k : ℕ} (hk : k < cfg.maxProcess)
    (ht : t.parent.Reaped k) :
    s.parent.Reaped k ∨ (s.parent = .waiting k ∧ (s.child k).terminated = true) := by
  cases h with
  | reap hp hi hchild =>
      rename_i i
      have hki : k < i + 1 := ht
      by_cases heq : k = i
      · subst heq
        exact Or.inr ⟨hp, hchild⟩
      · left
        simp only [hp, Parent.Reaped]
        omega
  | reaped hp hi =>
      left
      simp only [hp, Parent.Reaped]
      omega
  | _ => simp_all [Parent.Reaped]

theorem Step.terminated (h : Step cfg s a t) {k : ℕ} (hp : s.parent ≠ .creating k)
    (hs : (s.child k).terminated = true) : (t.child k).terminated = true := by
  rcases h.child_cases k with hsame | ⟨-, hcreating, -⟩ | ⟨-, hmove⟩
  · rwa [hsame]
  · exact absurd hcreating hp
  · generalize s.child k = c at hs hmove
    generalize t.child k = d at hmove
    cases hmove <;> simp [Child.terminated] at hs

theorem terminated_of_reaped {slots : ℕ → Text} {acts : List Action} {k : ℕ}
    (h : Reaches (step cfg) (.initial slots) acts s) (hk : k < cfg.maxProcess)
    (hp : s.parent.Reaped k) : (s.child k).terminated = true := by
  have h0 : (State.initial slots).parent.Reaped k →
      ((State.initial slots).child k).terminated = true := False.elim
  refine invariant_of_reaches
    (P := fun u ↦ u.parent.Reaped k → (u.child k).terminated = true) ?_ h0 h hp
  intro u b v hu hstep hreaped
  rcases hstep.reaped_cases hk hreaped with hbefore | ⟨hwaiting, hchild⟩
  · apply hstep.terminated _ (hu hbefore)
    intro hcreating
    rw [hcreating] at hbefore
    exact hbefore
  · apply hstep.terminated _ hchild
    simp [hwaiting]

/-- After a missed Start neither the subscriber nor `run_tests` comes to an end. -/
theorem missedStart_forever {slots : ℕ → Text} {acts more : List Action} {k : ℕ}
    (hk : k < cfg.maxProcess) (hacts : run (step cfg) (.initial slots) acts = some s)
    (hs : MissedStart s k) (hmore : run (step cfg) s more = some t) :
    MissedStart t k ∧ t.parent ≠ .reporting := by
  have hkept : ∀ u b v, MissedStart u k → Step cfg u b v → MissedStart v k :=
    fun _ _ _ hu hstep ↦ hstep.missedStart hu
  have hmissed := invariant_of_reaches hkept hs (reaches_final hmore)
  refine ⟨hmissed, ?_⟩
  intro hreporting
  have hrun := (run_append_eq_some (step cfg)).mpr ⟨s, hacts, hmore⟩
  have hdone := terminated_of_reaped (reaches_final hrun) hk (by simp [hreporting, Parent.Reaped])
  rw [hmissed.1] at hdone
  cases hdone

/-- Subscriber 1 is in its loop, but polls again only after publisher 0 is done. -/
theorem subscriber_start_missed :
    ¬ StartHeard shipped freshSlots
      (List.replicate 8 .parent ++ .child 1 :: List.replicate 1000002 (.child 0) ++
        List.replicate 5 .parent) := by
  intro hheard
  have hlife : ∀ s : State, s.child 0 = .launched →
      run (step shipped) s (List.replicate 1000002 (.child 0)) = some (s.withStop 0) :=
    fun s hc ↦ run_withStop shipped rfl hc
  obtain ⟨s, hbroadcast, hp, hpub, hsub⟩ : ∃ s : State,
      run (step shipped) (.initial freshSlots) (List.replicate 8 .parent ++ [.child 1]) = some s ∧
      s.parent = .polling 0 0 ∧ s.child 0 = .launched ∧ s.child 1 = .waitStart :=
    ⟨_, rfl, rfl, rfl, rfl⟩
  obtain ⟨t, hstops, hmissed⟩ : ∃ t : State,
      run (step shipped) (s.withStop 0) (List.replicate 5 .parent) = some t ∧
        MissedStart t 1 := by
    simp [List.replicate, run, step, parentStep, State.withStop, shipped, hp, hsub,
      MissedStart, Parent.StopWritten]
  refine hheard t 1 ⟨_, [], (List.append_nil _).symm, ?_⟩ (by decide) hmissed
  refine (run_append_eq_some (step shipped)).mpr ⟨_, ?_, hstops⟩
  have hrun := (run_append_eq_some (step shipped)).mpr ⟨s, hbroadcast, hlife s hpub⟩
  rwa [List.append_assoc] at hrun

end UpZenohExample
