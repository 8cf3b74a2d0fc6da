import UpZenohExample.Schedules

/-!
# The exit test of the polling loop

A polling pass counts the publisher slots that hold Stop and compares the count
with `max_process / 2`.  There are `(max_process + 1) / 2` publishers.
-/

namespace UpZenohExample

open ByteText Function LabelledRun

variable {cfg : Config} {slots : ℕ → Text} {s t : State} {a : Action}

def PubsStopped (s : State) (i : ℕ) : Prop :=
  ∀ j < i, roleOf j = text "p" → s.child j = .stopped

def PubsHold (cfg : Config) (s : State) : Prop :=
  ∀ j < cfg.maxProcess, roleOf j = text "p" → Holds (s.slot j) stop

/-- The parent writes Stop to a subscriber only when all publishers are done. -/
def StopsAfterPublishers (cfg : Config) : Prop :=
  ∀ slots acts s k, Takes (step cfg) (.initial slots) acts s .parent → s.parent = .stopping k →
    k < cfg.maxProcess → roleOf k = text "s" → PubsStopped s cfg.maxProcess

/-- A pass during which all publisher slots hold Stop ends with a true exit test. -/
def PassExits (cfg : Config) : Prop :=
  ∀ slots pre s pass t count, run (step cfg) (.initial slots) pre = some s →
    s.parent = .polling 0 0 → run (step cfg) s pass = some t →
    (∀ u, Reaches (step cfg) s pass u → PubsHold cfg u) →
    t.parent = .polling cfg.maxProcess count → count = cfg.maxProcess / 2

/-! ## What a counted slot says -/

/-- A Stop found in a publisher's slot after the Start broadcast is the publisher's own. -/
def OwnStops (cfg : Config) (s : State) : Prop :=
  ∀ k < cfg.maxProcess, k % 2 = 0 → s.parent.Started k → Holds (s.slot k) stop →
    s.child k = .stopped

theorem Step.ownStops (h : Step cfg s a t) (hs : OwnStops cfg s) : OwnStops cfg t := by
  intro k hk hpub hstarted hholds
  rcases h.slot_cases k with hsame | ⟨-, -, -, hwrite⟩ | ⟨-, -, -, hsub, -⟩ | ⟨-, hstopped, -⟩
  · rcases h.started_cases hk hstarted with hbefore | ⟨rfl, hp⟩
    · rw [hsame] at hholds
      rcases h.stopped_of_stopped (hs k hk hpub hbefore hholds) with hstopped | hp
      · exact hstopped
      · rw [hp] at hbefore
        exact False.elim hbefore
    · rw [(h.writes_start hp hk).2] at hholds
      simp at hholds
  · rw [hwrite] at hholds
    simp at hholds
  · omega
  · exact hstopped

theorem Step.pubsStopped (h : Step cfg s a t) {i : ℕ} (hp : 2 ≤ s.parent.phase)
    (hs : PubsStopped s i) : PubsStopped t i := by
  intro j hj hpub
  rcases h.stopped_of_stopped (hs j hj hpub) with hstopped | hcreating
  · exact hstopped
  · rw [hcreating] at hp
    simp [Parent.phase] at hp

theorem pubsStopped_succ {i : ℕ} (hs : PubsStopped s i) (hi : i % 2 = 0 → s.child i = .stopped) :
    PubsStopped s (i + 1) := by
  intro j hj hpub
  rw [roleOf_eq_pub_iff] at hpub
  by_cases hji : j = i
  · subst hji
    exact hi hpub
  · exact hs j (by omega) ((roleOf_eq_pub_iff j).mpr hpub)

/-- Among the `(i + 1) / 2` publishers below `i`, those counted have written Stop. -/
def CountOk (cfg : Config) (s : State) : Prop :=
  match s.parent with
  | .creating _ | .mapping _ | .starting _ => True
  | .polling i count =>
      i ≤ cfg.maxProcess ∧ count ≤ (i + 1) / 2 ∧ (count = (i + 1) / 2 → PubsStopped s i)
  | .stopping _ | .waiting _ | .reporting => PubsStopped s cfg.maxProcess

theorem Step.countOk_of_child (h : Step cfg s a t) (ha : a ≠ .parent) (hs : CountOk cfg s) :
    CountOk cfg t := by
  have hparent := h.parent_eq ha
  have hkeep (i : ℕ) (hp : 2 ≤ s.parent.phase) (hi : PubsStopped s i) : PubsStopped t i :=
    h.pubsStopped hp hi
  unfold CountOk at hs ⊢
  rw [hparent]
  cases hp : s.parent with
  | creating | mapping | starting => trivial
  | polling i count =>
      rw [hp] at hs hkeep
      obtain ⟨hi, hcount, hfull⟩ := hs
      exact ⟨hi, hcount, fun heq ↦ hkeep i le_rfl (hfull heq)⟩
  | stopping i | waiting i | reporting =>
      rw [hp] at hs hkeep
      exact hkeep _ (by simp [Parent.phase]) hs

theorem Step.countOk_of_parent (heven : cfg.maxProcess % 2 = 0) (h : Step cfg s .parent t)
    (hown : OwnStops cfg s) (hs : CountOk cfg s) : CountOk cfg t := by
  unfold CountOk at hs
  cases h with
  | fork | created | mapped | writeStart => trivial
  | broadcast => exact ⟨Nat.zero_le _, le_rfl, fun _ j hj ↦ absurd hj (Nat.not_lt_zero j)⟩
  | count hp hi hpub hstop =>
      rename_i i count
      rw [hp] at hs
      obtain ⟨-, hcount, hfull⟩ := hs
      have hstopped := hown i hi hpub (by simp [hp, Parent.Started]) hstop
      refine ⟨hi, by omega, ?_⟩
      intro heq
      exact pubsStopped_succ (hfull (by omega)) fun _ ↦ hstopped
  | pass hp hi hnot =>
      rename_i i count
      rw [hp] at hs
      obtain ⟨-, hcount, hfull⟩ := hs
      refine ⟨hi, by omega, ?_⟩
      intro heq
      exact pubsStopped_succ (hfull (by omega)) fun hpub ↦ by omega
  | finish hp hi htest =>
      rename_i i count
      rw [hp] at hs
      obtain ⟨hle, hcount, hfull⟩ := hs
      have hlast : i = cfg.maxProcess := by omega
      subst hlast
      exact hfull (by omega)
  | again hp hi htest =>
      exact ⟨Nat.zero_le _, le_rfl, fun _ j hj ↦ absurd hj (Nat.not_lt_zero j)⟩
  | writeStop hp | skip hp | stopsWritten hp | reap hp | reaped hp =>
      rw [hp] at hs
      exact hs

theorem stops_after_publishers_of_even (heven : cfg.maxProcess % 2 = 0) :
    StopsAfterPublishers cfg := by
  intro slots acts s k htakes hp _ _
  have h0 : OwnStops cfg (.initial slots) ∧ CountOk cfg (.initial slots) :=
    ⟨fun _ _ _ hstarted ↦ False.elim hstarted, trivial⟩
  have hkept : ∀ u b v, OwnStops cfg u ∧ CountOk cfg u → Step cfg u b v →
      OwnStops cfg v ∧ CountOk cfg v := by
    rintro u b v ⟨hown, hcount⟩ hstep
    refine ⟨hstep.ownStops hown, ?_⟩
    by_cases hb : b = .parent
    · subst hb
      exact hstep.countOk_of_parent heven hown hcount
    · exact hstep.countOk_of_child hb hcount
  have hcount := (invariant_of_reaches hkept h0 htakes.reaches).2
  unfold CountOk at hcount
  rwa [hp] at hcount

/-! ## A full pass over stopped publishers -/

def PassCount (cfg : Config) (s : State) : Prop :=
  match s.parent with
  | .creating _ | .mapping _ | .starting _ => False
  | .polling i count => i ≤ cfg.maxProcess ∧ count = (i + 1) / 2
  | .stopping _ | .waiting _ | .reporting => True

theorem Step.passCount (h : Step cfg s a t) (hall : PubsHold cfg s) (hs : PassCount cfg s) :
    PassCount cfg t := by
  by_cases ha : a = .parent
  · subst ha
    unfold PassCount at hs
    cases h with
    | fork hp | created hp | mapped hp | writeStart hp | broadcast hp =>
        rw [hp] at hs
        exact False.elim hs
    | count hp hi hpub hstop =>
        rw [hp] at hs
        exact ⟨hi, by omega⟩
    | pass hp hi hnot =>
        rename_i i count
        rw [hp] at hs
        have hsub : i % 2 ≠ 0 := by
          intro hpub
          exact hnot ⟨hpub, hall i hi ((roleOf_eq_pub_iff i).mpr hpub)⟩
        exact ⟨hi, by omega⟩
    | again hp hi htest => exact ⟨Nat.zero_le _, rfl⟩
    | finish | writeStop | skip | stopsWritten | reap | reaped => trivial
  · have hparent := h.parent_eq ha
    unfold PassCount at hs ⊢
    rwa [hparent]

theorem count_of_fullPass {pass : List Action} {i count : ℕ} (hp : s.parent = .polling 0 0)
    (hrun : run (step cfg) s pass = some t)
    (hall : ∀ u, Reaches (step cfg) s pass u → PubsHold cfg u)
    (ht : t.parent = .polling i count) : count = (i + 1) / 2 := by
  have h0 : PassCount cfg s := by
    unfold PassCount
    rw [hp]
    exact ⟨Nat.zero_le _, rfl⟩
  have hkept : ∀ u b v, PassCount cfg u → PubsHold cfg u → step cfg u b = some v →
      PassCount cfg v := fun _ _ _ hu hC hv ↦ (step_cases hv).passCount hC hu
  have hcount := run_invariant hkept h0 (fun u b htakes ↦ hall u htakes.reaches) hrun
  unfold PassCount at hcount
  rw [ht] at hcount
  exact hcount.2

/-- Once the polling loop runs, no Stop of a publisher is overwritten. -/
theorem Step.pubsHold (h : Step cfg s a t) (hp : 2 ≤ s.parent.phase) (hs : PubsHold cfg s) :
    PubsHold cfg t := by
  intro j hj hpub
  rw [roleOf_eq_pub_iff] at hpub
  rcases h.slot_cases j with hsame | ⟨-, hstarting, -⟩ | ⟨-, -, -, hsub, -⟩ | ⟨-, -, hwrite⟩
  · rw [hsame]
    exact hs j hj ((roleOf_eq_pub_iff j).mpr hpub)
  · rw [hstarting] at hp
    simp [Parent.phase] at hp
  · omega
  · rw [hwrite]
    simp

theorem pubsHold_of_reaches {acts : List Action} (hp : 2 ≤ s.parent.phase) (hs : PubsHold cfg s)
    (h : Reaches (step cfg) s acts t) : PubsHold cfg t := by
  have hkept : ∀ u b v, 2 ≤ u.parent.phase ∧ PubsHold cfg u → Step cfg u b v →
      2 ≤ v.parent.phase ∧ PubsHold cfg v := by
    rintro u b v ⟨hphase, hhold⟩ hstep
    exact ⟨hphase.trans hstep.phase_le, hstep.pubsHold hphase hhold⟩
  exact (invariant_of_reaches hkept ⟨hp, hs⟩ h).2

/-- The parent alone can go through a full pass. -/
theorem leads_pass (hp : s.parent = .polling 0 0) {i : ℕ} (hi : i ≤ cfg.maxProcess) :
    ∃ t count, Leads (step cfg) s t ∧ t.parent = .polling i count := by
  induction i with
  | zero => exact ⟨s, 0, Leads.refl s, hp⟩
  | succ i ih =>
      obtain ⟨t, count, hleads, ht⟩ := ih (by omega)
      have hlt : i < cfg.maxProcess := by omega
      by_cases hcount : i % 2 = 0 ∧ Holds (t.slot i) stop
      · refine ⟨{ t with parent := .polling (i + 1) (count + 1) }, count + 1, ?_, rfl⟩
        apply hleads.tail (a := .parent)
        simp [step, parentStep, ht, hlt, hcount]
      · refine ⟨{ t with parent := .polling (i + 1) count }, count, ?_, rfl⟩
        apply hleads.tail (a := .parent)
        by_cases hpub : i % 2 = 0
        · have hnot : ¬ Holds (t.slot i) stop := fun hstop ↦ hcount ⟨hpub, hstop⟩
          simp [step, parentStep, ht, hlt, hpub, hnot]
        · simp [step, parentStep, ht, hlt, hpub]

/-- The polling loop can begin when all publishers have written Stop. -/
theorem exists_polling_stopped (cfg : Config) (slots : ℕ → Text) :
    ∃ s, Leads (step cfg) (.initial slots) s ∧ s.parent = .polling 0 0 ∧ PubsHold cfg s := by
  have hlaunched : ∀ k < cfg.maxProcess, (State.created slots cfg.maxProcess).child k =
      .launched := by
    intro k hk
    simp [State.created, hk]
  refine ⟨_, (leads_broadcast cfg slots).trans (leads_withStops cfg hlaunched), rfl, ?_⟩
  intro j hj hpub
  rw [roleOf_eq_pub_iff] at hpub
  simp [State.withStops, hj, hpub]

theorem even_of_passExits (hexits : PassExits cfg) : cfg.maxProcess % 2 = 0 := by
  obtain ⟨s, ⟨pre, hpre⟩, hp, hhold⟩ := exists_polling_stopped cfg freshSlots
  obtain ⟨t, count, ⟨pass, hpass⟩, ht⟩ := leads_pass hp (le_refl cfg.maxProcess)
  have hphase : 2 ≤ s.parent.phase := by simp [hp, Parent.phase]
  have hall : ∀ u, Reaches (step cfg) s pass u → PubsHold cfg u :=
    fun u hu ↦ pubsHold_of_reaches hphase hhold hu
  have hfull := count_of_fullPass hp hpass hall ht
  have htest := hexits freshSlots pre s pass t count hpre hp hpass hall ht
  omega

theorem exit_test_iff (cfg : Config) :
    (StopsAfterPublishers cfg ∧ PassExits cfg) ↔ cfg.maxProcess % 2 = 0 := by
  constructor
  · rintro ⟨-, hexits⟩
    exact even_of_passExits hexits
  · intro heven
    refine ⟨stops_after_publishers_of_even heven, ?_⟩
    intro slots pre s pass t count _ hp hpass hall ht
    have hfull := count_of_fullPass hp hpass hall ht
    omega

/-- With three processes one of the two publishers ends the polling loop. -/
theorem subscriber_stopped_early :
    ¬ (StopsAfterPublishers ⟨3, 10⟩ ∧ PassExits ⟨3, 10⟩) := by
  rintro ⟨hafter, -⟩
  obtain ⟨s, hbroadcast, hp, hfirst, hlast, hslot⟩ : ∃ s : State,
      run (step ⟨3, 10⟩) (.initial freshSlots) (List.replicate 11 .parent) = some s ∧
        s.parent = .polling 0 0 ∧ s.child 0 = .launched ∧ s.child 2 = .launched ∧
        s.slot 2 = writeSlot (freshSlots 2) start := ⟨_, rfl, rfl, rfl, rfl, rfl⟩
  have hlife : run (step ⟨3, 10⟩) s (List.replicate 1000002 (.child 0)) = some (s.withStop 0) :=
    run_withStop ⟨3, 10⟩ rfl hfirst
  obtain ⟨t, hpass, ht, hchild⟩ : ∃ t : State,
      run (step ⟨3, 10⟩) (s.withStop 0) (List.replicate 5 .parent) = some t ∧
        t.parent = .stopping 1 ∧ t.child 2 = .launched := by
    simp [List.replicate, run, step, parentStep, State.withStop, hp, hlast, hslot]
  have hrun := (run_append_eq_some (step ⟨3, 10⟩)).mpr ⟨_, hbroadcast,
    (run_append_eq_some (step ⟨3, 10⟩)).mpr ⟨_, hlife, hpass⟩⟩
  have hstopped := hafter freshSlots _ t 1 ⟨_, [], rfl, hrun⟩ ht (by decide) (by decide) 2
    (by decide) (by decide)
  rw [hchild] at hstopped
  cases hstopped

end UpZenohExample
