import UpZenohExample.ExitTest
import UpZenohExample.Handshake

/-!
# Lost handshakes

What every reachable state satisfies, and the states from which `run_tests`
cannot come to its report any more: a publisher's Stop will never be counted, or
a subscriber waits for a Start that is gone.
-/

namespace UpZenohExample

open ByteText Function LabelledRun

variable {cfg : Config} {slots : ℕ → Text} {s t : State} {a : Action}

/-! ## Well-formed states -/

/-- A slot counted in the current pass, or behind the polling loop, holds Stop. -/
def Tallied (cfg : Config) (s : State) : Prop :=
  match s.parent with
  | .creating _ | .mapping _ | .starting _ => True
  | .polling i count =>
      i ≤ cfg.maxProcess ∧ count ≤ (i + 1) / 2 ∧
        (count = (i + 1) / 2 → ∀ k < i, k % 2 = 0 → Holds (s.slot k) stop)
  | .stopping _ | .waiting _ | .reporting => PubsHold cfg s

/-- The slot of subscriber `k` holds what the parent has written into it last. -/
def SlotOk (s : State) (k : ℕ) : Prop :=
  (s.parent.Started k → ¬ s.parent.StopWritten k → Holds (s.slot k) start) ∧
    (s.parent.StopWritten k → Holds (s.slot k) stop)

structure WellFormed (cfg : Config) (s : State) : Prop where
  roles : RolesOk s
  unborn : ∀ k, k < cfg.maxProcess ∧ s.parent.Forked k ∨ s.child k = .unborn
  born : ∀ k < cfg.maxProcess, s.parent.Forked k → s.child k ≠ .unborn
  mapping : ∀ i, s.parent = .mapping i → i < cfg.maxProcess
  ownStops : OwnStops cfg s
  tallied : Tallied cfg s
  slotsOk : ∀ k < cfg.maxProcess, k % 2 = 1 → SlotOk s k
  reaped : ∀ k < cfg.maxProcess, s.parent.Reaped k → (s.child k).terminated = true

theorem Step.forked_mono (h : Step cfg s a t) {k : ℕ} (hk : s.parent.Forked k) :
    t.parent.Forked k := by
  cases h <;> simp_all [Parent.Forked]
  all_goals omega

theorem Step.unborn (h : Step cfg s a t) {k : ℕ}
    (hs : k < cfg.maxProcess ∧ s.parent.Forked k ∨ s.child k = .unborn) :
    k < cfg.maxProcess ∧ t.parent.Forked k ∨ t.child k = .unborn := by
  rcases hs with ⟨hk, hforked⟩ | hunborn
  · exact Or.inl ⟨hk, h.forked_mono hforked⟩
  · rcases h.child_cases k with hsame | ⟨rfl, hp, hlaunched⟩ | ⟨-, hmove⟩
    · exact Or.inr (hsame.trans hunborn)
    · left
      cases h <;> simp_all [Parent.Forked]
    · rw [hunborn] at hmove
      generalize t.child k = d at hmove
      cases hmove

theorem Step.mapping_lt (h : Step cfg s a t) (hs : ∀ i, s.parent = .mapping i → i < cfg.maxProcess)
    (i : ℕ) (ht : t.parent = .mapping i) : i < cfg.maxProcess := by
  cases h <;> simp_all

theorem Step.writes_stop (h : Step cfg s .parent t) {k : ℕ} (hp : s.parent = .stopping k)
    (hk : k < cfg.maxProcess) (hsub : k % 2 = 1) :
    t.parent = .stopping (k + 1) ∧ t.slot k = writeSlot (s.slot k) stop := by
  cases h <;> simp_all

theorem Step.slotOk (h : Step cfg s a t) (hroles : RolesOk t) {k : ℕ} (hk : k < cfg.maxProcess)
    (hsub : k % 2 = 1) (hs : SlotOk s k) : SlotOk t k := by
  have hnot : t.child k ≠ .stopped := by
    intro hstopped
    have hrole := hroles k
    rw [hstopped] at hrole
    have hpub : k % 2 = 0 := hrole
    omega
  constructor
  · intro hstarted hwritten
    rcases h.slot_cases k with hsame | ⟨-, -, -, hwrite⟩ | ⟨rfl, hp, -⟩ | ⟨-, hstopped, -⟩
    · rw [hsame]
      rcases h.started_cases hk hstarted with hbefore | ⟨rfl, hp⟩
      · exact hs.1 hbefore fun hstop ↦ hwritten (h.stopWritten_mono hstop)
      · rw [← hsame, (h.writes_start hp hk).2]
        simp
    · rw [hwrite]
      simp
    · rw [(h.writes_stop hp hk hsub).1] at hwritten
      exact absurd (Nat.lt_succ_self k) hwritten
    · exact absurd hstopped hnot
  · intro hwritten
    rcases h.slot_cases k with hsame | ⟨rfl, hp, hlt, -⟩ | ⟨-, -, -, -, hwrite⟩ | ⟨-, hstopped, -⟩
    · rcases h.stopWritten_cases hk hwritten with hbefore | ⟨rfl, hp⟩
      · rw [hsame]
        exact hs.2 hbefore
      · rw [(h.writes_stop hp hk hsub).2]
        simp
    · rw [(h.writes_start hp hlt).1] at hwritten
      exact False.elim hwritten
    · rw [hwrite]
      simp
    · exact absurd hstopped hnot

/-! ## The tally -/

theorem Step.tallied_of_child (h : Step cfg s a t) (ha : a ≠ .parent) (hs : Tallied cfg s) :
    Tallied cfg t := by
  have hparent := h.parent_eq ha
  have hkeep {k : ℕ} (hp : s.parent.phase ≠ 1) (hpub : k % 2 = 0) (hk : Holds (s.slot k) stop) :
      Holds (t.slot k) stop := by
    rcases h.slot_cases k with hsame | ⟨hact, -⟩ | ⟨hact, -⟩ | ⟨-, -, hwrite⟩
    · rwa [hsame]
    · exact absurd hact ha
    · exact absurd hact ha
    · rw [hwrite]
      simp
  unfold Tallied at hs ⊢
  rw [hparent]
  cases hp : s.parent with
  | creating | mapping | starting => trivial
  | polling i count =>
      rw [hp] at hs
      obtain ⟨hi, hcount, hfull⟩ := hs
      refine ⟨hi, hcount, ?_⟩
      intro heq k hk hpub
      exact hkeep (by simp [hp, Parent.phase]) hpub (hfull heq k hk hpub)
  | stopping i | waiting i | reporting =>
      rw [hp] at hs
      exact h.pubsHold (by simp [hp, Parent.phase]) hs

theorem Step.tallied_of_parent (heven : cfg.maxProcess % 2 = 0) (h : Step cfg s .parent t)
    (hs : Tallied cfg s) : Tallied cfg t := by
  unfold Tallied at hs
  cases h with
  | fork | created | mapped | writeStart => trivial
  | broadcast | again => exact ⟨Nat.zero_le _, le_rfl, fun _ k hk ↦ absurd hk (Nat.not_lt_zero k)⟩
  | count hp hi hpub hstop =>
      rename_i i count
      rw [hp] at hs
      obtain ⟨-, hcount, hfull⟩ := hs
      refine ⟨hi, by omega, ?_⟩
      intro heq k hk hkpub
      rcases Nat.lt_succ_iff_lt_or_eq.mp hk with hlt | rfl
      · exact hfull (by omega) k hlt hkpub
      · exact hstop
  | pass hp hi hnot =>
      rename_i i count
      rw [hp] at hs
      obtain ⟨-, hcount, hfull⟩ := hs
      refine ⟨hi, by omega, ?_⟩
      intro heq k hk hkpub
      rcases Nat.lt_succ_iff_lt_or_eq.mp hk with hlt | rfl
      · exact hfull (by omega) k hlt hkpub
      · omega
  | finish hp hi htest =>
      rename_i i count
      rw [hp] at hs
      obtain ⟨hle, hcount, hfull⟩ := hs
      have hlast : i = cfg.maxProcess := by omega
      subst hlast
      intro k hk hpub
      exact hfull (by omega) k hk ((roleOf_eq_pub_iff k).mp hpub)
  | writeStop hp hi hsub =>
      rename_i i
      rw [hp] at hs
      intro k hk hpub
      have hne : k ≠ i := by
        rintro rfl
        rw [roleOf_eq_pub_iff] at hpub
        omega
      simpa [hne] using hs k hk hpub
  | skip hp | stopsWritten hp | reap hp | reaped hp =>
      rw [hp] at hs
      exact hs

theorem Step.wellFormed (heven : cfg.maxProcess % 2 = 0) (h : Step cfg s a t)
    (hs : WellFormed cfg s) : WellFormed cfg t where
  roles := h.rolesOk hs.roles
  unborn k := h.unborn (hs.unborn k)
  born k hk hforked := by
    rcases h.forked_cases hk hforked with hbefore | hlaunched
    · exact h.ne_unborn (hs.born k hk hbefore)
    · simp [hlaunched]
  mapping := h.mapping_lt hs.mapping
  ownStops := h.ownStops hs.ownStops
  tallied := by
    by_cases ha : a = .parent
    · subst ha
      exact h.tallied_of_parent heven hs.tallied
    · exact h.tallied_of_child ha hs.tallied
  slotsOk k hk hsub := h.slotOk (h.rolesOk hs.roles) hk hsub (hs.slotsOk k hk hsub)
  reaped k hk hreaped := by
    rcases h.reaped_cases hk hreaped with hbefore | ⟨hwaiting, hchild⟩
    · apply h.terminated _ (hs.reaped k hk hbefore)
      intro hcreating
      rw [hcreating] at hbefore
      exact hbefore
    · apply h.terminated _ hchild
      simp [hwaiting]

theorem wellFormed_initial (cfg : Config) (slots : ℕ → Text) :
    WellFormed cfg (.initial slots) where
  roles _ := trivial
  unborn _ := Or.inr rfl
  born _ _ hforked := absurd hforked (Nat.not_lt_zero _)
  mapping _ hp := by cases hp
  ownStops _ _ _ hstarted := False.elim hstarted
  tallied := trivial
  slotsOk _ _ _ := ⟨False.elim, False.elim⟩
  reaped _ _ := False.elim

theorem wellFormed_of_leads (heven : cfg.maxProcess % 2 = 0) (hs : WellFormed cfg s)
    (h : Leads (step cfg) s t) : WellFormed cfg t := by
  obtain ⟨acts, hrun⟩ := h
  exact invariant_of_reaches (fun _ _ _ hu hstep ↦ hstep.wellFormed heven hu) hs
    (reaches_final hrun)

/-! ## Stuck states -/

/-- Publisher `k` has ended without a Stop that the parent will find. -/
def PubLost (s : State) (k : ℕ) : Prop :=
  s.child k = .failed ∨
    (s.child k = .stopped ∧ ¬ (s.parent.Started k ∧ Holds (s.slot k) stop))

/-- Subscriber `k` waits for a Start that the parent's Stop has overwritten. -/
def SubLost (s : State) (k : ℕ) : Prop :=
  s.child k = .waitStart ∧ s.parent.StopWritten k

def Stuck (cfg : Config) (s : State) : Prop :=
  ∃ k < cfg.maxProcess, (k % 2 = 0 ∧ PubLost s k) ∨ (k % 2 = 1 ∧ SubLost s k)

theorem WellFormed.not_creating (hs : WellFormed cfg s) {k : ℕ} (hk : s.child k ≠ .unborn) :
    s.parent ≠ .creating k := by
  intro hp
  rcases hs.unborn k with ⟨-, hforked⟩ | hunborn
  · rw [hp] at hforked
    exact absurd hforked (Nat.lt_irrefl k)
  · exact hk hunborn

theorem Step.failed_of_failed (h : Step cfg s a t) (hs : WellFormed cfg s) {k : ℕ}
    (hk : s.child k = .failed) : t.child k = .failed := by
  rcases h.child_cases k with hsame | ⟨-, hp, -⟩ | ⟨-, hmove⟩
  · exact hsame.trans hk
  · exact absurd hp (hs.not_creating (by simp [hk]))
  · rw [hk] at hmove
    generalize t.child k = d at hmove
    cases hmove

theorem Step.pubLost (h : Step cfg s a t) (hs : WellFormed cfg s) {k : ℕ}
    (hk : k < cfg.maxProcess) (hpub : k % 2 = 0) (hlost : PubLost s k) : PubLost t k := by
  rcases hlost with hfailed | ⟨hstopped, hnot⟩
  · exact Or.inl (h.failed_of_failed hs hfailed)
  · right
    have hcreating := hs.not_creating (k := k) (by simp [hstopped])
    refine ⟨(h.stopped_of_stopped hstopped).resolve_right hcreating, ?_⟩
    rintro ⟨hstarted, hholds⟩
    rcases h.started_cases hk hstarted with hbefore | ⟨rfl, hp⟩
    · rcases h.slot_cases k with hsame | ⟨-, -, -, hwrite⟩ | ⟨-, -, -, hsub, -⟩ | ⟨rfl, -, -⟩
      · exact hnot ⟨hbefore, hsame ▸ hholds⟩
      · rw [hwrite] at hholds
        simp at hholds
      · omega
      · cases h <;> simp_all
    · rw [(h.writes_start hp hk).2] at hholds
      simp at hholds

theorem Step.subLost (h : Step cfg s a t) (hs : WellFormed cfg s) {k : ℕ}
    (hk : k < cfg.maxProcess) (hsub : k % 2 = 1) (hlost : SubLost s k) : SubLost t k := by
  have hmissed : MissedStart s k := ⟨hlost.1, hlost.2, (hs.slotsOk k hk hsub).2 hlost.2⟩
  exact ⟨(h.missedStart hmissed).1, (h.missedStart hmissed).2.1⟩

theorem Step.stuck (h : Step cfg s a t) (hs : WellFormed cfg s) (hstuck : Stuck cfg s) :
    Stuck cfg t := by
  obtain ⟨k, hk, ⟨hpub, hlost⟩ | ⟨hsub, hlost⟩⟩ := hstuck
  · exact ⟨k, hk, Or.inl ⟨hpub, h.pubLost hs hk hpub hlost⟩⟩
  · exact ⟨k, hk, Or.inr ⟨hsub, h.subLost hs hk hsub hlost⟩⟩

/-- Behind the polling loop every publisher has ended with its Stop in its slot. -/
theorem WellFormed.pub_done (hs : WellFormed cfg s) (hp : 3 ≤ s.parent.phase) {k : ℕ}
    (hk : k < cfg.maxProcess) (hpub : k % 2 = 0) :
    s.child k = .stopped ∧ s.parent.Started k ∧ Holds (s.slot k) stop := by
  have hstarted : s.parent.Started k := by
    cases hparent : s.parent <;> simp_all [Parent.phase, Parent.Started]
  have hhold : PubsHold cfg s := by
    have htallied := hs.tallied
    unfold Tallied at htallied
    cases hparent : s.parent <;> simp_all [Parent.phase]
  have hholds := hhold k hk ((roleOf_eq_pub_iff k).mpr hpub)
  exact ⟨hs.ownStops k hk hpub hstarted hholds, hstarted, hholds⟩

theorem not_stuck_of_reporting (hs : WellFormed cfg s) (hp : s.parent = .reporting) :
    ¬ Stuck cfg s := by
  rintro ⟨k, hk, ⟨hpub, hlost⟩ | ⟨-, hwait, -⟩⟩
  · obtain ⟨hstopped, hstarted, hholds⟩ := hs.pub_done (by simp [hp, Parent.phase]) hk hpub
    rcases hlost with hfailed | ⟨-, hnot⟩
    · rw [hstopped] at hfailed
      cases hfailed
    · exact hnot ⟨hstarted, hholds⟩
  · have hdone := hs.reaped k hk (by simp [hp, Parent.Reaped])
    rw [hwait] at hdone
    cases hdone

theorem stuck_of_leads (heven : cfg.maxProcess % 2 = 0) (hs : WellFormed cfg s)
    (hstuck : Stuck cfg s) (h : Leads (step cfg) s t) : Stuck cfg t := by
  obtain ⟨acts, hrun⟩ := h
  have hkept : ∀ u b v, WellFormed cfg u ∧ Stuck cfg u → Step cfg u b v →
      WellFormed cfg v ∧ Stuck cfg v :=
    fun _ _ _ hu hstep ↦ ⟨hstep.wellFormed heven hu.1, hstep.stuck hu.1 hu.2⟩
  exact (invariant_of_reaches hkept ⟨hs, hstuck⟩ (reaches_final hrun)).2

/-! ## How long the subscribers stay -/

/-- A subscriber that has got Start waits for a Stop that is the parent's. -/
def StayOk (s : State) (k : ℕ) : Prop :=
  match s.child k with
  | .registering | .waitStop => s.parent.StopWritten k ∨ Holds (s.slot k) start
  | .exited => s.parent.StopWritten k
  | .unborn | .launched | .publishing _ | .stopped | .waitStart | .failed => True

theorem Step.start_kept (h : Step cfg s a t) {k : ℕ} (hs : RolesOk t) (hsub : k % 2 = 1)
    (hstay : s.parent.StopWritten k ∨ Holds (s.slot k) start) :
    t.parent.StopWritten k ∨ Holds (t.slot k) start := by
  rcases hstay with hwritten | hholds
  · exact Or.inl (h.stopWritten_mono hwritten)
  · rcases h.slot_cases k with hsame | ⟨-, -, -, hwrite⟩ | ⟨rfl, hp, hk, -⟩ | ⟨-, hstopped, -⟩
    · rw [hsame]
      exact Or.inr hholds
    · rw [hwrite]
      simp
    · left
      rw [(h.writes_stop hp hk hsub).1]
      exact Nat.lt_succ_self k
    · have hrole := hs k
      rw [hstopped] at hrole
      have hpub : k % 2 = 0 := hrole
      omega

theorem Step.stayOk (h : Step cfg s a t) {k : ℕ} (hs : WellFormed cfg s) (hsub : k % 2 = 1)
    (hstay : StayOk s k) : StayOk t k := by
  have hroles := h.rolesOk hs.roles
  unfold StayOk at hstay ⊢
  rcases h.child_cases k with hsame | ⟨-, -, hlaunched⟩ | ⟨-, hmove⟩
  · rw [hsame]
    cases hc : s.child k with
    | registering | waitStop =>
        rw [hc] at hstay
        exact h.start_kept hroles hsub hstay
    | exited =>
        rw [hc] at hstay
        exact h.stopWritten_mono hstay
    | _ => trivial
  · rw [hlaunched]
    trivial
  · generalize hd : t.child k = d at hmove
    generalize hc : s.child k = c at hmove hstay
    cases hmove with
    | gotStart hslot => exact h.start_kept hroles hsub (Or.inr hslot)
    | register => exact h.start_kept hroles hsub hstay
    | gotStop hslot =>
        rcases hstay with hwritten | hstart
        · exact h.stopWritten_mono hwritten
        · exact absurd (hstart.unique hslot) start_ne_stop
    | _ => trivial

theorem stayOk_of_leads (heven : cfg.maxProcess % 2 = 0) {k : ℕ} (hsub : k % 2 = 1)
    (h : Leads (step cfg) (.initial slots) s) : StayOk s k := by
  obtain ⟨acts, hrun⟩ := h
  have hkept : ∀ u b v, WellFormed cfg u ∧ StayOk u k → Step cfg u b v →
      WellFormed cfg v ∧ StayOk v k :=
    fun _ _ _ hu hstep ↦ ⟨hstep.wellFormed heven hu.1, hstep.stayOk hu.1 hsub hu.2⟩
  have h0 : WellFormed cfg (.initial slots) ∧ StayOk (.initial slots) k :=
    ⟨wellFormed_initial cfg slots, trivial⟩
  exact (invariant_of_reaches hkept h0 (reaches_final hrun)).2

/-- A subscriber that has got its Stop has been registered until every
publisher was done, whatever an earlier run has left in the slots. -/
theorem subscriber_outlives_publishers {acts : List Action} {j k : ℕ}
    (heven : cfg.maxProcess % 2 = 0) (h : Reaches (step cfg) (.initial slots) acts s)
    (hk : s.child k = .exited) (hj : j < cfg.maxProcess) (hpub : roleOf j = text "p") :
    s.child j = .stopped := by
  obtain ⟨pre, hpre, -⟩ := h.exists_prefix
  have hleads : Leads (step cfg) (.initial slots) s := ⟨pre, hpre⟩
  have hs := wellFormed_of_leads heven (wellFormed_initial cfg slots) hleads
  have hsub : k % 2 = 1 := by
    have hrole := hs.roles k
    rwa [hk] at hrole
  have hwritten : s.parent.StopWritten k := by
    have hlast := stayOk_of_leads heven hsub hleads
    unfold StayOk at hlast
    rwa [hk] at hlast
  have hp : 3 ≤ s.parent.phase := by
    cases hparent : s.parent <;> simp_all [Parent.phase, Parent.StopWritten]
  exact (hs.pub_done hp hj ((roleOf_eq_pub_iff j).mp hpub)).1

/-- In the shipped configuration publisher 0 sends its messages, and subscriber 1
leaves when it has got its Stop. -/
theorem subscriber_outlives_publishers_shipped : ∃ (acts : List Action) (s : State),
    run (step shipped) (.initial freshSlots) acts = some s ∧ shipped.messages = 1000000 ∧
    s.child 1 = .exited ∧ s.child 0 = .stopped := by
  obtain ⟨s, hbefore, hp, hpub, hsub⟩ := run_waitStop
  obtain ⟨t, hleads, -, hexited⟩ := leads_exited hp hpub hsub
  obtain ⟨acts, hrun⟩ := Leads.trans ⟨_, hbefore⟩ hleads
  exact ⟨acts, t, hrun, rfl, hexited, subscriber_outlives_publishers rfl (reaches_final hrun)
    hexited (by decide) (by decide)⟩

end UpZenohExample
