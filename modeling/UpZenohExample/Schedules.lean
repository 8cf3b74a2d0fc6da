import UpZenohExample.StepFrame

/-!
# Runs that exist

The broadcasts and the polling pass of the parent, undisturbed by the children,
and a publisher that goes through its whole life while nobody else moves.  The
counterexamples and the converse directions are put together from these.
-/

namespace UpZenohExample

open ByteText Function LabelledRun

variable (cfg : Config)

def State.created (slots : ℕ → Text) (i : ℕ) : State where
  parent := .creating i
  child := fun k ↦ if k < i then .launched else .unborn
  slot := slots

theorem step_created {slots : ℕ → Text} {i : ℕ} (hi : i < cfg.maxProcess) :
    step cfg (.created slots i) .parent =
      some { State.created slots (i + 1) with parent := .mapping i } := by
  have hchild : update (State.created slots i).child i .launched =
      (State.created slots (i + 1)).child := by
    funext k
    by_cases hk : k = i
    · simp [State.created, hk]
    · simp only [State.created, update_apply, if_neg hk]
      have hlt : k < i ↔ k < i + 1 := by omega
      simp [hlt]
  have hfork : step cfg (.created slots i) .parent =
      some ⟨.mapping i, update (State.created slots i).child i .launched, slots⟩ := by
    simp [step, parentStep, State.created, hi]
  rw [hfork, hchild]
  rfl

theorem leads_created (slots : ℕ → Text) {i : ℕ} (hi : i ≤ cfg.maxProcess) :
    Leads (step cfg) (.initial slots) (.created slots i) := by
  induction i with
  | zero => exact Leads.refl _
  | succ i ih =>
      exact ((ih (by omega)).tail (step_created cfg (by omega))).tail (a := .parent) rfl

def startedSlots (slots : ℕ → Text) (i : ℕ) : ℕ → Text :=
  fun k ↦ if k < i then writeSlot (slots k) start else slots k

theorem startedSlots_succ (slots : ℕ → Text) (i : ℕ) :
    update (startedSlots slots i) i (writeSlot (startedSlots slots i i) start) =
      startedSlots slots (i + 1) := by
  funext k
  by_cases hk : k = i
  · simp [startedSlots, hk]
  · have hlt : k < i ↔ k < i + 1 := by omega
    simp [startedSlots, hk, hlt]

theorem leads_starting (child : ℕ → Child) (slots : ℕ → Text) {i : ℕ}
    (hi : i ≤ cfg.maxProcess) :
    Leads (step cfg) ⟨.starting 0, child, slots⟩ ⟨.starting i, child, startedSlots slots i⟩ := by
  induction i with
  | zero =>
      have h0 : startedSlots slots 0 = slots := by
        funext k
        simp [startedSlots]
      rw [h0]
      exact Leads.refl _
  | succ i ih =>
      have hlt : i < cfg.maxProcess := by omega
      refine (ih (by omega)).tail (a := .parent) ?_
      simp [step, parentStep, hlt, ← startedSlots_succ]

/-- All children are created and every slot holds Start. -/
theorem leads_broadcast (slots : ℕ → Text) :
    Leads (step cfg) (.initial slots) ⟨.polling 0 0,
      (State.created slots cfg.maxProcess).child, startedSlots slots cfg.maxProcess⟩ := by
  have hcreated := leads_created cfg slots le_rfl
  have hstart : step cfg (.created slots cfg.maxProcess) .parent =
      some ⟨.starting 0, (State.created slots cfg.maxProcess).child, slots⟩ := by
    simp [step, parentStep, State.created]
  refine ((hcreated.tail hstart).trans (leads_starting cfg _ slots le_rfl)).tail
    (a := .parent) ?_
  simp [step, parentStep]

/-! ## One publisher -/

def State.withStop (s : State) (k : ℕ) : State :=
  { s.setChild k .stopped with slot := update s.slot k (writeSlot (s.slot k) stop) }

theorem run_publishing {s : State} {k sent : ℕ} (hpub : k % 2 = 0)
    (hc : s.child k = .launched) (hsent : sent ≤ cfg.messages) :
    run (step cfg) s (List.replicate (sent + 1) (.child k)) =
      some (s.setChild k (.publishing sent)) := by
  induction sent with
  | zero => simp [run, step, childStep, hc, hpub]
  | succ sent ih =>
      have hlt : sent < cfg.messages := by omega
      rw [List.replicate_succ']
      refine (run_snoc_eq_some (step cfg)).mpr ⟨_, ih (by omega), ?_⟩
      simp [step, childStep, hlt, setChild_setChild]

theorem run_withStop {s : State} {k : ℕ} (hpub : k % 2 = 0) (hc : s.child k = .launched) :
    run (step cfg) s (List.replicate (cfg.messages + 2) (.child k)) = some (s.withStop k) := by
  rw [List.replicate_succ']
  refine (run_snoc_eq_some (step cfg)).mpr ⟨_, run_publishing cfg hpub hc le_rfl, ?_⟩
  simp [step, childStep, State.withStop, State.setChild]

def State.withStops (s : State) (i : ℕ) : State where
  parent := s.parent
  child := fun k ↦ if k < i ∧ k % 2 = 0 then .stopped else s.child k
  slot := fun k ↦ if k < i ∧ k % 2 = 0 then writeSlot (s.slot k) stop else s.slot k

theorem withStops_succ_of_publisher (s : State) {i : ℕ} (hpub : i % 2 = 0) :
    (s.withStops i).withStop i = s.withStops (i + 1) := by
  have hlt (k : ℕ) (hk : k ≠ i) : (k < i ∧ k % 2 = 0) ↔ (k < i + 1 ∧ k % 2 = 0) := by omega
  have hi : ¬ (i < i ∧ i % 2 = 0) := by omega
  simp only [State.withStop, State.setChild, State.withStops, State.mk.injEq, true_and]
  constructor <;>
    · funext k
      by_cases hk : k = i
      · subst hk
        simp [hpub]
      · simp [hk, hlt k hk]

theorem withStops_succ_of_subscriber (s : State) {i : ℕ} (hsub : i % 2 = 1) :
    s.withStops (i + 1) = s.withStops i := by
  have hlt (k : ℕ) : (k < i + 1 ∧ k % 2 = 0) ↔ (k < i ∧ k % 2 = 0) := by
    constructor
    · rintro ⟨hk, hpub⟩
      have hne : k ≠ i := by
        rintro rfl
        omega
      omega
    · omega
  simp only [State.withStops, hlt]

theorem leads_withStops {s : State} {i : ℕ} (hc : ∀ k < i, s.child k = .launched) :
    Leads (step cfg) s (s.withStops i) := by
  induction i with
  | zero =>
      have h0 : s.withStops 0 = s := by simp [State.withStops]
      rw [h0]
      exact Leads.refl s
  | succ i ih =>
      have hprev := ih fun k hk ↦ hc k (by omega)
      rcases Nat.mod_two_eq_zero_or_one i with hpub | hsub
      · rw [← withStops_succ_of_publisher s hpub]
        exact hprev.trans ⟨_, run_withStop cfg hpub (by simp [State.withStops, hc i])⟩
      · rwa [withStops_succ_of_subscriber s hsub]

/-! ## The shipped configuration -/

/-- `MAX_PROCESS` and the default `num_of_uri`. -/
def shipped : Config := ⟨2, 10⟩

def freshSlots : ℕ → Text := fun _ ↦ List.replicate 128 0

/-- Subscriber 1 gets its Start and registers before publisher 0 has started. -/
theorem run_waitStop : ∃ s : State,
    run (step shipped) (.initial freshSlots)
      (List.replicate 8 .parent ++ List.replicate 3 (.child 1)) = some s ∧
    s.parent = .polling 0 0 ∧ s.child 0 = .launched ∧ s.child 1 = .waitStop :=
  ⟨_, rfl, rfl, rfl, rfl⟩

/-- Publisher 0 sends everything and the parent writes Stop for subscriber 1. -/
theorem leads_stops {s : State} (hp : s.parent = .polling 0 0) (hpub : s.child 0 = .launched)
    (hsub : s.child 1 = .waitStop) :
    ∃ u, Leads (step shipped) s u ∧ u.parent = .waiting 0 ∧ u.child 0 = .stopped ∧
      u.child 1 = .waitStop ∧ Holds (u.slot 1) stop := by
  obtain ⟨u, hstops, hu⟩ : ∃ u : State,
      run (step shipped) (s.withStop 0) (List.replicate 6 .parent) = some u ∧
      u.parent = .waiting 0 ∧ u.child 0 = .stopped ∧ u.child 1 = .waitStop ∧
      Holds (u.slot 1) stop := by
    simp [List.replicate, run, step, parentStep, State.withStop, shipped, hp, hsub]
  exact ⟨u, Leads.trans ⟨_, run_withStop shipped rfl hpub⟩ ⟨_, hstops⟩, hu⟩

theorem leads_reaped {u : State} (hu : u.parent = .waiting 0) (hstopped : u.child 0 = .stopped) :
    ∃ t, Leads (step shipped) (u.setChild 1 .exited) t ∧ t.parent = .reporting ∧
      t.child 1 = .exited := by
  obtain ⟨t, hreaped, ht⟩ : ∃ t : State,
      run (step shipped) (u.setChild 1 .exited) (List.replicate 3 .parent) = some t ∧
      t.parent = .reporting ∧ t.child 1 = .exited := by
    simp [List.replicate, run, step, parentStep, shipped, hu, hstopped, Child.terminated]
  exact ⟨t, ⟨_, hreaped⟩, ht⟩

/-- From the loop of subscriber 1 to the report. -/
theorem leads_exited {s : State} (hp : s.parent = .polling 0 0) (hpub : s.child 0 = .launched)
    (hsub : s.child 1 = .waitStop) :
    ∃ t, Leads (step shipped) s t ∧ t.parent = .reporting ∧ t.child 1 = .exited := by
  obtain ⟨u, hstops, hu, hstopped, hwaits, hslot⟩ := leads_stops hp hpub hsub
  obtain ⟨t, hreaped, ht⟩ := leads_reaped hu hstopped
  have hexit : step shipped u (.child 1) = some (u.setChild 1 .exited) := by
    simp [step, childStep, hwaits, hslot]
  exact ⟨t, (hstops.tail hexit).trans hreaped, ht⟩

end UpZenohExample
