import UpZenohExample.Schedules

/-!
# Start as a barrier

A publisher does not look at its slot before it sends, and a subscriber takes
whatever Start it finds, also one that an earlier run has left in the slot.
-/

namespace UpZenohExample

open ByteText Function LabelledRun

variable {cfg : Config} {slots : ℕ → Text} {s t : State} {a : Action}

/-- The next step of child `k` is its first send or the end of its wait for Start. -/
def PassesBarrier (cfg : Config) (s : State) (k : ℕ) : Prop :=
  (s.child k = .publishing 0 ∧ 0 < cfg.messages) ∨
    (s.child k = .waitStart ∧ Holds (s.slot k) start)

/-- No child passes the barrier before the parent has written Start into its slot. -/
def StartIsBarrier (cfg : Config) (slots : ℕ → Text) : Prop :=
  ∀ acts s k, k < cfg.maxProcess → Takes (step cfg) (.initial slots) acts s (.child k) →
    PassesBarrier cfg s k → s.parent.Started k

theorem Config.messages_pos_iff : 0 < cfg.messages ↔ cfg.uris ≠ 0 := by
  unfold Config.messages
  omega

theorem Step.slot_of_not_started (h : Step cfg s a t) {k : ℕ} (hsub : k % 2 = 1)
    (hroles : RolesOk t) (hnot : ¬ t.parent.Started k) : t.slot k = s.slot k := by
  have hbefore : ¬ s.parent.Started k := fun hs ↦ hnot (h.started_mono hs)
  rcases h.slot_cases k with hsame | ⟨rfl, hp, hlt, -⟩ | ⟨-, hp, -⟩ | ⟨-, hstopped, -⟩
  · exact hsame
  · rw [(h.writes_start hp hlt).1] at hnot
    exact absurd (Nat.lt_succ_self k) hnot
  · rw [hp] at hbefore
    exact absurd trivial hbefore
  · have hrole := hroles k
    rw [hstopped] at hrole
    have hpub : k % 2 = 0 := hrole
    omega

theorem slot_of_not_started {acts : List Action} {k : ℕ} (hsub : k % 2 = 1)
    (h : Reaches (step cfg) (.initial slots) acts s) (hnot : ¬ s.parent.Started k) :
    s.slot k = slots k := by
  have h0 : RolesOk (.initial slots) ∧ (¬ (State.initial slots).parent.Started k →
      (State.initial slots).slot k = slots k) := ⟨fun _ ↦ trivial, fun _ ↦ rfl⟩
  refine (invariant_of_reaches
    (P := fun u ↦ RolesOk u ∧ (¬ u.parent.Started k → u.slot k = slots k)) ?_ h0 h).2 hnot
  rintro u b v ⟨hroles, hu⟩ hstep
  refine ⟨hstep.rolesOk hroles, ?_⟩
  intro hnext
  rw [hstep.slot_of_not_started hsub (hstep.rolesOk hroles) hnext]
  exact hu fun hs ↦ hnext (hstep.started_mono hs)

theorem exists_opened (slots : ℕ → Text) {k : ℕ} (hk : k < cfg.maxProcess) :
    ∃ s, Leads (step cfg) (.initial slots) s ∧ s.slot = slots ∧ ¬ s.parent.Started k ∧
      s.child k = if k % 2 = 0 then .publishing 0 else .waitStart := by
  have hcreated := leads_created cfg slots (i := k + 1) hk
  have hopen : step cfg (.created slots (k + 1)) (.child k) =
      some ((State.created slots (k + 1)).setChild k
        (if k % 2 = 0 then .publishing 0 else .waitStart)) := by
    simp [step, childStep, State.created]
  refine ⟨_, hcreated.tail hopen, rfl, ?_, ?_⟩
  · simp [State.created, Parent.Started]
  · simp

theorem start_is_barrier_iff (cfg : Config) (slots : ℕ → Text) :
    StartIsBarrier cfg slots ↔ ∀ k < cfg.maxProcess,
      (k % 2 = 1 ∧ ¬ Holds (slots k) start) ∨ (k % 2 = 0 ∧ cfg.uris = 0) := by
  constructor
  · intro hbarrier k hk
    obtain ⟨s, hleads, hslot, hnot, hchild⟩ := exists_opened slots hk
    obtain ⟨acts, htakes⟩ := hleads.exists_takes (.child k)
    have hclosed : ¬ PassesBarrier cfg s k :=
      fun hpass ↦ hnot (hbarrier acts s k hk htakes hpass)
    rcases Nat.mod_two_eq_zero_or_one k with hpub | hsub
    · right
      refine ⟨hpub, ?_⟩
      by_contra huris
      apply hclosed
      left
      exact ⟨by simpa [hpub] using hchild, Config.messages_pos_iff.mpr huris⟩
    · left
      refine ⟨hsub, ?_⟩
      intro hstale
      apply hclosed
      right
      exact ⟨by simpa [hsub] using hchild, by rwa [hslot]⟩
  · intro hcond acts s k hk htakes hpass
    have hroles := rolesOk_of_reaches htakes.reaches k
    by_contra hnot
    rcases hpass with ⟨hchild, hmessages⟩ | ⟨hchild, hstart⟩
    · rw [hchild] at hroles
      have hpub : k % 2 = 0 := hroles
      have huris := Config.messages_pos_iff.mp hmessages
      rcases hcond k hk with ⟨hsub, -⟩ | ⟨-, hnone⟩
      · omega
      · exact huris hnone
    · rw [hchild] at hroles
      have hsub : k % 2 = 1 := hroles
      rw [slot_of_not_started hsub htakes.reaches hnot] at hstart
      rcases hcond k hk with ⟨-, hclean⟩ | ⟨hpub, -⟩
      · exact hclean hstart
      · omega

theorem publisher_ignores_start : ¬ StartIsBarrier shipped freshSlots := by
  intro hbarrier
  obtain ⟨s, hrun, hp, hchild⟩ : ∃ s : State,
      run (step shipped) (.initial freshSlots) [.parent, .child 0] = some s ∧
        s.parent = .mapping 0 ∧ s.child 0 = .publishing 0 := ⟨_, rfl, rfl, rfl⟩
  have hstarted := hbarrier [.parent, .child 0, .child 0] s 0 (by decide)
    ⟨[.parent, .child 0], [], rfl, hrun⟩ (Or.inl ⟨hchild, by decide⟩)
  rw [hp] at hstarted
  exact hstarted

end UpZenohExample
