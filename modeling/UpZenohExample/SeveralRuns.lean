import UpZenohExample.Barrier
import UpZenohExample.Liveness

/-!
# One run after the other

The shared memory objects have the same names in every run.  A run that comes
to its report removes them at its end, or leaves them behind when the report
fails, so the next run finds what the last one has written.
-/

namespace UpZenohExample

open ByteText Function LabelledRun

variable {cfg : Config} {slots slots' : ℕ → Text} {s t : State} {a : Action} {k : ℕ}

/-- What the next run finds after state `s`: each object was left as it is, or
removed and created anew. -/
def LeftBy (s : State) (slots : ℕ → Text) : Prop :=
  ∀ k, slots k = s.slot k ∨ slots k = freshSlots k

/-- The slots before a run, after any number of runs of `n` processes that came to
their reports; each run has its own number of URIs. -/
inductive SlotsAfter (n : ℕ) (slots : ℕ → Text) : (ℕ → Text) → Prop where
  | none : SlotsAfter n slots slots
  | run {slots' slots'' : ℕ → Text} {uris : ℕ} {acts : List Action} {s : State}
      (hbefore : SlotsAfter n slots slots')
      (hrun : run (step ⟨n, uris⟩) (.initial slots') acts = some s)
      (hp : s.parent = .reporting) (hleft : LeftBy s slots'') : SlotsAfter n slots slots''

/-- No subscriber finds a Start of an earlier run. -/
def NoStaleStart (n : ℕ) (slots : ℕ → Text) : Prop :=
  ∀ k < n, k % 2 = 1 → ¬ Holds (slots k) start

theorem slotOk_of_reaches {acts : List Action} (hk : k < cfg.maxProcess) (hsub : k % 2 = 1)
    (h : Reaches (step cfg) (.initial slots) acts s) : SlotOk s k := by
  have h0 : RolesOk (.initial slots) ∧ SlotOk (.initial slots) k :=
    ⟨fun _ ↦ trivial, False.elim, False.elim⟩
  have hkept : ∀ u b v, RolesOk u ∧ SlotOk u k → Step cfg u b v → RolesOk v ∧ SlotOk v k :=
    fun _ _ _ hu hstep ↦
      ⟨hstep.rolesOk hu.1, hstep.slotOk (hstep.rolesOk hu.1) hk hsub hu.2⟩
  exact (invariant_of_reaches hkept h0 h).2

theorem not_holds_freshSlots (k : ℕ) : ¬ Holds (freshSlots k) start := by
  intro h
  have hempty : Holds (freshSlots k) [] := rfl
  exact absurd (h.unique hempty) (by decide)

/-- A run that comes to its report leaves a Stop in the slot of every subscriber. -/
theorem noStaleStart_of_reporting {acts : List Action}
    (h : Reaches (step cfg) (.initial slots) acts s) (hp : s.parent = .reporting)
    (hleft : LeftBy s slots') : NoStaleStart cfg.maxProcess slots' := by
  intro k hk hsub hstart
  rcases hleft k with hkept | hfresh
  · rw [hkept] at hstart
    have hstop := (slotOk_of_reaches hk hsub h).2 (by simp [hp, Parent.StopWritten])
    exact absurd (hstart.unique hstop) start_ne_stop
  · rw [hfresh] at hstart
    exact not_holds_freshSlots k hstart

theorem SlotsAfter.noStaleStart {n : ℕ} (h : SlotsAfter n slots slots')
    (h0 : NoStaleStart n slots) : NoStaleStart n slots' := by
  cases h with
  | none => exact h0
  | run _ hrun hp hleft => exact noStaleStart_of_reporting (reaches_final hrun) hp hleft

/-- The child has not got past its wait for Start. -/
def Child.BeforeStart : Child → Prop
  | .unborn | .launched | .waitStart | .failed => True
  | .publishing _ | .stopped | .registering | .waitStop | .exited => False

/-- Before the parent's Start the slot is as the run has found it, and the subscriber waits. -/
structure Waits (slots : ℕ → Text) (k : ℕ) (s : State) : Prop where
  roles : RolesOk s
  slot : ¬ s.parent.Started k → s.slot k = slots k
  before : ¬ s.parent.Started k → (s.child k).BeforeStart

theorem Step.waits (h : Step cfg s a t) (hsub : k % 2 = 1) (hstale : ¬ Holds (slots k) start)
    (hs : Waits slots k s) : Waits slots k t where
  roles := h.rolesOk hs.roles
  slot := by
    intro hnot
    rw [h.slot_of_not_started hsub (h.rolesOk hs.roles) hnot]
    exact hs.slot fun hstarted ↦ hnot (h.started_mono hstarted)
  before := by
    intro hnot
    have hbefore : ¬ s.parent.Started k := fun hstarted ↦ hnot (h.started_mono hstarted)
    have hchild := hs.before hbefore
    rcases h.child_cases k with hsame | ⟨-, -, hlaunched⟩ | ⟨-, hmove⟩
    · rwa [hsame]
    · rw [hlaunched]
      trivial
    · rw [hs.slot hbefore] at hmove
      generalize s.child k = c at hchild hmove
      generalize t.child k = d at hmove
      cases hmove with
      | gotStart hslot => exact absurd hslot hstale
      | openPub hpub => omega
      | openSub | failLaunched | failPublishing | failRegistering => trivial
      | send | pubStop | register | gotStop => exact False.elim hchild

/-- **Start is a barrier for the subscribers of every run** that follows runs which
came to their reports, when the first of them found no Start. -/
theorem subscribers_wait_in_every_run {n uris : ℕ} {acts : List Action}
    (h0 : NoStaleStart n slots) (hruns : SlotsAfter n slots slots')
    (h : Reaches (step ⟨n, uris⟩) (.initial slots') acts s) (hk : k < n)
    (hsub : roleOf k = text "s") (hnot : ¬ s.parent.Started k) : (s.child k).BeforeStart := by
  rw [roleOf_eq_sub_iff] at hsub
  have hstale := hruns.noStaleStart h0 k hk hsub
  have hinitial : Waits slots' k (.initial slots') :=
    ⟨fun _ ↦ trivial, fun _ ↦ rfl, fun _ ↦ trivial⟩
  exact (invariant_of_reaches (fun _ _ _ hu hstep ↦ hstep.waits hsub hstale hu) hinitial h).before
    hnot

/-- The run after a shipped one whose report has failed. -/
theorem subscribers_wait_in_second_run : ∃ s : State,
    Leads (step shipped) (.initial freshSlots) s ∧ s.parent = .reporting ∧
    ∀ uris acts t, Reaches (step ⟨2, uris⟩) (.initial s.slot) acts t → ¬ t.parent.Started 1 →
      (t.child 1).BeforeStart := by
  obtain ⟨s, hleads, hp⟩ := leads_report rfl (wellFormed_initial shipped freshSlots)
    (not_stuck_initial shipped freshSlots)
  obtain ⟨first, hfirst⟩ := hleads
  refine ⟨s, ⟨first, hfirst⟩, hp, ?_⟩
  intro uris acts t ht hnot
  exact subscribers_wait_in_every_run (fun k _ _ ↦ not_holds_freshSlots k)
    (.run .none hfirst hp fun _ ↦ Or.inl rfl) ht (by decide) (by decide) hnot

end UpZenohExample
