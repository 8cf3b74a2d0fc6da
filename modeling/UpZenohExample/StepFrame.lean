import UpZenohExample.RunTests

/-!
# What one step of the system changes

The parent only moves forward through its phases, a slot is written by the two
broadcasts of the parent and by the Stop of its own publisher, and a child keeps
to the states of its role.
-/

namespace UpZenohExample

open ByteText Function LabelledRun

/-! ## The parent -/

def Parent.phase : Parent → ℕ
  | .creating _ | .mapping _ => 0
  | .starting _ => 1
  | .polling _ _ => 2
  | .stopping _ => 3
  | .waiting _ => 4
  | .reporting => 5

/-- The parent has written Start into slot `k`. -/
def Parent.Started (k : ℕ) : Parent → Prop
  | .creating _ | .mapping _ => False
  | .starting i => k < i
  | .polling _ _ | .stopping _ | .waiting _ | .reporting => True

def Parent.StopWritten (k : ℕ) : Parent → Prop
  | .stopping i => k < i
  | .waiting _ | .reporting => True
  | .creating _ | .mapping _ | .starting _ | .polling _ _ => False

variable {cfg : Config} {s t : State} {a : Action}

/-- A property kept by every step holds in every state of a run. -/
theorem invariant_of_reaches {P : State → Prop} {acts : List Action}
    (hstep : ∀ u b v, P u → Step cfg u b v → P v) (h0 : P s)
    (h : Reaches (step cfg) s acts t) : P t := by
  have hkept : ∀ u b v, P u → step cfg u b = some v → P v :=
    fun u b v hu hv ↦ hstep u b v hu (step_cases hv)
  exact h.invariant hkept h0

theorem Step.phase_le (h : Step cfg s a t) : s.parent.phase ≤ t.parent.phase := by
  cases h <;> simp [Parent.phase, *]

theorem Step.parent_eq (h : Step cfg s a t) (ha : a ≠ .parent) : t.parent = s.parent := by
  cases h <;> first | rfl | exact absurd rfl ha

theorem Step.started_mono (h : Step cfg s a t) {k : ℕ} (hk : s.parent.Started k) :
    t.parent.Started k := by
  cases h <;> simp_all [Parent.Started]
  omega

theorem Step.started_cases (h : Step cfg s a t) {k : ℕ} (hk : k < cfg.maxProcess)
    (ht : t.parent.Started k) : s.parent.Started k ∨ (a = .parent ∧ s.parent = .starting k) := by
  cases h <;> simp_all [Parent.Started] <;> omega

theorem Step.stopWritten_cases (h : Step cfg s a t) {k : ℕ} (hk : k < cfg.maxProcess)
    (ht : t.parent.StopWritten k) :
    s.parent.StopWritten k ∨ (a = .parent ∧ s.parent = .stopping k) := by
  cases h <;> simp_all [Parent.StopWritten] <;> omega

/-! ## The slots -/

/-- The writers of slot `j`. -/
theorem Step.slot_cases (h : Step cfg s a t) (j : ℕ) :
    t.slot j = s.slot j ∨
      (a = .parent ∧ s.parent = .starting j ∧ j < cfg.maxProcess ∧
        t.slot j = writeSlot (s.slot j) start) ∨
      (a = .parent ∧ s.parent = .stopping j ∧ j < cfg.maxProcess ∧ j % 2 = 1 ∧
        t.slot j = writeSlot (s.slot j) stop) ∨
      (a = .child j ∧ t.child j = .stopped ∧ t.slot j = writeSlot (s.slot j) stop) := by
  cases h with
  | writeStart hp hi =>
      rename_i i
      by_cases hj : j = i
      · subst hj
        simp [hp, hi]
      · simp [hj]
  | writeStop hp hi hsub =>
      rename_i i
      by_cases hj : j = i
      · subst hj
        simp [hp, hi, hsub]
      · simp [hj]
  | pubStop hc hsent =>
      rename_i k sent
      by_cases hj : j = k
      · subst hj
        simp
      · simp [hj]
  | _ => exact Or.inl rfl

theorem Step.writes_start (h : Step cfg s .parent t) {k : ℕ} (hp : s.parent = .starting k)
    (hk : k < cfg.maxProcess) :
    t.parent = .starting (k + 1) ∧ t.slot k = writeSlot (s.slot k) start := by
  cases h <;> simp_all

/-! ## The children -/

/-- The moves of child `k`, which depend on its own slot only. -/
inductive ChildMove (cfg : Config) (mem : Text) (k : ℕ) : Child → Child → Prop where
  | openPub (hpub : k % 2 = 0) : ChildMove cfg mem k .launched (.publishing 0)
  | openSub (hsub : k % 2 = 1) : ChildMove cfg mem k .launched .waitStart
  | send {sent : ℕ} (hsent : sent < cfg.messages) :
      ChildMove cfg mem k (.publishing sent) (.publishing (sent + 1))
  | pubStop {sent : ℕ} (hsent : ¬ sent < cfg.messages) :
      ChildMove cfg mem k (.publishing sent) .stopped
  | gotStart (hslot : Holds mem start) : ChildMove cfg mem k .waitStart .registering
  | register : ChildMove cfg mem k .registering .waitStop
  | gotStop (hslot : Holds mem stop) : ChildMove cfg mem k .waitStop .exited
  | failLaunched : ChildMove cfg mem k .launched .failed
  | failPublishing {sent : ℕ} : ChildMove cfg mem k (.publishing sent) .failed
  | failRegistering : ChildMove cfg mem k .registering .failed

theorem ChildMove.setChild_cases {k : ℕ} {c : Child}
    (h : ChildMove cfg (s.slot k) k (s.child k) c) (ha : a = .child k ∨ a = .fail k) (j : ℕ) :
    (s.setChild k c).child j = s.child j ∨
      ((a = .child j ∨ a = .fail j) ∧
        ChildMove cfg (s.slot j) j (s.child j) ((s.setChild k c).child j)) := by
  by_cases hj : j = k
  · subst hj
    right
    refine ⟨ha, ?_⟩
    simpa using h
  · left
    simp [hj]

/-- Child `j` stays where it is, is forked, or makes a move of its own. -/
theorem Step.child_cases (h : Step cfg s a t) (j : ℕ) :
    t.child j = s.child j ∨
      (a = .parent ∧ s.parent = .creating j ∧ t.child j = .launched) ∨
      ((a = .child j ∨ a = .fail j) ∧ ChildMove cfg (s.slot j) j (s.child j) (t.child j)) := by
  have hset {k : ℕ} {c : Child} (ha : a = .child k ∨ a = .fail k)
      (hmove : ChildMove cfg (s.slot k) k (s.child k) c) :
      (s.setChild k c).child j = s.child j ∨
        (a = .parent ∧ s.parent = .creating j ∧ (s.setChild k c).child j = .launched) ∨
        ((a = .child j ∨ a = .fail j) ∧
          ChildMove cfg (s.slot j) j (s.child j) ((s.setChild k c).child j)) :=
    (hmove.setChild_cases ha j).imp_right Or.inr
  cases h with
  | fork hp hi =>
      rename_i i
      by_cases hj : j = i
      · subst hj
        simp [hp]
      · simp [hj]
  | openPub hc hpub =>
      apply hset (Or.inl rfl)
      rw [hc]
      exact .openPub hpub
  | openSub hc hsub =>
      apply hset (Or.inl rfl)
      rw [hc]
      exact .openSub hsub
  | send hc hsent =>
      apply hset (Or.inl rfl)
      rw [hc]
      exact .send hsent
  | pubStop hc hsent =>
      apply hset (Or.inl rfl)
      rw [hc]
      exact .pubStop hsent
  | gotStart hc hslot =>
      apply hset (Or.inl rfl)
      rw [hc]
      exact .gotStart hslot
  | register hc =>
      apply hset (Or.inl rfl)
      rw [hc]
      exact .register
  | gotStop hc hslot =>
      apply hset (Or.inl rfl)
      rw [hc]
      exact .gotStop hslot
  | fail hc =>
      apply hset (Or.inr rfl)
      rcases hc with hc | ⟨sent, hc⟩ | hc <;> rw [hc]
      · exact .failLaunched
      · exact .failPublishing
      · exact .failRegistering
  | _ => exact Or.inl rfl

/-- The states a child of process `k` can be in. -/
def Child.OkFor (k : ℕ) : Child → Prop
  | .unborn | .launched | .failed => True
  | .publishing _ | .stopped => k % 2 = 0
  | .waitStart | .registering | .waitStop | .exited => k % 2 = 1

def RolesOk (s : State) : Prop := ∀ k, (s.child k).OkFor k

theorem ChildMove.okFor {mem : Text} {k : ℕ} {c d : Child} (h : ChildMove cfg mem k c d)
    (hc : c.OkFor k) : d.OkFor k := by
  cases h <;> simp_all [Child.OkFor]

theorem Step.rolesOk (h : Step cfg s a t) (hs : RolesOk s) : RolesOk t := by
  intro j
  rcases h.child_cases j with heq | ⟨-, -, hlaunched⟩ | ⟨-, hmove⟩
  · rw [heq]
    exact hs j
  · rw [hlaunched]
    trivial
  · exact hmove.okFor (hs j)

theorem rolesOk_of_reaches {slots : ℕ → Text} {acts : List Action}
    (h : Reaches (step cfg) (.initial slots) acts s) : RolesOk s := by
  have h0 : RolesOk (.initial slots) := fun _ ↦ trivial
  exact invariant_of_reaches (fun _ _ _ hu hstep ↦ hstep.rolesOk hu) h0 h

theorem Step.stopped_of_stopped (h : Step cfg s a t) {j : ℕ} (hj : s.child j = .stopped) :
    t.child j = .stopped ∨ s.parent = .creating j := by
  rcases h.child_cases j with heq | ⟨-, hp, -⟩ | ⟨-, hmove⟩
  · exact Or.inl (heq.trans hj)
  · exact Or.inr hp
  · rw [hj] at hmove
    cases hmove

/-- A child reaches `stopped` by writing Stop into its slot. -/
theorem Step.stopped_cases (h : Step cfg s a t) {k : ℕ} (ht : t.child k = .stopped) :
    s.child k = .stopped ∨ (a = .child k ∧ t.slot k = writeSlot (s.slot k) stop) := by
  have hother {j : ℕ} {c : Child} (hc : c ≠ .stopped)
      (hset : (s.setChild j c).child k = .stopped) : s.child k = .stopped := by
    by_cases hk : k = j
    · rw [setChild_child, if_pos hk] at hset
      exact absurd hset hc
    · rwa [setChild_child, if_neg hk] at hset
  cases h with
  | fork => exact Or.inl (hother (c := .launched) (by simp) ht)
  | pubStop hc hsent =>
      rename_i j sent
      by_cases hk : k = j
      · subst hk
        simp
      · left
        simpa [hk] using ht
  | openPub | openSub | send | gotStart | register | gotStop | fail =>
      exact Or.inl (hother (by simp) ht)
  | _ => exact Or.inl ht

end UpZenohExample
