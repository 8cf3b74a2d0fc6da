import Mathlib.Algebra.Order.BigOperators.Group.Finset
import UpZenohExample.Lib.Fair
import UpZenohExample.Stuck

/-!
# How `run_tests` comes to its end

Every step brings the system nearer to the report, except a poll of a slot that
does not hold the message yet and the polling passes of the parent.  So under a
schedule that lets every process run again and again, the report is missed only
through a lost handshake, and only a lost handshake makes it unreachable.
-/

namespace UpZenohExample

open ByteText Function LabelledRun

variable {cfg : Config} {slots : ℕ → Text} {s t : State} {a : Action}

/-! ## The moves that are left -/

def Child.left (cfg : Config) : Child → ℕ
  | .unborn => cfg.messages + 5
  | .launched => cfg.messages + 4
  | .publishing sent => cfg.messages - sent + 1
  | .waitStart => 3
  | .registering => 2
  | .waitStop => 1
  | .stopped | .exited | .failed => 0

/-- In the polling loop a pass is counted on from its first slot or has to be repeated. -/
def Parent.left (n : ℕ) : Parent → ℕ
  | .creating i => 2 * (n - i) + (5 * n + 7)
  | .mapping i => 2 * (n - i) + (5 * n + 6)
  | .starting i => n - i + (4 * n + 6)
  | .polling i count => n - i + if count = (i + 1) / 2 then 2 * n + 3 else 3 * n + 4
  | .stopping i => n - i + (n + 2)
  | .waiting i => n - i + 1
  | .reporting => 0

instance (cfg : Config) (s : State) : Decidable (PubsHold cfg s) :=
  inferInstanceAs (Decidable (∀ j, j < cfg.maxProcess → _))

def State.PollsInVain (cfg : Config) (s : State) : Prop :=
  s.parent.phase = 2 ∧ ¬ PubsHold cfg s

instance (cfg : Config) (s : State) : Decidable (s.PollsInVain cfg) :=
  inferInstanceAs (Decidable (_ ∧ _))

def State.work (cfg : Config) (s : State) : ℕ :=
  ∑ k ∈ Finset.range cfg.maxProcess, (s.child k).left cfg

/-- Until all publisher slots hold Stop the passes of the polling loop count as one. -/
def State.ahead (cfg : Config) (s : State) : ℕ :=
  if s.PollsInVain cfg then 4 * cfg.maxProcess + 5 else s.parent.left cfg.maxProcess

def State.left (cfg : Config) (s : State) : ℕ := s.work cfg + s.ahead cfg

theorem ChildMove.left_lt {mem : Text} {k : ℕ} {c d : Child} (h : ChildMove cfg mem k c d) :
    d.left cfg < c.left cfg := by
  cases h <;> simp only [Child.left] <;> omega

/-- No step gives a child more to do. -/
theorem Step.child_left_le (h : Step cfg s a t) (hs : WellFormed cfg s) (j : ℕ) :
    (t.child j).left cfg ≤ (s.child j).left cfg := by
  rcases h.child_cases j with hsame | ⟨-, hp, hlaunched⟩ | ⟨-, hmove⟩
  · rw [hsame]
  · by_cases hborn : s.child j = .unborn
    · rw [hborn, hlaunched]
      exact Nat.le_succ _
    · exact absurd hp (hs.not_creating hborn)
  · exact Nat.le_of_lt hmove.left_lt

theorem Step.work_le (h : Step cfg s a t) (hs : WellFormed cfg s) : t.work cfg ≤ s.work cfg :=
  Finset.sum_le_sum fun j _ ↦ h.child_left_le hs j

theorem Step.work_lt (h : Step cfg s a t) (hs : WellFormed cfg s) {k : ℕ}
    (hk : k < cfg.maxProcess) (hmove : ChildMove cfg (s.slot k) k (s.child k) (t.child k)) :
    t.work cfg < s.work cfg :=
  Finset.sum_lt_sum (fun j _ ↦ h.child_left_le hs j)
    ⟨k, Finset.mem_range.mpr hk, hmove.left_lt⟩

/-! ## The steps of the parent -/

theorem Parent.left_polling_le (n i count : ℕ) : (Parent.polling i count).left n ≤ 4 * n + 4 := by
  simp only [Parent.left]
  split <;> omega

theorem Parent.left_polling_zero (n : ℕ) : (Parent.polling 0 0).left n = n + (2 * n + 3) := by
  simp [Parent.left]

theorem Step.parent_left_lt (heven : cfg.maxProcess % 2 = 0) (h : Step cfg s .parent t)
    (hs : WellFormed cfg s) (hhold : s.parent.phase = 2 → PubsHold cfg s) :
    t.parent.left cfg.maxProcess < s.parent.left cfg.maxProcess := by
  have htallied := hs.tallied
  unfold Tallied at htallied
  cases h with
  | mapped hp =>
      have hi := hs.mapping _ hp
      simp only [hp, Parent.left]
      omega
  | count hp hi hpub hstop =>
      simp only [hp, Parent.left]
      split <;> split <;> omega
  | pass hp hi hnot =>
      rename_i i count
      have hsub : i % 2 ≠ 0 := by
        intro hpub
        have hall := hhold (by simp [hp, Parent.phase])
        exact hnot ⟨hpub, hall i hi ((roleOf_eq_pub_iff i).mpr hpub)⟩
      simp only [hp, Parent.left]
      split <;> split <;> omega
  | again hp hi htest =>
      rw [hp] at htallied
      obtain ⟨hle, -, -⟩ := htallied
      rw [hp, Parent.left_polling_zero, Parent.left]
      split <;> omega
  | finish hp hi htest =>
      simp only [hp, Parent.left]
      split <;> omega
  | fork hp | created hp | writeStart hp | broadcast hp | writeStop hp | skip hp
  | stopsWritten hp | reap hp | reaped hp =>
      simp [hp, Parent.left]
      try omega

theorem State.ahead_of_vain (h : s.PollsInVain cfg) : s.ahead cfg = 4 * cfg.maxProcess + 5 :=
  if_pos h

theorem State.ahead_of_not_vain (h : ¬ s.PollsInVain cfg) :
    s.ahead cfg = s.parent.left cfg.maxProcess :=
  if_neg h

/-- The parent moves on, unless it polls slots that do not hold Stop yet. -/
theorem Step.ahead_lt (heven : cfg.maxProcess % 2 = 0) (h : Step cfg s .parent t)
    (hs : WellFormed cfg s) (hvain : ¬ s.PollsInVain cfg) : t.ahead cfg < s.ahead cfg := by
  have hhold : s.parent.phase = 2 → PubsHold cfg s := by
    intro hp
    by_contra hnot
    exact hvain ⟨hp, hnot⟩
  have hlt := h.parent_left_lt heven hs hhold
  rw [State.ahead_of_not_vain hvain]
  by_cases hnext : t.PollsInVain cfg
  · have hstarting : ∃ i, s.parent = .starting i := by
      have hphase := h.phase_le
      by_contra hnone
      have hp : s.parent.phase = 2 := by
        cases h <;> simp_all [State.PollsInVain, Parent.phase]
      exact hnext.2 (h.pubsHold (by omega) (hhold hp))
    obtain ⟨i, hp⟩ := hstarting
    rw [State.ahead_of_vain hnext, hp, Parent.left]
    omega
  · rwa [State.ahead_of_not_vain hnext]

theorem Step.parent_polls (heven : cfg.maxProcess % 2 = 0) (h : Step cfg s .parent t)
    (hs : WellFormed cfg s) (hvain : s.PollsInVain cfg) :
    t.child = s.child ∧ t.slot = s.slot ∧ t.parent.phase = 2 := by
  have htallied := h.tallied_of_parent heven hs.tallied
  obtain ⟨hp, hnot⟩ := hvain
  cases h with
  | finish => exact absurd htallied hnot
  | count | pass | again => exact ⟨rfl, rfl, rfl⟩
  | _ => simp_all [Parent.phase]

/-- A step that is not the parent's leaves what the parent has to do. -/
theorem Step.ahead_le (h : Step cfg s a t) (ha : a ≠ .parent) : t.ahead cfg ≤ s.ahead cfg := by
  have hparent := h.parent_eq ha
  by_cases hnext : t.PollsInVain cfg
  · have hvain : s.PollsInVain cfg := by
      obtain ⟨hp, hnot⟩ := hnext
      rw [hparent] at hp
      exact ⟨hp, fun hhold ↦ hnot (h.pubsHold (by omega) hhold)⟩
    rw [State.ahead_of_vain hnext, State.ahead_of_vain hvain]
  · rw [State.ahead_of_not_vain hnext, hparent]
    by_cases hvain : s.PollsInVain cfg
    · rw [State.ahead_of_vain hvain]
      cases hp : s.parent with
      | polling i count => exact Nat.le_succ_of_le (Parent.left_polling_le _ _ _)
      | _ => simp [State.PollsInVain, hp, Parent.phase] at hvain
    · rw [State.ahead_of_not_vain hvain]

theorem Step.child_cases_self {k : ℕ} (h : Step cfg s (.child k) t) :
    t = s ∨ (ChildMove cfg (s.slot k) k (s.child k) (t.child k) ∧ t.child k ≠ .failed) := by
  have hself := h.child_cases k
  cases h with
  | spinStart | spinStop => exact Or.inl rfl
  | _ => simp_all

theorem Step.fail_cases {k : ℕ} (h : Step cfg s (.fail k) t) :
    ChildMove cfg (s.slot k) k (s.child k) (t.child k) ∧ t = s.setChild k .failed := by
  have hself := h.child_cases k
  cases h with
  | fail hc => rcases hc with hc | ⟨sent, hc⟩ | hc <;> simp_all

theorem WellFormed.lt_of_move (hs : WellFormed cfg s) {mem : Text} {k : ℕ} {d : Child}
    (hmove : ChildMove cfg mem k (s.child k) d) : k < cfg.maxProcess := by
  rcases hs.unborn k with ⟨hk, -⟩ | hunborn
  · exact hk
  · rw [hunborn] at hmove
    cases hmove

theorem Step.left_lt_of_move (h : Step cfg s a t) (hs : WellFormed cfg s) (ha : a ≠ .parent)
    {k : ℕ} (hmove : ChildMove cfg (s.slot k) k (s.child k) (t.child k)) :
    t.left cfg < s.left cfg :=
  Nat.add_lt_add_of_lt_of_le (h.work_lt hs (hs.lt_of_move hmove) hmove) (h.ahead_le ha)

/-- A step brings the report nearer, changes nothing, or polls in vain. -/
theorem Step.left_cases (heven : cfg.maxProcess % 2 = 0) (h : Step cfg s a t)
    (hs : WellFormed cfg s) :
    t.left cfg < s.left cfg ∨ t = s ∨
      (s.PollsInVain cfg ∧ t.child = s.child ∧ t.slot = s.slot ∧ t.left cfg = s.left cfg) := by
  cases a with
  | parent =>
      by_cases hvain : s.PollsInVain cfg
      · obtain ⟨hchild, hslot, hp⟩ := h.parent_polls heven hs hvain
        have hnext : t.PollsInVain cfg := by
          refine ⟨hp, ?_⟩
          intro hhold
          apply hvain.2
          simpa only [PubsHold, hslot] using hhold
        refine Or.inr (Or.inr ⟨hvain, hchild, hslot, ?_⟩)
        simp only [State.left, State.work, hchild, State.ahead_of_vain, hnext, hvain]
      · left
        exact Nat.add_lt_add_of_le_of_lt (h.work_le hs) (h.ahead_lt heven hs hvain)
  | child k =>
      rcases h.child_cases_self with rfl | ⟨hmove, -⟩
      · exact Or.inr (Or.inl rfl)
      · exact Or.inl (h.left_lt_of_move hs (by simp) hmove)
  | fail k => exact Or.inl (h.left_lt_of_move hs (by simp) h.fail_cases.1)

/-! ## Who can move -/

/-- The child does not poll for a message that its slot does not hold. -/
def Child.Ready (mem : Text) : Child → Prop
  | .launched | .publishing _ | .registering => True
  | .waitStart => Holds mem start
  | .waitStop => Holds mem stop
  | .unborn | .stopped | .exited | .failed => False

def Helpful (cfg : Config) (s : State) : Action → Prop
  | .parent => ¬ s.PollsInVain cfg ∧ ∃ t, step cfg s .parent = some t
  | .child k => (s.child k).Ready (s.slot k)
  | .fail _ => False

theorem exists_step_of_ready (cfg : Config) {k : ℕ} (h : (s.child k).Ready (s.slot k)) :
    ∃ t, step cfg s (.child k) = some t ∧ Step cfg s (.child k) t ∧
      ChildMove cfg (s.slot k) k (s.child k) (t.child k) := by
  obtain ⟨t, ht, hne⟩ : ∃ t, step cfg s (.child k) = some t ∧ t.child k ≠ s.child k := by
    cases hc : s.child k with
    | launched =>
        refine ⟨s.setChild k (if k % 2 = 0 then .publishing 0 else .waitStart),
          by simp [step, childStep, hc], ?_⟩
        simp only [setChild_child]
        split_ifs <;> simp
    | publishing sent =>
        by_cases hsent : sent < cfg.messages
        · exact ⟨s.setChild k (.publishing (sent + 1)), by simp [step, childStep, hc, hsent],
            by simp⟩
        · exact ⟨s.withStop k, by simp [step, childStep, hc, hsent, State.withStop],
            by simp [State.withStop]⟩
    | waitStart =>
        rw [hc] at h
        have hstart : Holds (s.slot k) start := h
        exact ⟨s.setChild k .registering, by simp [step, childStep, hc, hstart], by simp⟩
    | registering => exact ⟨s.setChild k .waitStop, by simp [step, childStep, hc], by simp⟩
    | waitStop =>
        rw [hc] at h
        have hstop : Holds (s.slot k) stop := h
        exact ⟨s.setChild k .exited, by simp [step, childStep, hc, hstop], by simp⟩
    | unborn | stopped | exited | failed =>
        rw [hc] at h
        exact False.elim h
  have hstep : Step cfg s (.child k) t := step_cases ht
  refine ⟨t, ht, hstep, (hstep.child_cases_self.resolve_left ?_).1⟩
  rintro rfl
  exact hne rfl

theorem exists_parent_step (hp : s.parent ≠ .reporting)
    (hdone : ∀ i < cfg.maxProcess, s.parent = .waiting i → (s.child i).terminated = true) :
    ∃ t, step cfg s .parent = some t := by
  cases hparent : s.parent with
  | reporting => exact absurd hparent hp
  | mapping i => simp [step, parentStep, hparent]
  | waiting i =>
      by_cases hi : i < cfg.maxProcess
      · simp [step, parentStep, hparent, hi, hdone i hi hparent]
      · simp [step, parentStep, hparent, hi]
  | creating | starting | polling | stopping =>
      simp only [step, parentStep, hparent]
      split_ifs <;> exact ⟨_, rfl⟩

theorem Helpful.left_lt (heven : cfg.maxProcess % 2 = 0) (hs : WellFormed cfg s)
    (h : Helpful cfg s a) : (turn (step cfg) s a).left cfg < s.left cfg := by
  cases a with
  | parent =>
      obtain ⟨hvain, t, ht⟩ := h
      rw [turn_of_step ht]
      exact Nat.add_lt_add_of_le_of_lt ((step_cases ht).work_le hs)
        ((step_cases ht).ahead_lt heven hs hvain)
  | child k =>
      obtain ⟨t, ht, hstep, hmove⟩ := exists_step_of_ready cfg h
      rw [turn_of_step ht]
      exact hstep.left_lt_of_move hs (by simp) hmove
  | fail k => exact False.elim h

theorem Helpful.turn {b : Action} (heven : cfg.maxProcess % 2 = 0) (hs : WellFormed cfg s)
    (h : Helpful cfg s a) :
    (turn (step cfg) s b).left cfg < s.left cfg ∨
      ((turn (step cfg) s b).left cfg = s.left cfg ∧ Helpful cfg (turn (step cfg) s b) a) := by
  rcases turn_cases (step cfg) s b with htaken | hsame
  · rcases (step_cases htaken).left_cases heven hs with hlt | heq | ⟨hvain, hchild, hslot, heq⟩
    · exact Or.inl hlt
    · rw [heq]
      exact Or.inr ⟨rfl, h⟩
    · right
      refine ⟨heq, ?_⟩
      cases a with
      | parent => exact absurd hvain h.1
      | child k =>
          simp only [Helpful, hchild, hslot]
          exact h
      | fail k => exact h
  · rw [hsame]
    exact Or.inr ⟨rfl, h⟩

/-! ## Progress -/

theorem WellFormed.ready_of_pub (hs : WellFormed cfg s) (hstuck : ¬ Stuck cfg s) {k : ℕ}
    (hk : k < cfg.maxProcess) (hp : s.parent.Forked k) (hpub : k % 2 = 0) :
    (s.child k).Ready (s.slot k) ∨ (s.child k = .stopped ∧ Holds (s.slot k) stop) := by
  have hlost : ¬ PubLost s k := fun hlost ↦ hstuck ⟨k, hk, Or.inl ⟨hpub, hlost⟩⟩
  have hrole := hs.roles k
  have hborn := hs.born k hk hp
  cases hc : s.child k with
  | launched | publishing => exact Or.inl trivial
  | stopped =>
      refine Or.inr ⟨rfl, ?_⟩
      by_contra hnot
      exact hlost (Or.inr ⟨hc, fun hboth ↦ hnot hboth.2⟩)
  | failed => exact absurd (Or.inl hc) hlost
  | unborn => exact absurd hc hborn
  | waitStart | registering | waitStop | exited =>
      rw [hc] at hrole
      have hsub : k % 2 = 1 := hrole
      omega

/-- A subscriber that has not ended polls with success or waits for the parent's Stop. -/
theorem WellFormed.ready_of_sub (hs : WellFormed cfg s) (hstuck : ¬ Stuck cfg s) {k : ℕ}
    (hk : k < cfg.maxProcess) (hp : 2 ≤ s.parent.phase) (hsub : k % 2 = 1) :
    (s.child k).Ready (s.slot k) ∨ (s.child k).terminated = true ∨
      (s.child k = .waitStop ∧ ¬ s.parent.StopWritten k) := by
  have hlost : ¬ SubLost s k := fun hlost ↦ hstuck ⟨k, hk, Or.inr ⟨hsub, hlost⟩⟩
  have hforked : s.parent.Forked k := by
    cases hparent : s.parent <;> simp_all [Parent.phase, Parent.Forked]
  have hstarted : s.parent.Started k := by
    cases hparent : s.parent <;> simp_all [Parent.phase, Parent.Started]
  have hrole := hs.roles k
  have hborn := hs.born k hk hforked
  obtain ⟨hstart, hstop⟩ := hs.slotsOk k hk hsub
  cases hc : s.child k with
  | launched | registering => exact Or.inl trivial
  | waitStart => exact Or.inl (hstart hstarted fun hwritten ↦ hlost ⟨hc, hwritten⟩)
  | waitStop =>
      by_cases hwritten : s.parent.StopWritten k
      · exact Or.inl (hstop hwritten)
      · exact Or.inr (Or.inr ⟨rfl, hwritten⟩)
  | exited | failed => exact Or.inr (Or.inl rfl)
  | unborn => exact absurd hc hborn
  | publishing | stopped =>
      rw [hc] at hrole
      have hpub : k % 2 = 0 := hrole
      omega

/-- A child that `waitpid` waits for can move. -/
theorem WellFormed.ready_of_waiting (hs : WellFormed cfg s) (hstuck : ¬ Stuck cfg s) {i : ℕ}
    (hi : i < cfg.maxProcess) (hp : s.parent = .waiting i) :
    (s.child i).Ready (s.slot i) ∨ (s.child i).terminated = true := by
  rcases Nat.mod_two_eq_zero_or_one i with hpub | hsub
  · right
    rw [(hs.pub_done (by simp [hp, Parent.phase]) hi hpub).1]
    rfl
  · rcases hs.ready_of_sub hstuck hi (by simp [hp, Parent.phase]) hsub with
      hready | hdone | ⟨-, hnot⟩
    · exact Or.inl hready
    · exact Or.inr hdone
    · exact absurd (by simp [hp, Parent.StopWritten]) hnot

theorem exists_helpful (hs : WellFormed cfg s) (hstuck : ¬ Stuck cfg s)
    (hp : s.parent ≠ .reporting) :
    Helpful cfg s .parent ∨ ∃ k < cfg.maxProcess, Helpful cfg s (.child k) := by
  by_cases hvain : s.PollsInVain cfg
  · right
    obtain ⟨hphase, hnot⟩ := hvain
    simp only [PubsHold, not_forall] at hnot
    obtain ⟨k, hk, hrole, hslot⟩ := hnot
    have hforked : s.parent.Forked k := by
      cases hparent : s.parent <;> simp_all [Parent.phase, Parent.Forked]
    refine ⟨k, hk, ?_⟩
    rcases hs.ready_of_pub hstuck hk hforked ((roleOf_eq_pub_iff k).mp hrole) with
      hready | ⟨-, hholds⟩
    · exact hready
    · exact absurd hholds hslot
  · by_cases hdone : ∀ i < cfg.maxProcess, s.parent = .waiting i → (s.child i).terminated = true
    · exact Or.inl ⟨hvain, exists_parent_step hp hdone⟩
    · right
      push Not at hdone
      obtain ⟨i, hi, hwaiting, hnot⟩ := hdone
      exact ⟨i, hi, (hs.ready_of_waiting hstuck hi hwaiting).resolve_right hnot⟩

theorem wellFormed_of_reaches {acts : List Action} (heven : cfg.maxProcess % 2 = 0)
    (h : Reaches (step cfg) (.initial slots) acts s) : WellFormed cfg s :=
  invariant_of_reaches (fun _ _ _ hu hstep ↦ hstep.wellFormed heven hu)
    (wellFormed_initial cfg slots) h

/-- A schedule of the operating system: the parent and every child run again and again. -/
def FairSchedule (cfg : Config) (sched : ℕ → Action) : Prop :=
  FairTo sched .parent ∧ ∀ k < cfg.maxProcess, FairTo sched (.child k)

def roundRobin (cfg : Config) (i : ℕ) : Action :=
  if i % (cfg.maxProcess + 1) < cfg.maxProcess then .child (i % (cfg.maxProcess + 1)) else .parent

theorem fairSchedule_roundRobin (cfg : Config) : FairSchedule cfg (roundRobin cfg) := by
  have hturn (i k : ℕ) (hk : k ≤ cfg.maxProcess) :
      ∃ j, i ≤ j ∧ j % (cfg.maxProcess + 1) = k := by
    refine ⟨(cfg.maxProcess + 1) * i + k, ?_, ?_⟩
    · exact Nat.le_add_right_of_le (Nat.le_mul_of_pos_left i (Nat.succ_pos _))
    · rw [Nat.mul_add_mod, Nat.mod_eq_of_lt (by omega)]
  constructor
  · intro i
    obtain ⟨j, hij, hj⟩ := hturn i cfg.maxProcess le_rfl
    exact ⟨j, hij, by simp [roundRobin, hj]⟩
  · intro k hk i
    obtain ⟨j, hij, hj⟩ := hturn i k (by omega)
    exact ⟨j, hij, by simp [roundRobin, hj, hk]⟩

theorem reporting_of_leads (hp : s.parent = .reporting) (h : Leads (step cfg) s t) :
    t.parent = .reporting := by
  obtain ⟨acts, hrun⟩ := h
  have hphase := phase_le_of_run hrun
  rw [hp] at hphase
  cases hparent : t.parent <;> simp_all [Parent.phase]

/-- Under a fair schedule the report is missed exactly through a lost handshake. -/
theorem fair_report_iff (heven : cfg.maxProcess % 2 = 0) (slots : ℕ → Text)
    {sched : ℕ → Action} (hfair : FairSchedule cfg sched) :
    (∃ i, (exec (step cfg) (.initial slots) sched i).parent = .reporting) ↔
      ∀ i, ¬ Stuck cfg (exec (step cfg) (.initial slots) sched i) := by
  have hwf : ∀ i, WellFormed cfg (exec (step cfg) (.initial slots) sched i) :=
    fun i ↦ wellFormed_of_leads heven (wellFormed_initial cfg slots) (leads_exec _ sched i)
  constructor
  · rintro ⟨i, hi⟩ j hstuck
    rcases Nat.le_total i j with hij | hji
    · exact not_stuck_of_reporting (hwf j)
        (reporting_of_leads hi (leads_exec_of_le _ sched hij)) hstuck
    · exact not_stuck_of_reporting (hwf i) hi
        (stuck_of_leads heven (hwf j) hstuck (leads_exec_of_le _ sched hji))
  · intro hnever
    have hgood : ∀ i, WellFormed cfg (exec (step cfg) (.initial slots) sched i) ∧
        ¬ Stuck cfg (exec (step cfg) (.initial slots) sched i) := fun i ↦ ⟨hwf i, hnever i⟩
    refine eventually_of_helpful (G := fun u : State ↦ WellFormed cfg u ∧ ¬ Stuck cfg u)
      (Q := fun u : State ↦ u.parent = .reporting) (Helpful cfg) (State.left cfg) ?_ ?_ ?_ hgood
    · rintro u ⟨hu, hstuck⟩ hp
      rcases exists_helpful hu hstuck hp with hparent | ⟨k, hk, hchild⟩
      · exact ⟨.parent, hfair.1, hparent⟩
      · exact ⟨.child k, hfair.2 k hk, hchild⟩
    · rintro u b c ⟨hu, -⟩ - hhelp
      exact hhelp.turn heven hu
    · rintro u b ⟨hu, -⟩ - hhelp
      exact hhelp.left_lt heven hu

theorem fair_report_round_robin :
    (∃ i, (exec (step shipped) (.initial freshSlots) (roundRobin shipped) i).parent =
      .reporting) ↔
      ∀ i, ¬ Stuck shipped (exec (step shipped) (.initial freshSlots) (roundRobin shipped) i) :=
  fair_report_iff rfl freshSlots (fairSchedule_roundRobin shipped)

/-! ## The states from which the report can be reached -/

theorem Step.not_stuck_of_parent (h : Step cfg s .parent t) (hnot : ¬ Stuck cfg s)
    (hpast : ∀ k < cfg.maxProcess, k % 2 = 1 → s.parent = .stopping k → s.child k ≠ .waitStart) :
    ¬ Stuck cfg t := by
  have hchild (j : ℕ) : t.child j = s.child j ∨ t.child j = .launched := by
    rcases h.child_cases j with hsame | ⟨-, -, hlaunched⟩ | ⟨hself, -⟩
    · exact Or.inl hsame
    · exact Or.inr hlaunched
    · simp at hself
  rintro ⟨k, hk, ⟨hpub, hfailed | ⟨hstopped, hlost⟩⟩ | ⟨hsub, hwait, hwritten⟩⟩
  · rcases hchild k with hsame | hlaunched
    · exact hnot ⟨k, hk, Or.inl ⟨hpub, Or.inl (hsame ▸ hfailed)⟩⟩
    · rw [hlaunched] at hfailed
      cases hfailed
  · rcases hchild k with hsame | hlaunched
    · rw [hsame] at hstopped
      by_cases hboth : s.parent.Started k ∧ Holds (s.slot k) stop
      · apply hlost
        refine ⟨h.started_mono hboth.1, ?_⟩
        rcases h.slot_cases k with hslot | ⟨-, hp, -⟩ | ⟨-, -, -, -, hwrite⟩ | ⟨hself, -⟩
        · rw [hslot]
          exact hboth.2
        · have hstarted := hboth.1
          rw [hp] at hstarted
          exact absurd hstarted (Nat.lt_irrefl k)
        · rw [hwrite]
          simp
        · cases hself
      · exact hnot ⟨k, hk, Or.inl ⟨hpub, Or.inr ⟨hstopped, hboth⟩⟩⟩
    · rw [hlaunched] at hstopped
      cases hstopped
  · rcases hchild k with hsame | hlaunched
    · rw [hsame] at hwait
      rcases h.stopWritten_cases hk hwritten with hbefore | ⟨-, hp⟩
      · exact hnot ⟨k, hk, Or.inr ⟨hsub, hwait, hbefore⟩⟩
      · exact hpast k hk hsub hp hwait
    · rw [hlaunched] at hwait
      cases hwait

/-- A child that is neither too late nor fails leaves the others as they are. -/
theorem Step.not_stuck_of_child {k : ℕ} (h : Step cfg s (.child k) t) (hnot : ¬ Stuck cfg s)
    (hstarted : s.parent.Started k)
    (hlate : k % 2 = 1 → s.parent.StopWritten k → s.child k ≠ .launched) : ¬ Stuck cfg t := by
  rcases h.child_cases_self with rfl | ⟨hmove, hfine⟩
  · exact hnot
  have hparent : t.parent = s.parent := h.parent_eq (by simp)
  have hother {j : ℕ} (hj : j ≠ k) : t.child j = s.child j ∧ t.slot j = s.slot j := by
    cases h <;> simp [hj]
  rintro ⟨j, hj, hlost⟩
  by_cases hjk : j = k
  · subst hjk
    rcases hlost with ⟨-, hfailed | ⟨hstopped, hlost⟩⟩ | ⟨hsub, hwait, hwritten⟩
    · exact hfine hfailed
    · rw [hparent] at hlost
      apply hlost
      refine ⟨hstarted, ?_⟩
      rcases h.stopped_cases hstopped with hbefore | ⟨-, hwrite⟩
      · rw [hbefore] at hmove
        generalize t.child j = d at hmove
        cases hmove
      · rw [hwrite]
        simp
    · rw [hparent] at hwritten
      rw [hwait] at hmove
      generalize hc : s.child j = c at hmove
      cases hmove
      exact hlate hsub hwritten hc
  · obtain ⟨hchild, hslot⟩ := hother hjk
    apply hnot
    refine ⟨j, hj, ?_⟩
    simpa only [PubLost, SubLost, hchild, hslot, hparent] using hlost

theorem not_stuck_of_fail {k : ℕ} (hnot : ¬ Stuck cfg s) (hsub : k % 2 = 1) :
    ¬ Stuck cfg (s.setChild k .failed) := by
  rintro ⟨j, hj, hlost⟩
  by_cases hjk : j = k
  · subst hjk
    rcases hlost with ⟨hpub, -⟩ | ⟨-, hwait, -⟩
    · omega
    · simp at hwait
  · apply hnot
    refine ⟨j, hj, ?_⟩
    simpa [PubLost, SubLost, hjk] using hlost

theorem Parent.forked_of_phase {p : Parent} (hp : 1 ≤ p.phase) (k : ℕ) : p.Forked k := by
  cases p <;> simp_all [Parent.phase, Parent.Forked]

theorem Parent.started_of_phase {p : Parent} (hp : 2 ≤ p.phase) (k : ℕ) : p.Started k := by
  cases p <;> simp_all [Parent.phase, Parent.Started]

/-- The parent goes on to the polling loop, then the children as far as they can,
then the parent again. -/
theorem exists_good_step (heven : cfg.maxProcess % 2 = 0) (hs : WellFormed cfg s)
    (hnot : ¬ Stuck cfg s) (hp : s.parent ≠ .reporting) :
    ∃ a t, step cfg s a = some t ∧ (WellFormed cfg t ∧ ¬ Stuck cfg t) ∧
      t.left cfg < s.left cfg := by
  have hgood {a : Action} {t : State} (ht : step cfg s a = some t) (hstuck : ¬ Stuck cfg t)
      (hlt : t.left cfg < s.left cfg) : ∃ a t, step cfg s a = some t ∧
        (WellFormed cfg t ∧ ¬ Stuck cfg t) ∧ t.left cfg < s.left cfg :=
    ⟨a, t, ht, ⟨(step_cases ht).wellFormed heven hs, hstuck⟩, hlt⟩
  have hparent {t : State} (ht : step cfg s .parent = some t) (hvain : ¬ s.PollsInVain cfg)
      (hpast : ∀ k < cfg.maxProcess, k % 2 = 1 → s.parent = .stopping k →
        s.child k ≠ .waitStart) : ∃ a t, step cfg s a = some t ∧
        (WellFormed cfg t ∧ ¬ Stuck cfg t) ∧ t.left cfg < s.left cfg :=
    hgood ht ((step_cases ht).not_stuck_of_parent hnot hpast)
      (Nat.add_lt_add_of_le_of_lt ((step_cases ht).work_le hs)
        ((step_cases ht).ahead_lt heven hs hvain))
  by_cases hphase : s.parent.phase < 2
  · have hwaiting (i : ℕ) : s.parent ≠ .waiting i := by
      intro heq
      simp [heq, Parent.phase] at hphase
    obtain ⟨t, ht⟩ :=
      exists_parent_step hp fun i (_ : i < cfg.maxProcess) heq ↦ absurd heq (hwaiting i)
    refine hparent ht (fun hvain ↦ absurd hvain.1 (by omega)) ?_
    intro k _ _ heq
    simp [heq, Parent.phase] at hphase
  · by_cases hchild : ∃ k < cfg.maxProcess, (s.child k).Ready (s.slot k) ∧
        (k % 2 = 1 → s.parent.StopWritten k → s.child k ≠ .launched)
    · obtain ⟨k, hk, hready, hlate⟩ := hchild
      obtain ⟨t, ht, hstep, hmove⟩ := exists_step_of_ready cfg hready
      exact hgood ht (hstep.not_stuck_of_child hnot (Parent.started_of_phase (by omega) k) hlate)
        (hstep.left_lt_of_move hs (by simp) hmove)
    · push Not at hchild
      have hpubs : PubsHold cfg s := by
        intro k hk hrole
        have hpub := (roleOf_eq_pub_iff k).mp hrole
        have hforked := Parent.forked_of_phase (p := s.parent) (by omega) k
        rcases hs.ready_of_pub hnot hk hforked hpub with hready | ⟨-, hholds⟩
        · have hsub := (hchild k hk hready).1
          omega
        · exact hholds
      by_cases hdone : ∀ i < cfg.maxProcess, s.parent = .waiting i →
          (s.child i).terminated = true
      · obtain ⟨t, ht⟩ := exists_parent_step hp hdone
        refine hparent ht (fun hvain ↦ hvain.2 hpubs) ?_
        intro k hk hsub hstopping hwait
        rcases hs.ready_of_sub hnot hk (by omega) hsub with hready | hended | ⟨hlast, -⟩
        · have hlaunched := (hchild k hk hready).2.2
          simp [hwait] at hlaunched
        · simp [hwait, Child.terminated] at hended
        · simp [hwait] at hlast
      · -- a subscriber that was forked too late to hear its Start can only give up
        push Not at hdone
        obtain ⟨i, hi, hwaiting, hrunning⟩ := hdone
        have hready := (hs.ready_of_waiting hnot hi hwaiting).resolve_right hrunning
        obtain ⟨hsub, -, hlaunched⟩ := hchild i hi hready
        have ht : step cfg s (.fail i) = some (s.setChild i .failed) := by
          simp [step, failStep, hlaunched]
        exact hgood ht (not_stuck_of_fail hnot hsub)
          ((step_cases ht).left_lt_of_move hs (by simp) (step_cases ht).fail_cases.1)

theorem leads_report (heven : cfg.maxProcess % 2 = 0) (hs : WellFormed cfg s)
    (hnot : ¬ Stuck cfg s) : ∃ t, Leads (step cfg) s t ∧ t.parent = .reporting := by
  obtain ⟨t, hleads, -, hp⟩ := exists_leads_of_measure (G := fun u ↦ WellFormed cfg u ∧
    ¬ Stuck cfg u) (Q := fun u : State ↦ u.parent = .reporting) (State.left cfg)
    (fun u hu hp ↦ exists_good_step heven hu.1 hu.2 hp) ⟨hs, hnot⟩
  exact ⟨t, hleads, hp⟩

theorem not_stuck_initial (cfg : Config) (slots : ℕ → Text) : ¬ Stuck cfg (.initial slots) := by
  rintro ⟨k, -, ⟨-, hfailed | ⟨hstopped, -⟩⟩ | ⟨-, hwait, -⟩⟩
  · cases hfailed
  · cases hstopped
  · cases hwait

/-- Stuck states are exactly those from which `run_tests` never comes to its report. -/
theorem report_reachable_iff {acts : List Action} (heven : cfg.maxProcess % 2 = 0)
    (h : Reaches (step cfg) (.initial slots) acts s) :
    (∃ t, Leads (step cfg) s t ∧ t.parent = .reporting) ↔ ¬ Stuck cfg s := by
  have hs := wellFormed_of_reaches heven h
  constructor
  · rintro ⟨t, hleads, hp⟩ hstuck
    exact not_stuck_of_reporting (wellFormed_of_leads heven hs hleads) hp
      (stuck_of_leads heven hs hstuck hleads)
  · exact leads_report heven hs

theorem report_reachable_shipped :
    ∃ t, Leads (step shipped) (.initial freshSlots) t ∧ t.parent = .reporting :=
  (report_reachable_iff rfl (reaches_final (run_nil (step shipped) _))).mpr
    (not_stuck_initial shipped freshSlots)

end UpZenohExample
