import UpZenohExample.Creation
import UpZenohExample.Liveness

/-!
# Objects the parent could not map

`createProcess` drops the code of `createSheredMem`.  An object that the parent
could not open or map is missing in `shm_vec`; its process runs all the same, and
the loops of the parent over `shm_vec` pass it over.
-/

namespace UpZenohExample

open ByteText Function LabelledRun

/-- `createSheredMem` returns 0. -/
def Calls.maps (calls : Calls) : Bool := calls.shmOpen && calls.mmap

/-- Process `k` has an entry in `shm_vec`. -/
def Vectors.maps (v : Vectors) (k : ℕ) : Bool := v.shmVec.contains (objectName k)

/-- The process whose entry the loops over `shm_vec` come to next. -/
def Parent.entry : Parent → Option ℕ
  | .starting i => some i
  | .polling i _ => some i
  | .stopping i => some i
  | .creating _ | .mapping _ | .waiting _ | .reporting => none

def Parent.next : Parent → Parent
  | .starting i => .starting (i + 1)
  | .polling i count => .polling (i + 1) count
  | .stopping i => .stopping (i + 1)
  | p => p

def Parent.passes (cfg : Config) (mapped : ℕ → Bool) (p : Parent) : Bool :=
  p.entry.any fun i ↦ decide (i < cfg.maxProcess) && !mapped i

/-- The steps of the system when the parent has mapped the objects of `mapped`.
Every child runs its program, so each `execvp` has succeeded. -/
def mappedStep (cfg : Config) (mapped : ℕ → Bool) (s : State) : Action → Option State
  | .parent =>
      if s.parent.passes cfg mapped then some { s with parent := s.parent.next }
      else step cfg s .parent
  | .child k => step cfg s (.child k)
  | .fail k => step cfg s (.fail k)

variable {cfg : Config} {mapped : ℕ → Bool} {slots : ℕ → Text} {s t : State} {a : Action}

theorem passes_iff {p : Parent} : p.passes cfg mapped = true ↔
    ∃ i, p.entry = some i ∧ i < cfg.maxProcess ∧ mapped i = false := by
  unfold Parent.passes
  cases p.entry <;> simp

/-- With all objects mapped nothing is passed over. -/
theorem mappedStep_of_all (h : ∀ k < cfg.maxProcess, mapped k = true) (s : State) (a : Action) :
    mappedStep cfg mapped s a = step cfg s a := by
  cases a with
  | parent =>
      apply if_neg
      rw [passes_iff]
      rintro ⟨i, -, hi, hmapped⟩
      simp [h i hi] at hmapped
  | child | fail => rfl

/-- A step of the system, at an entry of `shm_vec` if it is at any, or a loop
passes over a process without an entry. -/
theorem mappedStep_cases (h : mappedStep cfg mapped s a = some t) :
    (Step cfg s a t ∧ (a = .parent → ∀ i < cfg.maxProcess, s.parent.entry = some i →
        mapped i = true)) ∨
      ∃ i < cfg.maxProcess, s.parent.entry = some i ∧ mapped i = false ∧
        t = { s with parent := s.parent.next } := by
  cases a with
  | parent =>
      rw [mappedStep] at h
      split at h
      · rename_i hpasses
        obtain ⟨i, hentry, hi, hmapped⟩ := passes_iff.mp hpasses
        exact Or.inr ⟨i, hi, hentry, hmapped, (Option.some.inj h).symm⟩
      · rename_i hpasses
        refine Or.inl ⟨step_cases h, ?_⟩
        intro _ i hi hentry
        by_contra hmapped
        exact hpasses (passes_iff.mpr ⟨i, hentry, hi, by simpa using hmapped⟩)
  | child k => exact Or.inl ⟨step_cases h, nofun⟩
  | fail k => exact Or.inl ⟨step_cases h, nofun⟩

/-! ## A publisher that is not counted -/

/-- The count of a pass lacks publisher `k`, so the parent stays in its loop. -/
def Uncounted (cfg : Config) (k : ℕ) (s : State) : Prop :=
  match s.parent with
  | .creating _ | .mapping _ | .starting _ => True
  | .polling i count =>
      i ≤ cfg.maxProcess ∧ count ≤ (i + 1) / 2 ∧ (k < i → count < (i + 1) / 2)
  | .stopping _ | .waiting _ | .reporting => False

theorem mappedStep_uncounted (heven : cfg.maxProcess % 2 = 0) {k : ℕ} (hk : k < cfg.maxProcess)
    (hpub : k % 2 = 0) (hmapped : mapped k = false) (hs : Uncounted cfg k s)
    (h : mappedStep cfg mapped s a = some t) : Uncounted cfg k t := by
  have hne {i : ℕ} (hi : mapped i = true) : i ≠ k := by
    rintro rfl
    simp [hmapped] at hi
  unfold Uncounted at hs
  rcases mappedStep_cases h with ⟨hstep, hentry⟩ | ⟨i, hi, hentry, -, rfl⟩
  · cases hstep with
    | count hp hi hpub' hstop =>
        have hik := hne (hentry rfl _ hi (by rw [hp]; rfl))
        simp only [hp] at hs
        simp only [Uncounted]
        omega
    | pass hp hi hnot =>
        have hik := hne (hentry rfl _ hi (by rw [hp]; rfl))
        simp only [hp] at hs
        simp only [Uncounted]
        omega
    | finish hp hi htest =>
        simp only [hp] at hs
        omega
    | again | broadcast => simp [Uncounted]
    | fork | created | mapped | writeStart => trivial
    | writeStop hp | skip hp | stopsWritten hp | reap hp | reaped hp =>
        rw [hp] at hs
        exact hs.elim
    | openPub | openSub | send | pubStop | gotStart | spinStart | register | gotStop | spinStop
    | fail => exact hs
  · cases hp : s.parent with
    | polling j count =>
        rw [hp] at hentry
        obtain rfl : j = i := Option.some.inj hentry
        simp only [hp] at hs
        simp only [Uncounted, Parent.next]
        omega
    | starting j => trivial
    | stopping j =>
        rw [hp] at hs
        exact hs.elim
    | creating | mapping | waiting | reporting =>
        rw [hp] at hentry
        cases hentry

/-! ## A subscriber that is not served -/

/-- Nobody but subscriber `k` itself has its slot, and it has not got Start and
Stop from what it holds. -/
structure Unserved (slots : ℕ → Text) (k : ℕ) (s : State) : Prop where
  roles : RolesOk s
  slot : s.slot k = slots k
  waiting : s.child k = .registering ∨ s.child k = .waitStop → Holds (slots k) start
  not_exited : s.child k ≠ .exited
  reaped : s.parent.Reaped k → (s.child k).terminated = true

theorem unserved_initial (slots : ℕ → Text) (k : ℕ) : Unserved slots k (.initial slots) where
  roles _ := trivial
  slot := rfl
  waiting h := by rcases h with h | h <;> cases h
  not_exited := nofun
  reaped := False.elim

theorem mappedStep_unserved {k : ℕ} (hk : k < cfg.maxProcess) (hsub : k % 2 = 1)
    (hmapped : mapped k = false) (hs : Unserved slots k s)
    (h : mappedStep cfg mapped s a = some t) : Unserved slots k t := by
  rcases mappedStep_cases h with ⟨hstep, hentry⟩ | ⟨i, hi, hentry, -, rfl⟩
  · have hroles := hstep.rolesOk hs.roles
    have hslot : t.slot k = slots k := by
      rcases hstep.slot_cases k with hsame | ⟨ha, hp, -⟩ | ⟨ha, hp, -⟩ | ⟨-, hstopped, -⟩
      · exact hsame.trans hs.slot
      · have hk' := hentry ha k hk (by rw [hp]; rfl)
        simp [hmapped] at hk'
      · have hk' := hentry ha k hk (by rw [hp]; rfl)
        simp [hmapped] at hk'
      · have hrole := hroles k
        rw [hstopped] at hrole
        have hpub : k % 2 = 0 := hrole
        omega
    have hnot_creating (hp : s.parent.Reaped k) : s.parent ≠ .creating k := by
      intro hcreating
      rw [hcreating] at hp
      exact hp
    refine ⟨hroles, hslot, ?_, ?_, ?_⟩
    · intro hwaits
      rcases hstep.child_cases k with hsame | ⟨-, -, hlaunched⟩ | ⟨-, hmove⟩
      · exact hs.waiting (hsame ▸ hwaits)
      · simp [hlaunched] at hwaits
      · rw [hs.slot] at hmove
        have hbefore := hs.waiting
        generalize s.child k = c at hmove hbefore
        generalize t.child k = d at hmove hwaits
        cases hmove with
        | gotStart hholds => exact hholds
        | register => exact hbefore (Or.inl rfl)
        | _ => simp at hwaits
    · intro hexited
      rcases hstep.child_cases k with hsame | ⟨-, -, hlaunched⟩ | ⟨-, hmove⟩
      · exact hs.not_exited (hsame ▸ hexited)
      · simp [hlaunched] at hexited
      · rw [hs.slot, hexited] at hmove
        have hbefore := hs.waiting
        generalize s.child k = c at hmove hbefore
        cases hmove with
        | gotStop hholds => exact start_ne_stop ((hbefore (Or.inr rfl)).unique hholds)
    · intro hreaped
      rcases hstep.reaped_cases hk hreaped with hbefore | ⟨hp, hdone⟩
      · exact hstep.terminated (hnot_creating hbefore) (hs.reaped hbefore)
      · exact hstep.terminated (by simp [hp]) hdone
  · refine ⟨hs.roles, hs.slot, hs.waiting, hs.not_exited, ?_⟩
    intro hreaped
    cases hp : s.parent <;> simp_all [Parent.entry, Parent.next, Parent.Reaped]

/-! ## When the unmapped subscribers give up -/

/-- The slots as they are when nobody writes into the unmapped ones. -/
def State.hide (s : State) (mapped : ℕ → Bool) (slots : ℕ → Text) : State :=
  { s with slot := fun k ↦ if mapped k then s.slot k else slots k }

theorem hide_write (s : State) (p : Parent) (c : ℕ → Child) {k : ℕ} (x : Text) (slots : ℕ → Text) :
    State.hide ⟨p, c, update s.slot k x⟩ mapped slots =
      ⟨p, c, if mapped k then update (s.hide mapped slots).slot k x
        else (s.hide mapped slots).slot⟩ := by
  simp only [State.hide, State.mk.injEq, true_and]
  funext j
  by_cases hj : j = k
  · subst hj
    cases hmapped : mapped j <;> simp [hmapped]
  · cases hmapped : mapped k <;> simp [hj]

/-- All processes have been started, and those without an entry have failed. -/
structure GivenUp (mapped : ℕ → Bool) (s : State) : Prop where
  phase : 1 ≤ s.parent.phase
  child : ∀ k, mapped k = false → s.child k = .failed ∨ s.child k = .unborn

theorem givenUp_step (hs : GivenUp mapped s) (h : Step cfg s a t) : GivenUp mapped t := by
  refine ⟨hs.phase.trans h.phase_le, ?_⟩
  intro k hmapped
  rcases h.child_cases k with hsame | ⟨-, hp, -⟩ | ⟨-, hmove⟩
  · exact hsame ▸ hs.child k hmapped
  · have hphase := hs.phase
    simp [hp, Parent.phase] at hphase
  · have hchild := hs.child k hmapped
    generalize s.child k = c at hmove hchild
    rcases hchild with rfl | rfl <;> cases hmove

theorem GivenUp.mapped_of_running (hs : GivenUp mapped s) {k : ℕ} {c : Child}
    (hc : s.child k = c) (hfailed : c ≠ .failed) (hunborn : c ≠ .unborn) : mapped k = true := by
  by_contra hmapped
  rcases hs.child k (by simpa using hmapped) with h | h
  · exact hfailed (hc ▸ h)
  · exact hunborn (hc ▸ h)

theorem mappedStep_of_passes {i : ℕ} (hentry : s.parent.entry = some i) (hi : i < cfg.maxProcess)
    (hmapped : mapped i = false) :
    mappedStep cfg mapped s .parent = some { s with parent := s.parent.next } :=
  if_pos (passes_iff.mpr ⟨i, hentry, hi, hmapped⟩)

theorem mappedStep_of_entry {i : ℕ} (hentry : s.parent.entry = some i)
    (h : i < cfg.maxProcess → mapped i = true) :
    mappedStep cfg mapped s .parent = parentStep cfg s := by
  apply if_neg
  rw [passes_iff]
  rintro ⟨j, hj, hlt, hmapped⟩
  obtain rfl : i = j := Option.some.inj (hentry.symm.trans hj)
  simp [h hlt] at hmapped

theorem mappedStep_of_no_entry (hentry : s.parent.entry = none) :
    mappedStep cfg mapped s .parent = parentStep cfg s := by
  apply if_neg
  rw [passes_iff]
  rintro ⟨j, hj, -⟩
  cases hentry.symm.trans hj

/-- A loop that writes does so behind the cover or passes over the process. -/
theorem mappedStep_hide_write (mapped : ℕ → Bool) (slots : ℕ → Text) (x : Text → Text) {i : ℕ}
    (hentry : s.parent.entry = some i) (hi : i < cfg.maxProcess)
    (hstep : parentStep cfg (s.hide mapped slots) = some { s.hide mapped slots with
      parent := s.parent.next
      slot := update (s.hide mapped slots).slot i (x ((s.hide mapped slots).slot i)) }) :
    mappedStep cfg mapped (s.hide mapped slots) .parent =
      some (State.hide { s with
        parent := s.parent.next
        slot := update s.slot i (x (s.slot i)) } mapped slots) := by
  have hentry' : (s.hide mapped slots).parent.entry = some i := hentry
  rw [hide_write]
  cases hmapped : mapped i with
  | true =>
      have hslot : (s.hide mapped slots).slot i = s.slot i := if_pos hmapped
      rw [mappedStep_of_entry hentry' fun _ ↦ hmapped, hstep, hslot]
      rfl
  | false =>
      rw [mappedStep_of_passes hentry' hi hmapped]
      rfl

/-- What the parent does, it also does when it passes over the processes that have
given up. -/
theorem mappedStep_hide_parent (hs : GivenUp mapped s)
    (hpubs : ∀ k < cfg.maxProcess, k % 2 = 0 → mapped k = true) (h : Step cfg s .parent t) :
    mappedStep cfg mapped (s.hide mapped slots) .parent = some (t.hide mapped slots) := by
  have hphase := hs.phase
  have hentry {i : ℕ} (hi : s.parent.entry = some i) :
      (s.hide mapped slots).parent.entry = some i := hi
  have hparent : (s.hide mapped slots).parent = s.parent := rfl
  cases h with
  | fork hp | created hp | mapped hp => simp [hp, Parent.phase] at hphase
  | writeStart hp hi =>
      have hwrite := mappedStep_hide_write mapped slots (fun mem ↦ writeSlot mem start)
        (by rw [hp]; rfl) hi (by simp [parentStep, hparent, hp, hi, Parent.next])
      simpa [hp, Parent.next] using hwrite
  | writeStop hp hi hsub =>
      have hwrite := mappedStep_hide_write mapped slots (fun mem ↦ writeSlot mem stop)
        (by rw [hp]; rfl) hi
        (by simp [parentStep, hparent, hp, hi, Parent.next, (roleOf_eq_sub_iff _).mpr hsub])
      simpa [hp, Parent.next] using hwrite
  | count hp hi hpub hstop =>
      have hmapped := hpubs _ hi hpub
      rw [mappedStep_of_entry (hentry (by rw [hp]; rfl)) fun _ ↦ hmapped]
      simp [State.hide, parentStep, hp, hi, hmapped, (roleOf_eq_pub_iff _).mpr hpub, hstop]
  | pass hp hi hnot =>
      rename_i i count
      cases hmapped : mapped i with
      | true =>
          rw [mappedStep_of_entry (hentry (by rw [hp]; rfl)) fun _ ↦ hmapped]
          simp only [State.hide, parentStep, hp, hi, hmapped, roleOf_eq_pub_iff, if_true]
          by_cases hpub : i % 2 = 0
          · have hstop : ¬ Holds (s.slot i) stop := fun hstop ↦ hnot ⟨hpub, hstop⟩
            rw [if_pos hpub, if_neg hstop]
          · rw [if_neg hpub]
      | false =>
          rw [mappedStep_of_passes (hentry (by rw [hp]; rfl)) hi hmapped]
          simp [State.hide, Parent.next, hp]
  | skip hp hi hpub =>
      rename_i i
      have hrole : roleOf i ≠ text "s" := by
        rw [Ne, roleOf_eq_sub_iff]
        omega
      rw [mappedStep_of_entry (hentry (by rw [hp]; rfl)) fun _ ↦ hpubs i hi hpub]
      simp [State.hide, parentStep, hp, hi, hrole]
  | finish hp hi htest | again hp hi htest =>
      rw [mappedStep_of_entry (hentry (by rw [hp]; rfl)) fun hlt ↦ absurd hlt hi]
      simp [State.hide, parentStep, hp, hi, htest]
  | broadcast hp hi | stopsWritten hp hi =>
      rw [mappedStep_of_entry (hentry (by rw [hp]; rfl)) fun hlt ↦ absurd hlt hi]
      simp [State.hide, parentStep, hp, hi]
  | reap hp hi hchild =>
      rw [mappedStep_of_no_entry (by rw [hparent, hp]; rfl)]
      simp [State.hide, parentStep, hp, hi, hchild]
  | reaped hp hi =>
      rw [mappedStep_of_no_entry (by rw [hparent, hp]; rfl)]
      simp [State.hide, parentStep, hp, hi]

/-- What the system does, it also does when the parent passes over the processes
that have given up. -/
theorem mappedStep_hide (hs : GivenUp mapped s)
    (hpubs : ∀ k < cfg.maxProcess, k % 2 = 0 → mapped k = true) (h : Step cfg s a t) :
    mappedStep cfg mapped (s.hide mapped slots) a = some (t.hide mapped slots) := by
  by_cases ha : a = .parent
  · subst ha
    exact mappedStep_hide_parent hs hpubs h
  · cases h with
    | openPub hc hpub => simp [mappedStep, step, childStep, State.hide, State.setChild, hc, hpub]
    | openSub hc hsub => simp [mappedStep, step, childStep, State.hide, State.setChild, hc, hsub]
    | send hc hsent => simp [mappedStep, step, childStep, State.hide, State.setChild, hc, hsent]
    | pubStop hc hsent =>
        have hmapped := hs.mapped_of_running hc (by simp) (by simp)
        rw [State.setChild, hide_write]
        simp [mappedStep, step, childStep, State.hide, State.setChild, hc, hsent, hmapped]
    | gotStart hc hslot | spinStart hc hslot | gotStop hc hslot | spinStop hc hslot =>
        have hmapped := hs.mapped_of_running hc (by simp) (by simp)
        simp [mappedStep, step, childStep, State.hide, State.setChild, hc, hslot, hmapped]
    | register hc => simp [mappedStep, step, childStep, State.hide, State.setChild, hc]
    | fail hc =>
        rcases hc with hc | ⟨sent, hc⟩ | hc <;>
          simp [mappedStep, step, failStep, State.hide, State.setChild, hc]
    | _ => exact absurd rfl ha

theorem run_hide (slots : ℕ → Text) {acts : List Action} (hs : GivenUp mapped s)
    (hpubs : ∀ k < cfg.maxProcess, k % 2 = 0 → mapped k = true)
    (h : run (step cfg) s acts = some t) :
    run (mappedStep cfg mapped) (s.hide mapped slots) acts = some (t.hide mapped slots) := by
  induction acts generalizing s with
  | nil => rw [Option.some.inj h, run_nil]
  | cons a acts ih =>
      obtain ⟨u, hu, hrest⟩ := (run_cons_eq_some _).mp h
      exact (run_cons_eq_some _).mpr
        ⟨_, mappedStep_hide hs hpubs (step_cases hu), ih (givenUp_step hs (step_cases hu)) hrest⟩

/-! ## A run that comes to the report -/

/-- During the creation nothing is passed over. -/
theorem mappedStep_of_phase (hp : s.parent.phase = 0) (a : Action) :
    mappedStep cfg mapped s a = step cfg s a := by
  cases a with
  | parent =>
      apply mappedStep_of_no_entry
      cases h : s.parent <;> simp_all [Parent.phase, Parent.entry]
  | child | fail => rfl

theorem run_of_phase {acts : List Action} (h : run (step cfg) s acts = some t)
    (hp : t.parent.phase = 0) : run (mappedStep cfg mapped) s acts = some t := by
  induction acts generalizing s with
  | nil => exact h
  | cons a acts ih =>
      have hphase := phase_le_of_run h
      obtain ⟨u, hu, hrest⟩ := (run_cons_eq_some _).mp h
      exact (run_cons_eq_some _).mpr ⟨u, by rw [mappedStep_of_phase (by omega), hu], ih hrest⟩

/-- All processes are forked, and the first `j` have given up if they have no
entry in `shm_vec`. -/
def State.givenUp (mapped : ℕ → Bool) (slots : ℕ → Text) (n j : ℕ) : State where
  parent := .creating n
  child := fun k ↦
    if k < j ∧ mapped k = false then .failed else if k < n then .launched else .unborn
  slot := slots

theorem givenUp_succ_child (mapped : ℕ → Bool) (slots : ℕ → Text) (n j k : ℕ) :
    (State.givenUp mapped slots n (j + 1)).child k =
      if k = j ∧ mapped j = false then .failed else (State.givenUp mapped slots n j).child k := by
  by_cases hk : k = j
  · subst hk
    cases hmapped : mapped k <;> simp [State.givenUp, hmapped]
  · have hiff : k < j + 1 ↔ k < j := by omega
    simp only [State.givenUp, hiff, hk, false_and, if_false]

theorem leads_givenUp (cfg : Config) (mapped : ℕ → Bool) (slots : ℕ → Text) {j : ℕ}
    (hj : j ≤ cfg.maxProcess) :
    Leads (step cfg) (.initial slots) (.givenUp mapped slots cfg.maxProcess j) := by
  induction j with
  | zero =>
      have hsame : State.givenUp mapped slots cfg.maxProcess 0 =
          .created slots cfg.maxProcess := by
        simp [State.givenUp, State.created]
      rw [hsame]
      exact leads_created cfg slots le_rfl
  | succ j ih =>
      have hchild := givenUp_succ_child mapped slots cfg.maxProcess j
      cases hmapped : mapped j with
      | true =>
          have hsame : State.givenUp mapped slots cfg.maxProcess (j + 1) =
              .givenUp mapped slots cfg.maxProcess j := by
            simp only [hmapped, Bool.true_eq_false, and_false, if_false] at hchild
            exact congrArg (State.mk _ · slots) (funext hchild)
          rw [hsame]
          exact ih (by omega)
      | false =>
          apply (ih (by omega)).tail (a := .fail j)
          have hlaunched : (State.givenUp mapped slots cfg.maxProcess j).child j = .launched := by
            simp only [State.givenUp]
            rw [if_neg fun h ↦ absurd h.1 (Nat.lt_irrefl j), if_pos (by omega)]
          have hfailed : update (State.givenUp mapped slots cfg.maxProcess j).child j .failed =
              (State.givenUp mapped slots cfg.maxProcess (j + 1)).child := by
            funext k
            rw [hchild k, update_apply]
            simp [hmapped]
          simp only [step, failStep, hlaunched, State.setChild, hfailed]
          rfl

theorem leads_mapped_report (heven : cfg.maxProcess % 2 = 0)
    (hpubs : ∀ k < cfg.maxProcess, k % 2 = 0 → mapped k = true) :
    ∃ t, Leads (mappedStep cfg mapped) (.initial slots) t ∧ t.parent = .reporting := by
  obtain ⟨acts, hacts⟩ := leads_givenUp cfg mapped slots le_rfl
  let u : State := { State.givenUp mapped slots cfg.maxProcess cfg.maxProcess with
    parent := .starting 0 }
  have hstart : step cfg (.givenUp mapped slots cfg.maxProcess cfg.maxProcess) .parent =
      some u := by
    simp [step, parentStep, State.givenUp, u]
  have hbefore : Leads (mappedStep cfg mapped) (.initial slots) u :=
    Leads.tail ⟨acts, run_of_phase hacts rfl⟩ (by rw [mappedStep_of_phase rfl, hstart])
  have hwell : WellFormed cfg u :=
    wellFormed_of_leads heven (wellFormed_initial cfg slots) (Leads.tail ⟨acts, hacts⟩ hstart)
  have hchild {k : ℕ} (hk : k < cfg.maxProcess) :
      u.child k = if mapped k = false then .failed else .launched := by
    simp [u, State.givenUp, hk]
  have hnot : ¬ Stuck cfg u := by
    rintro ⟨k, hk, ⟨hpub, hlost⟩ | ⟨-, hwait, -⟩⟩
    · rw [PubLost, hchild hk, hpubs k hk hpub] at hlost
      simp at hlost
    · rw [hchild hk] at hwait
      split at hwait <;> cases hwait
  have hgiven : GivenUp mapped u := by
    refine ⟨le_rfl, ?_⟩
    intro k hmapped
    by_cases hk : k < cfg.maxProcess
    · exact Or.inl (by rw [hchild hk, if_pos hmapped])
    · exact Or.inr (by simp [u, State.givenUp, hk])
  have hsame : u.hide mapped slots = u := by simp [State.hide, u, State.givenUp]
  obtain ⟨t, ⟨rest, hrest⟩, ht⟩ := leads_report heven hwell hnot
  have hafter := run_hide slots hgiven hpubs hrest
  rw [hsame] at hafter
  exact ⟨t.hide mapped slots, hbefore.trans ⟨rest, hafter⟩, ht⟩

/-! ## The objects of the creation loop -/

/-- Every `fork` and every `execvp` of the creation loop succeeds. -/
def Launches (calls : ℕ → Calls) (n : ℕ) : Prop :=
  ∀ k < n, (calls k).fork ≠ none ∧ (calls k).execvp = true

/-- The parent goes on with the objects it could map. -/
theorem Launches.vectors {calls : ℕ → Calls} {n : ℕ} (h : Launches calls n) :
    ∃ v, (createAll calls n).2 = some v ∧ ∀ k < n, v.maps k = (calls k).maps := by
  rcases createAll_result calls n with ⟨-, hresult⟩ | ⟨j, hj, -, hnone, -⟩
  · refine ⟨_, hresult, ?_⟩
    intro k hk
    rw [Bool.eq_iff_iff, Vectors.maps, Calls.maps, List.contains_iff_mem, objectName_mem_shmVec,
      Bool.and_eq_true]
    exact and_iff_right hk
  · exact absurd hnone (h j hj).1

/-- **The report needs the objects.**  When every process is launched, the report
can be reached exactly if the parent has mapped the objects of all publishers.  A
subscriber whose object it has not mapped never comes to its end, whatever an
earlier run has left in the slots, so the report waits for its failure. -/
theorem report_needs_mappings (cfg : Config) (heven : cfg.maxProcess % 2 = 0)
    {calls : ℕ → Calls} (hcalls : Launches calls cfg.maxProcess) (slots : ℕ → Text) :
    ∃ v, (createAll calls cfg.maxProcess).2 = some v ∧
      ((∃ t, Leads (mappedStep cfg v.maps) (.initial slots) t ∧ t.parent = .reporting) ↔
        ∀ k < cfg.maxProcess, k % 2 = 0 → (calls k).maps = true) ∧
      ∀ acts s, run (mappedStep cfg v.maps) (.initial slots) acts = some s →
        ∀ k < cfg.maxProcess, k % 2 = 1 → (calls k).maps = false →
          s.child k ≠ .exited ∧ (s.parent = .reporting → s.child k = .failed) := by
  obtain ⟨v, hv, hmaps_eq⟩ := hcalls.vectors
  refine ⟨v, hv, ⟨?_, ?_⟩, ?_⟩
  · rintro ⟨t, ⟨acts, hacts⟩, ht⟩ k hk hpub
    by_contra hmaps
    have hmapped : v.maps k = false := by
      rw [hmaps_eq k hk]
      simpa using hmaps
    have hkept : ∀ u b w, Uncounted cfg k u → mappedStep cfg v.maps u b = some w →
        Uncounted cfg k w := fun _ _ _ hu hw ↦ mappedStep_uncounted heven hk hpub hmapped hu hw
    have h0 : Uncounted cfg k (.initial slots) := trivial
    have huncounted := (reaches_final hacts).invariant hkept h0
    rw [Uncounted, ht] at huncounted
    exact huncounted
  · intro hpubs
    apply leads_mapped_report heven
    intro k hk hpub
    rw [hmaps_eq k hk]
    exact hpubs k hk hpub
  · intro acts s hacts k hk hsub hmaps
    have hmapped : v.maps k = false := (hmaps_eq k hk).trans hmaps
    have hkept : ∀ u b w, Unserved slots k u → mappedStep cfg v.maps u b = some w →
        Unserved slots k w := fun _ _ _ hu hw ↦ mappedStep_unserved hk hsub hmapped hu hw
    have hunserved := (reaches_final hacts).invariant hkept (unserved_initial slots k)
    refine ⟨hunserved.not_exited, ?_⟩
    intro hp
    have hdone := hunserved.reaped (by rw [hp]; trivial)
    have hrole := hunserved.roles k
    cases hc : s.child k with
    | failed => rfl
    | exited => exact absurd hc hunserved.not_exited
    | stopped =>
        rw [hc] at hrole
        have hpub : k % 2 = 0 := hrole
        omega
    | unborn | launched | publishing | waitStart | registering | waitStop =>
        simp [hc, Child.terminated] at hdone

/-- Only the object of subscriber 1 is missing. -/
theorem report_needs_mappings_subscriber :
    ∃ t acts, run (mappedStep shipped (Vectors.maps ⟨[7, 8], [objectName 0]⟩))
        (.initial freshSlots) acts = some t ∧
      t.parent = .reporting ∧ t.child 1 = .failed := by
  let calls : ℕ → Calls := fun k ↦ ⟨some (k + 7), true, true, k % 2 = 0⟩
  have hcalls : Launches calls shipped.maxProcess := fun k _ ↦ ⟨by simp [calls], rfl⟩
  obtain ⟨v, hv, hreach, hwaits⟩ := report_needs_mappings shipped rfl hcalls freshSlots
  have hresult : (createAll calls 2).2 = some ⟨[7, 8], [objectName 0]⟩ := rfl
  obtain rfl : ⟨[7, 8], [objectName 0]⟩ = v := Option.some.inj (hresult.symm.trans hv)
  obtain ⟨t, ⟨acts, hacts⟩, ht⟩ := hreach.mpr fun k _ hpub ↦ by simp [calls, Calls.maps, hpub]
  exact ⟨t, acts, hacts, ht, (hwaits acts t hacts 1 (by decide) rfl rfl).2 ht⟩

end UpZenohExample
