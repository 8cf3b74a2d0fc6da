import Mathlib.Logic.Function.Basic
import UpZenohExample.Lib.Run
import UpZenohExample.Utils

/-!
# `run_tests` and its children

The parent and its children share one memory slot per child.  Every process is
sequential, so a schedule only says who moves next; each access to a slot is
one step.  Process `i` is a publisher (`pub_test`) when `i` is even and a
subscriber (`sub_test`) otherwise.
-/

namespace UpZenohExample

open ByteText Function

/-- The number of processes and the number of distinct URIs a publisher sends
in every round. -/
structure Config where
  maxProcess : ℕ
  uris : ℕ

def Config.messages (cfg : Config) : ℕ := 100000 * cfg.uris

/-! ## Shared memory -/

def processName (i : ℕ) : Text :=
  if i % 2 = 0 then text "./benchmarks/pub_test" else text "./benchmarks/sub_test"

def instanceName (i : ℕ) : Text := text "app" ++ decimal i

def shmName (name instance_ : Text) : Text := text "/" ++ name.drop 13 ++ text "." ++ instance_

/-- `shm.shm_name.substr(1, 1)` for process `i`. -/
def roleOf (i : ℕ) : Text := ((shmName (processName i) (instanceName i)).drop 1).take 1

theorem roleOf_eq (i : ℕ) : roleOf i = if i % 2 = 0 then text "p" else text "s" := by
  have hpub : text "/" ++ (text "./benchmarks/pub_test").drop 13 =
      byte '/' :: byte 'p' :: text "ub_test" := by decide
  have hsub : text "/" ++ (text "./benchmarks/sub_test").drop 13 =
      byte '/' :: byte 's' :: text "ub_test" := by decide
  have hp : text "p" = [byte 'p'] := by decide
  have hs : text "s" = [byte 's'] := by decide
  unfold roleOf shmName processName
  by_cases hi : i % 2 = 0
  · simp [hi, hpub, hp]
  · simp only [if_neg hi, hsub, hs]
    simp

@[simp] theorem roleOf_eq_pub_iff (i : ℕ) : roleOf i = text "p" ↔ i % 2 = 0 := by
  have hne : text "s" ≠ text "p" := by decide
  rw [roleOf_eq]
  split <;> simp_all

@[simp] theorem roleOf_eq_sub_iff (i : ℕ) : roleOf i = text "s" ↔ i % 2 = 1 := by
  have hne : text "p" ≠ text "s" := by decide
  rw [roleOf_eq]
  split <;> simp_all

def start : Text := text "Start"

def stop : Text := text "Stop"

/-- `std::memcpy(ptr, message, strlen(message) + 1)`. -/
def writeSlot (mem message : Text) : Text := memcpy mem (message ++ [0])

def Holds (mem message : Text) : Prop := cString mem = some message

instance (mem message : Text) : Decidable (Holds mem message) :=
  inferInstanceAs (Decidable (_ = _))

@[simp] theorem holds_writeSlot_start (mem message : Text) :
    Holds (writeSlot mem start) message ↔ start = message := by
  rw [Holds, writeSlot, cString_memcpy (by decide), Option.some.injEq]

@[simp] theorem holds_writeSlot_stop (mem message : Text) :
    Holds (writeSlot mem stop) message ↔ stop = message := by
  rw [Holds, writeSlot, cString_memcpy (by decide), Option.some.injEq]

@[simp] theorem start_ne_stop : start ≠ stop := by decide

@[simp] theorem stop_ne_start : stop ≠ start := by decide

theorem Holds.unique {mem a b : Text} (ha : Holds mem a) (hb : Holds mem b) : a = b :=
  Option.some.inj (ha.symm.trans hb)

/-! ## States -/

/-- The program points of the parent: in the creation loop before `fork` of
process `i` and between it and `createSheredMem`, in the Start broadcast, in a
polling pass with `count` slots found stopped, in the Stop broadcast, in the
`waitpid` loop, and behind it. -/
inductive Parent where
  | creating (i : ℕ)
  | mapping (i : ℕ)
  | starting (i : ℕ)
  | polling (i count : ℕ)
  | stopping (i : ℕ)
  | waiting (i : ℕ)
  | reporting
  deriving DecidableEq, Repr

/-- The program points of a child.  After `launched`, which ends with
`createSheredMem`, a publisher is in its loop until it has written Stop, and a
subscriber waits for Start, registers and waits for Stop.  The error returns of
both lead to `failed`. -/
inductive Child where
  | unborn
  | launched
  | publishing (sent : ℕ)
  | stopped
  | waitStart
  | registering
  | waitStop
  | exited
  | failed
  deriving DecidableEq, Repr

def Child.terminated : Child → Bool
  | .stopped | .exited | .failed => true
  | _ => false

structure State where
  parent : Parent
  child : ℕ → Child
  slot : ℕ → Text

/-- Nothing has been forked; the slots hold what an earlier run has left. -/
def State.initial (slots : ℕ → Text) : State where
  parent := .creating 0
  child := fun _ ↦ .unborn
  slot := slots

/-! ## Steps -/

/-- Who moves: the parent, a child, or a child into an error return. -/
inductive Action where
  | parent
  | child (k : ℕ)
  | fail (k : ℕ)
  deriving DecidableEq, Repr

def parentStep (cfg : Config) (s : State) : Option State :=
  match s.parent with
  | .creating i =>
      if i < cfg.maxProcess then
        some { s with parent := .mapping i, child := update s.child i .launched }
      else some { s with parent := .starting 0 }
  | .mapping i => some { s with parent := .creating (i + 1) }
  | .starting i =>
      if i < cfg.maxProcess then
        some { s with
          parent := .starting (i + 1)
          slot := update s.slot i (writeSlot (s.slot i) start) }
      else some { s with parent := .polling 0 0 }
  | .polling i count =>
      if i < cfg.maxProcess then
        if roleOf i = text "p" then
          if Holds (s.slot i) stop then some { s with parent := .polling (i + 1) (count + 1) }
          else some { s with parent := .polling (i + 1) count }
        else some { s with parent := .polling (i + 1) count }
      else if count = cfg.maxProcess / 2 then some { s with parent := .stopping 0 }
      else some { s with parent := .polling 0 0 }
  | .stopping i =>
      if i < cfg.maxProcess then
        if roleOf i = text "s" then
          some { s with
            parent := .stopping (i + 1)
            slot := update s.slot i (writeSlot (s.slot i) stop) }
        else some { s with parent := .stopping (i + 1) }
      else some { s with parent := .waiting 0 }
  | .waiting i =>
      if i < cfg.maxProcess then
        if (s.child i).terminated then some { s with parent := .waiting (i + 1) } else none
      else some { s with parent := .reporting }
  | .reporting => none

def State.setChild (s : State) (k : ℕ) (c : Child) : State :=
  { s with child := update s.child k c }

@[simp] theorem setChild_child (s : State) (k : ℕ) (c : Child) (j : ℕ) :
    (s.setChild k c).child j = if j = k then c else s.child j := by
  simp [State.setChild, update_apply]

@[simp] theorem setChild_parent (s : State) (k : ℕ) (c : Child) :
    (s.setChild k c).parent = s.parent := rfl

@[simp] theorem setChild_slot (s : State) (k : ℕ) (c : Child) :
    (s.setChild k c).slot = s.slot := rfl

theorem setChild_setChild (s : State) (k : ℕ) (c d : Child) :
    (s.setChild k c).setChild k d = s.setChild k d := by
  simp [State.setChild]

def childStep (cfg : Config) (s : State) (k : ℕ) : Option State :=
  match s.child k with
  | .launched => some (s.setChild k (if k % 2 = 0 then .publishing 0 else .waitStart))
  | .publishing sent =>
      if sent < cfg.messages then some (s.setChild k (.publishing (sent + 1)))
      else some { s.setChild k .stopped with slot := update s.slot k (writeSlot (s.slot k) stop) }
  | .waitStart => if Holds (s.slot k) start then some (s.setChild k .registering) else some s
  | .registering => some (s.setChild k .waitStop)
  | .waitStop => if Holds (s.slot k) stop then some (s.setChild k .exited) else some s
  | .unborn | .stopped | .exited | .failed => none

/-- `createSheredMem`, the transport, a send or a registration fails. -/
def failStep (s : State) (k : ℕ) : Option State :=
  match s.child k with
  | .launched | .publishing _ | .registering => some (s.setChild k .failed)
  | _ => none

def step (cfg : Config) (s : State) : Action → Option State
  | .parent => parentStep cfg s
  | .child k => childStep cfg s k
  | .fail k => failStep s k

/-! ## One step at a time -/

/-- The steps of the system, one constructor for each way a process moves. -/
inductive Step (cfg : Config) (s : State) : Action → State → Prop where
  | fork {i : ℕ} (hp : s.parent = .creating i) (hi : i < cfg.maxProcess) :
      Step cfg s .parent { s with parent := .mapping i, child := update s.child i .launched }
  | created {i : ℕ} (hp : s.parent = .creating i) (hi : ¬ i < cfg.maxProcess) :
      Step cfg s .parent { s with parent := .starting 0 }
  | mapped {i : ℕ} (hp : s.parent = .mapping i) :
      Step cfg s .parent { s with parent := .creating (i + 1) }
  | writeStart {i : ℕ} (hp : s.parent = .starting i) (hi : i < cfg.maxProcess) :
      Step cfg s .parent { s with
        parent := .starting (i + 1)
        slot := update s.slot i (writeSlot (s.slot i) start) }
  | broadcast {i : ℕ} (hp : s.parent = .starting i) (hi : ¬ i < cfg.maxProcess) :
      Step cfg s .parent { s with parent := .polling 0 0 }
  | count {i count : ℕ} (hp : s.parent = .polling i count) (hi : i < cfg.maxProcess)
      (hpub : i % 2 = 0) (hstop : Holds (s.slot i) stop) :
      Step cfg s .parent { s with parent := .polling (i + 1) (count + 1) }
  | pass {i count : ℕ} (hp : s.parent = .polling i count) (hi : i < cfg.maxProcess)
      (hnot : ¬ (i % 2 = 0 ∧ Holds (s.slot i) stop)) :
      Step cfg s .parent { s with parent := .polling (i + 1) count }
  | finish {i count : ℕ} (hp : s.parent = .polling i count) (hi : ¬ i < cfg.maxProcess)
      (htest : count = cfg.maxProcess / 2) :
      Step cfg s .parent { s with parent := .stopping 0 }
  | again {i count : ℕ} (hp : s.parent = .polling i count) (hi : ¬ i < cfg.maxProcess)
      (htest : count ≠ cfg.maxProcess / 2) :
      Step cfg s .parent { s with parent := .polling 0 0 }
  | writeStop {i : ℕ} (hp : s.parent = .stopping i) (hi : i < cfg.maxProcess)
      (hsub : i % 2 = 1) :
      Step cfg s .parent { s with
        parent := .stopping (i + 1)
        slot := update s.slot i (writeSlot (s.slot i) stop) }
  | skip {i : ℕ} (hp : s.parent = .stopping i) (hi : i < cfg.maxProcess) (hpub : i % 2 = 0) :
      Step cfg s .parent { s with parent := .stopping (i + 1) }
  | stopsWritten {i : ℕ} (hp : s.parent = .stopping i) (hi : ¬ i < cfg.maxProcess) :
      Step cfg s .parent { s with parent := .waiting 0 }
  | reap {i : ℕ} (hp : s.parent = .waiting i) (hi : i < cfg.maxProcess)
      (hchild : (s.child i).terminated = true) :
      Step cfg s .parent { s with parent := .waiting (i + 1) }
  | reaped {i : ℕ} (hp : s.parent = .waiting i) (hi : ¬ i < cfg.maxProcess) :
      Step cfg s .parent { s with parent := .reporting }
  | openPub {k : ℕ} (hc : s.child k = .launched) (hpub : k % 2 = 0) :
      Step cfg s (.child k) (s.setChild k (.publishing 0))
  | openSub {k : ℕ} (hc : s.child k = .launched) (hsub : k % 2 = 1) :
      Step cfg s (.child k) (s.setChild k .waitStart)
  | send {k sent : ℕ} (hc : s.child k = .publishing sent) (hsent : sent < cfg.messages) :
      Step cfg s (.child k) (s.setChild k (.publishing (sent + 1)))
  | pubStop {k sent : ℕ} (hc : s.child k = .publishing sent) (hsent : ¬ sent < cfg.messages) :
      Step cfg s (.child k)
        { s.setChild k .stopped with slot := update s.slot k (writeSlot (s.slot k) stop) }
  | gotStart {k : ℕ} (hc : s.child k = .waitStart) (hslot : Holds (s.slot k) start) :
      Step cfg s (.child k) (s.setChild k .registering)
  | spinStart {k : ℕ} (hc : s.child k = .waitStart) (hslot : ¬ Holds (s.slot k) start) :
      Step cfg s (.child k) s
  | register {k : ℕ} (hc : s.child k = .registering) :
      Step cfg s (.child k) (s.setChild k .waitStop)
  | gotStop {k : ℕ} (hc : s.child k = .waitStop) (hslot : Holds (s.slot k) stop) :
      Step cfg s (.child k) (s.setChild k .exited)
  | spinStop {k : ℕ} (hc : s.child k = .waitStop) (hslot : ¬ Holds (s.slot k) stop) :
      Step cfg s (.child k) s
  | fail {k : ℕ} (hc : s.child k = .launched ∨ (∃ sent, s.child k = .publishing sent) ∨
        s.child k = .registering) :
      Step cfg s (.fail k) (s.setChild k .failed)

theorem parentStep_cases {cfg : Config} {s t : State} (h : parentStep cfg s = some t) :
    Step cfg s .parent t := by
  unfold parentStep at h
  split at h
  · rename_i i hp
    split at h <;> rename_i hi <;> cases h
    · exact .fork hp hi
    · exact .created hp hi
  · rename_i i hp
    cases h
    exact .mapped hp
  · rename_i i hp
    split at h <;> rename_i hi <;> cases h
    · exact .writeStart hp hi
    · exact .broadcast hp hi
  · rename_i i count hp
    split at h
    · rename_i hi
      split at h
      · rename_i hrole
        rw [roleOf_eq_pub_iff] at hrole
        split at h <;> rename_i hstop <;> cases h
        · exact .count hp hi hrole hstop
        · exact .pass hp hi fun hand ↦ hstop hand.2
      · rename_i hrole
        rw [roleOf_eq_pub_iff] at hrole
        cases h
        exact .pass hp hi fun hand ↦ hrole hand.1
    · rename_i hi
      split at h <;> rename_i htest <;> cases h
      · exact .finish hp hi htest
      · exact .again hp hi htest
  · rename_i i hp
    split at h
    · rename_i hi
      split at h <;> rename_i hrole <;> rw [roleOf_eq_sub_iff] at hrole <;> cases h
      · exact .writeStop hp hi hrole
      · exact .skip hp hi (by omega)
    · rename_i hi
      cases h
      exact .stopsWritten hp hi
  · rename_i i hp
    split at h
    · rename_i hi
      split at h <;> rename_i hchild <;> cases h
      exact .reap hp hi hchild
    · rename_i hi
      cases h
      exact .reaped hp hi
  · cases h

theorem childStep_cases {cfg : Config} {s t : State} {k : ℕ} (h : childStep cfg s k = some t) :
    Step cfg s (.child k) t := by
  unfold childStep at h
  split at h
  · rename_i hc
    cases h
    split
    · exact .openPub hc ‹_›
    · exact .openSub hc (by omega)
  · rename_i sent hc
    split at h <;> rename_i hsent <;> cases h
    · exact .send hc hsent
    · exact .pubStop hc hsent
  · rename_i hc
    split at h <;> rename_i hslot <;> cases h
    · exact .gotStart hc hslot
    · exact .spinStart hc hslot
  · rename_i hc
    cases h
    exact .register hc
  · rename_i hc
    split at h <;> rename_i hslot <;> cases h
    · exact .gotStop hc hslot
    · exact .spinStop hc hslot
  all_goals cases h

theorem failStep_cases {cfg : Config} {s t : State} {k : ℕ} (h : failStep s k = some t) :
    Step cfg s (.fail k) t := by
  unfold failStep at h
  split at h
  · rename_i hc
    cases h
    exact .fail (Or.inl hc)
  · rename_i sent hc
    cases h
    exact .fail (Or.inr (Or.inl ⟨sent, hc⟩))
  · rename_i hc
    cases h
    exact .fail (Or.inr (Or.inr hc))
  · cases h

theorem step_cases {cfg : Config} {s t : State} {a : Action} (h : step cfg s a = some t) :
    Step cfg s a t := by
  cases a with
  | parent => exact parentStep_cases h
  | child k => exact childStep_cases h
  | fail k => exact failStep_cases h

end UpZenohExample
