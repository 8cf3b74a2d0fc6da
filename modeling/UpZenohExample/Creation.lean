import Mathlib.Data.List.Range
import UpZenohExample.RunTests

/-!
# The creation loop of `run_tests`

`fork` copies the vectors of the parent, and a child whose `execvp` fails
leaves `createProcess` with the same code as a parent whose `fork` fails, so it
runs the cleanup of the parent on its copies.  The pattern of failures is a
parameter.  The events are kept with the process that causes them; only their
order inside one process is meant.
-/

namespace UpZenohExample

open ByteText

/-- What the system calls of one iteration return; `fork` gives the pid of the
child or fails. -/
structure Calls where
  fork : Option ℕ
  execvp : Bool
  shmOpen : Bool
  mmap : Bool
  deriving DecidableEq, Repr

inductive Effect where
  | fork (pid : ℕ)
  | create (shmName : Text)
  | kill (pid : ℕ)
  | remove (shmName : Text)
  deriving DecidableEq, Repr

/-- A process, named by its place in the creation loop. -/
inductive Actor where
  | parent
  | child (i : ℕ)
  deriving DecidableEq, Repr

abbrev Event := Actor × Effect

structure Vectors where
  childPids : List ℕ
  shmVec : List Text
  deriving DecidableEq, Repr

def createSheredMem (name shmName_ : Text) (calls : Calls) (shmVec : List Text) :
    Int × List Text × List Effect :=
  let shmName := shmName name shmName_
  if calls.shmOpen = false then (-1, shmVec, [])
  else if calls.mmap = false then (-1, shmVec, [.create shmName])
  else (0, shmVec ++ [shmName], [.create shmName])

/-- What `createProcess` returns in the process that calls it. -/
def createProcess (name shmName : Text) (calls : Calls) (v : Vectors) :
    Int × Vectors × List Effect :=
  match calls.fork with
  | none => (-1, v, [])
  | some pid =>
      -- The code that `createSheredMem` returns is dropped.
      let (_, shmVec, effects) := createSheredMem name shmName calls v.shmVec
      (0, ⟨v.childPids ++ [pid], shmVec⟩, .fork pid :: effects)

/-- What `createProcess` returns in the child; `none` when the child goes on
with another program. -/
def createProcessInChild (calls : Calls) (v : Vectors) : Option (Int × Vectors) :=
  if calls.execvp then none else some (-1, v)

def cleanup (v : Vectors) : List Effect := v.childPids.map .kill ++ v.shmVec.map .remove

/-- What the child of iteration `i` does in `run_tests`. -/
def childEffects (calls : Calls) (v : Vectors) : List Effect :=
  match calls.fork, createProcessInChild calls v with
  | some _, some (code, v) => if code < 0 then cleanup v else []
  | _, _ => []

/-- The loop from iteration `i` on, with the vectors of a parent that goes on
past it. -/
def creationLoop (calls : ℕ → Calls) : ℕ → ℕ → Vectors → List Event × Option Vectors
  | 0, _, v => ([], some v)
  | fuel + 1, i, v =>
      let inChild := (childEffects (calls i) v).map (Actor.child i, ·)
      let (code, v', effects) := createProcess (processName i) (instanceName i) (calls i) v
      let inParent := effects.map (Actor.parent, ·)
      if code < 0 then (inChild ++ inParent ++ (cleanup v').map (Actor.parent, ·), none)
      else
        let (events, result) := creationLoop calls fuel (i + 1) v'
        (inChild ++ inParent ++ events, result)

/-! ## One iteration -/

def objectName (i : ℕ) : Text := shmName (processName i) (instanceName i)

theorem objectName_injective {i j : ℕ} (h : objectName i = objectName j) : i = j := by
  have hrole : roleOf i = roleOf j := by
    show ((objectName i).drop 1).take 1 = ((objectName j).drop 1).take 1
    rw [h]
  have hparity : i % 2 = 0 ↔ j % 2 = 0 := by
    rw [← roleOf_eq_pub_iff i, ← roleOf_eq_pub_iff j, hrole]
  have hname : processName i = processName j := by simp only [processName, hparity]
  simp only [objectName, shmName, hname] at h
  have hvalue := congrArg decimalValue (List.append_cancel_left (List.append_cancel_left h))
  simpa using hvalue

/-- The vectors after `i` iterations in which every `fork` succeeds. -/
def vectorsAt (calls : ℕ → Calls) (i : ℕ) : Vectors where
  childPids := (List.range i).filterMap fun k ↦ (calls k).fork
  shmVec := ((List.range i).filter fun k ↦ (calls k).shmOpen && (calls k).mmap).map objectName

/-- The events of an iteration in which `fork` returns `pid`. -/
def forkedEvents (calls : ℕ → Calls) (i pid : ℕ) : List Event :=
  (childEffects (calls i) (vectorsAt calls i)).map (Actor.child i, ·) ++
    (Actor.parent, .fork pid) ::
      if (calls i).shmOpen then [(Actor.parent, .create (objectName i))] else []

theorem creationLoop_forked {calls : ℕ → Calls} {i pid : ℕ} (h : (calls i).fork = some pid)
    (fuel : ℕ) :
    creationLoop calls (fuel + 1) i (vectorsAt calls i) =
      (forkedEvents calls i pid ++ (creationLoop calls fuel (i + 1) (vectorsAt calls (i + 1))).1,
        (creationLoop calls fuel (i + 1) (vectorsAt calls (i + 1))).2) := by
  have hpids : (vectorsAt calls (i + 1)).childPids = (vectorsAt calls i).childPids ++ [pid] := by
    simp [vectorsAt, List.range_succ, h]
  have hshm : (vectorsAt calls (i + 1)).shmVec = (vectorsAt calls i).shmVec ++
      if (calls i).shmOpen && (calls i).mmap then [objectName i] else [] := by
    simp only [vectorsAt, List.range_succ, List.filter_append, List.map_append]
    cases hboth : (calls i).shmOpen && (calls i).mmap <;> simp [hboth]
  have hvec : vectorsAt calls (i + 1) =
      ⟨(vectorsAt calls (i + 1)).childPids, (vectorsAt calls (i + 1)).shmVec⟩ := rfl
  rw [hpids, hshm] at hvec
  rw [hvec, creationLoop]
  simp only [createProcess, h, createSheredMem]
  cases hopen : (calls i).shmOpen <;> cases (calls i).mmap <;>
    simp [forkedEvents, hopen, objectName]

theorem creationLoop_failed {calls : ℕ → Calls} {i : ℕ} (h : (calls i).fork = none)
    (fuel : ℕ) (v : Vectors) :
    creationLoop calls (fuel + 1) i v = ((cleanup v).map (Actor.parent, ·), none) := by
  rw [creationLoop]
  simp [createProcess, childEffects, h]

/-! ## The loop -/

/-- Every `fork` from iteration `i` up to iteration `j` succeeds. -/
def Forks (calls : ℕ → Calls) (i j : ℕ) : Prop :=
  ∀ k, i ≤ k → k < j → (calls k).fork ≠ none

theorem Forks.cons {calls : ℕ → Calls} {i j : ℕ} (hi : (calls i).fork ≠ none)
    (h : Forks calls (i + 1) j) : Forks calls i j := by
  intro k hik hkj
  rcases Nat.eq_or_lt_of_le hik with rfl | hlt
  · exact hi
  · exact h k hlt hkj

theorem Forks.tail {calls : ℕ → Calls} {i j : ℕ} (h : Forks calls i j) :
    Forks calls (i + 1) j :=
  fun k hik hkj ↦ h k (by omega) hkj

theorem Forks.mono {calls : ℕ → Calls} {i j m : ℕ} (h : Forks calls i j) (hm : m ≤ j) :
    Forks calls i m :=
  fun k hik hkm ↦ h k hik (hkm.trans_le hm)

theorem Forks.succ {calls : ℕ → Calls} {i m : ℕ} (h : Forks calls i m)
    (hm : (calls m).fork ≠ none) : Forks calls i (m + 1) := by
  intro k hik hkm
  rcases Nat.lt_succ_iff_lt_or_eq.mp hkm with hlt | rfl
  · exact h k hik hlt
  · exact hm

/-- The first `fork` that fails is not among those that succeed. -/
theorem Forks.le_of_fork_eq_none {calls : ℕ → Calls} {i j m : ℕ} (h : Forks calls i m)
    (hij : i ≤ j) (hj : (calls j).fork = none) : m ≤ j :=
  not_lt.mp fun hlt ↦ h j hij hlt hj

/-- The parent goes on past the loop with all its entries, or it leaves at the
first `fork` that fails. -/
theorem creationLoop_result (calls : ℕ → Calls) (fuel i : ℕ) :
    (Forks calls i (i + fuel) ∧ (creationLoop calls fuel i (vectorsAt calls i)).2 =
        some (vectorsAt calls (i + fuel))) ∨
      ∃ j, i ≤ j ∧ j < i + fuel ∧ Forks calls i j ∧ (calls j).fork = none ∧
        (creationLoop calls fuel i (vectorsAt calls i)).2 = none := by
  induction fuel generalizing i with
  | zero => exact Or.inl ⟨fun k hik hki ↦ by omega, rfl⟩
  | succ fuel ih =>
      cases hfork : (calls i).fork with
      | none =>
          refine Or.inr ⟨i, le_refl i, by omega, fun k hik hki ↦ by omega, hfork, ?_⟩
          rw [creationLoop_failed hfork]
      | some pid =>
          have hi : (calls i).fork ≠ none := by simp [hfork]
          rw [creationLoop_forked hfork, show i + (fuel + 1) = i + 1 + fuel by omega]
          rcases ih (i + 1) with ⟨hforks, hresult⟩ | ⟨j, hij, hj, hforks, hnone, hresult⟩
          · exact Or.inl ⟨hforks.cons hi, hresult⟩
          · exact Or.inr ⟨j, by omega, hj, hforks.cons hi, hnone, hresult⟩

theorem mem_creationLoop (calls : ℕ → Calls) (fuel i : ℕ) (e : Event) :
    e ∈ (creationLoop calls fuel i (vectorsAt calls i)).1 ↔
      (∃ m pid, i ≤ m ∧ m < i + fuel ∧ Forks calls i m ∧ (calls m).fork = some pid ∧
        e ∈ forkedEvents calls m pid) ∨
      ∃ j, i ≤ j ∧ j < i + fuel ∧ Forks calls i j ∧ (calls j).fork = none ∧
        e ∈ (cleanup (vectorsAt calls j)).map (Actor.parent, ·) := by
  induction fuel generalizing i with
  | zero =>
      refine iff_of_false (by simp [creationLoop]) ?_
      rintro (⟨m, pid, him, hm, -⟩ | ⟨j, hij, hj, -⟩) <;> omega
  | succ fuel ih =>
      cases hfork : (calls i).fork with
      | none =>
          have hfirst {m : ℕ} (him : i ≤ m) (h : Forks calls i m) : m = i :=
            le_antisymm (h.le_of_fork_eq_none (le_refl i) hfork) him
          rw [creationLoop_failed hfork]
          constructor
          · intro he
            exact Or.inr ⟨i, le_refl i, by omega, fun k hik hki ↦ by omega, hfork, he⟩
          · rintro (⟨m, pid, him, -, hforks, hm, -⟩ | ⟨j, hij, -, hforks, -, he⟩)
            · rw [hfirst him hforks, hfork] at hm
              simp at hm
            · rwa [hfirst hij hforks] at he
      | some pid =>
          have hi : (calls i).fork ≠ none := by simp [hfork]
          rw [creationLoop_forked hfork, List.mem_append, ih (i + 1),
            show i + 1 + fuel = i + (fuel + 1) by omega]
          constructor
          · rintro (he | ⟨m, q, him, hm, hforks, hq, he⟩ | ⟨j, hij, hj, hforks, hnone, he⟩)
            · exact Or.inl ⟨i, pid, le_refl i, by omega, fun k hik hki ↦ by omega, hfork, he⟩
            · exact Or.inl ⟨m, q, by omega, hm, hforks.cons hi, hq, he⟩
            · exact Or.inr ⟨j, by omega, hj, hforks.cons hi, hnone, he⟩
          · rintro (⟨m, q, him, hm, hforks, hq, he⟩ | ⟨j, hij, hj, hforks, hnone, he⟩)
            · rcases Nat.eq_or_lt_of_le him with rfl | hlt
              · have hpid : pid = q := by simpa [hfork] using hq
                exact Or.inl (hpid ▸ he)
              · exact Or.inr (Or.inl ⟨m, q, hlt, hm, hforks.tail, hq, he⟩)
            · have hne : i ≠ j := fun heq ↦ hi (heq ▸ hnone)
              exact Or.inr (Or.inr ⟨j, by omega, hj, hforks.tail, hnone, he⟩)

def createAll (calls : ℕ → Calls) (maxProcess : ℕ) : List Event × Option Vectors :=
  creationLoop calls maxProcess 0 ⟨[], []⟩

section Run

variable {calls : ℕ → Calls} {n : ℕ}

theorem createAll_result (calls : ℕ → Calls) (n : ℕ) :
    (Forks calls 0 n ∧ (createAll calls n).2 = some (vectorsAt calls n)) ∨
      ∃ j < n, Forks calls 0 j ∧ (calls j).fork = none ∧ (createAll calls n).2 = none := by
  have h := creationLoop_result calls n 0
  rw [Nat.zero_add] at h
  rcases h with h | ⟨j, -, hj, hforks, hnone, hresult⟩
  · exact Or.inl h
  · exact Or.inr ⟨j, hj, hforks, hnone, hresult⟩

theorem mem_createAll (e : Event) :
    e ∈ (createAll calls n).1 ↔
      (∃ m pid, m < n ∧ Forks calls 0 m ∧ (calls m).fork = some pid ∧
        e ∈ forkedEvents calls m pid) ∨
      ∃ j < n, Forks calls 0 j ∧ (calls j).fork = none ∧
        e ∈ (cleanup (vectorsAt calls j)).map (Actor.parent, ·) := by
  have h := mem_creationLoop calls n 0 e
  rw [Nat.zero_add] at h
  simpa [createAll, vectorsAt] using h

theorem mem_childPids {j pid : ℕ} :
    pid ∈ (vectorsAt calls j).childPids ↔ ∃ i < j, (calls i).fork = some pid := by
  simp [vectorsAt]

theorem mem_shmVec {j : ℕ} {name : Text} :
    name ∈ (vectorsAt calls j).shmVec ↔
      ∃ i < j, ((calls i).shmOpen = true ∧ (calls i).mmap = true) ∧ objectName i = name := by
  simp [vectorsAt, and_assoc]

theorem objectName_mem_shmVec {j i : ℕ} :
    objectName i ∈ (vectorsAt calls j).shmVec ↔
      i < j ∧ (calls i).shmOpen = true ∧ (calls i).mmap = true := by
  rw [mem_shmVec]
  constructor
  · rintro ⟨k, hk, hcalls, hname⟩
    rw [objectName_injective hname] at hk hcalls
    exact ⟨hk, hcalls⟩
  · rintro ⟨hi, hcalls⟩
    exact ⟨i, hi, hcalls, rfl⟩

theorem mem_childEffects {i : ℕ} {v : Vectors} {effect : Effect} :
    effect ∈ childEffects (calls i) v ↔
      (calls i).fork ≠ none ∧ (calls i).execvp = false ∧ effect ∈ cleanup v := by
  unfold childEffects createProcessInChild
  cases (calls i).fork <;> cases (calls i).execvp <;> simp

/-! ## What each process does -/

theorem fork_mem_iff {pid : ℕ} :
    (Actor.parent, Effect.fork pid) ∈ (createAll calls n).1 ↔
      ∃ m < n, Forks calls 0 m ∧ (calls m).fork = some pid := by
  rw [mem_createAll]
  constructor
  · rintro (⟨m, q, hm, hforks, hq, he⟩ | ⟨j, -, -, -, he⟩)
    · have hpid : pid = q := by
        simp only [forkedEvents] at he
        split at he <;> simpa using he
      exact ⟨m, hm, hforks, hpid ▸ hq⟩
    · simp [cleanup] at he
  · rintro ⟨m, hm, hforks, hpid⟩
    exact Or.inl ⟨m, pid, hm, hforks, hpid, by simp [forkedEvents]⟩

theorem create_mem_iff {actor : Actor} {name : Text} :
    (actor, Effect.create name) ∈ (createAll calls n).1 ↔
      actor = .parent ∧ ∃ m < n, Forks calls 0 (m + 1) ∧ (calls m).shmOpen = true ∧
        name = objectName m := by
  rw [mem_createAll]
  constructor
  · rintro (⟨m, q, hm, hforks, hq, he⟩ | ⟨j, -, -, -, he⟩)
    · simp only [forkedEvents, List.mem_append, List.mem_map, mem_childEffects, cleanup] at he
      cases hopen : (calls m).shmOpen with
      | false => simp [hopen] at he
      | true =>
          have hboth : actor = .parent ∧ name = objectName m := by simpa [hopen] using he
          exact ⟨hboth.1, m, hm, hforks.succ (by simp [hq]), hopen, hboth.2⟩
    · simp [cleanup] at he
  · rintro ⟨rfl, m, hm, hforks, hopen, rfl⟩
    obtain ⟨pid, hpid⟩ := Option.ne_none_iff_exists'.mp (hforks m (Nat.zero_le m) (by omega))
    exact Or.inl ⟨m, pid, hm, hforks.mono (Nat.le_succ m), hpid, by simp [forkedEvents, hopen]⟩

/-- The effects that undo something. -/
def Effect.undoes : Effect → Bool
  | .kill _ => true
  | .remove _ => true
  | _ => false

theorem child_mem_iff {i : ℕ} {effect : Effect} :
    (Actor.child i, effect) ∈ (createAll calls n).1 ↔
      i < n ∧ Forks calls 0 (i + 1) ∧ (calls i).execvp = false ∧
        effect ∈ cleanup (vectorsAt calls i) := by
  rw [mem_createAll]
  constructor
  · rintro (⟨m, q, hm, hforks, hq, he⟩ | ⟨j, -, -, -, he⟩)
    · simp only [forkedEvents, List.mem_append, List.mem_cons] at he
      rcases he with he | he | he
      · obtain ⟨e, hmem, heq⟩ := List.mem_map.mp he
        simp only [Prod.mk.injEq, Actor.child.injEq] at heq
        obtain ⟨rfl, rfl⟩ := heq
        obtain ⟨hfork, hexec, hclean⟩ := mem_childEffects.mp hmem
        exact ⟨hm, hforks.succ hfork, hexec, hclean⟩
      · simp at he
      · split at he <;> simp at he
    · simp at he
  · rintro ⟨hi, hforks, hexec, hclean⟩
    have hfork := hforks i (Nat.zero_le i) (by omega)
    obtain ⟨pid, hpid⟩ := Option.ne_none_iff_exists'.mp hfork
    refine Or.inl ⟨i, pid, hi, hforks.mono (Nat.le_succ i), hpid, ?_⟩
    have hmem := mem_childEffects.mpr ⟨hfork, hexec, hclean⟩
    exact List.mem_append_left _ (List.mem_map_of_mem hmem)

theorem parent_undoes_iff {effect : Effect} (hundoes : effect.undoes = true) :
    (Actor.parent, effect) ∈ (createAll calls n).1 ↔
      ∃ j < n, Forks calls 0 j ∧ (calls j).fork = none ∧
        effect ∈ cleanup (vectorsAt calls j) := by
  rw [mem_createAll]
  constructor
  · rintro (⟨m, q, hm, hforks, hq, he⟩ | ⟨j, hj, hforks, hnone, he⟩)
    · exfalso
      simp only [forkedEvents, List.mem_append, List.mem_cons] at he
      rcases he with he | he | he
      · simp at he
      · simp only [Prod.mk.injEq, true_and] at he
        simp [he, Effect.undoes] at hundoes
      · cases hopen : (calls m).shmOpen with
        | false => simp [hopen] at he
        | true =>
            simp only [hopen, if_true, List.mem_singleton, Prod.mk.injEq, true_and] at he
            simp [he, Effect.undoes] at hundoes
    · obtain ⟨e, hmem, heq⟩ := List.mem_map.mp he
      simp only [Prod.mk.injEq, true_and] at heq
      exact ⟨j, hj, hforks, hnone, heq ▸ hmem⟩
  · rintro ⟨j, hj, hforks, hnone, he⟩
    exact Or.inr ⟨j, hj, hforks, hnone, List.mem_map_of_mem he⟩

theorem kill_mem_cleanup {v : Vectors} {pid : ℕ} :
    Effect.kill pid ∈ cleanup v ↔ pid ∈ v.childPids := by
  simp [cleanup]

theorem remove_mem_cleanup {v : Vectors} {name : Text} :
    Effect.remove name ∈ cleanup v ↔ name ∈ v.shmVec := by
  simp [cleanup]

end Run

/-! ## Complete or undone -/

/-- Entry `k` of both vectors belongs to process `k`, for every process. -/
def Vectors.Complete (calls : ℕ → Calls) (n : ℕ) (v : Vectors) : Prop :=
  v.childPids.length = n ∧ v.shmVec.length = n ∧
    ∀ k < n, v.childPids[k]? = (calls k).fork ∧ v.shmVec[k]? = some (objectName k)

structure CompleteOrUndone (calls : ℕ → Calls) (n : ℕ) : Prop where
  complete : ∀ v, (createAll calls n).2 = some v → v.Complete calls n
  killed : (createAll calls n).2 = none → ∀ pid,
    (Actor.parent, Effect.fork pid) ∈ (createAll calls n).1 →
      (Actor.parent, Effect.kill pid) ∈ (createAll calls n).1
  removed : (createAll calls n).2 = none → ∀ actor name,
    (actor, Effect.create name) ∈ (createAll calls n).1 →
      (Actor.parent, Effect.remove name) ∈ (createAll calls n).1
  onlyParent : ∀ actor effect, (actor, effect) ∈ (createAll calls n).1 →
    effect.undoes = true → actor = .parent

/-- The failures that are handled: of every process that is forked, `execvp`
succeeds unless it is the first, `mmap` succeeds when `shm_open` does, and
`shm_open` succeeds when no `fork` of the loop fails. -/
def Handled (calls : ℕ → Calls) (n : ℕ) : Prop :=
  ∀ i < n, Forks calls 0 (i + 1) →
    (i ≠ 0 → (calls i).execvp = true) ∧
    ((calls i).shmOpen = true → (calls i).mmap = true) ∧
    (Forks calls 0 n → (calls i).shmOpen = true)

theorem complete_of_handled {calls : ℕ → Calls} {n : ℕ} (hforks : Forks calls 0 n)
    (h : Handled calls n) : (vectorsAt calls n).Complete calls n := by
  have hshm : (vectorsAt calls n).shmVec = (List.range n).map objectName := by
    have hall : (List.range n).filter (fun k ↦ (calls k).shmOpen && (calls k).mmap) =
        List.range n := by
      rw [List.filter_eq_self]
      intro k hk
      have hkn := List.mem_range.mp hk
      obtain ⟨-, hmap, hopen⟩ := h k hkn (hforks.mono hkn)
      simp [hopen hforks, hmap (hopen hforks)]
    simp only [vectorsAt, hall]
  have hpids : (vectorsAt calls n).childPids =
      (List.range n).map fun k ↦ ((calls k).fork).getD 0 := by
    simp only [vectorsAt]
    rw [← List.filterMap_eq_map]
    apply List.filterMap_congr
    intro k hk
    obtain ⟨pid, hpid⟩ := Option.ne_none_iff_exists'.mp
      (hforks k (Nat.zero_le k) (List.mem_range.mp hk))
    simp [hpid]
  refine ⟨by simp [hpids], by simp [hshm], ?_⟩
  intro k hk
  obtain ⟨pid, hpid⟩ := Option.ne_none_iff_exists'.mp (hforks k (Nat.zero_le k) hk)
  simp [hpids, hshm, hk, hpid]

theorem completeOrUndone_of_handled {calls : ℕ → Calls} {n : ℕ} (h : Handled calls n) :
    CompleteOrUndone calls n where
  complete := by
    intro v hv
    rcases createAll_result calls n with ⟨hforks, hresult⟩ | ⟨j, -, -, -, hresult⟩
    · rw [← Option.some.inj (hresult.symm.trans hv)]
      exact complete_of_handled hforks h
    · simp [hresult] at hv
  killed := by
    intro hnone pid hpid
    rcases createAll_result calls n with ⟨-, hresult⟩ | ⟨j, hj, hforks, hfail, -⟩
    · simp [hresult] at hnone
    · obtain ⟨m, hm, hforks', hfork⟩ := fork_mem_iff.mp hpid
      have hmj : m < j := (hforks'.succ (by simp [hfork])).le_of_fork_eq_none (Nat.zero_le j) hfail
      rw [parent_undoes_iff rfl]
      exact ⟨j, hj, hforks, hfail, kill_mem_cleanup.mpr (mem_childPids.mpr ⟨m, hmj, hfork⟩)⟩
  removed := by
    intro hnone actor name hcreate
    rcases createAll_result calls n with ⟨-, hresult⟩ | ⟨j, hj, hforks, hfail, -⟩
    · simp [hresult] at hnone
    · obtain ⟨-, m, hm, hforks', hopen, rfl⟩ := create_mem_iff.mp hcreate
      have hmj : m < j := hforks'.le_of_fork_eq_none (Nat.zero_le j) hfail
      have hmap := (h m hm hforks').2.1 hopen
      rw [parent_undoes_iff rfl]
      exact ⟨j, hj, hforks, hfail,
        remove_mem_cleanup.mpr (objectName_mem_shmVec.mpr ⟨hmj, hopen, hmap⟩)⟩
  onlyParent := by
    intro actor effect hmem hundoes
    cases actor with
    | parent => rfl
    | child i =>
        obtain ⟨hi, hforks, hexec, hclean⟩ := child_mem_iff.mp hmem
        by_cases hzero : i = 0
        · -- The first child has nothing to clean up.
          simp [hzero, vectorsAt, cleanup] at hclean
        · simp [(h i hi hforks).1 hzero] at hexec

theorem handled_of_completeOrUndone {calls : ℕ → Calls} {n : ℕ}
    (h : CompleteOrUndone calls n) : Handled calls n := by
  intro i hi hforks
  have hobject (hfull : Forks calls 0 n) :
      (calls i).shmOpen = true ∧ (calls i).mmap = true := by
    rcases createAll_result calls n with ⟨-, hresult⟩ | ⟨j, hj, -, hfail, -⟩
    · obtain ⟨-, -, hentry⟩ := h.complete _ hresult
      have hmem := List.mem_of_getElem? (hentry i hi).2
      exact (objectName_mem_shmVec.mp hmem).2
    · exact absurd hfail (hfull j (Nat.zero_le j) hj)
  refine ⟨?_, ?_, fun hfull ↦ (hobject hfull).1⟩
  · intro hzero
    by_contra hexec
    -- The child of iteration `i` has the pid of the first child in its copy.
    obtain ⟨pid, hpid⟩ := Option.ne_none_iff_exists'.mp (hforks 0 (le_refl 0) (by omega))
    have hkill : (Actor.child i, Effect.kill pid) ∈ (createAll calls n).1 := by
      rw [child_mem_iff]
      refine ⟨hi, hforks, by simpa using hexec, ?_⟩
      exact kill_mem_cleanup.mpr (mem_childPids.mpr ⟨0, by omega, hpid⟩)
    have hparent := h.onlyParent _ _ hkill rfl
    simp at hparent
  · intro hopen
    rcases createAll_result calls n with ⟨hfull, -⟩ | ⟨-, -, -, -, hresult⟩
    · exact (hobject hfull).2
    · have hcreate : (Actor.parent, Effect.create (objectName i)) ∈ (createAll calls n).1 :=
        create_mem_iff.mpr ⟨rfl, i, hi, hforks, hopen, rfl⟩
      have hremove := h.removed hresult _ _ hcreate
      rw [parent_undoes_iff rfl] at hremove
      obtain ⟨k, -, -, -, hclean⟩ := hremove
      exact (objectName_mem_shmVec.mp (remove_mem_cleanup.mp hclean)).2.2

theorem creation_complete_or_undone_iff (calls : ℕ → Calls) (n : ℕ) :
    CompleteOrUndone calls n ↔ Handled calls n :=
  ⟨handled_of_completeOrUndone, completeOrUndone_of_handled⟩

/-- The second child cannot be executed and kills the first. -/
theorem creation_child_kills_sibling :
    (Actor.child 1, Effect.kill 100) ∈
        (createAll (fun i ↦ ⟨some (100 + i), i = 0, true, true⟩) 2).1 ∧
      ¬ CompleteOrUndone (fun i ↦ ⟨some (100 + i), i = 0, true, true⟩) 2 := by
  have hkill : (Actor.child 1, Effect.kill 100) ∈
      (createAll (fun i ↦ ⟨some (100 + i), i = 0, true, true⟩) 2).1 := by
    decide
  refine ⟨hkill, ?_⟩
  intro h
  have hparent := h.onlyParent _ _ hkill rfl
  simp at hparent

end UpZenohExample
