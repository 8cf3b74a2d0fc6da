import UpZenohExample.FileSys
import UpZenohExample.Ledger
import UpZenohExample.PortList
import UpZenohExample.Retention
import UpZenohExample.Stuck

/-!
# A test run with its data

The processes of `run_tests` with the data they collect and the files they
write.  A publisher keeps the durations of its sends.  The listeners of a
subscriber are called from their registration until they are unregistered; a
call is one step, and so is the writing of one vector.  Every child writes
where its own `getWorkingDir` points.
-/

namespace UpZenohExample

open ByteText Function LabelledRun

/-- `"pub-" + argv[1]` of `pub_test` and `"sub-" + argv[1]` of `sub_test`. -/
def fileName (k : ℕ) : Text :=
  if k % 2 = 0 then text "pub-" ++ instanceName k else text "sub-" ++ instanceName k

/-! ## The directory -/

/-- Where a run and its children find `benchmarks`.  The run has created a new
directory behind earlier ones; child `k` lists `benchmarks` while no other run
creates or removes a directory. -/
structure Place where
  dirPath : Path
  century : ℕ
  times : List LocalTime
  bench : Bench
  runs : Runs dirPath century times bench
  next : NextRun century times bench
  isNew : dirName next.time ∉ next.before.entries
  during : ℕ → Bench
  during_eq : ∀ k name, digitNamed name = true →
    (name ∈ (during k).entries ↔ name ∈ (next.after dirPath).entries)
  listing : ℕ → List Text
  listing_perm : ∀ k, (listing k).Perm (during k).entries
  old : Path → Text → File

namespace Place

variable (p : Place)

/-- The directory that `run_tests` creates and reads. -/
def path : Path := p.next.path p.dirPath

/-- `getWorkingDir` of child `k`. -/
def workingDir (k : ℕ) : Option Path := getWorkingDir p.dirPath (p.listing k)

theorem workingDir_eq (k : ℕ) : p.workingDir k = some p.path :=
  p.next.getWorkingDir_eq_path p.runs.kept (p.listing_perm k) (p.during_eq k)

/-- The new directory is empty. -/
def initialFiles : Path → Text → File := fun dir ↦
  if dir = p.path then fun _ ↦ none else p.old dir

end Place

/-- `writeVecToFile(path, vec)` where `path` is `dir / name`; a vector without
elements is not written. -/
def saveIn (dir : Path) (name : Text) (files : Path → Text → File) (vec : List ℚ) :
    Path → Text → File :=
  if 0 < vec.length then
    update files dir (update (files dir) name (writeVecToFile (files dir name) vec))
  else files

/-! ## The data of a run -/

/-- How far a child is between its loop and its end: it has written the first `i`
vectors, or unregistered the first `i` listeners. -/
inductive Leaving where
  | running
  | saving (i : ℕ)
  | unregistering (i : ℕ)
  deriving DecidableEq, Repr

/-- The data of one child.  A publisher has no listeners, a subscriber no
`pub_vec`. -/
structure Proc where
  pubVec : List ℚ
  listeners : ℕ → Delivery
  leaving : Leaving

def Proc.fresh : Proc := ⟨[], fun _ ↦ .fresh, .running⟩

/-- `pub_vec.push_back` after `sent` messages, but not in round 0. -/
def Proc.push (cfg : Config) (sent : ℕ) (d : ℚ) (q : Proc) : Proc :=
  if sent / cfg.uris ≠ 0 then { q with pubVec := q.pubVec ++ [d] } else q

@[simp] theorem push_leaving (cfg : Config) (sent : ℕ) (d : ℚ) (q : Proc) :
    (q.push cfg sent d).leaving = q.leaving := by
  unfold Proc.push
  split <;> rfl

@[simp] theorem push_listeners (cfg : Config) (sent : ℕ) (d : ℚ) (q : Proc) :
    (q.push cfg sent d).listeners = q.listeners := by
  unfold Proc.push
  split <;> rfl

structure TestRun where
  state : State
  proc : ℕ → Proc
  files : Path → Text → File

def TestRun.initial (p : Place) (slots : ℕ → Text) : TestRun where
  state := .initial slots
  proc := fun _ ↦ .fresh
  files := p.initialFiles

def TestRun.withState (b : TestRun) (s : State) : TestRun := { b with state := s }

def TestRun.setProc (b : TestRun) (k : ℕ) (q : Proc) : TestRun :=
  { b with proc := update b.proc k q }

/-- Child `k` writes `vec` and goes on to `leaving`. -/
def TestRun.save (p : Place) (b : TestRun) (k : ℕ) (vec : List ℚ) (leaving : Leaving) :
    Option TestRun :=
  (p.workingDir k).map fun dir ↦
    { b.setProc k { b.proc k with leaving := leaving } with
      files := saveIn dir (fileName k) b.files vec }

/-- The parent moves, child `k` sends a message between two clock readings, makes
another step or fails, the transport calls listener `i` of child `k`, or child
`k` writes its vector `i` or unregisters its listener `i`, which may fail. -/
inductive Occurrence where
  | parent
  | send (k : ℕ) (start stop : Timespec)
  | child (k : ℕ)
  | fail (k : ℕ)
  | receive (k i : ℕ) (m : Message)
  | save (k i : ℕ)
  | unregister (k i : ℕ)
  | unregisterFails (k i : ℕ)

/-- Listener `i` of a subscriber may be called. -/
def Listens (c : Child) (leaving : Leaving) (i : ℕ) : Bool :=
  match c, leaving with
  | .registering, _ => true
  | .waitStop, .running | .waitStop, .saving _ => true
  | .waitStop, .unregistering j => j ≤ i
  | _, _ => false

def testStep (cfg : Config) (p : Place) (b : TestRun) : Occurrence → Option TestRun
  | .parent => (step cfg b.state .parent).map b.withState
  | .send k start stop =>
      match b.state.child k with
      | .publishing sent =>
          if sent < cfg.messages then
            (step cfg b.state (.child k)).map
              (b.setProc k ((b.proc k).push cfg sent (getDuration stop start))).withState
          else none
      | _ => none
  | .child k =>
      match b.state.child k, (b.proc k).leaving with
      | .publishing sent, leaving =>
          if sent < cfg.messages ∨ leaving = .running then none
          else (step cfg b.state (.child k)).map b.withState
      | .waitStop, .running =>
          if Holds (b.state.slot k) stop then
            some (b.setProc k { b.proc k with leaving := .saving 0 })
          else some b
      | .waitStop, .saving i =>
          if i < cfg.uris then none
          else some (b.setProc k { b.proc k with leaving := .unregistering 0 })
      | .waitStop, .unregistering i =>
          if i < cfg.uris then none else some (b.withState (b.state.setChild k .exited))
      | _, _ => (step cfg b.state (.child k)).map b.withState
  | .fail k =>
      if (b.proc k).leaving = .running then (step cfg b.state (.fail k)).map b.withState else none
  | .receive k i m =>
      if i < cfg.uris ∧ Listens (b.state.child k) (b.proc k).leaving i then
        (deliver ((b.proc k).listeners i) m).map fun d ↦
          b.setProc k { b.proc k with listeners := update (b.proc k).listeners i d }
      else none
  | .save k i =>
      match b.state.child k, (b.proc k).leaving with
      | .publishing sent, .running =>
          if ¬ sent < cfg.messages ∧ i = 0 then b.save p k (b.proc k).pubVec (.saving 1) else none
      | .waitStop, .saving j =>
          if j < cfg.uris ∧ i = j then
            b.save p k ((b.proc k).listeners j).listener.durationVec (.saving (j + 1))
          else none
      | _, _ => none
  | .unregister k i =>
      match b.state.child k, (b.proc k).leaving with
      | .waitStop, .unregistering j =>
          if j < cfg.uris ∧ i = j then
            some (b.setProc k { b.proc k with leaving := .unregistering (j + 1) })
          else none
      | _, _ => none
  | .unregisterFails k i =>
      match b.state.child k, (b.proc k).leaving with
      | .waitStop, .unregistering j =>
          if j < cfg.uris ∧ i = j then some (b.withState (b.state.setChild k .exited)) else none
      | _, _ => none

/-! ## Result files -/

theorem fileName_injective {j k : ℕ} (h : fileName j = fileName k) : j = k := by
  have hpub (t : Text) : text "pub-" ++ t = byte 'p' :: (text "ub-" ++ t) := by
    simp [text, byte]
  have hsub (t : Text) : text "sub-" ++ t = byte 's' :: (text "ub-" ++ t) := by
    simp [text, byte]
  have hne : byte 'p' ≠ byte 's' := by decide
  unfold fileName at h
  split at h <;> split at h
  · exact instanceName_injective (List.append_cancel_left h)
  · rw [hpub, hsub] at h
    exact absurd (List.cons.inj h).1 hne
  · rw [hpub, hsub] at h
    exact absurd (List.cons.inj h).1.symm hne
  · exact instanceName_injective (List.append_cancel_left h)

/-- A file after `writeVecToFile` was called for the vectors of `vecs` that have
elements. -/
def appendVecs (file : File) (vecs : List (List ℚ)) : File :=
  (vecs.filter fun vec ↦ !vec.isEmpty).foldl writeVecToFile file

theorem appendVecs_append (file : File) (vecs vecs' : List (List ℚ)) :
    appendVecs file (vecs ++ vecs') = appendVecs (appendVecs file vecs) vecs' := by
  rw [appendVecs, List.filter_append, List.foldl_append]
  rfl

section SaveIn

variable {dir : Path} {name : Text} {files : Path → Text → File} {vec : List ℚ}

theorem saveIn_self : saveIn dir name files vec dir name = appendVecs (files dir name) [vec] := by
  unfold saveIn
  cases vec <;> simp [appendVecs]

theorem saveIn_of_ne {other : Text} (h : other ≠ name) :
    saveIn dir name files vec dir other = files dir other := by
  unfold saveIn
  split <;> simp [h]

theorem saveIn_of_ne_dir {dir' : Path} (h : dir' ≠ dir) :
    saveIn dir name files vec dir' = files dir' := by
  unfold saveIn
  split <;> simp [h]

end SaveIn

/-! ## The step of one child -/

/-- A step of a child that neither sends, writes nor ends. -/
inductive Advance : Child → Child → Prop where
  | openPub : Advance .launched (.publishing 0)
  | openSub : Advance .launched .waitStart
  | gotStart : Advance .waitStart .registering
  | register : Advance .registering .waitStop

/-- The states from which a child fails. -/
inductive Fails : Child → Prop where
  | launched : Fails .launched
  | publishing (sent : ℕ) : Fails (.publishing sent)
  | registering : Fails .registering

/-- What child `k` with the slot `mem` does to its state, its data and its file. -/
inductive Turn (cfg : Config) (mem : Text) (k : ℕ) :
    Child → Proc → File → Occurrence → Child → Proc → File → Prop where
  | send {sent : ℕ} {q : Proc} {file : File} {start stop : Timespec}
      (hsent : sent < cfg.messages) :
      Turn cfg mem k (.publishing sent) q file (.send k start stop) (.publishing (sent + 1))
        (q.push cfg sent (getDuration stop start)) file
  | savePub {sent : ℕ} {q : Proc} {file : File} (hsent : ¬ sent < cfg.messages)
      (hq : q.leaving = .running) :
      Turn cfg mem k (.publishing sent) q file (.save k 0) (.publishing sent)
        { q with leaving := .saving 1 } (appendVecs file [q.pubVec])
  | pubStop {sent : ℕ} {q : Proc} {file : File} (hsent : ¬ sent < cfg.messages)
      (hq : q.leaving ≠ .running) :
      Turn cfg mem k (.publishing sent) q file (.child k) .stopped q file
  | gotStop {q : Proc} {file : File} (hslot : Holds mem stop) (hq : q.leaving = .running) :
      Turn cfg mem k .waitStop q file (.child k) .waitStop { q with leaving := .saving 0 } file
  | saveSub {i : ℕ} {q : Proc} {file : File} (hi : i < cfg.uris) (hq : q.leaving = .saving i) :
      Turn cfg mem k .waitStop q file (.save k i) .waitStop { q with leaving := .saving (i + 1) }
        (appendVecs file [(q.listeners i).listener.durationVec])
  | saved {i : ℕ} {q : Proc} {file : File} (hi : ¬ i < cfg.uris) (hq : q.leaving = .saving i) :
      Turn cfg mem k .waitStop q file (.child k) .waitStop
        { q with leaving := .unregistering 0 } file
  | unregister {i : ℕ} {q : Proc} {file : File} (hq : q.leaving = .unregistering i) :
      Turn cfg mem k .waitStop q file (.unregister k i) .waitStop
        { q with leaving := .unregistering (i + 1) } file
  | unregisterFails {i : ℕ} {q : Proc} {file : File} (hq : q.leaving = .unregistering i) :
      Turn cfg mem k .waitStop q file (.unregisterFails k i) .exited q file
  | exit {i : ℕ} {q : Proc} {file : File} (hq : q.leaving = .unregistering i) :
      Turn cfg mem k .waitStop q file (.child k) .exited q file
  | receive {c : Child} {q : Proc} {file : File} {i : ℕ} {m : Message} {d : Delivery}
      (hc : c = .registering ∨ c = .waitStop) (hd : deliver (q.listeners i) m = some d) :
      Turn cfg mem k c q file (.receive k i m) c
        { q with listeners := update q.listeners i d } file
  | advance {c c' : Child} {q : Proc} {file : File} (hc : Advance c c') :
      Turn cfg mem k c q file (.child k) c' q file
  | spin {c : Child} {q : Proc} {file : File} : Turn cfg mem k c q file (.child k) c q file
  | fail {c : Child} {q : Proc} {file : File} (hc : Fails c) (hq : q.leaving = .running) :
      Turn cfg mem k c q file (.fail k) .failed q file

/-- The child that an occurrence belongs to. -/
def Occurrence.owner : Occurrence → Option ℕ
  | .parent => none
  | .send k _ _ | .child k | .fail k | .receive k _ _ | .save k _ | .unregister k _
  | .unregisterFails k _ => some k

/-- The steps of a test run: the parent's, and the turn of a child, which leaves
the other children and the other files alone. -/
inductive Moved (cfg : Config) (p : Place) (b : TestRun) : Occurrence → TestRun → Prop where
  | parent {s : State} (hs : Step cfg b.state .parent s) : Moved cfg p b .parent (b.withState s)
  | turn {e : Occurrence} {k : ℕ} {s : State} {q : Proc} {files : Path → Text → File}
      (howner : e.owner = some k) (hparent : s.parent = b.state.parent)
      (hturn : Turn cfg (b.state.slot k) k (b.state.child k) (b.proc k)
        (b.files p.path (fileName k)) e (s.child k) q (files p.path (fileName k)))
      (hchild : ∀ j ≠ k, s.child j = b.state.child j)
      (hfiles : files = b.files ∨ ∃ vec, files = saveIn p.path (fileName k) b.files vec) :
      Moved cfg p b e ⟨s, update b.proc k q, files⟩

variable {cfg : Config} {p : Place} {b b' : TestRun} {e : Occurrence} {k : ℕ} {s : State}

theorem moved_withState (howner : e.owner = some k) (hparent : s.parent = b.state.parent)
    (hturn : Turn cfg (b.state.slot k) k (b.state.child k) (b.proc k)
      (b.files p.path (fileName k)) e (s.child k) (b.proc k) (b.files p.path (fileName k)))
    (hchild : ∀ j ≠ k, s.child j = b.state.child j) : Moved cfg p b e (b.withState s) := by
  have hmoved := Moved.turn howner hparent hturn hchild (Or.inl rfl)
  rwa [update_eq_self] at hmoved

theorem moved_setProc {q : Proc} (howner : e.owner = some k)
    (hturn : Turn cfg (b.state.slot k) k (b.state.child k) (b.proc k)
      (b.files p.path (fileName k)) e (b.state.child k) q (b.files p.path (fileName k))) :
    Moved cfg p b e (b.setProc k q) :=
  .turn howner rfl hturn (fun _ _ ↦ rfl) (Or.inl rfl)

theorem moved_save {vec : List ℚ} {leaving : Leaving} (howner : e.owner = some k)
    (h : b.save p k vec leaving = some b')
    (hturn : Turn cfg (b.state.slot k) k (b.state.child k) (b.proc k)
      (b.files p.path (fileName k)) e (b.state.child k) { b.proc k with leaving := leaving }
      (appendVecs (b.files p.path (fileName k)) [vec])) : Moved cfg p b e b' := by
  rw [TestRun.save, p.workingDir_eq, Option.map_some, Option.some.injEq] at h
  subst h
  apply Moved.turn howner rfl _ (fun _ _ ↦ rfl) (Or.inr ⟨vec, rfl⟩)
  rwa [saveIn_self]

theorem setChild_of_ne (s : State) (c : Child) : ∀ j ≠ k, (s.setChild k c).child j = s.child j := by
  intro j hj
  rw [setChild_child, if_neg hj]

theorem moved_setChild {c : Child} (howner : e.owner = some k)
    (hturn : Turn cfg (b.state.slot k) k (b.state.child k) (b.proc k)
      (b.files p.path (fileName k)) e c (b.proc k) (b.files p.path (fileName k))) :
    Moved cfg p b e (b.withState (b.state.setChild k c)) := by
  apply moved_withState (s := b.state.setChild k c) howner rfl _ (setChild_of_ne b.state c)
  rwa [setChild_child, if_pos rfl]

theorem moved_of_child (h : testStep cfg p b (.child k) = some b') :
    Moved cfg p b (.child k) b' := by
  cases hc : b.state.child k with
  | publishing sent =>
      by_cases hready : sent < cfg.messages ∨ (b.proc k).leaving = .running
      · simp [testStep, hc, hready] at h
      · obtain ⟨hsent, hq⟩ := not_or.mp hready
        have hstep : step cfg b.state (.child k) = some (b.state.withStop k) := by
          simp [step, childStep, hc, hsent, State.withStop]
        simp only [testStep, hc, if_neg hready, hstep, Option.map_some, Option.some.injEq] at h
        subst h
        have hstopped : (b.state.withStop k).child k = .stopped := by simp [State.withStop]
        apply moved_withState (s := b.state.withStop k) rfl rfl _ (setChild_of_ne b.state .stopped)
        rw [hc, hstopped]
        exact .pubStop hsent hq
  | waitStop =>
      cases hq : (b.proc k).leaving with
      | running =>
          by_cases hslot : Holds (b.state.slot k) stop
          · simp only [testStep, hc, hq, if_pos hslot, Option.some.injEq] at h
            subst h
            exact moved_setProc rfl (hc ▸ .gotStop hslot hq)
          · simp only [testStep, hc, hq, if_neg hslot, Option.some.injEq] at h
            subst h
            exact moved_withState (s := b.state) rfl rfl .spin fun _ _ ↦ rfl
      | saving i =>
          by_cases hi : i < cfg.uris
          · simp [testStep, hc, hq, hi] at h
          · simp only [testStep, hc, hq, if_neg hi, Option.some.injEq] at h
            subst h
            exact moved_setProc rfl (hc ▸ .saved hi hq)
      | unregistering i =>
          by_cases hi : i < cfg.uris
          · simp [testStep, hc, hq, hi] at h
          · simp only [testStep, hc, hq, if_neg hi, Option.some.injEq] at h
            subst h
            exact moved_setChild rfl (hc ▸ .exit hq)
  | launched =>
      simp only [testStep, step, childStep, hc, Option.map_some, Option.some.injEq] at h
      subst h
      apply moved_setChild rfl
      rw [hc]
      split
      · exact .advance .openPub
      · exact .advance .openSub
  | waitStart =>
      simp only [testStep, step, childStep, hc] at h
      split at h
      · cases h
        exact moved_setChild rfl (hc ▸ .advance .gotStart)
      · cases h
        exact moved_withState rfl rfl .spin fun _ _ ↦ rfl
  | registering =>
      simp only [testStep, step, childStep, hc, Option.map_some, Option.some.injEq] at h
      subst h
      exact moved_setChild rfl (hc ▸ .advance .register)
  | unborn | stopped | exited | failed => simp [testStep, step, childStep, hc] at h

theorem moved_of_save {i : ℕ} (h : testStep cfg p b (.save k i) = some b') :
    Moved cfg p b (.save k i) b' := by
  simp only [testStep] at h
  split at h
  · rename_i sent hc hq
    split at h
    · rename_i hready
      obtain ⟨hsent, rfl⟩ := hready
      exact moved_save rfl h (hc ▸ .savePub hsent hq)
    · cases h
  · rename_i j hc hq
    split at h
    · rename_i hready
      obtain ⟨hj, rfl⟩ := hready
      exact moved_save rfl h (hc ▸ .saveSub hj hq)
    · cases h
  · cases h

theorem moved_of_fail (h : testStep cfg p b (.fail k) = some b') :
    Moved cfg p b (.fail k) b' := by
  simp only [testStep] at h
  split at h
  · rename_i hq
    have hfail {c : Child} (hc : b.state.child k = c) (hfails : Fails c) :
        Moved cfg p b (.fail k) (b.withState (b.state.setChild k .failed)) :=
      moved_setChild rfl (hc ▸ .fail hfails hq)
    simp only [step, failStep] at h
    split at h
    · rename_i hc
      cases h
      exact hfail hc .launched
    · rename_i sent hc
      cases h
      exact hfail hc (.publishing sent)
    · rename_i hc
      cases h
      exact hfail hc .registering
    · cases h
  · cases h

theorem moved_of_send {start stop : Timespec}
    (h : testStep cfg p b (.send k start stop) = some b') :
    Moved cfg p b (.send k start stop) b' := by
  simp only [testStep] at h
  split at h
  · rename_i sent hc
    split at h
    · rename_i hsent
      have hstep : step cfg b.state (.child k) =
          some (b.state.setChild k (.publishing (sent + 1))) := by
        simp [step, childStep, hc, hsent]
      rw [hstep, Option.map_some, Option.some.injEq] at h
      subst h
      refine .turn (s := b.state.setChild k _) rfl rfl ?_ (setChild_of_ne b.state _) (Or.inl rfl)
      rw [hc, setChild_child, if_pos rfl]
      exact .send hsent
    · cases h
  · cases h

theorem moved_of_receive {i : ℕ} {m : Message}
    (h : testStep cfg p b (.receive k i m) = some b') : Moved cfg p b (.receive k i m) b' := by
  simp only [testStep] at h
  split at h
  · rename_i hready
    obtain ⟨d, hd, rfl⟩ := Option.map_eq_some_iff.mp h
    have hc : b.state.child k = .registering ∨ b.state.child k = .waitStop := by
      have hlistens := hready.2
      unfold Listens at hlistens
      split at hlistens <;> simp_all
    exact moved_setProc rfl (.receive hc hd)
  · cases h

theorem testStep_cases (h : testStep cfg p b e = some b') : Moved cfg p b e b' := by
  cases e with
  | parent =>
      obtain ⟨s, hs, rfl⟩ := Option.map_eq_some_iff.mp h
      exact .parent (step_cases hs)
  | child k => exact moved_of_child h
  | save k i => exact moved_of_save h
  | fail k => exact moved_of_fail h
  | send k start stop => exact moved_of_send h
  | receive k i m => exact moved_of_receive h
  | unregister k i =>
      simp only [testStep] at h
      split at h
      · rename_i j hc hq
        split at h
        · rename_i hready
          obtain ⟨-, rfl⟩ := hready
          cases h
          exact moved_setProc rfl (hc ▸ .unregister hq)
        · cases h
      · cases h
  | unregisterFails k i =>
      simp only [testStep] at h
      split at h
      · rename_i j hc hq
        split at h
        · rename_i hready
          obtain ⟨-, rfl⟩ := hready
          cases h
          exact moved_setChild rfl (hc ▸ .unregisterFails hq)
        · cases h
      · cases h

/-! ## What stays -/

theorem Step.child_of_ne {t : State} {a : Action} (h : Step cfg s a t) (hself : a ≠ .child k)
    (hfail : a ≠ .fail k) :
    t.child k = s.child k ∨ s.parent = .creating k ∧ t.child k = .launched := by
  rcases h.child_cases k with hsame | ⟨-, hp, hlaunched⟩ | ⟨ha, -⟩
  · exact Or.inl hsame
  · exact Or.inr ⟨hp, hlaunched⟩
  · rcases ha with ha | ha
    · exact absurd ha hself
    · exact absurd ha hfail

/-- The other children keep their data and their files. -/
theorem Moved.frame (h : Moved cfg p b e b') (hk : e.owner ≠ some k) :
    b'.proc k = b.proc k ∧ b'.files p.path (fileName k) = b.files p.path (fileName k) ∧
      (b'.state.child k = b.state.child k ∨
        b.state.parent = .creating k ∧ b'.state.child k = .launched) := by
  cases h with
  | parent hs => exact ⟨rfl, rfl, hs.child_of_ne (by simp) (by simp)⟩
  | turn howner hparent hturn hchild hfiles =>
      rename_i j s q files
      have hkj : k ≠ j := by
        rintro rfl
        exact hk howner
      refine ⟨update_of_ne hkj q b.proc, ?_, Or.inl (hchild k hkj)⟩
      rcases hfiles with rfl | ⟨vec, rfl⟩
      · rfl
      · exact saveIn_of_ne fun heq ↦ hkj (fileName_injective heq)

theorem Moved.owned (h : Moved cfg p b e b') (hk : e.owner = some k) :
    Turn cfg (b.state.slot k) k (b.state.child k) (b.proc k) (b.files p.path (fileName k)) e
      (b'.state.child k) (b'.proc k) (b'.files p.path (fileName k)) := by
  cases h with
  | parent => cases hk
  | turn howner hparent hturn hchild hfiles =>
      rename_i j s q files
      obtain rfl := Option.some.inj (howner.symm.trans hk)
      dsimp only
      rwa [update_self]

theorem Moved.stopWritten_mono (h : Moved cfg p b e b') (hk : b.state.parent.StopWritten k) :
    b'.state.parent.StopWritten k := by
  cases h with
  | parent hs => exact hs.stopWritten_mono hk
  | turn _ hparent => exact hparent.symm ▸ hk

theorem Moved.files_of_ne (h : Moved cfg p b e b') {name : Text} (hname : ∀ k, name ≠ fileName k) :
    b'.files p.path name = b.files p.path name := by
  cases h with
  | parent => rfl
  | turn _ _ _ _ hfiles =>
      rcases hfiles with rfl | ⟨vec, rfl⟩
      · rfl
      · exact saveIn_of_ne (hname _)

/-- No file of another directory is written. -/
theorem Moved.files_of_ne_dir (h : Moved cfg p b e b') {dir : Path} (hdir : dir ≠ p.path) :
    b'.files dir = b.files dir := by
  cases h with
  | parent => rfl
  | turn _ _ _ _ hfiles =>
      rcases hfiles with rfl | ⟨vec, rfl⟩
      · rfl
      · exact saveIn_of_ne_dir hdir

/-- The test run runs the processes: a step is one of theirs, or it leaves their
states alone. -/
theorem leads_of_testStep (h : testStep cfg p b e = some b')
    (hslot : ∀ k i, b.state.child k = .waitStop → (b.proc k).leaving = .unregistering i →
      Holds (b.state.slot k) stop) : Leads (step cfg) b.state b'.state := by
  have hlast {a : Action} {f : State → TestRun} (hf : ∀ s, (f s).state = s)
      (hmap : (step cfg b.state a).map f = some b') : Leads (step cfg) b.state b'.state := by
    obtain ⟨s, hs, rfl⟩ := Option.map_eq_some_iff.mp hmap
    rw [hf]
    exact (Leads.refl _).tail hs
  have hexit {k i : ℕ} (hc : b.state.child k = .waitStop)
      (hq : (b.proc k).leaving = .unregistering i) :
      Leads (step cfg) b.state (b.state.setChild k .exited) := by
    apply (Leads.refl _).tail (a := .child k)
    simp [step, childStep, hc, hslot k i hc hq]
  have hsave {k : ℕ} {vec : List ℚ} {leaving : Leaving} (hb : b.save p k vec leaving = some b') :
      Leads (step cfg) b.state b'.state := by
    obtain ⟨dir, -, rfl⟩ := Option.map_eq_some_iff.mp hb
    exact Leads.refl _
  cases e with
  | parent => exact hlast (fun _ ↦ rfl) h
  | send k start stop =>
      simp only [testStep] at h
      split at h
      · split at h
        · exact hlast (fun _ ↦ rfl) h
        · cases h
      · cases h
  | child k =>
      simp only [testStep] at h
      split at h
      · split at h
        · cases h
        · exact hlast (fun _ ↦ rfl) h
      · split at h <;> cases h <;> exact Leads.refl _
      · split at h <;> cases h
        exact Leads.refl _
      · rename_i i hc hq
        split at h <;> cases h
        exact hexit hc hq
      · exact hlast (fun _ ↦ rfl) h
  | fail k =>
      simp only [testStep] at h
      split at h
      · exact hlast (fun _ ↦ rfl) h
      · cases h
  | receive k i m =>
      simp only [testStep] at h
      split at h
      · obtain ⟨d, -, rfl⟩ := Option.map_eq_some_iff.mp h
        exact Leads.refl _
      · cases h
  | save k i =>
      simp only [testStep] at h
      split at h
      · split at h
        · exact hsave h
        · cases h
      · split at h
        · exact hsave h
        · cases h
      · cases h
  | unregister k i =>
      simp only [testStep] at h
      split at h
      · split at h <;> cases h
        exact Leads.refl _
      · cases h
  | unregisterFails k i =>
      simp only [testStep] at h
      split at h
      · rename_i j hc hq
        split at h <;> cases h
        exact hexit hc hq
      · cases h

end UpZenohExample
