import UpZenohExample.TestRun

/-!
# The history of a test run

What was sent and received, and when a listener's vector was written: a message
counts when it arrives before.  `Tracks` says what every child and the result
directory hold after a history.
-/

namespace UpZenohExample

open ByteText Function LabelledRun

def Occurrence.sent (k : ℕ) : Occurrence → Option ℚ
  | .send j start stop => if j = k then some (getDuration stop start) else none
  | _ => none

def Occurrence.received (k i : ℕ) : Occurrence → Option Message
  | .receive j l m => if j = k ∧ l = i then some m else none
  | _ => none

/-- Child `k` writes its vector `i`. -/
def Occurrence.saves (k i : ℕ) : Occurrence → Bool
  | .save j l => j = k ∧ l = i
  | _ => false

/-- The durations of all sends of publisher `k`. -/
def sends (k : ℕ) (trace : List Occurrence) : List ℚ := trace.filterMap (Occurrence.sent k)

/-- The calls of listener `i` of subscriber `k`. -/
def receives (k i : ℕ) (trace : List Occurrence) : List Message :=
  trace.filterMap (Occurrence.received k i)

/-- Those before its vector is written. -/
def counted (k i : ℕ) (trace : List Occurrence) : List Message :=
  receives k i (trace.takeWhile fun e ↦ !e.saves k i)

/-- The vector `i` of child `k`. -/
def vector (cfg : Config) (k i : ℕ) (trace : List Occurrence) : List ℚ :=
  if k % 2 = 0 then (sends k trace).drop cfg.uris
  else (ledger (counted k i trace)).map Entry.duration

variable {cfg : Config} {p : Place} {slots : ℕ → Text} {b b' : TestRun} {e : Occurrence}
  {trace : List Occurrence} {k i : ℕ}

/-! ## One more occurrence -/

theorem sends_snoc (h : e.sent k = none) : sends k (trace ++ [e]) = sends k trace := by
  simp [sends, h]

theorem sends_snoc_self (k : ℕ) (start stop : Timespec) :
    sends k (trace ++ [.send k start stop]) = sends k trace ++ [getDuration stop start] := by
  simp [sends, Occurrence.sent]

theorem receives_snoc (h : e.received k i = none) :
    receives k i (trace ++ [e]) = receives k i trace := by
  simp [receives, h]

theorem receives_snoc_self (k i : ℕ) (m : Message) :
    receives k i (trace ++ [.receive k i m]) = receives k i trace ++ [m] := by
  simp [receives, Occurrence.received]

theorem receives_append (pre post : List Occurrence) :
    receives k i (pre ++ post) = receives k i pre ++ receives k i post :=
  List.filterMap_append

/-- Without a write every call counts. -/
theorem counted_append (h : ∀ e ∈ trace, e.saves k i = false) (post : List Occurrence) :
    counted k i (trace ++ post) = receives k i trace ++ counted k i post := by
  have hall : ∀ e ∈ trace, (!e.saves k i) = true := by
    intro e he
    rw [h e he]
    rfl
  rw [counted, List.takeWhile_append_of_pos hall, receives_append]
  rfl

theorem counted_eq_receives (h : ∀ e ∈ trace, e.saves k i = false) :
    counted k i trace = receives k i trace := by
  have happend := counted_append h []
  rwa [List.append_nil, show counted k i [] = [] from rfl, List.append_nil] at happend

/-- After the write no call counts. -/
theorem counted_append_of_saved (h : ∃ e ∈ trace, e.saves k i = true) (post : List Occurrence) :
    counted k i (trace ++ post) = counted k i trace := by
  obtain ⟨e, he, hsaves⟩ := h
  have hshort : (trace.takeWhile fun e ↦ !e.saves k i).length ≠ trace.length := by
    intro hlength
    have hwhole : (trace.takeWhile fun e ↦ !e.saves k i) = trace :=
      (List.takeWhile_prefix _).eq_of_length hlength
    have hnot := List.takeWhile_eq_self_iff.mp hwhole e he
    rw [hsaves] at hnot
    cases hnot
  rw [counted, List.takeWhile_append, if_neg hshort]
  rfl

theorem counted_snoc (h : e.received k i = none) :
    counted k i (trace ++ [e]) = counted k i trace := by
  by_cases hsaved : ∃ e ∈ trace, e.saves k i = true
  · exact counted_append_of_saved hsaved [e]
  · have hnone : ∀ e ∈ trace, e.saves k i = false := by
      intro e he
      exact Bool.eq_false_iff.mpr fun htrue ↦ hsaved ⟨e, he, htrue⟩
    have hlast : counted k i [e] = [] := by
      cases hsaves : e.saves k i <;> simp [counted, receives, hsaves, h]
    rw [counted_append hnone, hlast, List.append_nil, counted_eq_receives hnone]

theorem vector_snoc (hsent : e.sent k = none) (hreceived : e.received k i = none) :
    vector cfg k i (trace ++ [e]) = vector cfg k i trace := by
  rw [vector, vector, sends_snoc hsent, counted_snoc hreceived]

theorem exists_saves_snoc : (∃ a ∈ trace ++ [e], a.saves k i = true) ↔
    (∃ a ∈ trace, a.saves k i = true) ∨ e.saves k i = true := by
  simp [or_and_right, exists_or]

theorem Occurrence.of_owner_ne (h : e.owner ≠ some k) :
    e.sent k = none ∧ (∀ i, e.received k i = none) ∧ ∀ i, e.saves k i = false := by
  cases e <;> simp_all [Occurrence.owner, Occurrence.sent, Occurrence.received, Occurrence.saves]

/-! ## One child -/

/-- The sends that a publisher in state `c` has behind it. -/
def SentOk (cfg : Config) (durations : List ℚ) : Child → Prop
  | .unborn | .launched => durations = []
  | .publishing sent => durations.length = sent ∧ sent ≤ cfg.messages
  | .stopped => durations.length = cfg.messages
  | .waitStart | .registering | .waitStop | .exited | .failed => True

def LeavingOk (cfg : Config) (c : Child) : Leaving → Prop
  | .running => c ≠ .stopped ∧ c ≠ .exited
  | .saving i => i = 1 ∧ ((∃ sent, c = .publishing sent ∧ ¬ sent < cfg.messages) ∨ c = .stopped) ∨
      i ≤ cfg.uris ∧ c = .waitStop
  | .unregistering _ => c = .waitStop ∨ c = .exited

/-- The number of vectors written. -/
def Leaving.count (cfg : Config) : Leaving → ℕ
  | .running => 0
  | .saving i => i
  | .unregistering _ => cfg.uris

/-- What child `k` and its file hold after the history `trace`. -/
structure ProcOk (cfg : Config) (k : ℕ) (trace : List Occurrence) (c : Child) (q : Proc)
    (file : File) : Prop where
  sent : SentOk cfg (sends k trace) c
  pubVec : q.pubVec = (sends k trace).drop cfg.uris
  listeners : ∀ i, run deliver .fresh (receives k i trace) = some (q.listeners i)
  leaving : LeavingOk cfg c q.leaving
  saves : ∀ i, (∃ e ∈ trace, e.saves k i = true) ↔ i < q.leaving.count cfg
  file : file =
    appendVecs none ((List.range (q.leaving.count cfg)).map fun i ↦ vector cfg k i trace)

theorem procOk_fresh (cfg : Config) (k : ℕ) : ProcOk cfg k [] .unborn .fresh none where
  sent := rfl
  pubVec := by simp [Proc.fresh, sends]
  listeners _ := rfl
  leaving := by simp [Proc.fresh, LeavingOk]
  saves i := by simp [Proc.fresh, Leaving.count]
  file := rfl

section Child

variable {c c' : Child} {q q' : Proc} {file file' : File} {mem : Text}

theorem ProcOk.notSaved (h : ProcOk cfg k trace c q file) (hi : ¬ i < q.leaving.count cfg) :
    ∀ e ∈ trace, e.saves k i = false := by
  intro e he
  exact Bool.eq_false_iff.mpr fun hsaves ↦ hi ((h.saves i).mp ⟨e, he, hsaves⟩)

theorem ProcOk.durationVec (h : ProcOk cfg k trace c q file) (i : ℕ) :
    (q.listeners i).listener.durationVec = (ledger (receives k i trace)).map Entry.duration :=
  (run_refines (h.listeners i)).1.durationVec

/-- Nothing happens to a child while others move. -/
theorem ProcOk.frame (h : ProcOk cfg k trace c q file) (he : e.owner ≠ some k) :
    ProcOk cfg k (trace ++ [e]) c q file := by
  obtain ⟨hsent, hreceived, hsaves⟩ := Occurrence.of_owner_ne he
  have hsends : sends k (trace ++ [e]) = sends k trace := sends_snoc hsent
  exact
    { sent := hsends ▸ h.sent
      pubVec := hsends ▸ h.pubVec
      listeners := by
        intro i
        rw [receives_snoc (hreceived i)]
        exact h.listeners i
      leaving := h.leaving
      saves := by
        intro i
        rw [exists_saves_snoc, h.saves i, hsaves i]
        simp
      file := by
        simp only [vector_snoc hsent (hreceived _)]
        exact h.file }

theorem ProcOk.launched (h : ProcOk cfg k trace .unborn q file) :
    ProcOk cfg k trace .launched q file where
  sent := h.sent
  pubVec := h.pubVec
  listeners := h.listeners
  leaving := by
    have hleaving := h.leaving
    cases hq : q.leaving <;> simp_all [LeavingOk]
  saves := h.saves
  file := h.file

theorem Advance.sentOk {durations : List ℚ} (h : Advance c c') (hc : SentOk cfg durations c) :
    SentOk cfg durations c' := by
  cases h with
  | openPub =>
      have hnone : durations = [] := hc
      simp [hnone, SentOk]
  | openSub | gotStart | register => trivial

theorem Turn.sent (h : Turn cfg mem k c q file e c' q' file') (hc : SentOk cfg (sends k trace) c) :
    SentOk cfg (sends k (trace ++ [e])) c' := by
  cases h with
  | send hsent =>
      obtain ⟨hlength, -⟩ := hc
      rw [sends_snoc_self]
      exact ⟨by rw [List.length_append, hlength, List.length_singleton], hsent⟩
  | pubStop hsent hq =>
      obtain ⟨hlength, hle⟩ := hc
      rw [sends_snoc rfl]
      exact hlength.trans (Nat.le_antisymm hle (Nat.le_of_not_lt hsent))
  | advance hstep =>
      rw [sends_snoc rfl]
      exact hstep.sentOk hc
  | unregisterFails | exit | fail => trivial
  | savePub | gotStop | saveSub | saved | unregister | receive | spin =>
      rw [sends_snoc rfl]
      exact hc

/-- The durations of the first round, one for each URI, are not kept. -/
theorem Turn.pubVec (h : Turn cfg mem k c q file e c' q' file')
    (hc : SentOk cfg (sends k trace) c) (hq : q.pubVec = (sends k trace).drop cfg.uris) :
    q'.pubVec = (sends k (trace ++ [e])).drop cfg.uris := by
  cases h with
  | send hsent =>
      rename_i sent start stop
      obtain ⟨hlength, -⟩ := hc
      have huris : 0 < cfg.uris := by
        rw [Config.messages] at hsent
        omega
      rw [sends_snoc_self, Proc.push]
      by_cases hround : sent / cfg.uris ≠ 0
      · have hle : cfg.uris ≤ (sends k trace).length := by
          rw [hlength]
          exact Nat.le_of_not_lt fun h ↦ hround (Nat.div_eq_of_lt h)
        rw [if_pos hround, hq, List.drop_append_of_le_length hle]
      · have hlt : (sends k trace).length < cfg.uris := by
          rw [hlength]
          exact (Nat.div_eq_zero_iff_lt huris).mp (not_not.mp hround)
        rw [if_neg hround, hq, List.drop_eq_nil_of_le (by omega), List.drop_eq_nil_of_le]
        rw [List.length_append]
        exact hlt
  | savePub | pubStop | gotStop | saveSub | saved | unregister | unregisterFails | exit | receive
  | advance | spin | fail =>
      rw [sends_snoc rfl]
      exact hq

theorem Turn.listeners (h : Turn cfg mem k c q file e c' q' file')
    (hq : ∀ i, run deliver .fresh (receives k i trace) = some (q.listeners i)) (i : ℕ) :
    run deliver .fresh (receives k i (trace ++ [e])) = some (q'.listeners i) := by
  cases h with
  | receive hc hd =>
      rename_i l m d
      dsimp only
      by_cases hi : l = i
      · subst hi
        rw [receives_snoc_self, update_self]
        exact (run_snoc_eq_some deliver).mpr ⟨_, hq l, hd⟩
      · rw [receives_snoc (by simp [Occurrence.received, hi]), update_of_ne (Ne.symm hi)]
        exact hq i
  | send =>
      rw [receives_snoc rfl, hq, push_listeners]
  | savePub | pubStop | gotStop | saveSub | saved | unregister | unregisterFails | exit | advance
  | spin | fail =>
      rw [receives_snoc rfl]
      exact hq i

theorem LeavingOk.running_of_sending {sent : ℕ} {leaving : Leaving}
    (h : LeavingOk cfg (.publishing sent) leaving) (hsent : sent < cfg.messages) :
    leaving = .running := by
  cases leaving with
  | running => rfl
  | saving i =>
      obtain ⟨-, ⟨sent', hsame, hall⟩ | hstopped⟩ | ⟨-, hwait⟩ := h
      · cases hsame
        exact absurd hsent hall
      · cases hstopped
      · cases hwait
  | unregistering i =>
      rcases h with hwait | hexited
      · cases hwait
      · cases hexited

theorem Turn.leaving (h : Turn cfg mem k c q file e c' q' file')
    (hc : LeavingOk cfg c q.leaving) : LeavingOk cfg c' q'.leaving := by
  cases h with
  | send hsent =>
      rw [push_leaving, hc.running_of_sending hsent]
      exact ⟨by simp, by simp⟩
  | savePub hsent => exact Or.inl ⟨rfl, Or.inl ⟨_, rfl, hsent⟩⟩
  | pubStop hsent hq =>
      cases hleaving : q.leaving with
      | running => exact absurd hleaving hq
      | saving i =>
          rw [hleaving] at hc
          obtain ⟨hi, -⟩ | ⟨-, hwait⟩ := hc
          · exact Or.inl ⟨hi, Or.inr rfl⟩
          · cases hwait
      | unregistering i =>
          rw [hleaving] at hc
          rcases hc with hwait | hexited
          · cases hwait
          · cases hexited
  | gotStop => exact Or.inr ⟨Nat.zero_le _, rfl⟩
  | saveSub hi => exact Or.inr ⟨hi, rfl⟩
  | saved | unregister => exact Or.inl rfl
  | unregisterFails hq | exit hq =>
      rw [hq]
      exact Or.inr rfl
  | receive | spin => exact hc
  | advance hstep =>
      have hq : q.leaving = .running := by
        cases hleaving : q.leaving <;> cases hstep <;> simp_all [LeavingOk]
      rw [hq]
      cases hstep <;> exact ⟨by simp, by simp⟩
  | fail hfails hq =>
      rw [hq]
      exact ⟨by simp, by simp⟩

/-- A child writes its vectors one after the other, and nothing else. -/
theorem Turn.file_cases (h : Turn cfg mem k c q file e c' q' file')
    (hc : LeavingOk cfg c q.leaving) :
    (q'.leaving.count cfg = q.leaving.count cfg ∧ file' = file ∧ ∀ i, e.saves k i = false) ∨
      ∃ vec, e = .save k (q.leaving.count cfg) ∧
        q'.leaving.count cfg = q.leaving.count cfg + 1 ∧ file' = appendVecs file [vec] ∧
        ((∃ sent, c = .publishing sent) ∧ vec = q.pubVec ∨
          c = .waitStop ∧ vec = (q.listeners (q.leaving.count cfg)).listener.durationVec) := by
  cases h with
  | savePub hsent hq =>
      right
      rw [hq]
      exact ⟨q.pubVec, rfl, rfl, rfl, Or.inl ⟨⟨_, rfl⟩, rfl⟩⟩
  | saveSub hi hq =>
      right
      rw [hq]
      exact ⟨_, rfl, rfl, rfl, Or.inr ⟨rfl, rfl⟩⟩
  | gotStop hslot hq =>
      left
      rw [hq]
      exact ⟨rfl, rfl, fun _ ↦ rfl⟩
  | saved hi hq =>
      left
      rw [hq] at hc ⊢
      obtain ⟨-, ⟨sent, hpub, -⟩ | hstopped⟩ | ⟨hle, -⟩ := hc
      · cases hpub
      · cases hstopped
      · exact ⟨(Nat.le_antisymm hle (Nat.le_of_not_lt hi)).symm, rfl, fun _ ↦ rfl⟩
  | unregister hq =>
      left
      rw [hq]
      exact ⟨rfl, rfl, fun _ ↦ rfl⟩
  | send => exact Or.inl ⟨by rw [push_leaving], rfl, fun _ ↦ rfl⟩
  | pubStop | unregisterFails | exit | receive | advance | spin | fail =>
      exact Or.inl ⟨rfl, rfl, fun _ ↦ rfl⟩

/-- What has been written does not change. -/
theorem ProcOk.vector_eq (h : ProcOk cfg k trace c q file)
    (hturn : Turn cfg mem k c q file e c' q' file') (hi : i < q.leaving.count cfg) :
    vector cfg k i (trace ++ [e]) = vector cfg k i trace := by
  have hsends : sends k (trace ++ [e]) = sends k trace := by
    cases hturn with
    | send hsent =>
        rw [h.leaving.running_of_sending hsent] at hi
        exact absurd hi (Nat.not_lt_zero i)
    | savePub | pubStop | gotStop | saveSub | saved | unregister | unregisterFails | exit | receive
    | advance | spin | fail => exact sends_snoc rfl
  rw [vector, vector, hsends, counted_append_of_saved ((h.saves i).mpr hi)]

theorem ProcOk.vector_next (h : ProcOk cfg k trace c q file) (hrole : c.OkFor k) {vec : List ℚ}
    (hvec : (∃ sent, c = .publishing sent) ∧ vec = q.pubVec ∨
      c = .waitStop ∧ vec = (q.listeners (q.leaving.count cfg)).listener.durationVec) :
    vec = vector cfg k (q.leaving.count cfg) trace := by
  rcases hvec with ⟨⟨sent, rfl⟩, rfl⟩ | ⟨rfl, rfl⟩
  · have hpub : k % 2 = 0 := hrole
    rw [vector, if_pos hpub, h.pubVec]
  · have hsub : k % 2 = 1 := hrole
    rw [vector, if_neg (by omega), h.durationVec, counted_eq_receives (h.notSaved (lt_irrefl _))]

theorem ProcOk.turn (h : ProcOk cfg k trace c q file) (hrole : c.OkFor k)
    (hturn : Turn cfg mem k c q file e c' q' file') :
    ProcOk cfg k (trace ++ [e]) c' q' file' where
  sent := hturn.sent h.sent
  pubVec := hturn.pubVec h.sent h.pubVec
  listeners := hturn.listeners h.listeners
  leaving := hturn.leaving h.leaving
  saves := by
    intro i
    have hsaves := h.saves i
    rcases hturn.file_cases h.leaving with ⟨hcount, -, hnone⟩ | ⟨vec, rfl, hcount, -⟩
    · rw [exists_saves_snoc, hsaves, hcount, hnone i]
      simp
    · have hlast : Occurrence.saves k i (.save k (q.leaving.count cfg)) = true ↔
          i = q.leaving.count cfg := by
        simpa [Occurrence.saves] using eq_comm
      rw [exists_saves_snoc, hsaves, hcount, hlast, Nat.lt_succ_iff_lt_or_eq]
  file := by
    have hkept : (List.range (q.leaving.count cfg)).map
        (fun i ↦ vector cfg k i (trace ++ [e])) =
          (List.range (q.leaving.count cfg)).map fun i ↦ vector cfg k i trace :=
      List.map_congr_left fun i hi ↦ h.vector_eq hturn (List.mem_range.mp hi)
    rcases hturn.file_cases h.leaving with ⟨hcount, rfl, -⟩ | ⟨vec, rfl, hcount, rfl, hvec⟩
    · rw [hcount, hkept]
      exact h.file
    · rw [hcount, List.range_succ, List.map_append, hkept, appendVecs_append, ← h.file,
        List.map_singleton, vector_snoc rfl rfl, ← h.vector_next hrole hvec]

end Child

/-! ## All children -/

theorem Turn.stop_read {c c' : Child} {q q' : Proc} {file file' : File} {mem : Text}
    (h : Turn cfg mem k c q file e c' q' file') (hleaving : LeavingOk cfg c q.leaving)
    (hc : c' = .waitStop) (hq : q'.leaving ≠ .running) :
    c = .waitStop ∧ (q.leaving ≠ .running ∨ Holds mem stop) := by
  cases h with
  | gotStop hslot => exact ⟨rfl, Or.inr hslot⟩
  | saveSub hi hsaving | saved hi hsaving => exact ⟨rfl, Or.inl (by simp [hsaving])⟩
  | unregister hunregistering => exact ⟨rfl, Or.inl (by simp [hunregistering])⟩
  | receive | spin => exact ⟨hc, Or.inl hq⟩
  | advance hstep =>
      cases hl : q.leaving with
      | running => exact absurd hl hq
      | saving | unregistering => cases hstep <;> simp_all [LeavingOk]
  | send | savePub | pubStop | unregisterFails | exit | fail => cases hc

/-- What a test run holds after the history `trace`. -/
structure Tracks (cfg : Config) (p : Place) (slots : ℕ → Text) (trace : List Occurrence)
    (b : TestRun) : Prop where
  reached : Leads (step cfg) (.initial slots) b.state
  child : ∀ k, ProcOk cfg k trace (b.state.child k) (b.proc k) (b.files p.path (fileName k))
  gotStop : ∀ k, b.state.child k = .waitStop → (b.proc k).leaving ≠ .running →
    b.state.parent.StopWritten k
  only : ∀ name, (∀ k, name ≠ fileName k) → b.files p.path name = none
  others : ∀ dir ≠ p.path, b.files dir = p.old dir

theorem tracks_initial (cfg : Config) (p : Place) (slots : ℕ → Text) :
    Tracks cfg p slots [] (.initial p slots) where
  reached := Leads.refl _
  child k := by
    have hfile : (TestRun.initial p slots).files p.path (fileName k) = none := by
      simp [TestRun.initial, Place.initialFiles]
    rw [hfile]
    exact procOk_fresh cfg k
  gotStop _ hc := by cases hc
  only _ _ := by simp [TestRun.initial, Place.initialFiles]
  others dir hdir := by simp [TestRun.initial, Place.initialFiles, hdir]

theorem Tracks.wellFormed (heven : cfg.maxProcess % 2 = 0) (hb : Tracks cfg p slots trace b) :
    WellFormed cfg b.state :=
  wellFormed_of_leads heven (wellFormed_initial cfg slots) hb.reached

theorem Tracks.sub_of_waitStop (heven : cfg.maxProcess % 2 = 0) (hb : Tracks cfg p slots trace b)
    (hc : b.state.child k = .waitStop) : k % 2 = 1 := by
  have hrole := (hb.wellFormed heven).roles k
  rwa [hc] at hrole

/-- A subscriber leaves its loop with a Stop that is the parent's. -/
theorem Tracks.stop_of_read (heven : cfg.maxProcess % 2 = 0) (hb : Tracks cfg p slots trace b)
    (hc : b.state.child k = .waitStop)
    (hread : (b.proc k).leaving ≠ .running ∨ Holds (b.state.slot k) stop) :
    b.state.parent.StopWritten k := by
  rcases hread with hq | hslot
  · exact hb.gotStop k hc hq
  · have hstay := stayOk_of_leads heven (hb.sub_of_waitStop heven hc) hb.reached
    unfold StayOk at hstay
    rw [hc] at hstay
    rcases hstay with hwritten | hstart
    · exact hwritten
    · exact absurd (hstart.unique hslot) start_ne_stop

theorem Tracks.holds_stop (heven : cfg.maxProcess % 2 = 0) (hb : Tracks cfg p slots trace b)
    (hc : b.state.child k = .waitStop) (hq : (b.proc k).leaving ≠ .running) :
    Holds (b.state.slot k) stop := by
  have hs := hb.wellFormed heven
  have hk : k < cfg.maxProcess := by
    rcases hs.unborn k with ⟨hk, -⟩ | hunborn
    · exact hk
    · rw [hunborn] at hc
      cases hc
  exact (hs.slotsOk k hk (hb.sub_of_waitStop heven hc)).2 (hb.gotStop k hc hq)

theorem Tracks.step (heven : cfg.maxProcess % 2 = 0) (hb : Tracks cfg p slots trace b)
    (h : testStep cfg p b e = some b') : Tracks cfg p slots (trace ++ [e]) b' := by
  have hs := hb.wellFormed heven
  have hmoved := testStep_cases h
  have hleads : Leads (UpZenohExample.step cfg) b.state b'.state := by
    apply leads_of_testStep h
    intro k i hc hq
    exact hb.holds_stop heven hc (by simp [hq])
  exact
    { reached := hb.reached.trans hleads
      child := by
        intro k
        by_cases hk : e.owner = some k
        · exact (hb.child k).turn (hs.roles k) (hmoved.owned hk)
        · obtain ⟨hproc, hfile, hsame | ⟨hp, hlaunched⟩⟩ := hmoved.frame hk
          · rw [hproc, hfile, hsame]
            exact (hb.child k).frame hk
          · have hunborn : b.state.child k = .unborn := by
              by_contra hborn
              exact hs.not_creating hborn hp
            have hchild := hb.child k
            rw [hunborn] at hchild
            rw [hproc, hfile, hlaunched]
            exact (hchild.frame hk).launched
      gotStop := by
        intro k hc hq
        apply hmoved.stopWritten_mono
        by_cases hk : e.owner = some k
        · obtain ⟨hwait, hstop⟩ := (hmoved.owned hk).stop_read (hb.child k).leaving hc hq
          exact hb.stop_of_read heven hwait hstop
        · obtain ⟨hproc, -, hsame | ⟨-, hlaunched⟩⟩ := hmoved.frame hk
          · exact hb.gotStop k (hsame ▸ hc) (hproc ▸ hq)
          · rw [hlaunched] at hc
            cases hc
      only := by
        intro name hname
        rw [hmoved.files_of_ne hname]
        exact hb.only name hname
      others := by
        intro dir hdir
        rw [hmoved.files_of_ne_dir hdir]
        exact hb.others dir hdir }

theorem tracks_of_run (heven : cfg.maxProcess % 2 = 0)
    (h : run (testStep cfg p) (.initial p slots) trace = some b) : Tracks cfg p slots trace b := by
  induction trace using List.reverseRecOn generalizing b with
  | nil =>
      have hb : TestRun.initial p slots = b := by simpa using h
      exact hb ▸ tracks_initial cfg p slots
  | append_singleton trace e ih =>
      obtain ⟨mid, hmid, hlast⟩ := (run_snoc_eq_some (testStep cfg p)).mp h
      exact (ih hmid).step heven hlast

end UpZenohExample
