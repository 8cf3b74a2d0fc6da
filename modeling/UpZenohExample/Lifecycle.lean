import UpZenohExample.Lib.Traced
import UpZenohExample.LoopSamples
import UpZenohExample.PayloadSize

/-!
# What the programs of the benchmark leave open

`sub`, `pub` and `start_session` create a transport with `new`.  A call that fails
returns at once, and a text that gets too long is an exception: nothing is deleted
on the way out.  The loops of the report phases are run here with the trace of what
they take and give back, and with the texts of their messages.
-/

namespace UpZenohExample

open ByteText LabelledRun Traced

/-- Why a program leaves its loop: a call that fails, or the exception of a text that
gets too long. -/
inductive Ending where
  | failed
  | lengthError
  deriving DecidableEq, Repr

/-- The two loops of a round of `sub`. -/
inductive Pass where
  | register
  | unregister
  deriving DecidableEq, Repr

/-- `copy` is the element that a loop over `subscription` copies in an iteration;
`listener` is one that stays. -/
inductive Resource where
  | subscriber
  | copy (i : ℕ) (pass : Pass) (u : ℕ)
  | listener (u : ℕ)
  | publisher
  | session (i : ℕ)
  | client
  deriving DecidableEq, Repr

variable {α : Type}

/-! ## `sub` -/

/-- `for (auto e : subscription)`: the listener of the call is that of the copy `e`,
another object in every iteration. -/
def copyUses (pass : Pass) (ok : ℕ → Bool) (duration : ℕ → α) (uris i : ℕ) (vec : List α) :
    Traced (Use Resource) Ending (List α) :=
  Traced.forLoop uris (fun vec u ↦ do
    call (.acquire (.copy i pass u))
    call (.access .subscriber)
    call (.access (.copy i pass u))
    -- Both ways out of the iteration destroy the copy.
    call (.release (.copy i pass u))
    if ok u then pure (vec ++ [duration u]) else exit .failed) vec

def subRoundUses (calls : SubCalls α) (uris : ℕ) (vecs : List α × List α) (i : ℕ) :
    Traced (Use Resource) Ending (List α × List α) := do
  let subscribe ← copyUses .register (calls.registerListener i) (calls.subscribeDuration i)
    uris i vecs.1
  let unsubscribe ← copyUses .unregister (calls.unregisterListener i)
    (calls.unsubscribeDuration i) uris i vecs.2
  pure (subscribe, unsubscribe)

/-- `sub` up to `delete transport`. -/
def subUses (calls : SubCalls α) (loops uris : ℕ) :
    Traced (Use Resource) Ending (List α × List α) := do
  call (.acquire .subscriber)
  if calls.init then
    let vecs ← Traced.forLoop loops (subRoundUses calls uris) ([], [])
    call (.release .subscriber)
    pure vecs
  else exit .failed

/-- What a loop over `subscription` calls when no call fails. -/
def copyTrace (pass : Pass) (uris i : ℕ) : List (Use Resource) :=
  (List.range uris).flatMap fun u ↦
    [.acquire (.copy i pass u), .access .subscriber, .access (.copy i pass u),
      .release (.copy i pass u)]

/-- What `sub` calls when no call fails. -/
def subTrace (loops uris : ℕ) : List (Use Resource) :=
  .acquire .subscriber :: (((List.range loops).flatMap fun i ↦
    copyTrace .register uris i ++ copyTrace .unregister uris i) ++ [.release .subscriber])

theorem follows_copy (pass : Pass) (ok : ℕ → Bool) (duration : ℕ → α) (uris i : ℕ)
    (vec : List α) : Follows (copyUses pass ok duration uris i vec) (copyTrace pass uris i) := by
  refine Follows.forLoop ?_ uris vec
  intro vec u
  apply Follows.call
  apply Follows.call
  apply Follows.call
  apply Follows.call
  cases ok u with
  | false => exact Follows.exit _ _
  | true => exact Follows.pure _

theorem follows_sub (calls : SubCalls α) (loops uris : ℕ) :
    Follows (subUses calls loops uris) (subTrace loops uris) := by
  have hround (vecs : List α × List α) (i : ℕ) : Follows (subRoundUses calls uris vecs i)
      (copyTrace .register uris i ++ copyTrace .unregister uris i) := by
    apply (follows_copy _ _ _ uris i vecs.1).bind
    intro subscribe
    rw [← List.append_nil (copyTrace .unregister uris i)]
    apply (follows_copy _ _ _ uris i vecs.2).bind
    exact fun unsubscribe ↦ Follows.pure _
  apply Follows.call
  cases calls.init with
  | false => exact Follows.exit _ _
  | true => exact (Follows.forLoop hround loops _).bind fun vecs ↦ Follows.call (Follows.pure _)

theorem toOption_copyUses (pass : Pass) (ok : ℕ → Bool) (duration : ℕ → α) (uris i : ℕ)
    (vec : List α) : (copyUses pass ok duration uris i vec).result.toOption =
      Loop.forLoop uris (fun vec u ↦ if ok u then some (vec ++ [duration u]) else none) vec := by
  rw [copyUses, toOption_result_forLoop]
  congr 1
  funext vec u
  cases hok : ok u <;> simp [Except.bind, Except.toOption]

/-- Without the trace this is the loop of `sub`. -/
theorem toOption_subUses (calls : SubCalls α) (loops uris : ℕ) :
    (subUses calls loops uris).result.toOption =
      if calls.init then subLoop calls loops uris else none := by
  have hround (vecs : List α × List α) (i : ℕ) :
      (subRoundUses calls uris vecs i).result.toOption = subRound calls uris vecs i := by
    simp only [subRoundUses, subRound, result_bind, toOption_bind, toOption_copyUses]
    rfl
  unfold subUses
  cases calls.init with
  | false => simp [Except.bind, Except.toOption]
  | true =>
      simp only [result_bind, toOption_bind, reduceIte, toOption_result_forLoop, hround]
      simp [subLoop, Except.toOption]

theorem exists_result_subUses_iff (calls : SubCalls α) (loops uris : ℕ) :
    (∃ vecs, (subUses calls loops uris).result = .ok vecs) ↔ ¬ calls.Fails loops uris := by
  have hfails : (subUses calls loops uris).result.toOption = none ↔ calls.Fails loops uris := by
    rw [toOption_subUses]
    cases hinit : calls.init with
    | false => simp [SubCalls.Fails, hinit]
    | true => exact (SubCalls.fails_iff hinit loops uris).symm
  rw [← hfails]
  cases (subUses calls loops uris).result <;> simp [Except.toOption]

/-- Beside the transport there is at most the copy of the current iteration. -/
def SubHeld (held : Finset Resource) : Prop :=
  held = ∅ ∨ held = {.subscriber} ∨ ∃ i pass u, held = {.copy i pass u, .subscriber}

theorem meets_copy (pass : Pass) (ok : ℕ → Bool) (duration : ℕ → α) (uris i : ℕ) (vec : List α) :
    Meets useStep SubHeld {.subscriber} (copyUses pass ok duration uris i vec)
      (fun _ held ↦ held = {.subscriber}) (fun _ held ↦ held = {.subscriber}) := by
  have hopen : SubHeld {.subscriber} := Or.inr (Or.inl rfl)
  refine Meets.forLoop (fun _ _ held ↦ held = {.subscriber}) hopen rfl ?_
  rintro u - vec _ rfl
  have hcopy : SubHeld {.copy i pass u, .subscriber} := Or.inr (Or.inr ⟨i, pass, u, rfl⟩)
  have hnew : Resource.copy i pass u ∉ ({.subscriber} : Finset Resource) := by simp
  apply Meets.acquire hnew hopen
  apply Meets.access (by simp) hcopy
  apply Meets.access (by simp) hcopy
  apply Meets.release (by simp) hcopy
  rw [Finset.erase_insert hnew]
  cases ok u with
  | false => exact Meets.exit hopen rfl
  | true => exact Meets.pure hopen rfl

theorem meets_sub (calls : SubCalls α) (loops uris : ℕ) :
    Meets useStep SubHeld ∅ (subUses calls loops uris)
      (fun _ held ↦ held = ∅) (fun _ held ↦ held = {.subscriber}) := by
  have hopen : SubHeld {.subscriber} := Or.inr (Or.inl rfl)
  apply Meets.acquire (Finset.notMem_empty _) (Or.inl rfl)
  rw [insert_empty_eq]
  cases calls.init with
  | false => exact Meets.exit hopen rfl
  | true =>
      refine Meets.bind (Q := fun _ held ↦ held = {.subscriber}) ?_ ?_
      · refine Meets.forLoop (fun _ _ held ↦ held = {.subscriber}) hopen rfl ?_
        rintro i - vecs _ rfl
        refine (meets_copy _ _ _ uris i vecs.1).bind ?_
        rintro subscribe _ rfl
        refine (meets_copy _ _ _ uris i vecs.2).bind ?_
        rintro unsubscribe _ rfl
        exact Meets.pure hopen rfl
      · rintro vecs _ rfl
        apply Meets.release (Finset.mem_singleton_self _) hopen
        rw [Finset.erase_singleton]
        exact Meets.pure (Or.inl rfl) rfl

/-- The calls of `sub` are the first of `subTrace`.  Each is made on a transport that
exists and with the one copy that exists then, so the object of a registration is gone
before the next call.  When no call fails all calls are made and nothing is left open;
otherwise the transport is, and nothing else. -/
theorem sub_leaves (calls : SubCalls α) (loops uris : ℕ) :
    (subUses calls loops uris).trace <+: subTrace loops uris ∧
    ∃ held, run useStep ∅ (subUses calls loops uris).trace = some held ∧
      (∀ h, Reaches useStep ∅ (subUses calls loops uris).trace h → SubHeld h) ∧
      (¬ calls.Fails loops uris →
        (subUses calls loops uris).trace = subTrace loops uris ∧ held = ∅) ∧
      (calls.Fails loops uris → held = {.subscriber}) := by
  obtain ⟨hfirst, hall⟩ := follows_sub calls loops uris
  obtain ⟨held, hrun, halways, hok, hearly⟩ := meets_sub calls loops uris
  refine ⟨hfirst, held, hrun, halways, ?_, ?_⟩
  · intro hnot
    obtain ⟨vecs, hvecs⟩ := (exists_result_subUses_iff calls loops uris).mpr hnot
    exact ⟨hall vecs hvecs, hok vecs hvecs⟩
  · intro hfails
    cases hresult : (subUses calls loops uris).result with
    | error r => exact hearly r hresult
    | ok vecs =>
        exact absurd hfails ((exists_result_subUses_iff calls loops uris).mp ⟨vecs, hresult⟩)

/-! ## `pub` -/

/-- Building a text and sending it: the text first. -/
def messageEnding (builds send : Bool) : Option Ending :=
  if builds then if send then none else some .failed else some .lengthError

theorem messageEnding_eq_none_iff {builds send : Bool} :
    messageEnding builds send = none ↔ builds = true ∧ send = true := by
  cases builds <;> cases send <;> simp [messageEnding]

/-- What ends `pub` first, in the order of the program. -/
def PubCalls.ending (calls : PubCalls α) (m : Messages) (loops uris : ℕ) : Option Ending :=
  if calls.init then
    (List.range loops).findSome? fun i ↦ (List.range uris).findSome? fun u ↦
      messageEnding (m.builds i u) (calls.send i u)
  else some .failed

def pubRoundUses (calls : PubCalls α) (m : Messages) (uris : ℕ) (pubVec : List α) (i : ℕ) :
    Traced (Use Resource) Ending (List α) :=
  Traced.forLoop uris (fun pubVec u ↦
    if m.builds i u then do
      call (.access .publisher)
      if calls.send i u then pure (if i ≠ 0 then pubVec ++ [calls.duration i u] else pubVec)
      else exit .failed
    else exit .lengthError) pubVec

/-- `pub` up to `delete transport`. -/
def pubUses (calls : PubCalls α) (m : Messages) (loops uris : ℕ) :
    Traced (Use Resource) Ending (List α) := do
  call (.acquire .publisher)
  if calls.init then
    let pubVec ← Traced.forLoop loops (pubRoundUses calls m uris) []
    call (.release .publisher)
    pure pubVec
  else exit .failed

/-- What `pub` calls when every text is built and no call fails. -/
def pubTrace (loops uris : ℕ) : List (Use Resource) :=
  .acquire .publisher ::
    (List.replicate (loops * uris) (.access .publisher) ++ [.release .publisher])

/-- A message that is built and sent is one call. -/
theorem follows_message (builds send : Bool) (r : Resource) (pubVec : List α) :
    Follows (if builds then do
        call (.access r)
        if send then pure pubVec else exit .failed
      else exit .lengthError : Traced (Use Resource) Ending (List α)) [.access r] := by
  cases builds with
  | false => exact Follows.exit _ _
  | true =>
      apply Follows.call
      cases send with
      | false => exact Follows.exit _ _
      | true => exact Follows.pure _

theorem follows_pub (calls : PubCalls α) (m : Messages) (loops uris : ℕ) :
    Follows (pubUses calls m loops uris) (pubTrace loops uris) := by
  have hsend (i : ℕ) (pubVec : List α) : Follows (pubRoundUses calls m uris pubVec i)
      ((List.range uris).flatMap fun _ ↦ [.access .publisher]) :=
    Follows.forLoop (fun pubVec u ↦ follows_message _ _ _ _) uris pubVec
  have hsends : ((List.range loops).flatMap fun _ ↦ (List.range uris).flatMap fun _ ↦
      [Use.access Resource.publisher]) = List.replicate (loops * uris) (.access .publisher) := by
    simp [List.flatMap_def]
  apply Follows.call
  cases calls.init with
  | false => exact Follows.exit _ _
  | true =>
      rw [← hsends]
      exact (Follows.forLoop (fun pubVec i ↦ hsend i pubVec) loops _).bind fun pubVec ↦
        Follows.call (Follows.pure _)

theorem result_pubRoundUses (calls : PubCalls α) (m : Messages) (uris : ℕ) (pubVec : List α)
    (i : ℕ) : (pubRoundUses calls m uris pubVec i).result =
      resultOf ((List.range uris).findSome? fun u ↦ messageEnding (m.builds i u) (calls.send i u))
        (pubVec ++ if i = 0 then [] else (List.range uris).map (calls.duration i)) := by
  have hvec : (List.range uris).foldl
      (fun pubVec u ↦ if i ≠ 0 then pubVec ++ [calls.duration i u] else pubVec) pubVec =
        pubVec ++ if i = 0 then [] else (List.range uris).map (calls.duration i) := by
    by_cases hi : i = 0
    · simp [hi]
    · simp only [hi, ne_eq, not_false_eq_true, if_true, if_false]
      rw [List.foldl_append_eq_append, ← List.flatMap_def, ← List.map_eq_flatMap]
  rw [← hvec]
  refine result_forLoop ?_ uris pubVec
  intro pubVec u
  cases m.builds i u <;> cases calls.send i u <;>
    simp [messageEnding, resultOf, Except.bind]

theorem result_pubUses (calls : PubCalls α) (m : Messages) (loops uris : ℕ) :
    (pubUses calls m loops uris).result = resultOf (calls.ending m loops uris)
      (roundSamples (List.range loops).tail uris calls.duration) := by
  unfold pubUses PubCalls.ending
  cases calls.init with
  | false => rfl
  | true =>
      have hloop := result_forLoop (result_pubRoundUses calls m uris) loops []
      rw [List.foldl_append_eq_append, ← List.flatMap_def, flatMap_skip_first] at hloop
      simp only [result_bind, result_call, reduceIte, Except.bind, hloop]
      cases (List.range loops).findSome? fun i ↦ (List.range uris).findSome? fun u ↦
        messageEnding (m.builds i u) (calls.send i u) <;> rfl

/-- Every text of `pub` is built, and no call fails. -/
def PubCalls.Ok (calls : PubCalls α) (m : Messages) (loops uris : ℕ) : Prop :=
  calls.init = true ∧
    ∀ i < loops, ∀ u < uris, m.builds i u = true ∧ calls.send i u = true

theorem PubCalls.ending_eq_none_iff {calls : PubCalls α} {m : Messages} {loops uris : ℕ} :
    calls.ending m loops uris = none ↔ calls.Ok m loops uris := by
  unfold PubCalls.ending PubCalls.Ok
  cases calls.init <;> simp [List.findSome?_eq_none_iff, messageEnding_eq_none_iff]

theorem exists_result_pubUses_iff (calls : PubCalls α) (m : Messages) (loops uris : ℕ) :
    (∃ pubVec, (pubUses calls m loops uris).result = .ok pubVec) ↔ calls.Ok m loops uris := by
  rw [result_pubUses, ← PubCalls.ending_eq_none_iff]
  simp [resultOf_eq_ok_iff]

/-- Whatever else is open, `pub` adds its transport and takes it away again
unless it leaves its loop. -/
theorem meets_pub (calls : PubCalls α) (m : Messages) (loops uris : ℕ) {held : Finset Resource}
    (hnew : .publisher ∉ held) :
    Meets useStep (fun h ↦ h = held ∨ h = insert .publisher held) held
      (pubUses calls m loops uris) (fun _ h ↦ h = held) (fun _ h ↦ h = insert .publisher held) := by
  have hmem : Resource.publisher ∈ insert .publisher held := Finset.mem_insert_self _ _
  apply Meets.acquire hnew (Or.inl rfl)
  cases calls.init with
  | false => exact Meets.exit (Or.inr rfl) rfl
  | true =>
      refine Meets.bind (Q := fun _ h ↦ h = insert .publisher held) ?_ ?_
      · refine Meets.forLoop (fun _ _ h ↦ h = insert .publisher held) (Or.inr rfl) rfl ?_
        rintro i - pubVec _ rfl
        refine Meets.forLoop (fun _ _ h ↦ h = insert .publisher held) (Or.inr rfl) rfl ?_
        rintro u - pubVec _ rfl
        cases m.builds i u with
        | false => exact Meets.exit (Or.inr rfl) rfl
        | true =>
            apply Meets.access hmem (Or.inr rfl)
            cases calls.send i u with
            | false => exact Meets.exit (Or.inr rfl) rfl
            | true => exact Meets.pure (Or.inr rfl) rfl
      · rintro pubVec _ rfl
        apply Meets.release hmem (Or.inr rfl)
        rw [Finset.erase_insert hnew]
        exact Meets.pure (Or.inl rfl) rfl

/-! ## `main` of `benc` -/

section Main

variable [Zero α] [Add α] [Sub α] [Mul α] [Div α] [NatCast α] [RatCast α] [Pow α ℕ]
variable [LE α] [DecidableLE α] (sqrt : α → α) (shown : α → Text)

/-- `sub(loops, max_uri); pub(loops, message_size, max_uri);`.  What `sub`
returns is dropped; an exception of its report ends the program. -/
def mainUses (subCalls : SubCalls α) (pubCalls : PubCalls α) (m : Messages)
    (loops maxUri : Int32) : List (Use Resource) :=
  (subUses subCalls (iterations loops) (iterations maxUri)).trace ++
    match sub sqrt shown subCalls loops maxUri with
    | .error _ => []
    | .ok _ => (pubUses pubCalls m (iterations loops) (iterations maxUri)).trace

/-- `front` is what `sub` calls, and `back` what `pub` calls if it is reached. -/
structure MainTrace (subCalls : SubCalls α) (pubCalls : PubCalls α) (m : Messages)
    (loops uris : ℕ) (front back : List (Use Resource)) : Prop where
  front_prefix : front <+: subTrace loops uris
  back_prefix : back <+: pubTrace loops uris
  front_eq : ¬ subCalls.Fails loops uris → front = subTrace loops uris
  back_eq : subCalls.Fails loops uris ∨ Reportable (loops * uris) → pubCalls.Ok m loops uris →
    back = pubTrace loops uris
  back_nil : ¬ (subCalls.Fails loops uris ∨ Reportable (loops * uris)) → back = []

theorem exists_mainTrace (subCalls : SubCalls α) (pubCalls : PubCalls α) (m : Messages)
    (loops maxUri : Int32) :
    ∃ front back, mainUses sqrt shown subCalls pubCalls m loops maxUri = front ++ back ∧
      MainTrace subCalls pubCalls m (iterations loops) (iterations maxUri) front back := by
  obtain ⟨hfront, hallFront⟩ := follows_sub subCalls (iterations loops) (iterations maxUri)
  obtain ⟨hback, hallBack⟩ := follows_pub pubCalls m (iterations loops) (iterations maxUri)
  have hreached := exists_sub_iff sqrt shown subCalls loops maxUri
  refine ⟨_, _, rfl, hfront, ?_, ?_, ?_, ?_⟩
  · cases sub sqrt shown subCalls loops maxUri with
    | error e => exact List.nil_prefix
    | ok rows => exact hback
  · intro hnot
    obtain ⟨vecs, hvecs⟩ := (exists_result_subUses_iff subCalls _ _).mpr hnot
    exact hallFront vecs hvecs
  · intro hsub hok
    obtain ⟨rows, hrows⟩ := hreached.mpr hsub
    obtain ⟨pubVec, hpubVec⟩ := (exists_result_pubUses_iff pubCalls m _ _).mpr hok
    rw [hrows]
    exact hallBack pubVec hpubVec
  · intro hnot
    cases hsub : sub sqrt shown subCalls loops maxUri with
    | error e => rfl
    | ok rows => exact absurd (hreached.mp ⟨rows, hsub⟩) hnot

/-- The calls of `main` are the first of `subTrace`, then the first of `pubTrace`, and
each is made on something that is open.  `sub` makes all its calls when none fails, and
so does `pub` when it is reached, no call fails and every text is built.  At the end the
transport of `sub` is open exactly when a call of `sub` failed, the one of `pub`
exactly when `pub` was reached and left its loop, after a failed call or because a
text got too long, and nothing else is open. -/
theorem main_leaves (subCalls : SubCalls α) (pubCalls : PubCalls α) (m : Messages)
    (loops maxUri : Int32) :
    (∃ front back, mainUses sqrt shown subCalls pubCalls m loops maxUri = front ++ back ∧
      MainTrace subCalls pubCalls m (iterations loops) (iterations maxUri) front back) ∧
    ∃ held, run useStep ∅ (mainUses sqrt shown subCalls pubCalls m loops maxUri) = some held ∧
      (.subscriber ∈ held ↔ subCalls.Fails (iterations loops) (iterations maxUri)) ∧
      (.publisher ∈ held ↔ ¬ pubCalls.Ok m (iterations loops) (iterations maxUri) ∧
        (subCalls.Fails (iterations loops) (iterations maxUri) ∨
          Reportable (iterations loops * iterations maxUri))) ∧
      ∀ r ∈ held, r = .subscriber ∨ r = .publisher := by
  obtain ⟨held, hrun, -, hok, hearly⟩ :=
    meets_sub subCalls (iterations loops) (iterations maxUri)
  have hresult := exists_result_subUses_iff subCalls (iterations loops) (iterations maxUri)
  have hheld : held = ∅ ∨ held = {.subscriber} := by
    cases h : (subUses subCalls (iterations loops) (iterations maxUri)).result with
    | error r => exact Or.inr (hearly r h)
    | ok vecs => exact Or.inl (hok vecs h)
  have hsubscriber : .subscriber ∈ held ↔
      subCalls.Fails (iterations loops) (iterations maxUri) := by
    rw [← not_iff_not, ← hresult]
    cases h : (subUses subCalls (iterations loops) (iterations maxUri)).result with
    | error r => simp [hearly r h]
    | ok vecs => simp [hok vecs h]
  have hnew : Resource.publisher ∉ held := by
    rcases hheld with rfl | rfl <;> simp
  have honly : ∀ r ∈ held, r = .subscriber ∨ r = .publisher := by
    rcases hheld with rfl | rfl <;> simp
  refine ⟨exists_mainTrace sqrt shown subCalls pubCalls m loops maxUri, ?_⟩
  unfold mainUses
  rw [← exists_sub_iff sqrt shown, ← exists_result_pubUses_iff]
  cases hsub : sub sqrt shown subCalls loops maxUri with
  | error e =>
      refine ⟨held, by simpa using hrun, hsubscriber, ?_, honly⟩
      simp [hnew]
  | ok rows =>
      obtain ⟨t, ht, -, hokPub, hearlyPub⟩ :=
        meets_pub pubCalls m (iterations loops) (iterations maxUri) hnew
      refine ⟨t, (run_append_eq_some useStep).mpr ⟨held, hrun, ht⟩, ?_⟩
      cases hpub : (pubUses pubCalls m (iterations loops) (iterations maxUri)).result with
      | error r =>
          rw [hearlyPub r hpub]
          simpa using ⟨hsubscriber, honly⟩
      | ok pubVec =>
          rw [hokPub pubVec hpub]
          simpa [hnew] using ⟨hsubscriber, honly⟩

end Main

/-! ## `start_session` -/

/-- What ends round `i` first. -/
def SessionCalls.roundEnding (calls : SessionCalls α) (m : Messages) (uris i : ℕ) :
    Option Ending :=
  if calls.init i then
    (List.range uris).findSome? fun u ↦ messageEnding (m.builds i u) (calls.send i u)
  else some .failed

def SessionCalls.ending (calls : SessionCalls α) (m : Messages) (loops uris : ℕ) :
    Option Ending :=
  (List.range loops).findSome? (calls.roundEnding m uris)

/-- The messages of a round. -/
def sendUses (calls : SessionCalls α) (m : Messages) (uris i : ℕ) (pubVec : List α) :
    Traced (Use Resource) Ending (List α) :=
  Traced.forLoop uris (fun pubVec u ↦
    if m.builds i u then do
      call (.access (.session i))
      if calls.send i u then pure (pubVec ++ [calls.duration i u]) else exit .failed
    else exit .lengthError) pubVec

def sessionRoundUses (calls : SessionCalls α) (m : Messages) (uris : ℕ) (vecs : SessionVecs α)
    (i : ℕ) : Traced (Use Resource) Ending (SessionVecs α) := do
  call (.acquire (.session i))
  if calls.init i then
    let openSession := vecs.openSession ++ [calls.openDuration i]
    let pubVec ← sendUses calls m uris i vecs.pubVec
    call (.release (.session i))
    pure ⟨openSession, vecs.closeSession ++ [calls.closeDuration i], pubVec⟩
  else exit .failed

def sessionUses (calls : SessionCalls α) (m : Messages) (loops uris : ℕ) :
    Traced (Use Resource) Ending (SessionVecs α) :=
  Traced.forLoop loops (sessionRoundUses calls m uris) ⟨[], [], []⟩

/-- The samples of all rounds. -/
def SessionCalls.samples (calls : SessionCalls α) (loops uris : ℕ) : SessionVecs α :=
  ⟨(List.range loops).map calls.openDuration, (List.range loops).map calls.closeDuration,
    roundSamples (List.range loops) uris calls.duration⟩

/-- What `start_session` calls when every round goes through. -/
def sessionTrace (loops uris : ℕ) : List (Use Resource) :=
  (List.range loops).flatMap fun i ↦ .acquire (.session i) ::
    (List.replicate uris (.access (.session i)) ++ [.release (.session i)])

theorem follows_session (calls : SessionCalls α) (m : Messages) (loops uris : ℕ) :
    Follows (sessionUses calls m loops uris) (sessionTrace loops uris) := by
  refine Follows.forLoop ?_ loops _
  intro vecs i
  have hsend : Follows (sendUses calls m uris i vecs.pubVec)
      ((List.range uris).flatMap fun _ ↦ [.access (.session i)]) :=
    Follows.forLoop (fun pubVec u ↦ follows_message _ _ _ _) uris vecs.pubVec
  have hsends : ((List.range uris).flatMap fun _ ↦ [Use.access (Resource.session i)]) =
      List.replicate uris (.access (.session i)) := by
    simp [List.flatMap_def]
  apply Follows.call
  cases calls.init i with
  | false => exact Follows.exit _ _
  | true =>
      rw [← hsends]
      exact hsend.bind fun pubVec ↦ Follows.call (Follows.pure _)

theorem result_sessionRoundUses (calls : SessionCalls α) (m : Messages) (uris : ℕ)
    (vecs : SessionVecs α) (i : ℕ) :
    (sessionRoundUses calls m uris vecs i).result = resultOf (calls.roundEnding m uris i)
      ⟨vecs.openSession ++ [calls.openDuration i], vecs.closeSession ++ [calls.closeDuration i],
        vecs.pubVec ++ (List.range uris).map (calls.duration i)⟩ := by
  have hsend (pubVec : List α) : (sendUses calls m uris i pubVec).result =
      resultOf ((List.range uris).findSome? fun u ↦ messageEnding (m.builds i u) (calls.send i u))
        (pubVec ++ (List.range uris).map (calls.duration i)) := by
    rw [List.map_eq_flatMap, List.flatMap_def, ← List.foldl_append_eq_append]
    refine result_forLoop ?_ uris pubVec
    intro pubVec u
    cases m.builds i u <;> cases calls.send i u <;>
      simp [messageEnding, resultOf, Except.bind]
  unfold sessionRoundUses SessionCalls.roundEnding
  cases calls.init i with
  | false => rfl
  | true =>
      simp only [result_bind, result_call, reduceIte, Except.bind, hsend]
      cases (List.range uris).findSome? fun u ↦
        messageEnding (m.builds i u) (calls.send i u) <;> rfl

theorem result_sessionUses (calls : SessionCalls α) (m : Messages) (loops uris : ℕ) :
    (sessionUses calls m loops uris).result =
      resultOf (calls.ending m loops uris) (calls.samples loops uris) := by
  have hsamples (n : ℕ) : (List.range n).foldl
      (fun vecs i ↦ ⟨vecs.openSession ++ [calls.openDuration i],
        vecs.closeSession ++ [calls.closeDuration i],
        vecs.pubVec ++ (List.range uris).map (calls.duration i)⟩) ⟨[], [], []⟩ =
          calls.samples n uris := by
    induction n with
    | zero => rfl
    | succ n ih =>
        rw [List.range_succ, List.foldl_append, ih]
        simp [SessionCalls.samples, roundSamples, List.range_succ]
  rw [← hsamples]
  exact result_forLoop (result_sessionRoundUses calls m uris) loops ⟨[], [], []⟩

/-- At most one session is open. -/
def SessionHeld (loops : ℕ) (held : Finset Resource) : Prop :=
  held = ∅ ∨ ∃ i < loops, held = {.session i}

/-- Round `i` goes through. -/
def SessionCalls.RoundOk (calls : SessionCalls α) (m : Messages) (uris i : ℕ) : Prop :=
  calls.init i = true ∧ ∀ u < uris, m.builds i u = true ∧ calls.send i u = true

theorem SessionCalls.roundEnding_eq_none_iff {calls : SessionCalls α} {m : Messages}
    {uris i : ℕ} : calls.roundEnding m uris i = none ↔ calls.RoundOk m uris i := by
  unfold SessionCalls.roundEnding SessionCalls.RoundOk
  cases calls.init i <;> simp [List.findSome?_eq_none_iff, messageEnding_eq_none_iff]

theorem SessionCalls.ending_eq_none_iff {calls : SessionCalls α} {m : Messages}
    {loops uris : ℕ} :
    calls.ending m loops uris = none ↔ ∀ i < loops, calls.RoundOk m uris i := by
  simp [SessionCalls.ending, List.findSome?_eq_none_iff, SessionCalls.roundEnding_eq_none_iff]

/-- The session of the first round that does not go through. -/
def SessionLeft (calls : SessionCalls α) (m : Messages) (loops uris : ℕ)
    (held : Finset Resource) : Prop :=
  ∃ i < loops, held = {.session i} ∧ ¬ calls.RoundOk m uris i ∧
    ∀ j < i, calls.RoundOk m uris j

theorem meets_sessionRound (calls : SessionCalls α) (m : Messages) {loops uris i : ℕ}
    (hi : i < loops) (hrounds : ∀ j < i, calls.RoundOk m uris j) (vecs : SessionVecs α) :
    Meets useStep (SessionHeld loops) ∅ (sessionRoundUses calls m uris vecs i)
      (fun _ held ↦ held = ∅ ∧ ∀ j < i + 1, calls.RoundOk m uris j)
      (fun _ held ↦ SessionLeft calls m loops uris held) := by
  have hopen : SessionHeld loops {.session i} := Or.inr ⟨i, hi, rfl⟩
  have hmem : Resource.session i ∈ ({.session i} : Finset Resource) := Finset.mem_singleton_self _
  apply Meets.acquire (Finset.notMem_empty _) (Or.inl rfl)
  rw [insert_empty_eq]
  cases hinit : calls.init i with
  | false =>
      refine Meets.exit hopen ⟨i, hi, rfl, ?_, hrounds⟩
      rintro ⟨hinit', -⟩
      simp [hinit] at hinit'
  | true =>
      refine Meets.bind (Q := fun _ held ↦ held = {.session i} ∧
        ∀ u < uris, m.builds i u = true ∧ calls.send i u = true) ?_ ?_
      · refine Meets.forLoop (fun u _ held ↦ held = {.session i} ∧
          ∀ v < u, m.builds i v = true ∧ calls.send i v = true) hopen ⟨rfl, by simp⟩ ?_
        rintro u hu pubVec _ ⟨rfl, hbefore⟩
        cases hbuilds : m.builds i u with
        | false =>
            refine Meets.exit hopen ⟨i, hi, rfl, ?_, hrounds⟩
            rintro ⟨-, hall⟩
            simp [(hall u hu).1] at hbuilds
        | true =>
            apply Meets.access hmem hopen
            cases hsend : calls.send i u with
            | false =>
                refine Meets.exit hopen ⟨i, hi, rfl, ?_, hrounds⟩
                rintro ⟨-, hall⟩
                simp [(hall u hu).2] at hsend
            | true =>
                exact Meets.pure hopen
                  ⟨rfl, Nat.forall_lt_succ_right.mpr ⟨hbefore, hbuilds, hsend⟩⟩
      · rintro pubVec _ ⟨rfl, hall⟩
        apply Meets.release hmem hopen
        rw [Finset.erase_singleton]
        exact Meets.pure (Or.inl rfl)
          ⟨rfl, Nat.forall_lt_succ_right.mpr ⟨hrounds, hinit, hall⟩⟩

theorem meets_session (calls : SessionCalls α) (m : Messages) (loops uris : ℕ) :
    Meets useStep (SessionHeld loops) ∅ (sessionUses calls m loops uris)
      (fun _ held ↦ held = ∅ ∧ ∀ j < loops, calls.RoundOk m uris j)
      (fun _ held ↦ SessionLeft calls m loops uris held) := by
  refine Meets.forLoop (fun i _ held ↦ held = ∅ ∧ ∀ j < i, calls.RoundOk m uris j) (Or.inl rfl)
    ⟨rfl, by simp⟩ ?_
  rintro i hi vecs _ ⟨rfl, hrounds⟩
  exact meets_sessionRound calls m hi hrounds vecs

/-- The calls of `start_session` are the first of `sessionTrace`.  At most one session
is open at any time, and messages are sent with that session only.  When every round
goes through all calls are made and no session is left open; otherwise the one of the
first round that does not is, and no other. -/
theorem session_leaves (calls : SessionCalls α) (m : Messages) (loops uris : ℕ) :
    (sessionUses calls m loops uris).trace <+: sessionTrace loops uris ∧
    ∃ held, run useStep ∅ (sessionUses calls m loops uris).trace = some held ∧
      (∀ h, Reaches useStep ∅ (sessionUses calls m loops uris).trace h → SessionHeld loops h) ∧
      ((∀ i < loops, calls.RoundOk m uris i) →
        (sessionUses calls m loops uris).trace = sessionTrace loops uris ∧ held = ∅) ∧
      (¬ (∀ i < loops, calls.RoundOk m uris i) → SessionLeft calls m loops uris held) := by
  obtain ⟨hfirst, htrace⟩ := follows_session calls m loops uris
  obtain ⟨held, hrun, halways, hok, hearly⟩ := meets_session calls m loops uris
  have hresult := result_sessionUses calls m loops uris
  refine ⟨hfirst, held, hrun, halways, ?_, ?_⟩
  · intro hall
    rw [SessionCalls.ending_eq_none_iff.mpr hall] at hresult
    exact ⟨htrace _ hresult, (hok _ hresult).1⟩
  · intro hnot
    obtain ⟨r, hr⟩ := Option.ne_none_iff_exists'.mp (mt SessionCalls.ending_eq_none_iff.mp hnot)
    rw [hr] at hresult
    exact hearly r hresult

end UpZenohExample
