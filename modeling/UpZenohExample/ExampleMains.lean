import Mathlib.Data.Finset.Image
import Mathlib.Order.Interval.Finset.Nat
import UpZenohExample.Lifecycle
import UpZenohExample.PubSub

/-!
# What the examples leave open

The two subscribing programs register listeners that stay where they are and return
at the first call that fails.  `main_pub` leaves its loop with `break` and the RPC
client has no call that ends its loop, so both delete their transport.
-/

namespace UpZenohExample

open LabelledRun Traced

variable {α : Type}

/-! ## Listeners that stay -/

/-- The listeners are registered one after the other; round `i` is that of `calls`. -/
def registerUses (calls : SubCalls α) (uris i : ℕ) (subscribe : List α) :
    Traced (Use Resource) Ending (List α) :=
  Traced.forLoop uris (fun subscribe u ↦ do
    call (.access .subscriber)
    if calls.registerListener i u then
      call (.acquire (.listener u))
      pure (subscribe ++ [calls.subscribeDuration i u])
    else exit .failed) subscribe

def unregisterUses (calls : SubCalls α) (uris i : ℕ) (unsubscribe : List α) :
    Traced (Use Resource) Ending (List α) :=
  Traced.forLoop uris (fun unsubscribe u ↦ do
    call (.access .subscriber)
    if calls.unregisterListener i u then
      call (.release (.listener u))
      pure (unsubscribe ++ [calls.unsubscribeDuration i u])
    else exit .failed) unsubscribe

/-- The listeners `a`, .., `b - 1`. -/
def listeners (a b : ℕ) : Finset Resource := (Finset.Ico a b).image .listener

@[simp] theorem mem_listeners {a b : ℕ} {r : Resource} :
    r ∈ listeners a b ↔ ∃ u, (a ≤ u ∧ u < b) ∧ .listener u = r := by
  simp [listeners]

/-- What a program holds while it registers and unregisters. -/
def subHolds (a b : ℕ) : Finset Resource := insert .subscriber (listeners a b)

theorem subscriber_mem_subHolds (a b : ℕ) : .subscriber ∈ subHolds a b := by
  simp [subHolds]

theorem listener_mem_subHolds {a b u : ℕ} : .listener u ∈ subHolds a b ↔ a ≤ u ∧ u < b := by
  simp [subHolds]

theorem subHolds_self (a : ℕ) : subHolds a a = {.subscriber} := by
  simp [subHolds, listeners]

theorem insert_subHolds (u : ℕ) : insert (.listener u) (subHolds 0 u) = subHolds 0 (u + 1) := by
  ext r
  cases r with
  | listener v =>
      simp only [Finset.mem_insert, Resource.listener.injEq, listener_mem_subHolds]
      omega
  | subscriber | copy | publisher | session | client => simp [subHolds]

theorem erase_subHolds (u uris : ℕ) :
    (subHolds u uris).erase (.listener u) = subHolds (u + 1) uris := by
  ext r
  cases r with
  | listener v =>
      simp only [Finset.mem_erase, ne_eq, Resource.listener.injEq, listener_mem_subHolds]
      omega
  | subscriber | copy | publisher | session | client => simp [subHolds]

/-- Listeners are registered with a transport that exists. -/
def ListenHeld (uris : ℕ) (held : Finset Resource) : Prop :=
  held = ∅ ∨ ∃ a b, b ≤ uris ∧ held = subHolds a b

theorem listenHeld_subHolds {uris b : ℕ} (a : ℕ) (hb : b ≤ uris) : ListenHeld uris (subHolds a b) :=
  Or.inr ⟨a, b, hb, rfl⟩

/-- The rounds before round `i` went through. -/
def SubCalls.RoundsOk (calls : SubCalls α) (uris i : ℕ) : Prop :=
  ∀ j < i, (∀ u < uris, calls.registerListener j u = true) ∧
    ∀ u < uris, calls.unregisterListener j u = true

/-- What an early return leaves open, by the first call that fails. -/
inductive SubLeft (calls : SubCalls α) (loops uris : ℕ) : Finset Resource → Prop where
  | init (hinit : calls.init = false) : SubLeft calls loops uris {.subscriber}
  | register {i u : ℕ} (hi : i < loops) (hu : u < uris) (hrounds : calls.RoundsOk uris i)
      (hbefore : ∀ v < u, calls.registerListener i v = true)
      (hfails : calls.registerListener i u = false) :
      SubLeft calls loops uris (subHolds 0 u)
  | unregister {i u : ℕ} (hi : i < loops) (hu : u < uris) (hrounds : calls.RoundsOk uris i)
      (hall : ∀ v < uris, calls.registerListener i v = true)
      (hbefore : ∀ v < u, calls.unregisterListener i v = true)
      (hfails : calls.unregisterListener i u = false) :
      SubLeft calls loops uris (subHolds u uris)

section Subscriber

variable (calls : SubCalls α) {loops uris i : ℕ} (hi : i < loops)
variable (hrounds : calls.RoundsOk uris i)

include hi hrounds

theorem meets_register (subscribe : List α) :
    Meets useStep (ListenHeld uris) (subHolds 0 0) (registerUses calls uris i subscribe)
      (fun _ held ↦ held = subHolds 0 uris ∧ ∀ v < uris, calls.registerListener i v = true)
      (fun _ held ↦ SubLeft calls loops uris held) := by
  -- Before iteration `u` the listeners below `u` are registered.
  refine Meets.forLoop (fun u _ held ↦ held = subHolds 0 u ∧
    ∀ v < u, calls.registerListener i v = true) (listenHeld_subHolds 0 (Nat.zero_le _))
    ⟨rfl, by simp⟩ ?_
  rintro u hu subscribe _ ⟨rfl, hbefore⟩
  have hnow : ListenHeld uris (subHolds 0 u) := listenHeld_subHolds 0 hu.le
  refine Meets.access (subscriber_mem_subHolds 0 u) hnow ?_
  cases hcall : calls.registerListener i u with
  | false => exact Meets.exit hnow (.register hi hu hrounds hbefore hcall)
  | true =>
      refine Meets.acquire (by simp [listener_mem_subHolds]) hnow ?_
      rw [insert_subHolds]
      exact Meets.pure (listenHeld_subHolds 0 hu)
        ⟨rfl, Nat.forall_lt_succ_right.mpr ⟨hbefore, hcall⟩⟩

theorem meets_unregister (hall : ∀ v < uris, calls.registerListener i v = true)
    (unsubscribe : List α) :
    Meets useStep (ListenHeld uris) (subHolds 0 uris) (unregisterUses calls uris i unsubscribe)
      (fun _ held ↦ held = subHolds uris uris ∧
        ∀ v < uris, calls.unregisterListener i v = true)
      (fun _ held ↦ SubLeft calls loops uris held) := by
  -- Before iteration `u` the listeners from `u` on are registered.
  refine Meets.forLoop (fun u _ held ↦ held = subHolds u uris ∧
    ∀ v < u, calls.unregisterListener i v = true) (listenHeld_subHolds 0 le_rfl)
    ⟨rfl, by simp⟩ ?_
  rintro u hu unsubscribe _ ⟨rfl, hbefore⟩
  have hnow : ListenHeld uris (subHolds u uris) := listenHeld_subHolds u le_rfl
  refine Meets.access (subscriber_mem_subHolds u uris) hnow ?_
  cases hcall : calls.unregisterListener i u with
  | false => exact Meets.exit hnow (.unregister hi hu hrounds hall hbefore hcall)
  | true =>
      refine Meets.release (listener_mem_subHolds.mpr ⟨le_rfl, hu⟩) hnow ?_
      rw [erase_subHolds]
      exact Meets.pure (listenHeld_subHolds (u + 1) le_rfl)
        ⟨rfl, Nat.forall_lt_succ_right.mpr ⟨hbefore, hcall⟩⟩

end Subscriber

/-! ## The programs -/

/-- A program that registers `n` listeners, waits for the signal and unregisters
them; nothing is measured. -/
def listenUses (n : ℕ) (calls : SubCalls Unit) : Traced (Use Resource) Ending Unit := do
  call (.acquire .subscriber)
  if calls.init then
    let _ ← registerUses calls n 0 []
    let _ ← unregisterUses calls n 0 []
    call (.release .subscriber)
    pure ()
  else exit .failed

/-- `main_sub` with its three topics. -/
def mainSubUses : SubCalls Unit → Traced (Use Resource) Ending Unit := listenUses 3

/-- `main_rpc_server`. -/
def rpcServerUses : SubCalls Unit → Traced (Use Resource) Ending Unit := listenUses 1

/-- A program that opens transport `r`, works with it and deletes it. -/
def transportUses {β : Type} (r : Resource) (init : Bool) (work : Traced (Use Resource) Ending β) :
    Traced (Use Resource) Ending Unit := do
  call (.acquire r)
  if init then
    let _ ← work
    call (.release r)
    pure ()
  else exit .failed

/-- Round `k` of `main_pub`; a refused message leaves the loop. -/
def mainPubRound (send : ℕ → PubSub.Topic → Bool) (k : ℕ) : Traced (Use Resource) Ending Unit := do
  call (.access .publisher)
  if send k .time then
    call (.access .publisher)
    if send k .random then
      call (.access .publisher)
      if send k .counter then pure () else exit .failed
    else exit .failed
  else exit .failed

/-- `main_pub` when the signal comes in round `rounds`. -/
def mainPubUses (init : Bool) (send : ℕ → PubSub.Topic → Bool) (rounds : ℕ) :
    Traced (Use Resource) Ending Unit :=
  transportUses .publisher init
    (attempt (Traced.forLoop rounds (fun _ k ↦ mainPubRound send k) ()))

/-- `main_rpc_client` when the signal comes in round `rounds`; a call without a
usable answer does not end the loop. -/
def rpcClientUses (init : Bool) (rounds : ℕ) : Traced (Use Resource) Ending Unit :=
  transportUses .client init (Traced.forLoop rounds (fun _ _ ↦ do
    call (.access .client)
    pure ()) ())

/-- An early return has a failing call behind it. -/
theorem SubLeft.fails {calls : SubCalls α} {loops uris : ℕ} {held : Finset Resource}
    (h : SubLeft calls loops uris held) : calls.Fails loops uris := by
  cases h with
  | init hinit => exact Or.inl hinit
  | register hi hu _ _ hfails => exact Or.inr ⟨_, hi, Or.inl ⟨_, hu, hfails⟩⟩
  | unregister hi hu _ _ _ hfails => exact Or.inr ⟨_, hi, Or.inr ⟨_, hu, hfails⟩⟩

theorem meets_listen (n : ℕ) (calls : SubCalls Unit) :
    Meets useStep (ListenHeld n) ∅ (listenUses n calls)
      (fun _ held ↦ held = ∅ ∧ ¬ calls.Fails 1 n) (fun _ held ↦ SubLeft calls 1 n held) := by
  have hopen : ListenHeld n {.subscriber} :=
    subHolds_self 0 ▸ listenHeld_subHolds 0 (Nat.zero_le _)
  have hrounds : calls.RoundsOk n 0 := by simp [SubCalls.RoundsOk]
  apply Meets.acquire (Finset.notMem_empty _) (Or.inl rfl)
  rw [insert_empty_eq]
  cases hinit : calls.init with
  | false => exact Meets.exit hopen (.init hinit)
  | true =>
      rw [← subHolds_self 0]
      refine (meets_register calls Nat.one_pos hrounds []).bind ?_
      rintro subscribe _ ⟨rfl, hall⟩
      refine (meets_unregister calls Nat.one_pos hrounds hall []).bind ?_
      rintro unsubscribe _ ⟨rfl, hgone⟩
      rw [subHolds_self]
      apply Meets.release (Finset.mem_singleton_self _) hopen
      rw [Finset.erase_singleton]
      refine Meets.pure (Or.inl rfl) ⟨rfl, ?_⟩
      rintro (hinit' | ⟨i, hi, ⟨u, hu, hfails⟩ | ⟨u, hu, hfails⟩⟩)
      · simp [hinit] at hinit'
      · obtain rfl := Nat.lt_one_iff.mp hi
        simp [hall u hu] at hfails
      · obtain rfl := Nat.lt_one_iff.mp hi
        simp [hgone u hu] at hfails

/-- At most transport `r` is open. -/
def TransportHeld (r : Resource) (held : Finset Resource) : Prop := held = ∅ ∨ held = {r}

theorem meets_transport {β : Type} {r : Resource} {work : Traced (Use Resource) Ending β}
    (hwork : Meets useStep (TransportHeld r) {r} work (fun _ held ↦ held = {r}) fun _ _ ↦ False)
    (init : Bool) :
    Meets useStep (TransportHeld r) ∅ (transportUses r init work) (fun _ held ↦ held = ∅)
      (fun _ held ↦ held = {r} ∧ init = false) := by
  have hopen : TransportHeld r {r} := Or.inr rfl
  refine Meets.acquire (Finset.notMem_empty _) (Or.inl rfl) ?_
  rw [insert_empty_eq]
  cases init with
  | false => exact Meets.exit hopen ⟨rfl, rfl⟩
  | true =>
      refine (hwork.imp (fun _ _ h ↦ h) fun _ _ h ↦ h.elim).bind ?_
      rintro - _ rfl
      refine Meets.release (Finset.mem_singleton_self _) hopen ?_
      rw [Finset.erase_singleton]
      exact Meets.pure (Or.inl rfl) rfl

/-- Whatever the work is, nothing is left open once the transport is. -/
theorem run_transportUses {β : Type} {r : Resource} {init : Bool}
    {work : Traced (Use Resource) Ending β}
    (h : Meets useStep (TransportHeld r) ∅ (transportUses r init work) (fun _ held ↦ held = ∅)
      (fun _ held ↦ held = {r} ∧ init = false)) :
    run useStep ∅ (transportUses r init work).trace = some (if init then ∅ else {r}) := by
  obtain ⟨held, hrun, -, hok, hearly⟩ := h
  cases hresult : (transportUses r init work).result with
  | error r =>
      obtain ⟨rfl, rfl⟩ := hearly r hresult
      exact hrun
  | ok u =>
      cases init with
      | false => simp [transportUses, Except.bind] at hresult
      | true => rw [hrun, hok u hresult, if_pos rfl]

theorem meets_mainPub (init : Bool) (send : ℕ → PubSub.Topic → Bool) (rounds : ℕ) :
    Meets useStep (TransportHeld .publisher) ∅ (mainPubUses init send rounds)
      (fun _ held ↦ held = ∅) (fun _ held ↦ held = {.publisher} ∧ init = false) := by
  have hopen : TransportHeld .publisher {.publisher} := Or.inr rfl
  have hmem : Resource.publisher ∈ ({.publisher} : Finset Resource) := Finset.mem_singleton_self _
  refine meets_transport (Meets.attempt
    (Meets.forLoop (fun _ _ held ↦ held = {.publisher}) hopen rfl ?_)) init
  rintro k - _ _ rfl
  refine Meets.access hmem hopen ?_
  cases send k .time with
  | false => exact Meets.exit hopen rfl
  | true =>
      refine Meets.access hmem hopen ?_
      cases send k .random with
      | false => exact Meets.exit hopen rfl
      | true =>
          refine Meets.access hmem hopen ?_
          cases send k .counter with
          | false => exact Meets.exit hopen rfl
          | true => exact Meets.pure hopen rfl

theorem meets_rpcClient (init : Bool) (rounds : ℕ) :
    Meets useStep (TransportHeld .client) ∅ (rpcClientUses init rounds)
      (fun _ held ↦ held = ∅) (fun _ held ↦ held = {.client} ∧ init = false) := by
  have hopen : TransportHeld .client {.client} := Or.inr rfl
  refine meets_transport (Meets.forLoop (fun _ _ held ↦ held = {.client}) hopen rfl ?_) init
  rintro k - _ _ rfl
  exact Meets.access (Finset.mem_singleton_self _) hopen (Meets.pure hopen rfl)

/-- The publisher and the RPC client give back what they opened whatever fails
later.  The subscriber and the RPC server leave what is open and registered at
the first call that fails. -/
theorem examples_leave :
    (∀ calls : SubCalls Unit, ∃ held, run useStep ∅ (mainSubUses calls).trace = some held ∧
      (¬ calls.Fails 1 3 → held = ∅) ∧ (calls.Fails 1 3 → SubLeft calls 1 3 held)) ∧
    (∀ calls : SubCalls Unit, ∃ held, run useStep ∅ (rpcServerUses calls).trace = some held ∧
      (¬ calls.Fails 1 1 → held = ∅) ∧ (calls.Fails 1 1 → SubLeft calls 1 1 held)) ∧
    (∀ (init : Bool) (send : ℕ → PubSub.Topic → Bool) (rounds : ℕ),
      run useStep ∅ (mainPubUses init send rounds).trace =
        some (if init then ∅ else {.publisher})) ∧
    ∀ (init : Bool) (rounds : ℕ),
      run useStep ∅ (rpcClientUses init rounds).trace = some (if init then ∅ else {.client}) := by
  have hlisten (n : ℕ) (calls : SubCalls Unit) :
      ∃ held, run useStep ∅ (listenUses n calls).trace = some held ∧
        (¬ calls.Fails 1 n → held = ∅) ∧ (calls.Fails 1 n → SubLeft calls 1 n held) := by
    obtain ⟨held, hrun, -, hok, hearly⟩ := meets_listen n calls
    refine ⟨held, hrun, ?_⟩
    cases hresult : (listenUses n calls).result with
    | error r =>
        have hleft := hearly r hresult
        exact ⟨fun hnot ↦ absurd hleft.fails hnot, fun _ ↦ hleft⟩
    | ok u =>
        obtain ⟨hempty, hnot⟩ := hok u hresult
        exact ⟨fun _ ↦ hempty, fun hfails ↦ absurd hfails hnot⟩
  refine ⟨hlisten 3, hlisten 1, ?_, ?_⟩
  · intro init send rounds
    exact run_transportUses (meets_mainPub init send rounds)
  · intro init rounds
    exact run_transportUses (meets_rpcClient init rounds)

end UpZenohExample
