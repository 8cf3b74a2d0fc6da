import UpZenohExample.Lib.WordBytes
import UpZenohExample.PubTest
import UpZenohExample.Stats

/-!
# The publish and subscribe example

`main_pub` sends three messages in every round: the time, a random number and
a counter.  Its buffers are static and shared by all rounds.  `main_sub`
selects the width of the read by the entity id of the source.
-/

namespace UpZenohExample.PubSub

open ByteText WordBytes

/-! ## `uri.h` -/

structure UUri where
  entityId : ℕ
  majorVersion : ℕ
  resourceId : ℕ
  deriving DecidableEq, Repr

def timeId : ℕ := 1

def randId : ℕ := 2

def countId : ℕ := 3

def buildMicrouri (entityId resourceId : ℕ) : UUri where
  entityId := entityId
  majorVersion := 1
  resourceId := resourceId

def timeUri : UUri := buildMicrouri timeId 2

def randomUri : UUri := buildMicrouri randId 1

def counterUri : UUri := buildMicrouri countId 4

structure UMessage where
  payload : UPayload
  source : Option UUri
  deriving DecidableEq, Repr

/-! ## `main_pub` -/

/-- The static variables of `getTime`, `getRandom` and `getCounter`. -/
structure Statics where
  timeBuf : Text := List.replicate 8 0
  randomBuf : Text := List.replicate 4 0
  counter : UInt8 := 0
  deriving DecidableEq, Repr

/-- What one round of the loop reads and what the three calls of `send`
return; `rand` does not return negative numbers. -/
structure Round where
  count : Int64
  rand : Int32
  rand_nonneg : 0 ≤ rand.toInt
  timeStatus : UCode
  randomStatus : UCode
  counterStatus : UCode

def getTime (order : ByteOrder) (timeMilli : Int64) (s : Statics) : Statics :=
  { s with timeBuf := memcpy s.timeBuf (bytes order 8 timeMilli.toUInt64.toNat) }

def getRandom (order : ByteOrder) (val : Int32) (s : Statics) : Statics :=
  { s with randomBuf := memcpy s.randomBuf (bytes order 4 val.toUInt32.toNat) }

def getCounter (s : Statics) : Statics := { s with counter := s.counter + 1 }

/-- The message `sendMessage` hands to `send`. -/
def sendMessage (uri : UUri) (buffer : Text) (size : UInt64) : Except Fault UMessage := do
  let payload ← UPayload.ofPointer buffer size
  .ok ⟨payload, some uri⟩

inductive Topic where
  | time
  | random
  | counter
  deriving DecidableEq, Repr

/-- A message with the round, counted from 1, and the topic it was sent in. -/
structure Sent where
  round : ℕ
  topic : Topic
  message : UMessage
  deriving DecidableEq, Repr

/-- The loop of `main_pub` from round `k` on.  A failing `send` ends it; the end of the
list is the termination flag. -/
def mainPub (order : ByteOrder) : ℕ → Statics → List Round → Except Fault (List Sent)
  | _, _, [] => .ok []
  | k, s, r :: rounds => do
      let s := getTime order r.count s
      let time ← sendMessage timeUri s.timeBuf 8
      if r.timeStatus ≠ .ok then .ok [⟨k, .time, time⟩]
      else
        let s := getRandom order r.rand s
        let random ← sendMessage randomUri s.randomBuf 4
        if r.randomStatus ≠ .ok then .ok [⟨k, .time, time⟩, ⟨k, .random, random⟩]
        else
          let s := getCounter s
          let counter ← sendMessage counterUri [s.counter] 1
          let sent := [⟨k, .time, time⟩, ⟨k, .random, random⟩, ⟨k, .counter, counter⟩]
          if r.counterStatus ≠ .ok then .ok sent
          else
            let rest ← mainPub order (k + 1) s rounds
            .ok (sent ++ rest)

def run (order : ByteOrder) (rounds : List Round) : Except Fault (List Sent) :=
  mainPub order 1 {} rounds

/-! ## `main_sub` -/

inductive Logged where
  | time (v : UInt64)
  | random (v : UInt32)
  | counter (v : UInt8)
  deriving DecidableEq, Repr

/-- `*reinterpret_cast<const T *>(payload.data())` for a `T` of `k` bytes. -/
def reinterpret (order : ByteOrder) (k : ℕ) (payload : UPayload) : Except Fault ℕ :=
  match readWord order k payload.data with
  | some v => .ok v
  | none => .error .overRead

/-- `CustomListener::onReceive` with what it logs. -/
def onReceive (order : ByteOrder) (umsg : UMessage) : Except Fault (UCode × Option Logged) :=
  match umsg.source with
  | none => .ok (.ok, none)
  | some uri =>
      let eid := uri.entityId
      if eid = timeId then do
        let timeInMilliseconds ← reinterpret order 8 umsg.payload
        .ok (.ok, some (.time (.ofNat timeInMilliseconds)))
      else if eid = randId then do
        let random ← reinterpret order 4 umsg.payload
        .ok (.ok, some (.random (.ofNat random)))
      else if eid = countId then do
        let counter ← reinterpret order 1 umsg.payload
        .ok (.ok, some (.counter (.ofNat counter)))
      else .ok (.ok, none)

/-- The listeners keep no state, so each delivery is handled on its own. -/
def mainSub (order : ByteOrder) (delivered : List UMessage) :
    List (Except Fault (UCode × Option Logged)) :=
  delivered.map (onReceive order)

/-! ## One message -/

theorem memcpy_bytes {buf bs : Text} (h : buf.length = bs.length) : memcpy buf bs = bs := by
  rw [memcpy, List.drop_eq_nil_of_le (by omega), List.append_nil]

theorem sendMessage_eq (uri : UUri) {buffer : Text} {size : UInt64}
    (h : buffer.length = size.toNat) : sendMessage uri buffer size = .ok ⟨⟨buffer⟩, some uri⟩ := by
  have htake : buffer.take size.toNat = buffer := List.take_of_length_le (by omega)
  simp [sendMessage, UPayload.ofPointer, h, htake, bind, Except.bind]

theorem onReceive_time (order : ByteOrder) (v : UInt64) :
    onReceive order ⟨⟨bytes order 8 v.toNat⟩, some timeUri⟩ = .ok (.ok, some (.time v)) := by
  have hread := readWord_bytes order (show v.toNat < 256 ^ 8 from v.toNat_lt)
  simp [onReceive, reinterpret, timeUri, buildMicrouri, hread, bind, Except.bind]

theorem onReceive_random (order : ByteOrder) (v : UInt32) :
    onReceive order ⟨⟨bytes order 4 v.toNat⟩, some randomUri⟩ = .ok (.ok, some (.random v)) := by
  have hread := readWord_bytes order (show v.toNat < 256 ^ 4 from v.toNat_lt)
  have htime : randId ≠ timeId := by decide
  simp [onReceive, reinterpret, randomUri, buildMicrouri, htime, hread, bind, Except.bind]

theorem onReceive_counter (order : ByteOrder) (v : UInt8) :
    onReceive order ⟨⟨[v]⟩, some counterUri⟩ = .ok (.ok, some (.counter v)) := by
  have hread : readWord order 1 [v] = some v.toNat := by
    cases order <;> simp [readWord, value, littleValue]
  have htime : countId ≠ timeId := by decide
  have hrand : countId ≠ randId := by decide
  simp [onReceive, reinterpret, counterUri, buildMicrouri, htime, hrand, hread, bind, Except.bind]

/-! ## Reads -/

/-- The number of bytes the listener reads for an entity id. -/
def width (eid : ℕ) : ℕ :=
  if eid = timeId then 8 else if eid = randId then 4 else if eid = countId then 1 else 0

/-- What it logs when it has read `v`. -/
def decoded (eid v : ℕ) : Option Logged :=
  if eid = timeId then some (.time (.ofNat v))
  else if eid = randId then some (.random (.ofNat v))
  else if eid = countId then some (.counter (.ofNat v))
  else none

/-- The entity id only selects the width of the one read. -/
theorem onReceive_eq (order : ByteOrder) (payload : UPayload) (uri : UUri) :
    onReceive order ⟨payload, some uri⟩ =
      (reinterpret order (width uri.entityId) payload).map
        fun v ↦ (.ok, decoded uri.entityId v) := by
  simp only [onReceive, width, decoded]
  by_cases htime : uri.entityId = timeId
  · simp only [if_pos htime]
    cases reinterpret order 8 payload <;> rfl
  · by_cases hrand : uri.entityId = randId
    · simp only [if_neg htime, if_pos hrand]
      cases reinterpret order 4 payload <;> rfl
    · by_cases hcount : uri.entityId = countId
      · simp only [if_neg htime, if_neg hrand, if_pos hcount]
        cases reinterpret order 1 payload <;> rfl
      · simp [htime, hrand, hcount, reinterpret, readWord, Except.map]

theorem reinterpret_of_le (order : ByteOrder) {k : ℕ} {payload : UPayload}
    (h : k ≤ payload.data.length) : ∃ v, reinterpret order k payload = .ok v := by
  rw [reinterpret, readWord, if_pos h]
  exact ⟨_, rfl⟩

theorem reinterpret_of_lt (order : ByteOrder) {k : ℕ} {payload : UPayload}
    (h : payload.data.length < k) : reinterpret order k payload = .error .overRead := by
  rw [reinterpret, readWord, if_neg (not_le.mpr h)]

/-- The listener stays inside the payload and does not decode one that is too
short. -/
def ReadsInside (order : ByteOrder) (payload : UPayload) (uri : UUri) : Prop :=
  ∃ logged, onReceive order ⟨payload, some uri⟩ = .ok (.ok, logged) ∧
    (payload.data.length < width uri.entityId → logged = none)

theorem reads_inside_iff (order : ByteOrder) (payload : UPayload) (uri : UUri) :
    ReadsInside order payload uri ↔ width uri.entityId ≤ payload.data.length := by
  unfold ReadsInside
  rw [onReceive_eq]
  constructor
  · rintro ⟨logged, hreceive, -⟩
    apply not_lt.mp
    intro hlt
    rw [reinterpret_of_lt order hlt] at hreceive
    cases hreceive
  · intro hle
    obtain ⟨v, hv⟩ := reinterpret_of_le order hle
    rw [hv]
    exact ⟨_, rfl, fun hlt ↦ absurd hle (not_le.mpr hlt)⟩

/-- A message on the time topic without a payload. -/
theorem empty_payload_overRead :
    onReceive .little ⟨⟨[]⟩, some timeUri⟩ = .error .overRead ∧
      ¬ ReadsInside .little ⟨[]⟩ timeUri := by
  have hreceive : onReceive .little ⟨⟨[]⟩, some timeUri⟩ = .error .overRead := rfl
  refine ⟨hreceive, ?_⟩
  rintro ⟨logged, hlogged, -⟩
  rw [hreceive] at hlogged
  cases hlogged

/-! ## A run -/

/-- What round `k` encodes in the message of a topic. -/
def Round.value (r : Round) (k : ℕ) : Topic → Logged
  | .time => .time r.count.toUInt64
  | .random => .random (.ofNat r.rand.toInt.toNat)
  | .counter => .counter (.ofNat (k % 256))

def encoded (rounds : List Round) (k : ℕ) (topic : Topic) : Option Logged :=
  rounds[k - 1]?.map fun r ↦ r.value k topic

/-- The static variables before round `k`. -/
structure Statics.Before (s : Statics) (k : ℕ) : Prop where
  length_timeBuf : s.timeBuf.length = 8
  length_randomBuf : s.randomBuf.length = 4
  counter_add_one : s.counter + 1 = UInt8.ofNat k

theorem toUInt32_eq_of_nonneg {z : Int32} (h : 0 ≤ z.toInt) :
    z.toUInt32 = UInt32.ofNat z.toInt.toNat := by
  have hcond := BitVec.toInt_eq_toNat_cond z.toBitVec
  have hlt := z.toUInt32.toNat_lt
  have hint : z.toInt = z.toBitVec.toInt := rfl
  have hnat : z.toUInt32.toNat = z.toBitVec.toNat := rfl
  apply UInt32.toNat_inj.mp
  rw [UInt32.toNat_ofNat', hint]
  rw [hint] at h
  split at hcond <;> omega

theorem ofNat_mod (k : ℕ) : UInt8.ofNat (k % 256) = UInt8.ofNat k := by
  apply UInt8.toNat_inj.mp
  simp

/-- The three messages of round `k`. -/
def roundSent (order : ByteOrder) (r : Round) (k : ℕ) : List Sent :=
  [⟨k, .time, ⟨bytes order 8 r.count.toUInt64.toNat⟩, some timeUri⟩,
    ⟨k, .random, ⟨bytes order 4 r.rand.toUInt32.toNat⟩, some randomUri⟩,
    ⟨k, .counter, ⟨[UInt8.ofNat k]⟩, some counterUri⟩]

/-- What the calls of `send` in a round return. -/
def Round.statuses (r : Round) : List UCode := [r.timeStatus, r.randomStatus, r.counterStatus]

/-- The number of calls of `send` up to the first that fails. -/
def attempts : List UCode → ℕ
  | [] => 0
  | status :: rest => if status = .ok then attempts rest + 1 else 1

/-- The messages of the rounds, the first of which is round `k`. -/
def allSent (order : ByteOrder) : ℕ → List Round → List Sent
  | _, [] => []
  | k, r :: rounds => roundSent order r k ++ allSent order (k + 1) rounds

/-- A round sends its three messages and goes on, or it ends the loop after
some of them. -/
theorem mainPub_cons (order : ByteOrder) {k : ℕ} {s : Statics} (hs : s.Before k) (r : Round)
    (rounds : List Round) :
    (∃ j, mainPub order k s (r :: rounds) = .ok ((roundSent order r k).take j)) ∨
      ∃ s' : Statics, s'.Before (k + 1) ∧ mainPub order k s (r :: rounds) =
        (mainPub order (k + 1) s' rounds).map (roundSent order r k ++ ·) := by
  have htime : (getTime order r.count s).timeBuf = bytes order 8 r.count.toUInt64.toNat :=
    memcpy_bytes (by rw [hs.length_timeBuf, length_bytes])
  have hrandom : (getRandom order r.rand (getTime order r.count s)).randomBuf =
      bytes order 4 r.rand.toUInt32.toNat :=
    memcpy_bytes (by rw [length_bytes]; exact hs.length_randomBuf)
  have hcounter : (getCounter (getRandom order r.rand (getTime order r.count s))).counter =
      UInt8.ofNat k := hs.counter_add_one
  have hsendTime : sendMessage timeUri (bytes order 8 r.count.toUInt64.toNat) 8 =
      .ok ⟨⟨bytes order 8 r.count.toUInt64.toNat⟩, some timeUri⟩ :=
    sendMessage_eq _ (length_bytes _ _ _)
  have hsendRandom : sendMessage randomUri (bytes order 4 r.rand.toUInt32.toNat) 4 =
      .ok ⟨⟨bytes order 4 r.rand.toUInt32.toNat⟩, some randomUri⟩ :=
    sendMessage_eq _ (length_bytes _ _ _)
  have hsendCounter : sendMessage counterUri [UInt8.ofNat k] 1 =
      .ok ⟨⟨[UInt8.ofNat k]⟩, some counterUri⟩ := sendMessage_eq _ rfl
  simp only [mainPub, htime, hrandom, hcounter, hsendTime, hsendRandom, hsendCounter, bind,
    Except.bind]
  by_cases h1 : r.timeStatus = .ok
  · by_cases h2 : r.randomStatus = .ok
    · by_cases h3 : r.counterStatus = .ok
      · refine Or.inr ⟨getCounter (getRandom order r.rand (getTime order r.count s)),
          ⟨?_, ?_, ?_⟩, ?_⟩
        · show (getTime order r.count s).timeBuf.length = 8
          rw [htime, length_bytes]
        · show (getRandom order r.rand (getTime order r.count s)).randomBuf.length = 4
          rw [hrandom, length_bytes]
        · rw [hcounter, UInt8.ofNat_add]
          rfl
        · simp only [h1, h2, h3, ne_eq, not_true_eq_false, if_false]
          cases mainPub order (k + 1) _ rounds <;> rfl
      · exact Or.inl ⟨3, by simp [h1, h2, h3, roundSent]⟩
    · exact Or.inl ⟨2, by simp [h1, h2, roundSent]⟩
  · exact Or.inl ⟨1, by simp [h1, roundSent]⟩

theorem onReceive_roundSent (order : ByteOrder) (r : Round) (k : ℕ) {m : Sent}
    (hm : m ∈ roundSent order r k) :
    m.round = k ∧ onReceive order m.message = .ok (.ok, some (r.value k m.topic)) := by
  simp only [roundSent, List.mem_cons, List.not_mem_nil, or_false] at hm
  rcases hm with rfl | rfl | rfl
  · exact ⟨rfl, onReceive_time order _⟩
  · refine ⟨rfl, ?_⟩
    rw [onReceive_random, toUInt32_eq_of_nonneg r.rand_nonneg]
    rfl
  · refine ⟨rfl, ?_⟩
    rw [onReceive_counter, ← ofNat_mod]
    rfl

theorem mainPub_decodes (order : ByteOrder) {k : ℕ} {s : Statics} (hs : s.Before k)
    (rounds : List Round) :
    ∃ sent, mainPub order k s rounds = .ok sent ∧ ∀ m ∈ sent, ∃ i r, rounds[i]? = some r ∧
      m.round = k + i ∧ onReceive order m.message = .ok (.ok, some (r.value m.round m.topic)) := by
  induction rounds generalizing k s with
  | nil => exact ⟨[], rfl, by simp⟩
  | cons r rounds ih =>
      have hround {m : Sent} (hm : m ∈ roundSent order r k) : ∃ i r', (r :: rounds)[i]? = some r' ∧
          m.round = k + i ∧
          onReceive order m.message = .ok (.ok, some (r'.value m.round m.topic)) := by
        obtain ⟨hk, hvalue⟩ := onReceive_roundSent order r k hm
        exact ⟨0, r, rfl, hk, by rw [hk, hvalue]⟩
      rcases mainPub_cons order hs r rounds with ⟨j, heq⟩ | ⟨s', hs', heq⟩
      · exact ⟨_, heq, fun m hm ↦ hround (List.mem_of_mem_take hm)⟩
      · obtain ⟨rest, hrest, hall⟩ := ih hs'
        refine ⟨roundSent order r k ++ rest, by rw [heq, hrest]; rfl, ?_⟩
        intro m hm
        rcases List.mem_append.mp hm with hm | hm
        · exact hround hm
        · obtain ⟨i, r', hr', hi, hvalue⟩ := hall m hm
          exact ⟨i + 1, r', hr', by omega, hvalue⟩

theorem attempts_append_of_ok {front : List UCode} (h : ∀ status ∈ front, status = .ok)
    (rest : List UCode) : attempts (front ++ rest) = front.length + attempts rest := by
  induction front with
  | nil => simp
  | cons status front ih =>
      have hfront := ih fun s hs ↦ h s (List.mem_cons_of_mem status hs)
      rw [List.cons_append, attempts, if_pos (h status List.mem_cons_self), hfront,
        List.length_cons, Nat.add_right_comm]

theorem mainPub_prefix (order : ByteOrder) {k : ℕ} {s : Statics} (hs : s.Before k)
    (rounds : List Round) :
    ∃ sent, mainPub order k s rounds = .ok sent ∧ sent <+: allSent order k rounds := by
  induction rounds generalizing k s with
  | nil => exact ⟨[], rfl, List.prefix_refl _⟩
  | cons r rounds ih =>
      rcases mainPub_cons order hs r rounds with ⟨j, heq⟩ | ⟨s', hs', heq⟩
      · refine ⟨_, heq, ?_⟩
        exact (List.take_prefix j _).trans (List.prefix_append _ _)
      · obtain ⟨rest, hrest, hprefix⟩ := ih hs'
        refine ⟨roundSent order r k ++ rest, by rw [heq, hrest]; rfl, ?_⟩
        exact (List.prefix_append_right_inj _).mpr hprefix

/-- The loop ends with the first call that fails. -/
theorem length_mainPub {order : ByteOrder} {k : ℕ} {s : Statics} {rounds : List Round}
    {sent : List Sent} (h : mainPub order k s rounds = .ok sent) :
    sent.length = attempts (rounds.flatMap Round.statuses) := by
  induction rounds generalizing k s sent with
  | nil =>
      obtain rfl : [] = sent := Except.ok.inj h
      rfl
  | cons r rounds ih =>
      rw [mainPub] at h
      obtain ⟨time, -, h⟩ := bind_eq_ok.mp h
      by_cases htime : r.timeStatus = .ok
      · rw [if_neg (not_not.mpr htime)] at h
        obtain ⟨random, -, h⟩ := bind_eq_ok.mp h
        by_cases hrandom : r.randomStatus = .ok
        · rw [if_neg (not_not.mpr hrandom)] at h
          obtain ⟨counter, -, h⟩ := bind_eq_ok.mp h
          by_cases hcounter : r.counterStatus = .ok
          · rw [if_neg (not_not.mpr hcounter)] at h
            obtain ⟨rest, hrest, h⟩ := bind_eq_ok.mp h
            have hlen := ih hrest
            have hall : ∀ status ∈ r.statuses, status = .ok := by
              simp [Round.statuses, htime, hrandom, hcounter]
            rw [← Except.ok.inj h, List.length_append, List.flatMap_cons,
              attempts_append_of_ok hall, ← hlen]
            rfl
          · rw [if_pos hcounter] at h
            simp [← Except.ok.inj h, Round.statuses, attempts, htime, hrandom, hcounter]
        · rw [if_pos hrandom] at h
          simp [← Except.ok.inj h, Round.statuses, attempts, htime, hrandom]
      · rw [if_pos htime] at h
        simp [← Except.ok.inj h, Round.statuses, attempts, htime]

/-- What the loop hands to `send`: the messages of the rounds, up to the first call
that fails. -/
theorem mainPub_sent {order : ByteOrder} {k : ℕ} {s : Statics} (hs : s.Before k)
    {rounds : List Round} {sent : List Sent} (h : mainPub order k s rounds = .ok sent) :
    sent = (allSent order k rounds).take (attempts (rounds.flatMap Round.statuses)) := by
  obtain ⟨sent', hrun, hprefix⟩ := mainPub_prefix order hs rounds
  obtain rfl : sent' = sent := Except.ok.inj (hrun.symm.trans h)
  rw [← length_mainPub h]
  exact List.prefix_iff_eq_take.mp hprefix

/-- The loop sends the messages of its rounds up to the first call that fails.
Whatever part of them is delivered in whatever order, every message is decoded to
the value of its round and topic. -/
theorem delivered_messages_decode (order : ByteOrder) (rounds : List Round) :
    ∃ sent, run order rounds = .ok sent ∧
      sent = (allSent order 1 rounds).take (attempts (rounds.flatMap Round.statuses)) ∧
      ∀ positions : List (Fin sent.length),
        mainSub order (positions.map fun i ↦ sent[i].message) =
            positions.map (fun i ↦ .ok (.ok, encoded rounds sent[i].round sent[i].topic)) ∧
          ∀ i ∈ positions, (encoded rounds sent[i].round sent[i].topic).isSome := by
  have hinit : Statics.Before {} 1 := ⟨rfl, rfl, rfl⟩
  obtain ⟨sent, hrun, hall⟩ := mainPub_decodes order hinit rounds
  have hencoded (i : Fin sent.length) : ∃ v,
      encoded rounds sent[i].round sent[i].topic = some v ∧
        onReceive order sent[i].message = .ok (.ok, some v) := by
    obtain ⟨j, r, hr, hround, hvalue⟩ := hall sent[i] (List.getElem_mem i.isLt)
    refine ⟨_, ?_, hvalue⟩
    rw [encoded, hround, Nat.add_sub_cancel_left, hr, Option.map_some]
  refine ⟨sent, hrun, mainPub_sent hinit hrun, ?_⟩
  intro positions
  constructor
  · rw [mainSub, List.map_map]
    apply List.map_congr_left
    intro i _
    obtain ⟨v, hv, hreceive⟩ := hencoded i
    rw [Function.comp_apply, hreceive, hv]
  · intro i _
    obtain ⟨v, hv, -⟩ := hencoded i
    exact Option.isSome_iff_exists.mpr ⟨v, hv⟩

/-! ## The stream of a run -/

theorem onReceive_allSent (order : ByteOrder) (k : ℕ) (rounds : List Round) :
    (allSent order k rounds).map (fun m ↦ onReceive order m.message) =
      (rounds.zipIdx k).flatMap fun r ↦
        [Topic.time, .random, .counter].map fun topic ↦ .ok (.ok, some (r.1.value r.2 topic)) := by
  induction rounds generalizing k with
  | nil => rfl
  | cons r rounds ih =>
      have hround : (roundSent order r k).map (fun m ↦ onReceive order m.message) =
          [Topic.time, .random, .counter].map fun topic ↦ .ok (.ok, some (r.value k topic)) := by
        have hvalue : ∀ m ∈ roundSent order r k,
            onReceive order m.message = .ok (.ok, some (r.value k m.topic)) :=
          fun m hm ↦ (onReceive_roundSent order r k hm).2
        rw [List.map_congr_left hvalue]
        rfl
      rw [allSent, List.map_append, hround, ih, List.zipIdx_cons, List.flatMap_cons]

/-- `main_pub` hands the messages of its rounds to `send` in order, up to the
first that fails and no further.  A subscriber that gets them in this order logs
the time, the random number and the counter of every round, in the order of the
rounds. -/
theorem stream_of_rounds (order : ByteOrder) (rounds : List Round) :
    ∃ sent, run order rounds = .ok sent ∧
      sent = (allSent order 1 rounds).take (attempts (rounds.flatMap Round.statuses)) ∧
      mainSub order (sent.map Sent.message) = ((rounds.zipIdx 1).flatMap fun r ↦
        [Topic.time, .random, .counter].map fun topic ↦
          .ok (.ok, some (r.1.value r.2 topic))).take
            (attempts (rounds.flatMap Round.statuses)) := by
  have hinit : Statics.Before {} 1 := ⟨rfl, rfl, rfl⟩
  obtain ⟨sent, hrun, -⟩ := mainPub_prefix order hinit rounds
  have hsent := mainPub_sent hinit hrun
  refine ⟨sent, hrun, hsent, ?_⟩
  rw [← onReceive_allSent order, ← List.map_take, ← hsent, mainSub, List.map_map]
  rfl

end UpZenohExample.PubSub
