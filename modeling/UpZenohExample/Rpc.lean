import UpZenohExample.Lib.WordBytes
import UpZenohExample.SubTests

/-!
# The RPC example

The server builds a payload with the current time and the attributes of a
response.  The message it sends carries the payload of the request instead, and
the client only decodes a response of at least eight bytes.
-/

namespace UpZenohExample.Rpc

open ByteText WordBytes

variable {Uri Priority Id : Type*}

structure UAttributes (Uri Priority Id : Type*) where
  source : Uri
  sink : Uri
  priority : Priority
  id : Id
  reqid : Option Id
  deriving DecidableEq, Repr

structure UMessage (Uri Priority Id : Type*) where
  payload : UPayload
  attributes : UAttributes Uri Priority Id
  deriving DecidableEq, Repr

/-- `UAttributesBuilder().response(source, sink, priority, reqid).build()`; the
builder makes the id of the new message. -/
def response (newId : Id) (source sink : Uri) (priority : Priority) (reqid : Id) :
    UAttributes Uri Priority Id where
  source := source
  sink := sink
  priority := priority
  id := newId
  reqid := some reqid

/-! ## Server -/

/-- The message that `RpcListener::onReceive` sends when the clock shows
`count` milliseconds. -/
def onReceive (order : ByteOrder) (count : Int64) (newId : Id)
    (rcvUmsg : UMessage Uri Priority Id) : UMessage Uri Priority Id :=
  let currentTimeMilli := count.toUInt64
  let payload := rcvUmsg.payload
  let requestAttributes := rcvUmsg.attributes
  -- Built and then left aside.
  let _responsePayload : UPayload := ⟨bytes order 8 currentTimeMilli.toNat⟩
  let response := response newId requestAttributes.sink requestAttributes.source
    requestAttributes.priority requestAttributes.id
  ⟨payload, response⟩

/-! ## Client -/

structure RpcResponse (Uri Priority Id : Type*) where
  status : UCode
  message : UMessage Uri Priority Id

/-- The payload of the request. -/
def request : UPayload := ⟨[0]⟩

/-- What `sendRPC` returns; `none` is an invalid future.  A null pointer has
size 0. -/
def sendRPC (result : Option (RpcResponse Uri Priority Id)) : UPayload :=
  match result with
  | none => ⟨[]⟩
  | some res => if res.status ≠ .ok then ⟨[]⟩ else res.message.payload

/-- The number of milliseconds the client logs, if it logs one. -/
def received (order : ByteOrder) (response : UPayload) : Option UInt64 :=
  if 8 ≤ response.data.length then (readWord order 8 response.data).map UInt64.ofNat else none

theorem received_bytes (order : ByteOrder) (t : UInt64) :
    received order ⟨bytes order 8 t.toNat⟩ = some t := by
  have hread := readWord_bytes order (show t.toNat < 256 ^ 8 from t.toNat_lt)
  simp [received, hread]

/-! ## From the server to the client -/

/-- The message carries the bytes of `t` and the attributes of a response to
`rcvUmsg`, and the client logs `t`. -/
structure Answers (order : ByteOrder) (t : UInt64)
    (rcvUmsg umsg : UMessage Uri Priority Id) : Prop where
  payload : umsg.payload.data = bytes order 8 t.toNat
  source : umsg.attributes.source = rcvUmsg.attributes.sink
  sink : umsg.attributes.sink = rcvUmsg.attributes.source
  priority : umsg.attributes.priority = rcvUmsg.attributes.priority
  reqid : umsg.attributes.reqid = some rcvUmsg.attributes.id
  logged : received order (sendRPC (some ⟨.ok, umsg⟩)) = some t

/-- The client gets the time exactly when the request already carried it. -/
theorem rpc_answers_time_iff (order : ByteOrder) (count : Int64) (newId : Id)
    (rcvUmsg : UMessage Uri Priority Id) :
    Answers order count.toUInt64 rcvUmsg (onReceive order count newId rcvUmsg) ↔
      rcvUmsg.payload.data = bytes order 8 count.toUInt64.toNat := by
  constructor
  · intro h
    exact h.payload
  · intro h
    have hpayload : rcvUmsg.payload = ⟨bytes order 8 count.toUInt64.toNat⟩ :=
      congrArg UPayload.mk h
    refine ⟨h, rfl, rfl, rfl, rfl, ?_⟩
    show received order rcvUmsg.payload = _
    rw [hpayload]
    exact received_bytes order _

/-- Whatever the clock shows, the client logs nothing in answer to its own
request. -/
theorem received_own_request (order : ByteOrder) (count : Int64) (newId : Id)
    (attributes : UAttributes Uri Priority Id) (status : UCode) :
    received order (sendRPC (some ⟨status, onReceive order count newId ⟨request, attributes⟩⟩)) =
      none := by
  show received order (if status ≠ .ok then ⟨[]⟩ else request) = none
  split
  · rfl
  · rfl

theorem rpc_answer_lacks_time :
    (onReceive .little 5 7 ⟨request, ⟨"client", "server", 5, 3, none⟩⟩).payload.data = [0] ∧
      ¬ Answers .little (Int64.toUInt64 5) ⟨request, ⟨"client", "server", 5, 3, none⟩⟩
        (onReceive .little 5 7 ⟨request, ⟨"client", "server", 5, 3, none⟩⟩) := by
  constructor
  · rfl
  · intro h
    have hpayload : [0] = bytes .little 8 5 := h.payload
    exact absurd hpayload (by decide)

end UpZenohExample.Rpc
