import IotCamera.Json.Item
import IotCamera.Pcm.Queue

/-!
# Requests over MQTT

A message comes in on a thread of the MQTT library, which calls `msgarrvd`.
That hands the payload to the callback `mqttArrived_Fun`, which copies it into
an `MQTTData` and pushes it into the block queue. The consumer thread pops it
and calls its `process`, which parses the text, looks the `MSGID` up and
publishes an answer with the same id.

A payload is a pointer and a length. The pointer stands for the bytes that can
be read from there on, those of the payload first; reading a string past the
last of them has no result. A string in a buffer of its own is just the
string.

The library parses and prints. `cJSON_Parse` is a parameter, which also says
where the item ends in the text, as `cJSON_ParseWithOpts` does. A printed text
is given as the item it is the print of. Allocations succeed, and printing to
the console is left out, but for what it reads.
-/

namespace IotCamera

open CString

variable {D : Type} [NatCast D]

/-- `DEVID` -/
def devId : List UInt8 := bytes "123456789012345f"

/-- The heartbeat: the answer to the request with this id. The text that is
returned is the print of this item. -/
def xintiao (UUID : Option (List UInt8)) : CJson D :=
  let pJsonRoot : List (List UInt8 × CJson D) := []
  let pJsonData : List (List UInt8 × CJson D) := []
  let pJsonRoot := CJson.AddStringToObject pJsonRoot (bytes "DEVID") (some devId)
  let pJsonRoot := CJson.AddStringToObject pJsonRoot (bytes "MSGID") UUID
  let pJsonRoot := CJson.AddStringToObject pJsonRoot (bytes "TIME") (some [])
  let pJsonRoot := CJson.AddNumberToObject pJsonRoot (bytes "MSGTYPE") ((1 : Nat) : D)
  let pJsonRoot := CJson.AddNumberToObject pJsonRoot (bytes "DEVTYPE") ((0 : Nat) : D)
  -- the source links the item in first, and adds its number through the pointer
  let pJsonData := CJson.AddNumberToObject pJsonData (bytes "CMDID") ((2 : Nat) : D)
  let pJsonRoot := CJson.AddItemToObject pJsonRoot (bytes "DATA") (.object pJsonData)
  .object pJsonRoot

/-- The strings in the two buffers of 128 and 256 bytes. -/
structure MQTTData where
  from_ : List UInt8
  msg : List UInt8
  deriving DecidableEq

/-- What `"%s"` prints. The C library of the board prints a `NULL` as
`(null)`. -/
def percentS : Option (List UInt8) → Option (List UInt8)
  | none => some (bytes "(null)")
  | some mem => str mem

/-- `snprintf` of a string into a buffer of `n` bytes. -/
def snprintf (n : Nat) (s : List UInt8) : List UInt8 := s.take (n - 1)

/-- Both strings are printed and copied; what is pushed is returned. -/
def mqttArrived_Fun (from_ msg : Option (List UInt8)) : Option MQTTData := do
  let from_ ← percentS from_
  let msg ← percentS msg
  some ⟨snprintf 128 from_, snprintf 256 msg⟩

/-- What the device reads of a message of the library. -/
structure MQTTClient_message where
  payloadlen : Nat
  /-- the memory from the address on -/
  payload : List UInt8

/-- The callback, if it is set, is called with no sender and the payload: what
it pushes. -/
def msgarrvd (p2psignal_cb : Option (Option (List UInt8) → Option (List UInt8) → Option MQTTData))
    (message : MQTTClient_message) : Option (Option MQTTData) :=
  match p2psignal_cb with
  | none => some none
  | some cb => (cb none (some message.payload)).map some

/-- `MQTTData::process`: what it calls `pubmsg` with, if it does. It returns an
`int` but ends without a `return` after a parsed message, which C++ leaves
undefined; it is taken to return there. -/
def MQTTData.process (cJSON_Parse : List UInt8 → Option (CJson D × Nat)) (md : MQTTData) :
    Option (CJson D) := do
  let (pJson, _) ← cJSON_Parse md.msg
  let pSub ← pJson.GetObjectItem (bytes "MSGID")
  some (xintiao pSub.valuestring)

/-! ## The threads -/

/-- The thread of the library that delivers messages, and the consumer. -/
inductive QueueThread
  | library
  | consumer
  deriving DecidableEq

def QueueThread.side : QueueThread → Side
  | .library => .product
  | .consumer => .consume

/-- The capacity of the queue. -/
def NUM : Nat := 8

/-- The queue with its threads, and the messages that have arrived. -/
structure Device where
  pcm : Pcm QueueThread MQTTData
  arrived : List MQTTClient_message

namespace Device

/-- The callback is set, and the consumer is created. -/
def init : Device := ⟨.init MQTTData QueueThread.side NUM, []⟩

inductive Label
  /-- the library calls `msgarrvd`, which goes on to the push -/
  | msgarrvd (message : MQTTClient_message)
  /-- the next statement of a thread; if it is a signal it wakes `woken` -/
  | statement (t : QueueThread) (woken : Finset QueueThread)
  /-- `t` wakes with no signal -/
  | spurious (t : QueueThread)

def step (s : Device) : Label → Option Device
  | .msgarrvd message =>
      match IotCamera.msgarrvd (some mqttArrived_Fun) message with
      | none => none
      | some none => some { s with arrived := s.arrived ++ [message] }
      | some (some md) =>
          (s.pcm.step QueueThread.side (.producterPush .library md)).map fun p =>
            ⟨p, s.arrived ++ [message]⟩
  | .statement t woken =>
      (s.pcm.step QueueThread.side (.statement t woken)).map fun p => { s with pcm := p }
  | .spurious t =>
      (s.pcm.step QueueThread.side (.spurious t)).map fun p => { s with pcm := p }

/-- The calls of `pubmsg`, in order: those of the `process` calls. -/
def published (cJSON_Parse : List UInt8 → Option (CJson D × Nat)) (s : Device) :
    List (CJson D) :=
  s.pcm.processed.filterMap fun md => md.process cJSON_Parse

end Device

end IotCamera
