import IotCamera.Lib.Ledger
import IotCamera.Lib.Run
import IotCamera.Lib.Sync

/-!
# The MQTT client

`mqtt.c` has one client handle, one flag for the connection, one mutex and
one condition variable, and three routines that share them. The client
thread makes a handle, connects, sleeps until the connection is lost, takes
the handle down and starts again. `connlost` is called by the library, on
threads of its own. `pubmsg` is called by anybody.

Each thread stands at a statement of its routine, and a step is one
statement: a test or an assignment of the flag, an operation on the mutex or
the condition variable, or a call of the library together with reading its
arguments. A label names the thread and carries what the library answers.
The calls are kept in the order they are made; printing, sleeping and the
constant connect options are left out. A topic fits its buffer, since a
client id has at most 127 characters.
-/

namespace IotCamera

/-- A client handle, numbered in the order of creation. -/
abbrev MqttHandle := Nat

/-- A call of the library and the value of `mqttclient` it is made on. -/
inductive MqttCall
  /-- the handle it made, if it made one -/
  | create (made : Option MqttHandle)
  | setCallbacks (on : Option MqttHandle)
  | connect (on : Option MqttHandle) (rc : Int)
  | subscribe (on : Option MqttHandle) (topic : String)
  | publishMessage (on : Option MqttHandle) (topic payload : String)
  | waitForCompletion (on : Option MqttHandle) (token : Int)
  | disconnect (on : Option MqttHandle)
  | destroy (on : Option MqttHandle)
  deriving DecidableEq, Repr

/-- Creating opens a handle, destroying closes one, every other call uses
one. -/
def mqttLedger : Ledger MqttCall MqttHandle where
  opens
    | .create made => made
    | _ => none
  closes
    | .destroy on => on
    | _ => none
  uses
    | .create _ | .destroy _ => none
    | .setCallbacks on | .connect on _ | .subscribe on _ | .publishMessage on _ _
    | .waitForCompletion on _ | .disconnect on => some on

/-- `MQTTCLIENT_SUCCESS` -/
def mqttclientSuccess : Int := 0

inductive MqttThread (L P : Type)
  | client
  /-- a thread of the library that calls `connlost` -/
  | connlost (l : L)
  /-- a thread that calls `pubmsg` -/
  | pubmsg (p : P)
  deriving DecidableEq, Repr

/-- The next statement of `mqtt_client_thread`. -/
inductive ClientPc
  /-- `mqttcd.conn = 0` -/
  | start
  /-- CONNECT: `pthread_mutex_lock` -/
  | lock
  | create
  | setCallbacks
  /-- `MQTTClient_connect` and the test of its result -/
  | connect
  /-- `mqttcd.conn = 0; goto RECONNECT` -/
  | connFailed
  /-- `mqttcd.conn = 1` -/
  | connected
  | subscribe
  /-- `pthread_cond_wait` -/
  | wait
  /-- inside `pthread_cond_wait` -/
  | blocked
  /-- RECONNECT: `MQTTClient_disconnect` -/
  | disconnect
  | destroy
  | unlock
  deriving DecidableEq, Repr

/-- The next statement of `connlost`. -/
inductive ConnlostPc
  /-- not called, or returned -/
  | idle
  | lock
  /-- `mqttcd.conn = 0` -/
  | clearConn
  /-- `pthread_cond_signal` -/
  | signal
  | unlock
  deriving DecidableEq, Repr

/-- The next statement of `pubmsg`. -/
inductive PubmsgPc
  /-- not called, or returned -/
  | idle
  | lock
  /-- `if (mqttcd.conn == 1)` -/
  | test
  | publishMessage
  | waitForCompletion
  | unlock
  deriving DecidableEq, Repr

/-- The statics of `mqtt.c`, the threads, and for a thread in `pubmsg` its
argument and its `rc`. -/
structure Mqtt (L P : Type) [DecidableEq L] [DecidableEq P] where
  mqttclientid : String
  mqttclient : Option MqttHandle
  mqtttoken : Int
  conn : UInt8
  mutex : Mutex (MqttThread L P)
  /-- Only the client thread ever waits. -/
  cond : CondVar Unit
  client : ClientPc
  connlost : L → ConnlostPc
  pubmsg : P → PubmsgPc
  msg : P → String
  rc : P → Int
  calls : List MqttCall

namespace Mqtt

variable {L P : Type} [DecidableEq L] [DecidableEq P]

/-- The process has started and the client thread is about to run. -/
def init (L P : Type) [DecidableEq L] [DecidableEq P] (clientid : String) : Mqtt L P where
  mqttclientid := clientid
  mqttclient := none
  mqtttoken := 0
  conn := 0
  mutex := .free
  cond := .empty
  client := .start
  connlost _ := .idle
  pubmsg _ := .idle
  msg _ := ""
  rc _ := 0
  calls := []

def topicDown (s : Mqtt L P) : String := "yswl/0/" ++ s.mqttclientid ++ "/down"

def topicUp (s : Mqtt L P) : String := "yswl/0/" ++ s.mqttclientid ++ "/up"

def call (s : Mqtt L P) (c : MqttCall) : Mqtt L P := { s with calls := s.calls ++ [c] }

def lockMutex (s : Mqtt L P) (t : MqttThread L P) : Option (Mqtt L P) :=
  (s.mutex.lock t).map fun m => { s with mutex := m }

def unlockMutex (s : Mqtt L P) (t : MqttThread L P) : Option (Mqtt L P) :=
  (s.mutex.unlock t).map fun m => { s with mutex := m }

def clientAt (s : Mqtt L P) (pc : ClientPc) : Mqtt L P := { s with client := pc }

def connlostAt (s : Mqtt L P) (l : L) (pc : ConnlostPc) : Mqtt L P :=
  { s with connlost := Function.update s.connlost l pc }

def pubmsgAt (s : Mqtt L P) (p : P) (pc : PubmsgPc) : Mqtt L P :=
  { s with pubmsg := Function.update s.pubmsg p pc }

/-- A statement of `mqtt_client_thread`; `rc` answers `MQTTClient_create` and
`MQTTClient_connect`. -/
def clientStep (rc : Int) (s : Mqtt L P) : Option (Mqtt L P) :=
  match s.client with
  | .start => some ({ s with conn := 0 }.clientAt .lock)
  | .lock => (s.lockMutex .client).map (·.clientAt .create)
  | .create =>
      -- the result is not looked at; a failure leaves the old handle in place
      let made := if rc = mqttclientSuccess then some (mqttLedger.opened s.calls) else none
      some (({ s with mqttclient := made.or s.mqttclient }.call (.create made)).clientAt
        .setCallbacks)
  | .setCallbacks => some ((s.call (.setCallbacks s.mqttclient)).clientAt .connect)
  | .connect =>
      some ((s.call (.connect s.mqttclient rc)).clientAt
        (if rc ≠ mqttclientSuccess then .connFailed else .connected))
  | .connFailed => some ({ s with conn := 0 }.clientAt .disconnect)
  | .connected => some ({ s with conn := 1 }.clientAt .subscribe)
  | .subscribe => some ((s.call (.subscribe s.mqttclient s.topicDown)).clientAt .wait)
  | .wait =>
      (s.unlockMutex .client).map fun s =>
        { s with cond := s.cond.sleep () }.clientAt .blocked
  | .blocked =>
      -- what woke the thread makes no difference
      (s.lockMutex .client).bind fun s =>
        (s.cond.resume ()).map fun c => { s with cond := c }.clientAt .disconnect
  | .disconnect => some ((s.call (.disconnect s.mqttclient)).clientAt .destroy)
  | .destroy => some ((s.call (.destroy s.mqttclient)).clientAt .unlock)
  | .unlock => (s.unlockMutex .client).map (·.clientAt .lock)

/-- A statement of `connlost`. At most one thread waits, so the signal wakes
whoever sleeps. -/
def connlostStep (l : L) (s : Mqtt L P) : Option (Mqtt L P) :=
  match s.connlost l with
  | .idle => none
  | .lock => (s.lockMutex (.connlost l)).map (·.connlostAt l .clearConn)
  | .clearConn => some ({ s with conn := 0 }.connlostAt l .signal)
  | .signal =>
      (s.cond.signal s.cond.asleep).map fun c =>
        { s with cond := c }.connlostAt l .unlock
  | .unlock => (s.unlockMutex (.connlost l)).map (·.connlostAt l .idle)

/-- A statement of `pubmsg`; `ans` is the token of `MQTTClient_publishMessage`
and the result of `MQTTClient_waitForCompletion`. -/
def pubmsgStep (p : P) (ans : Int) (s : Mqtt L P) : Option (Mqtt L P) :=
  match s.pubmsg p with
  | .idle => none
  | .lock => (s.lockMutex (.pubmsg p)).map (·.pubmsgAt p .test)
  | .test => some (s.pubmsgAt p (if s.conn = 1 then .publishMessage else .idle))
  | .publishMessage =>
      some (({ s with mqtttoken := ans }.call
        (.publishMessage s.mqttclient s.topicUp (s.msg p))).pubmsgAt p .waitForCompletion)
  | .waitForCompletion =>
      some (({ s with rc := Function.update s.rc p ans }.call
        (.waitForCompletion s.mqttclient s.mqtttoken)).pubmsgAt p .unlock)
  | .unlock => (s.unlockMutex (.pubmsg p)).map (·.pubmsgAt p .idle)

inductive Label (L P : Type)
  | client (rc : Int)
  /-- the library calls `connlost` -/
  | callConnlost (l : L)
  | connlost (l : L)
  | callPubmsg (p : P) (msg : String)
  | pubmsg (p : P) (ans : Int)
  /-- `pthread_cond_wait` returns with no signal -/
  | spurious
  deriving DecidableEq, Repr

/-- Whose step a label is. -/
def Label.thread : Label L P → MqttThread L P
  | .client _ | .spurious => .client
  | .callConnlost l | .connlost l => .connlost l
  | .callPubmsg p _ | .pubmsg p _ => .pubmsg p

def step (s : Mqtt L P) : Label L P → Option (Mqtt L P)
  | .client rc => s.clientStep rc
  | .callConnlost l =>
      if s.connlost l = .idle then some (s.connlostAt l .lock) else none
  | .connlost l => s.connlostStep l
  | .callPubmsg p msg =>
      if s.pubmsg p = .idle then
        some ({ s with
          msg := Function.update s.msg p msg
          rc := Function.update s.rc p 0 }.pubmsgAt p .lock)
      else none
  | .pubmsg p ans => s.pubmsgStep p ans
  | .spurious => (s.cond.spurious ()).map fun c => { s with cond := c }

end Mqtt

end IotCamera
