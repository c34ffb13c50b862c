import IotCamera.Lib.Run
import IotCamera.Lib.Sync

/-!
# The block queue and its threads

`BlockQueue` of `pcm.h`: a queue with a capacity, one mutex and two condition
variables. Producers call `PushData`; consumer threads loop over `PopData`,
`process()` and `delete`. Each thread has a program counter that stands at a
statement of these routines. The two are one text up to what they swap: who
waits on which condition, what counts as busy, and which end of the queue is
moved. A `Side` says which of the two a thread runs, and so which condition
it waits on.

`long` items are any type here, since the queue never looks at one. Printing
is left out. Next to the object the state carries its history: what was
pushed, what was popped, and what `process()` was called on, each in order.
-/

namespace IotCamera

/-- What a thread does with the queue. -/
inductive Side
  | product
  | consume
  deriving DecidableEq, Repr

namespace Side

def other : Side → Side
  | .product => .consume
  | .consume => .product

end Side

structure BlockQueue (T : Type) (α : Type) [DecidableEq T] where
  q : List α
  cap : Nat
  mutex : Mutex T
  full : CondVar T
  empty : CondVar T

namespace BlockQueue

variable {T α : Type} [DecidableEq T] (b : BlockQueue T α)

def new (cap : Nat) : BlockQueue T α := ⟨[], cap, .free, .empty, .empty⟩

/-- The condition a side waits on. -/
def cond : Side → CondVar T
  | .product => b.full
  | .consume => b.empty

def setCond (side : Side) (c : CondVar T) : BlockQueue T α :=
  match side with
  | .product => { b with full := c }
  | .consume => { b with empty := c }

def lockQueue (t : T) : Option (BlockQueue T α) :=
  (b.mutex.lock t).map fun m => { b with mutex := m }

def unlockQueue (t : T) : Option (BlockQueue T α) :=
  (b.mutex.unlock t).map fun m => { b with mutex := m }

/-- The first half of `pthread_cond_wait`: the mutex is given up and the
caller sleeps. -/
def wait (side : Side) (t : T) : Option (BlockQueue T α) :=
  (b.mutex.unlock t).map fun m =>
    { b with mutex := m }.setCond side ((b.cond side).sleep t)

/-- The second half: the woken caller takes the mutex and returns. -/
def resume (side : Side) (t : T) : Option (BlockQueue T α) :=
  (b.mutex.lock t).bind fun m =>
    ((b.cond side).resume t).map fun c => { b with mutex := m }.setCond side c

/-- `pthread_cond_signal`, which wakes `woken`. -/
def notify (side : Side) (woken : Finset T) : Option (BlockQueue T α) :=
  ((b.cond side).signal woken).map fun c => b.setCond side c

def productWait (t : T) : Option (BlockQueue T α) := b.wait .product t

def consumeWait (t : T) : Option (BlockQueue T α) := b.wait .consume t

def notifyProduct (woken : Finset T) : Option (BlockQueue T α) :=
  b.notify .product woken

def notifyConsume (woken : Finset T) : Option (BlockQueue T α) :=
  b.notify .consume woken

def isEmpty : Bool := b.q.length == 0

def isFull : Bool := b.q.length == b.cap

end BlockQueue

/-- The next statement of a thread. -/
inductive QueuePc
  /-- a producer between two calls -/
  | idle
  /-- `LockQueue()` -/
  | lock
  /-- the condition of the `while` -/
  | test
  /-- the notification inside the `while` -/
  | nudge
  /-- the wait inside the `while` -/
  | wait
  /-- inside `pthread_cond_wait` -/
  | blocked
  /-- `q.push(data)`, or `data = q.front(); q.pop()` -/
  | transfer
  /-- the notification after the `while` -/
  | notify
  /-- `UnlockQueue()` -/
  | unlock
  /-- `qd->process()` -/
  | process
  /-- `delete(qd)` -/
  | delete
  deriving DecidableEq, Repr

/-- The queue, its threads and the history. `data` is the argument of a
producer's call and the local variable of a consumer. -/
structure Pcm (T : Type) (α : Type) [DecidableEq T] where
  bq : BlockQueue T α
  pc : T → QueuePc
  data : T → Option α
  pushed : List α
  popped : List α
  processed : List α

namespace Pcm

variable {T α : Type} [DecidableEq T]

/-- Producers are outside the queue, consumers about to enter it. -/
def init (α : Type) (side : T → Side) (cap : Nat) : Pcm T α where
  bq := .new cap
  pc t := match side t with
    | .product => .idle
    | .consume => .lock
  data _ := none
  pushed := []
  popped := []
  processed := []

/-- Thread `t` leaves the queue as `b` and goes on at `pc`. -/
def put (s : Pcm T α) (t : T) (b : BlockQueue T α) (pc : QueuePc) : Pcm T α :=
  { s with bq := b, pc := Function.update s.pc t pc }

/-- A statement of `PushData`; a signal wakes `woken`. -/
def pushData (woken : Finset T) (s : Pcm T α) (t : T) : Option (Pcm T α) :=
  match s.pc t with
  | .lock => (s.bq.lockQueue t).map fun b => s.put t b .test
  | .test => some (s.put t s.bq (if s.bq.isFull then .nudge else .transfer))
  | .nudge => (s.bq.notifyConsume woken).map fun b => s.put t b .wait
  | .wait => (s.bq.productWait t).map fun b => s.put t b .blocked
  | .blocked => (s.bq.resume .product t).map fun b => s.put t b .test
  | .transfer => (s.data t).map fun v =>
      { s.put t { s.bq with q := s.bq.q ++ [v] } .notify with pushed := s.pushed ++ [v] }
  | .notify => (s.bq.notifyConsume woken).map fun b => s.put t b .unlock
  | .unlock => (s.bq.unlockQueue t).map fun b => s.put t b .idle
  | _ => none

/-- A statement of `PopData`; a signal wakes `woken`. -/
def popData (woken : Finset T) (s : Pcm T α) (t : T) : Option (Pcm T α) :=
  match s.pc t with
  | .lock => (s.bq.lockQueue t).map fun b => s.put t b .test
  | .test => some (s.put t s.bq (if s.bq.isEmpty then .nudge else .transfer))
  | .nudge => (s.bq.notifyProduct woken).map fun b => s.put t b .wait
  | .wait => (s.bq.consumeWait t).map fun b => s.put t b .blocked
  | .blocked => (s.bq.resume .consume t).map fun b => s.put t b .test
  | .transfer =>
      match s.bq.q with
      | [] => none
      | v :: rest => some
          { s.put t { s.bq with q := rest } .notify with
            data := Function.update s.data t (some v)
            popped := s.popped ++ [v] }
  | .notify => (s.bq.notifyProduct woken).map fun b => s.put t b .unlock
  | .unlock => (s.bq.unlockQueue t).map fun b => s.put t b .process
  | _ => none

/-- A statement of the loop of `consumer`. -/
def consumer (woken : Finset T) (s : Pcm T α) (t : T) : Option (Pcm T α) :=
  match s.pc t with
  | .process => (s.data t).map fun v =>
      { s.put t s.bq .delete with processed := s.processed ++ [v] }
  | .delete => some (s.put t s.bq .lock)
  | _ => s.popData woken t

inductive Label (T : Type) (α : Type)
  /-- producer `t` calls `producter_push`, which calls `PushData` -/
  | producterPush (t : T) (v : α)
  /-- the next statement of `t`; if it is a signal it wakes `woken` -/
  | statement (t : T) (woken : Finset T)
  /-- `t` wakes with no signal -/
  | spurious (t : T)

def step (side : T → Side) (s : Pcm T α) : Label T α → Option (Pcm T α)
  | .producterPush t v =>
      if side t = .product ∧ s.pc t = .idle then
        some { s.put t s.bq .lock with data := Function.update s.data t (some v) }
      else none
  | .statement t woken =>
      match side t with
      | .product => s.pushData woken t
      | .consume => s.consumer woken t
  | .spurious t =>
      ((s.bq.cond (side t)).spurious t).map fun c =>
        { s with bq := s.bq.setCond (side t) c }

end Pcm

end IotCamera
