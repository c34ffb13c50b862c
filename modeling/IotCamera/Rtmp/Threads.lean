import IotCamera.Lib.Run
import IotCamera.Rtmp.Push

/-!
# The RTMP pusher, one statement at a time

The source is compiled with `NO_THREAD_LOCK`, which takes `statusmutex` out
of `run`; the writers and the control calls never had it. So four threads
run over the fields with nothing between them: the loop, the two writers and
whoever calls `startPush` and `stopPush`. Here each of them has a program
counter, and a step is one statement of one thread: a test of a field, an
assignment to one, or a library call together with reading its arguments.
The fields are a `CRtmpPush`, and the statements that `Rtmp/Push.lean` has as
functions are those functions.

A label names the thread and carries the answer its statement gets, so a list
of labels is an interleaving with its outcomes.
-/

namespace IotCamera

/-- The next statement of the loop. -/
inductive LoopPc
  /-- `switch (status)` -/
  | switch
  /-- STOPPUSH: `if (run_status == RUN_STATUS_START)` -/
  | startTest
  /-- STOPPUSH: `status = CONNINIT` -/
  | setConnInit
  /-- `_rtmp = srs_rtmp_create(rtmp_url)` and the test of the result -/
  | create
  | setTimeout
  | handshake
  | connectApp
  | publishStream
  /-- CONNINIT: `status = CONNECTED` -/
  | setConnected
  /-- `cleanup`: `if (_rtmp)` -/
  | cleanupTest (site : Site)
  /-- `cleanup`: `srs_rtmp_destroy(_rtmp)` -/
  | destroy (site : Site)
  /-- `cleanup`: `_rtmp = NULL` -/
  | clear (site : Site)
  /-- CONNERR: `status = CONNINIT` -/
  | reconnect
  /-- `if (run_status == RUN_STATUS_EXIT)`, in its three places -/
  | exitTest
  /-- `status = STOPPUSH` -/
  | setStopPush
  deriving DecidableEq, Repr

/-- The next statement of a writer. -/
inductive WriterPc
  /-- not called, or about to test `status == CONNECTED` -/
  | test
  /-- about to call `srs_..._write_raw_...(_rtmp, ...)` -/
  | call
  /-- about to assign `status = CONNERR`; the write that failed was made on
  the handle kept here -/
  | setConnErr (on : Option Handle)
  deriving DecidableEq, Repr

/-- The next statement of the control thread. -/
inductive ControlPc
  | idle
  /-- `stopPush`: `run_status = RUN_STATUS_EXIT` -/
  | setExit
  deriving DecidableEq, Repr

/-- Where the loop goes on after the `deinit()` of a site. -/
def Site.next : Site → LoopPc
  | .openFailed => .exitTest
  | .connErr => .reconnect
  | .runExit => .setStopPush

/-- The case of the switch for a state. -/
def Status.branch : Status → LoopPc
  | .stopPush => .startTest
  | .connInit => .create
  | .connected => .exitTest
  | .connErr => .cleanupTest .connErr

structure Threads where
  obj : CRtmpPush
  loop : LoopPc
  writer : Writer → WriterPc
  control : ControlPc

namespace Threads

/-- The object as constructed, and every thread at its first statement. -/
def init : Threads :=
  { obj := .new, loop := .switch, writer := fun _ => .test, control := .idle }

inductive Label
  /-- a statement of the loop; `created` answers `srs_rtmp_create`, `ret` the
  other calls of `open_url` -/
  | loop (created : Bool) (ret : Int)
  /-- a statement of a writer; `wret` answers the write -/
  | writer (w : Writer) (wret : Int)
  | startPush
  | stopPush
  /-- the second statement of `stopPush` -/
  | setExit
  deriving DecidableEq, Repr

def goto (s : Threads) (pc : LoopPc) : Threads := { s with loop := pc }

def call (s : Threads) (c : Call) : Threads := { s with obj := s.obj.call c }

def setStatus (s : Threads) (status : Status) : Threads :=
  { s with obj := { s.obj with status := status } }

def setRunStatus (s : Threads) (runStatus : RunStatus) : Threads :=
  { s with obj := { s.obj with runStatus := runStatus } }

def setWriter (s : Threads) (w : Writer) (pc : WriterPc) : Threads :=
  { s with writer := fun v => if v = w then pc else s.writer v }

def loopStep (created : Bool) (ret : Int) (s : Threads) : Threads :=
  match s.loop with
  | .switch => s.goto s.obj.status.branch
  | .startTest =>
      s.goto (if s.obj.runStatus = .start then .setConnInit else .switch)
  | .setConnInit => (s.setStatus .connInit).goto .switch
  | .create =>
      let s := { s with obj := s.obj.create created }
      s.goto (if s.obj.rtmp = none then .cleanupTest .openFailed else .setTimeout)
  | .setTimeout => (s.call (.setTimeout s.obj.rtmp)).goto .handshake
  | .handshake =>
      (s.call (.handshake s.obj.rtmp)).goto
        (if ret ≠ 0 then .cleanupTest .openFailed else .connectApp)
  | .connectApp =>
      (s.call (.connectApp s.obj.rtmp)).goto
        (if ret ≠ 0 then .cleanupTest .openFailed else .publishStream)
  | .publishStream =>
      (s.call (.publishStream s.obj.rtmp)).goto
        (if ret = 0 then .setConnected else .cleanupTest .openFailed)
  | .setConnected => (s.setStatus .connected).goto .exitTest
  | .cleanupTest site =>
      s.goto (if s.obj.rtmp ≠ none then .destroy site else site.next)
  | .destroy site => (s.call (.destroy s.obj.rtmp site)).goto (.clear site)
  | .clear site => { s with obj := { s.obj with rtmp := none }, loop := site.next }
  | .reconnect => (s.setStatus .connInit).goto .exitTest
  | .exitTest =>
      s.goto (if s.obj.runStatus = .exit then .cleanupTest .runExit else .switch)
  | .setStopPush => (s.setStatus .stopPush).goto .switch

def writerStep (w : Writer) (wret : Int) (s : Threads) : Threads :=
  match s.writer w with
  | .test => s.setWriter w (if s.obj.status = .connected then .call else .test)
  | .call =>
      (s.call (.write w s.obj.rtmp wret)).setWriter w
        (if wret = writeErr then .setConnErr s.obj.rtmp else .test)
  | .setConnErr _ => (s.setStatus .connErr).setWriter w .test

/-- One statement of the thread the label names. The control thread makes one
call after another, so a call of it is enabled once the one before is over. -/
def step (s : Threads) : Label → Option Threads
  | .loop created ret => some (s.loopStep created ret)
  | .writer w wret => some (s.writerStep w wret)
  | .startPush =>
      match s.control with
      | .idle => some (s.setRunStatus .start)
      | .setExit => none
  | .stopPush =>
      match s.control with
      | .idle =>
          some (if s.obj.status = .stopPush then s else { s with control := .setExit })
      | .setExit => none
  | .setExit =>
      match s.control with
      | .idle => none
      | .setExit => some { s.setRunStatus .exit with control := .idle }

end Threads

end IotCamera
