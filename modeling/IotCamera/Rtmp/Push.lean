import IotCamera.Lib.Ledger

/-!
# The RTMP pusher, one call at a time

`CRtmpPush` keeps a connection to the server alive for two writers. Its
thread body `run` is a loop over a status byte; the control calls only set
`run_status`, and the writers only look at the status byte and, on one error
code, change it. This file is that object as the source has it, with each
call and each turn of the loop taken as one step. `Rtmp/Threads.lean` cuts
the same code into statements.

The library behind `srs_rtmp_*` is not in the repository, so each step
carries the answers it got. What the object asked of the library is kept in
`calls`, in order: the claims about connections are claims about that trace.
Connections are numbered in the order `srs_rtmp_create` hands them out.

The source lists the four states and the two requests in one anonymous enum.
No statement assigns a request to `status` or a state to `run_status`, so
here they are two types, and the `default:` of the switch has no case.
-/

namespace IotCamera

/-- A connection, by its number in the order of `srs_rtmp_create`. -/
abbrev Handle := Nat

/-- The states of `status`. -/
inductive Status
  | connInit
  | connected
  | connErr
  | stopPush
  deriving DecidableEq, Repr

/-- The requests in `run_status`. -/
inductive RunStatus
  | start
  | exit
  deriving DecidableEq, Repr

/-- The two threads that write: `srs_h264_write_raw_frames` is the video
writer's call, `srs_adts_aac_write_raw_frame` the audio writer's. -/
inductive Writer
  | video
  | audio
  deriving DecidableEq, Repr

/-- Which `deinit()` of `run` destroyed a connection: the one after a failed
`init()`, the one at the top of the CONNERR case, or the one under a test of
`run_status == RUN_STATUS_EXIT`. -/
inductive Site
  | openFailed
  | connErr
  | runExit
  deriving DecidableEq, Repr

instance Writer.decidableForall (P : Writer → Prop) [DecidablePred P] :
    Decidable (∀ w, P w) :=
  decidable_of_iff (P .video ∧ P .audio)
    ⟨fun h => fun | .video => h.1 | .audio => h.2, fun h => ⟨h .video, h .audio⟩⟩

instance Site.decidableForall (P : Site → Prop) [DecidablePred P] :
    Decidable (∀ site, P site) :=
  decidable_of_iff (P .openFailed ∧ P .connErr ∧ P .runExit)
    ⟨fun h => fun | .openFailed => h.1 | .connErr => h.2.1 | .runExit => h.2.2,
      fun h => ⟨h .openFailed, h .connErr, h .runExit⟩⟩

/-- A call into the library, with the handle it was given and, where the
source reads it, the answer. -/
inductive Call
  | create (res : Option Handle)
  | setTimeout (rtmp : Option Handle)
  | handshake (rtmp : Option Handle)
  | connectApp (rtmp : Option Handle)
  | publishStream (rtmp : Option Handle)
  | write (w : Writer) (rtmp : Option Handle) (wret : Int)
  | destroy (rtmp : Option Handle) (site : Site)
  deriving DecidableEq, Repr

/-- What the trace of calls says about handles. The writes are the uses the
claims are about. -/
def srs : Ledger Call Handle where
  opens
    | .create res => res
    | _ => none
  closes
    | .destroy rtmp _ => rtmp
    | _ => none
  uses
    | .write _ rtmp _ => some rtmp
    | _ => none

/-! ## Codes of `srs_kernel_error.hpp` -/

def ERROR_SOCKET_CLOSED : Int := 1004
def ERROR_SOCKET_READ : Int := 1007
def ERROR_SOCKET_READ_FULLY : Int := 1008
def ERROR_SOCKET_WRITE : Int := 1009
def ERROR_SOCKET_WAIT : Int := 1010
def ERROR_SOCKET_TIMEOUT : Int := 1011
def ERROR_SOCKET_CONNECT : Int := 1012

/-- The socket-level failures of the library: the connection is gone or its
stream is cut in the middle of a message. -/
def socketFailures : List Int :=
  [ERROR_SOCKET_CLOSED, ERROR_SOCKET_READ, ERROR_SOCKET_READ_FULLY,
    ERROR_SOCKET_WRITE, ERROR_SOCKET_WAIT, ERROR_SOCKET_TIMEOUT,
    ERROR_SOCKET_CONNECT]

/-- The code the writers compare with. -/
def writeErr : Int := 1009

/-! ## The object -/

/-- The fields of the object its code reads, and the trace. -/
structure CRtmpPush where
  rtmp : Option Handle
  status : Status
  runStatus : RunStatus
  calls : List Call
  deriving DecidableEq, Repr

/-- The answers one turn of the loop may get while it opens a connection. -/
structure OpenOutcome where
  created : Bool
  handshake : Int
  connectApp : Int
  publishStream : Int
  deriving DecidableEq, Repr

namespace CRtmpPush

/-- The constructor. -/
def new : CRtmpPush :=
  { rtmp := none, status := .stopPush, runStatus := .exit, calls := [] }

def call (p : CRtmpPush) (c : Call) : CRtmpPush :=
  { p with calls := p.calls ++ [c] }

/-- `_rtmp = srs_rtmp_create(rtmp_url)`. -/
def create (created : Bool) (p : CRtmpPush) : CRtmpPush :=
  let res := if created then some (srs.opened p.calls) else none
  { p.call (.create res) with rtmp := res }

def openUrl (o : OpenOutcome) (p : CRtmpPush) : Int × CRtmpPush :=
  let p := p.create o.created
  if p.rtmp = none then (-1, p)
  else
    let p := p.call (.setTimeout p.rtmp)
    let p := p.call (.handshake p.rtmp)
    if o.handshake ≠ 0 then (o.handshake, p)
    else
      let p := p.call (.connectApp p.rtmp)
      if o.connectApp ≠ 0 then (o.connectApp, p)
      else (o.publishStream, p.call (.publishStream p.rtmp))

def cleanup (site : Site) (p : CRtmpPush) : CRtmpPush :=
  if p.rtmp ≠ none then { p.call (.destroy p.rtmp site) with rtmp := none } else p

def init (o : OpenOutcome) (p : CRtmpPush) : Int × CRtmpPush :=
  let (ret, p) := p.openUrl o
  if ret ≠ 0 then (ret, p) else (0, p)

def deinit (site : Site) (p : CRtmpPush) : CRtmpPush := p.cleanup site

def stopPush (p : CRtmpPush) : CRtmpPush :=
  match p.status with
  | .stopPush => p
  | _ => { p with runStatus := .exit }

def startPush (p : CRtmpPush) : CRtmpPush := { p with runStatus := .start }

/-- The block the source repeats at the end of three cases of `run`. -/
def checkRunStatus (p : CRtmpPush) : CRtmpPush :=
  if p.runStatus = .exit then { p.deinit .runExit with status := .stopPush } else p

/-- One turn of the loop of `run`. -/
def runIter (o : OpenOutcome) (p : CRtmpPush) : CRtmpPush :=
  match p.status with
  | .stopPush =>
      if p.runStatus = .start then { p with status := .connInit } else p
  | .connInit =>
      let (ret, p) := p.init o
      let p := if ret = 0 then { p with status := .connected } else p.deinit .openFailed
      p.checkRunStatus
  | .connected => p.checkRunStatus
  | .connErr =>
      let p := { p.deinit .connErr with status := .connInit }
      p.checkRunStatus

/-- The body the two writers share; they differ in the library call. -/
def writeRaw (w : Writer) (wret : Int) (p : CRtmpPush) : CRtmpPush :=
  if p.status = .connected then
    let p := p.call (.write w p.rtmp wret)
    if wret = writeErr then { p with status := .connErr } else p
  else p

def writeH264RawData (wret : Int) (p : CRtmpPush) : CRtmpPush := p.writeRaw .video wret

def writeAACRawData (wret : Int) (p : CRtmpPush) : CRtmpPush := p.writeRaw .audio wret

/-- A step of the object: a control call, a write with the library's answer,
or a turn of the loop with the library's answers. -/
inductive Act
  | startPush
  | stopPush
  | writeH264RawData (wret : Int)
  | writeAACRawData (wret : Int)
  | run (o : OpenOutcome)
  deriving DecidableEq, Repr

def step (p : CRtmpPush) : Act → CRtmpPush
  | .startPush => p.startPush
  | .stopPush => p.stopPush
  | .writeH264RawData wret => p.writeH264RawData wret
  | .writeAACRawData wret => p.writeAACRawData wret
  | .run o => p.runIter o

def exec (p : CRtmpPush) (acts : List Act) : CRtmpPush := acts.foldl step p

end CRtmpPush

end IotCamera
