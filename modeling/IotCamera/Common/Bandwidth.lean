import IotCamera.Lib.CInt
import IotCamera.Lib.Run

/-!
# The bandwidth counter

`getBandwidth` is called with the length of every packet that the writers in
`main.cpp` send. Two static variables are all it has: the second its window
began in, and the bytes counted since. When a window is more than five
seconds old it prints what was sent in it and begins the next one.

Only one of the three branches counts the packet of the call. The call that
begins the first window does not, and neither does one that begins another.

The total is an `unsigned int` and the other two numbers of the line are `long`,
and all three are printed with `%d`, which reads the low 32 bits as an `int`.
-/

namespace IotCamera

/-- The static variables of `getBandwidth`. -/
structure Bandwidth where
  /-- `__sec` -/
  sec : Nat
  /-- `__total` -/
  total : Nat
  deriving DecidableEq

/-- The three numbers of a line `Current SPEED`, as `%d` prints them. -/
structure SpeedReport where
  total : Int
  seconds : Int
  rate : Int
  deriving DecidableEq

/-- A call, and the seconds `gettimeofday` gave it. -/
structure BandwidthCall where
  tvSec : Nat
  len : Int
  deriving DecidableEq

namespace Bandwidth

/-- Before the first call. -/
def init : Bandwidth := ⟨0, 0⟩

/-- `Tpend.tv_sec - __sec`, which is a `long`. -/
def elapsed (s : Bandwidth) (tvSec : Nat) : Int := tvSec - s.sec

/-- The call begins a window, the first one or another. -/
def Begins (s : Bandwidth) (tvSec : Nat) : Prop := s.sec = 0 ∨ s.elapsed tvSec > 5

instance (s : Bandwidth) (tvSec : Nat) : Decidable (s.Begins tvSec) :=
  inferInstanceAs (Decidable (_ ∨ _))

def getBandwidth (s : Bandwidth) (c : BandwidthCall) : Bandwidth × Option SpeedReport :=
  if s.sec = 0 then ({ s with sec := CInt.u32 c.tvSec }, none)
  else if s.elapsed c.tvSec > 5 then
    (⟨CInt.u32 c.tvSec, 0⟩,
      some ⟨CInt.wrapInt s.total, CInt.wrapInt (s.elapsed c.tvSec),
        CInt.wrapInt (((s.total : Int).tdiv (s.elapsed c.tvSec)).tdiv 1024)⟩)
  else ({ s with total := CInt.unsigned (s.total + c.len) }, none)

end Bandwidth

/-- The counter with what it has printed and what it was given. -/
structure Account where
  counter : Bandwidth
  reports : List SpeedReport
  passed : Int
  deriving DecidableEq

namespace Account

def init : Account := ⟨Bandwidth.init, [], 0⟩

def call (s : Account) (c : BandwidthCall) : Option Account :=
  let (counter, report) := s.counter.getBandwidth c
  some ⟨counter, s.reports ++ report.toList, s.passed + c.len⟩

/-- The bytes of the reports and of the window that is open. -/
def counted (s : Account) : Int := (s.reports.map SpeedReport.total).sum + s.counter.total

end Account

end IotCamera
