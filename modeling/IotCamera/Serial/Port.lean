import IotCamera.Lib.Flags
import Mathlib.Logic.Function.Basic

/-!
# The settings of the serial port

`setup_port` takes the settings the port has, changes them group by group and
gives them back. The numbers behind the names are those of Linux. The speed
is a field of the control flags there, and both `cfsetispeed` and
`cfsetospeed` put it in.

Where a request is not supported, a message is all there is: the group is left
as it was, and the settings go to the port. The message about the speed is not
even printed. It is behind a test in the loop that holds only after it.

What the two calls return is given, and so is what `opt` holds after the first
one, be it what the port has or, where that call fails, anything.
-/

namespace IotCamera

/-- `struct termios` -/
structure Termios where
  iflag : BitVec 32
  oflag : BitVec 32
  cflag : BitVec 32
  lflag : BitVec 32
  cc : Nat → BitVec 8

/-! ## The flags -/

namespace TtyFlag

def inpck : BitVec 32 := 0x10
def istrip : BitVec 32 := 0x20
def igncr : BitVec 32 := 0x80
def icrnl : BitVec 32 := 0x100
def ixon : BitVec 32 := 0x400
def ixoff : BitVec 32 := 0x1000

def opost : BitVec 32 := 0x1

def isig : BitVec 32 := 0x1
def icanon : BitVec 32 := 0x2
def echo : BitVec 32 := 0x8
def echoe : BitVec 32 := 0x10

def csize : BitVec 32 := 0x30
def cs5 : BitVec 32 := 0x0
def cs6 : BitVec 32 := 0x10
def cs7 : BitVec 32 := 0x20
def cs8 : BitVec 32 := 0x30
def cstopb : BitVec 32 := 0x40
def cread : BitVec 32 := 0x80
def parenb : BitVec 32 := 0x100
def parodd : BitVec 32 := 0x200
def clocal : BitVec 32 := 0x800
def cbaud : BitVec 32 := 0x100f
def crtscts : BitVec 32 := 0x80000000

/-- `c_cc[VTIME]` -/
def vtime : Nat := 5

/-- `c_cc[VMIN]` -/
def vmin : Nat := 6

end TtyFlag

/-- `B0` to `B4000000`, and the speeds they stand for. -/
def baudRates : List (BitVec 32 × Int) :=
  [(0x0, 0), (0x1, 50), (0x2, 75), (0x3, 110), (0x4, 134), (0x5, 150), (0x6, 200), (0x7, 300),
    (0x8, 600), (0x9, 1200), (0xa, 1800), (0xb, 2400), (0xc, 4800), (0xd, 9600), (0xe, 19200),
    (0xf, 38400), (0x1001, 57600), (0x1002, 115200), (0x1003, 230400), (0x1004, 460800),
    (0x1005, 500000), (0x1006, 576000), (0x1007, 921600), (0x1008, 1000000), (0x1009, 1152000),
    (0x100a, 1500000), (0x100b, 2000000), (0x100c, 2500000), (0x100d, 3000000),
    (0x100e, 3500000), (0x100f, 4000000)]

def charSizes : List (BitVec 32 × Int) :=
  [(TtyFlag.cs5, 5), (TtyFlag.cs6, 6), (TtyFlag.cs7, 7), (TtyFlag.cs8, 8)]

inductive Parity
  | none
  | odd
  | even
  deriving DecidableEq

/-- The parity a letter asks for. -/
def Parity.ofChar (c : Int) : Option Parity :=
  if c = 78 ∨ c = 110 then some .none
  else if c = 79 ∨ c = 111 then some .odd
  else if c = 69 ∨ c = 101 then some .even
  else Option.none

namespace Termios

open TtyFlag

/-! ## What settings say -/

def baudRate (opt : Termios) : Option Int := baudRates.lookup (opt.cflag &&& cbaud)

def charSize (opt : Termios) : Option Int := charSizes.lookup (opt.cflag &&& csize)

def parity (opt : Termios) : Parity :=
  if opt.cflag &&& parenb = 0#32 then .none
  else if opt.cflag &&& parodd = 0#32 then .even
  else .odd

def stopBits (opt : Termios) : Int := if opt.cflag &&& cstopb = 0#32 then 1 else 2

/-- Whether parity is checked, and whether the eighth bit is stripped. -/
def checking (opt : Termios) : BitVec 32 × BitVec 32 := (opt.iflag &&& inpck, opt.iflag &&& istrip)

/-! ## What the source does to them -/

def cfsetispeed (opt : Termios) (speed : BitVec 32) : Termios :=
  { opt with cflag := (opt.cflag &&& ~~~cbaud) ||| speed }

def cfsetospeed (opt : Termios) (speed : BitVec 32) : Termios :=
  { opt with cflag := (opt.cflag &&& ~~~cbaud) ||| speed }

end Termios

/-- `speed_arr` -/
def speedArr : List (BitVec 32) := [0x1002, 0xd, 0xf, 0xe, 0xc]

/-- `name_arr` -/
def nameArr : List Int := [115200, 9600, 38400, 19200, 4800]

/-- What is asked for. -/
structure PortRequest where
  speed : Int
  dataBits : Int
  parity : Int
  stopBits : Int
  deriving DecidableEq

/-- `opt`, and the messages so far. -/
structure PortSetup where
  opt : Termios
  messages : List String

namespace PortSetup

open TtyFlag

def say (s : PortSetup) (message : String) : PortSetup :=
  { s with messages := s.messages ++ [message] }

def enable (s : PortSetup) : PortSetup :=
  { s with opt.cflag := (s.opt.cflag ||| (clocal ||| cread)) &&& ~~~csize }

/-- A turn of the loop over the speeds. -/
def trySpeed (speed : Int) (s : PortSetup) (i : Nat) : PortSetup :=
  let s := if speed = nameArr.getD i 0 then
      { s with opt := (s.opt.cfsetispeed (speedArr.getD i 0)).cfsetospeed (speedArr.getD i 0) }
    else s
  if i = speedArr.length then s.say "Unsupported baud rate." else s

def setSpeed (speed : Int) (s : PortSetup) : PortSetup :=
  (List.range speedArr.length).foldl (trySpeed speed) s

def setDataBits (dataBits : Int) (s : PortSetup) : PortSetup :=
  if dataBits = 8 then { s with opt.cflag := s.opt.cflag ||| cs8 }
  else if dataBits = 7 then { s with opt.cflag := s.opt.cflag ||| cs7 }
  else s.say "Unsupported data bits."

/-- The cases are `'N'` and `'n'`, `'O'` and `'o'`, `'E'` and `'e'`. -/
def setParity (parity : Int) (s : PortSetup) : PortSetup :=
  if parity = 78 ∨ parity = 110 then
    { s with
      opt.iflag := s.opt.iflag &&& ~~~inpck
      opt.cflag := s.opt.cflag &&& ~~~parenb }
  else if parity = 79 ∨ parity = 111 then
    { s with
      opt.iflag := s.opt.iflag ||| (inpck ||| istrip)
      opt.cflag := s.opt.cflag ||| (parodd ||| parenb) }
  else if parity = 69 ∨ parity = 101 then
    { s with
      opt.iflag := s.opt.iflag ||| (inpck ||| istrip)
      opt.cflag := (s.opt.cflag ||| parenb) &&& ~~~parodd }
  else s.say "Unsupported parity bits."

def setStopBits (stopBits : Int) (s : PortSetup) : PortSetup :=
  if stopBits = 1 then { s with opt.cflag := s.opt.cflag &&& ~~~cstopb }
  else if stopBits = 2 then { s with opt.cflag := s.opt.cflag ||| cstopb }
  else s.say "Unsupported stop bits."

/-- Raw input and output, no flow control, and carriage returns left alone. -/
def setRaw (s : PortSetup) : PortSetup :=
  { s with
    opt.lflag := s.opt.lflag &&& ~~~(icanon ||| echo ||| echoe ||| isig)
    opt.oflag := s.opt.oflag &&& ~~~opost
    opt.cflag := s.opt.cflag &&& ~~~crtscts
    opt.iflag := s.opt.iflag &&& ~~~ixoff &&& ~~~ixon &&& ~~~(icrnl ||| igncr)
    opt.cc := Function.update (Function.update s.opt.cc vtime 1) vmin 0 }

end PortSetup

/-- What `tcgetattr` returns and leaves in `opt`, and what `tcsetattr`
returns. -/
structure PortAnswers where
  tcgetattr : Int
  opt : Termios
  tcsetattr : Int

/-- What is returned, and what `tcsetattr` gets. -/
structure PortResult where
  ret : Int
  opt : Termios
  messages : List String

def setupPort (port : PortAnswers) (r : PortRequest) : PortResult :=
  let s : PortSetup := ⟨port.opt, []⟩
  let s := if port.tcgetattr < 0 then s.say "Unable to get the attribute" else s
  let s := s.enable
  let s := s.setSpeed r.speed
  let s := s.setDataBits r.dataBits
  let s := s.setParity r.parity
  let s := s.setStopBits r.stopBits
  let s := s.setRaw
  let opt := s.opt
  let s := if port.tcsetattr < 0 then s.say "Unable to setup the port." else s
  ⟨0, opt, (s.say "Setup the port OK!\n").messages⟩

/-- What the constructor of `SerialPortU2` asks for. -/
def serialPortU2Request : PortRequest := ⟨115200, 8, 1, 1⟩

end IotCamera
