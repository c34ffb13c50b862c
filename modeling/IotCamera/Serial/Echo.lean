import IotCamera.Lib.Memory
import IotCamera.Lib.Run

/-!
# The serial echo

The thread of `SerialPortU2` reads what has arrived at the serial port, at
most 256 bytes, and writes the same bytes back to the port. `serial_read`
waits two seconds for something to read, reads it into an array of its own
and copies it from there to the array of the loop.

What `select` and `read` answer is in the label of a turn, and so is what the
array of the loop holds when the turn begins, since nothing initializes it.
The byte count is an `int`, and both `memcpy` and `write` take a `size_t`. A
`memcpy` that leaves one of the two arrays has no result, and neither has a
`write` of more bytes than the array has.
-/

namespace IotCamera

/-- What `read` answers when asked for so many bytes. No byte is the end of
the file. -/
inductive ReadOutcome (desireGetLen : Nat)
  | chunk (bytes : List Byte) (fits : bytes.length ≤ desireGetLen)
  | failed

/-- An `int` converted to `size_t`. -/
def sizeT (z : Int) : Nat := (z % 18446744073709551616).toNat

/-- The size of the two arrays. -/
def readTempSize : Nat := 256

/-- A turn of the loop: what its array holds, and what the calls answer. -/
structure EchoTurn where
  readTemp : Nat → Byte
  nfds : Int
  read : ReadOutcome readTempSize

namespace SerialPortU2

/-- `read`, with the array and the number it returns. -/
def read (readTemp : Block) : ReadOutcome readTempSize → Block × Int
  | .chunk bytes _ => (readTemp.fill bytes, bytes.length)
  | .failed => (readTemp, -1)

/-- The array `p` and the number of bytes. A number of bytes that is not
positive is printed as a problem, and then used like any other. -/
def serialRead (p : Block) (nfds : Int) (outcome : ReadOutcome readTempSize) :
    Option (Block × Int) :=
  if nfds = 0 then some (p, 0)
  else
    let (readTemp, nread) := read ⟨readTempSize, fun _ => 0⟩ outcome
    (p.memcpy readTemp (sizeT nread)).map fun p => (p, nread)

/-- The bytes `write` gets. -/
def writeData (data : Block) (len : Int) : Option (List Byte) :=
  if sizeT len ≤ data.size then some (data.bytes (sizeT len)) else none

/-- One turn of the loop. The state is what `writeData` was handed in each of
the turns before. -/
def turn (handed : List (List Byte)) (t : EchoTurn) : Option (List (List Byte)) :=
  (serialRead ⟨readTempSize, t.readTemp⟩ t.nfds t.read).bind fun (readTemp, len) =>
    (writeData readTemp len).map fun bytes => handed ++ [bytes]

end SerialPortU2

end IotCamera
