import IotCamera.Lib.CInt
import IotCamera.Lib.Memory
import IotCamera.Lib.Run
import IotCamera.Lib.Search

/-!
# Pieces of an H.264 file

The RTSP server sends a file picture by picture. `readFrame` reads a window of
the file at the place where the last piece ended, and cuts the next piece off
its beginning. A piece ends where a parameter set, an SEI or the first slice
of another picture begins, after the first slice of its own. Where there is no
such place, the rest of the window is the last piece, and after it the file
begins anew.

Both scans look at a start code of three or four bytes and at two bytes after
it, and they stop five bytes before the end of the window. A look at a byte
behind the window has no result here. The memory behind it is there, but holds
what an earlier window left.

The file is read through a stream with a position. `fread` of a regular file
gives as many bytes as there are.
-/

namespace IotCamera

/-- The members that change. The position of the stream is in `file`, which is
nothing when `m_file` is NULL. -/
structure H264File where
  file : Option Nat
  bytesUsed : Int
  count : Int
  deriving DecidableEq

/-- What a call returns, what is in `inBuf` then, and what it has written to
`*bEndOfFrame`, if anything. -/
structure FrameAnswer where
  ret : Int
  bytes : List Byte
  endOfFrame : Option Bool
  deriving DecidableEq

namespace H264File

/-! ## What the scans look at -/

/-- `buf[i] == ... && buf[i + 1] == ...`, from left to right. -/
def bytesAt (buf : List Byte) : Nat → List Byte → Option Bool
  | _, [] => some true
  | i, b :: rest => buf[i]?.bind fun c => if c = b then bytesAt buf (i + 1) rest else some false

/-- The length of the start code at `i`, if there is one. -/
def startCode (buf : List Byte) (i : Nat) : Option (Option Nat) :=
  (bytesAt buf i [0, 0, 1]).bind fun three =>
    if three then some (some 3)
    else (bytesAt buf i [0, 0, 0, 1]).map fun four => if four then some 4 else none

/-- Type 5 or 1, with the first bit of the payload set. -/
def firstSlice (buf : List Byte) (header : Nat) : Option Bool :=
  buf[header]?.bind fun c =>
    if c &&& 0x1F = 0x5 ∨ c &&& 0x1F = 0x1 then
      buf[header + 1]?.map fun d => d &&& 0x80 = 0x80
    else some false

/-- Type 7, 8 or 6, or a first slice. -/
def boundary (buf : List Byte) (header : Nat) : Option Bool :=
  buf[header]?.bind fun c =>
    if c &&& 0x1F = 0x7 ∨ c &&& 0x1F = 0x8 ∨ c &&& 0x1F = 0x6 then some true
    else firstSlice buf header

/-- A turn of one of the scans: a start code, and a header it looks for. -/
def scan (header : List Byte → Nat → Option Bool) (buf : List Byte) (i : Nat) : Option Bool :=
  (startCode buf i).bind fun code =>
    match code with
    | none => some false
    | some n => header buf (i + n)

/-! ## The class -/

/-- After `open` of a file that is there. -/
def opened : H264File := ⟨some 0, 0, 0⟩

def close (s : H264File) : H264File :=
  match s.file with
  | none => s
  | some _ => ⟨none, 0, 0⟩

/-- The window at a position. -/
def fread (content : List Byte) (bufSize pos : Nat) : List Byte := (content.drop pos).take bufSize

/-- The new `m_count` and `m_bytesUsed`. -/
def advance (s : H264File) (flag : Bool) (i : Nat) : Option (Int × Int) :=
  if flag then some (0, 0)
  else (CInt.int (s.count + 1)).bind fun count =>
    (CInt.int (s.bytesUsed + i)).map fun bytesUsed => (count, bytesUsed)

/-- The end of `readFrame`, with the results of the scans. A `memcpy` of a
negative number of bytes has no result. -/
def deliver (s : H264File) (buf : List Byte) (inBufSize : Int) (i : Nat)
    (bFindStart bFindEnd : Bool) : Option (H264File × FrameAnswer) :=
  let flag := bFindStart && !bFindEnd && s.count > 0
  let bFindEnd := bFindEnd || flag
  let i := if flag then buf.length else i
  if !bFindStart || !bFindEnd then some (s.close, ⟨-1, [], some false⟩)
  else
    let size : Int := if i ≤ inBufSize then i else inBufSize
    if size < 0 then none
    else (s.advance flag i).map fun (count, bytesUsed) =>
      (⟨some bytesUsed.toNat, bytesUsed, count⟩, ⟨size, buf.take size.toNat, some flag⟩)

/-- `readFrame` with something in the window. -/
def cut (s : H264File) (buf : List Byte) (inBufSize : Int) : Option (H264File × FrameAnswer) :=
  (search 0 (buf.length - 5) (scan firstSlice buf)).bind fun (i, bFindStart) =>
    let i := if bFindStart then i + 4 else i
    (search i (buf.length - 5) (scan boundary buf)).bind fun (i, bFindEnd) =>
      s.deliver buf inBufSize i bFindStart bFindEnd

def readFrame (content : List Byte) (bufSize : Nat) (s : H264File) (inBufSize : Int) :
    Option (H264File × FrameAnswer) :=
  match s.file with
  | none => some (s, ⟨-1, [], none⟩)
  | some pos =>
      let buf := fread content bufSize pos
      if buf.length = 0 then
        let s : H264File := ⟨some 0, 0, 0⟩
        let buf := fread content bufSize 0
        if buf.length = 0 then some (s.close, ⟨-1, [], none⟩)
        else s.cut buf inBufSize
      else s.cut buf inBufSize

end H264File

end IotCamera
