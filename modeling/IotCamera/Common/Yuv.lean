import IotCamera.Lib.CInt
import IotCamera.Lib.Memory
import IotCamera.Lib.Stores

/-!
# Pictures for the encoder

Three functions turn a colour picture into one of luma and subsampled
chroma. `rgb_to_yuv420p` and `encodeYUV420sp` go through the pixels row by
row, with running indices into the output; the first keeps the two chroma
planes apart, the second interleaves them. `rgb32_to_i420` goes through
blocks of four pixels, with six pointers that it sets forward by hand.

The input is a block, and there is no result if a byte outside it is read.
The output is the log of the stores that were made to it, at their distance
from its start, whatever its size. There is no result if an `int` overflows.
The pointers of the third function are 64 bits wide, and the colour sums are
small: the products of a byte with the weights fit an `int` many times over.
-/

namespace IotCamera

/-- A pixel, or an average of pixels. -/
structure Colour where
  R : Int
  G : Int
  B : Int
  deriving DecidableEq

namespace Colour

/-- `Y` -/
def Y (c : Colour) : Int := ((66 * c.R + 129 * c.G + 25 * c.B + 128) >>> (8 : Nat)) + 16

/-- `U` -/
def U (c : Colour) : Int := ((-38 * c.R - 74 * c.G + 112 * c.B + 128) >>> (8 : Nat)) + 128

/-- `V` -/
def V (c : Colour) : Int := ((112 * c.R - 94 * c.G - 18 * c.B + 128) >>> (8 : Nat)) + 128

/-- `sum_r += r`, and so on, in `short`. -/
def add (sum c : Colour) : Colour where
  R := (CInt.short (sum.R + c.R)).toInt
  G := (CInt.short (sum.G + c.G)).toInt
  B := (CInt.short (sum.B + c.B)).toInt

/-- `sum_r /= 4`, and so on. -/
def quarter (sum : Colour) : Colour where
  R := (CInt.short (sum.R.tdiv 4)).toInt
  G := (CInt.short (sum.G.tdiv 4)).toInt
  B := (CInt.short (sum.B.tdiv 4)).toInt

end Colour

/-- An `int` stored in an `unsigned char`. -/
def uchar (z : Int) : Byte := BitVec.ofInt 8 z

/-- `(unsigned char)((z < 0) ? 0 : ((z > 255) ? 255 : z))` -/
def clamp (z : Int) : Byte := uchar (if z < 0 then 0 else if z > 255 then 255 else z)

/-- The byte at a signed distance. -/
def fetch (src : Block) (k : Int) : Option Int :=
  if 0 ≤ k then (src.load8 k.toNat).map fun b => (b.toNat : Int) else none

/-- `rgb[(i * width + j) * 3 + k]` -/
def channel (rgb : Block) (width : Int) (i j : Nat) (k : Int) : Option Int := do
  let row ← CInt.int (i * width)
  let cell ← CInt.int (row + j)
  let start ← CInt.int (cell * 3)
  let index ← CInt.int (start + k)
  fetch rgb index

def pixel (rgb : Block) (width : Int) (i j : Nat) : Option Colour := do
  let B ← channel rgb width i j 0
  let G ← channel rgb width i j 1
  let R ← channel rgb width i j 2
  some { R, G, B }

/-- `out[index++] = z`, clamped. -/
def push (out : Log Byte) (index z : Int) : Option (Log Byte × Int) :=
  (CInt.int (index + 1)).map fun next => (out.put index (clamp z), next)

/-! ## Three planes -/

structure Planar where
  out : Log Byte
  yIndex : Int
  uIndex : Int
  vIndex : Int

/-- The body of the loops of `rgb_to_yuv420p`. -/
def planarPixel (rgb : Block) (width : Int) (i j : Nat) (s : Planar) : Option Planar := do
  let c ← pixel rgb width i j
  let (out, yIndex) ← push s.out s.yIndex c.Y
  if i % 2 = 0 ∧ j % 2 = 0 then
    let (out, uIndex) ← push out s.uIndex c.U
    let (out, vIndex) ← push out s.vIndex c.V
    some { out, yIndex, uIndex, vIndex }
  else some { s with out, yIndex }

def rgb_to_yuv420p (yuv420p : Option (Log Byte)) (rgb : Option Block) (width height : Int) :
    Option (Option (Log Byte)) :=
  match yuv420p, rgb with
  | some out, some rgb => do
      let frameSize ← CInt.int (width * height)
      let chromaSize := frameSize.tdiv 4
      let vIndex ← CInt.int (frameSize + chromaSize)
      let s ← forLoop 0 height.toNat (fun i => forLoop 0 width.toNat (planarPixel rgb width i))
        { out, yIndex := 0, uIndex := frameSize, vIndex }
      some (some s.out)
  | _, _ => some yuv420p

/-! ## Two planes -/

structure SemiPlanar where
  out : Log Byte
  yIndex : Int
  uvIndex : Int

/-- The body of the loops of `encodeYUV420sp`. -/
def semiPlanarPixel (rgb : Block) (width : Int) (i j : Nat) (s : SemiPlanar) :
    Option SemiPlanar := do
  let c ← pixel rgb width i j
  let (out, yIndex) ← push s.out s.yIndex c.Y
  if i % 2 = 0 ∧ j % 2 = 0 then
    let (out, uvIndex) ← push out s.uvIndex c.V
    let (out, uvIndex) ← push out uvIndex c.U
    some { out, yIndex, uvIndex }
  else some { s with out, yIndex }

def encodeYUV420sp (yuv420sp : Option (Log Byte)) (rgb : Option Block) (width height : Int) :
    Option (Option (Log Byte)) :=
  match yuv420sp, rgb with
  | some out, some rgb => do
      let frameSize ← CInt.int (width * height)
      let s ← forLoop 0 height.toNat
        (fun i => forLoop 0 width.toNat (semiPlanarPixel rgb width i))
        { out, yIndex := 0, uvIndex := frameSize }
      some (some s.out)
  | _, _ => some yuv420sp

/-! ## Blocks of four pixels -/

/-- The pointers, as distances from the start of their buffer. -/
structure Walk where
  out : Log Byte
  srcEven : Int
  srcOdd : Int
  dstYEven : Int
  dstYOdd : Int
  dstU : Int
  dstV : Int

/-- `b = *src++; g = *src++; r = *src++; ++src;` sets `src` forward by four. -/
def pixel32 (src : Block) (k : Int) : Option Colour := do
  let B ← fetch src k
  let G ← fetch src (k + 1)
  let R ← fetch src (k + 2)
  some { R, G, B }

/-- The body of the inner loop of `rgb32_to_i420`. -/
def blockStep (src : Block) (s : Walk) : Option Walk := do
  let c ← pixel32 src s.srcEven
  let out := s.out.put s.dstYEven (uchar c.Y)
  let sum := c
  let c ← pixel32 src (s.srcEven + 4)
  let out := out.put (s.dstYEven + 1) (uchar c.Y)
  let sum := sum.add c
  let c ← pixel32 src s.srcOdd
  let out := out.put s.dstYOdd (uchar c.Y)
  let sum := sum.add c
  let c ← pixel32 src (s.srcOdd + 4)
  let out := out.put (s.dstYOdd + 1) (uchar c.Y)
  let sum := (sum.add c).quarter
  let out := out.put s.dstU (uchar sum.U)
  let out := out.put s.dstV (uchar sum.V)
  some {
    out
    srcEven := s.srcEven + 8
    srcOdd := s.srcOdd + 8
    dstYEven := s.dstYEven + 2
    dstYOdd := s.dstYOdd + 2
    dstU := s.dstU + 1
    dstV := s.dstV + 1 }

/-- What follows the inner loop. -/
def rowEnd (width : Int) (s : Walk) : Option Walk :=
  (CInt.int (width * 4)).map fun stride =>
    { s with
      dstYEven := s.dstYEven + width
      dstYOdd := s.dstYOdd + width
      srcEven := s.srcEven + stride
      srcOdd := s.srcOdd + stride }

/-- The value returned is 0 in every case. -/
def rgb32_to_i420 (width height : Int) (src : Block) (dst : Log Byte) :
    Option (Int × Log Byte) := do
  let stride ← CInt.int (width * 4)
  let frameSize ← CInt.int (width * height)
  let s ← forLoop 0 (height.tdiv 2).toNat
    (fun _ s => (forLoop 0 (width.tdiv 2).toNat (fun _ => blockStep src) s).bind (rowEnd width))
    { out := dst, srcEven := 0, srcOdd := stride, dstYEven := 0, dstYOdd := width,
      dstU := frameSize, dstV := frameSize + (frameSize >>> (2 : Nat)) }
  some (0, s.out)

end IotCamera
