import IotCamera.Thermal.Temperature
import Mathlib.Data.Rat.Floor

/-!
# False colours

`pseudoColorAdaptiveThreshold_1` looks for the smallest and the largest
sample of the raw image, sets three thresholds between them, and then gives
each pixel a colour by the band its sample is in. In three of the bands a
division scales the distance from the lower end of the band to a byte.

The division is done in floating point. Here it is exact. What C leaves open
is left open: the conversion of a number to a type it does not fit, and of
what is no number, is whatever the machine makes of it, and the machine, an
`Fpu`, is a parameter.

Between the thresholds and the colours the source sets `yMin` and `yMax`
again, both to the first sample of the image. The first and the last band use
them after that.
-/

namespace IotCamera

/-- What a division in floating point gives, were it exact. -/
inductive FloatVal
  | finite (q : ℚ)
  | infinite (neg : Bool)
  | nan
  deriving DecidableEq

/-- What the machine makes of a conversion that C leaves undefined. -/
structure Fpu where
  /-- to `uint8_t`, of 255 times a value -/
  byte : FloatVal → Byte
  /-- to `int16_t`, of a number with this integer part -/
  short : Int → BitVec 16

namespace FloatVal

/-- `(float)a / b` -/
def div (a b : Int) : FloatVal :=
  if b ≠ 0 then finite (a / b) else if a = 0 then nan else infinite (a < 0)

/-- The integer part. -/
def truncate (q : ℚ) : Int := if 0 ≤ q then ⌊q⌋ else ⌈q⌉

/-- `(uint8_t)(v * 255)`, if the number fits. -/
def byte? : FloatVal → Option Byte
  | finite q =>
      let z := truncate (q * 255)
      if 0 ≤ z ∧ z < 256 then some (BitVec.ofInt 8 z) else none
  | _ => none

end FloatVal

namespace Fpu

/-- `(uint8_t)((float)a / b * 255)` -/
def scale (fpu : Fpu) (a b : Int) : Byte :=
  let v := FloatVal.div a b
  v.byte?.getD (fpu.byte v)

end Fpu

structure Rgb where
  r : Byte
  g : Byte
  b : Byte
  deriving DecidableEq

/-- `yImgL` -/
structure Levels where
  l0 : Nat
  l1 : Nat
  l2 : Nat
  deriving DecidableEq

def Levels.of (yMax yMin : Nat) : Levels where
  l0 := CInt.u16 (yMin + (yMax - yMin) / 4)
  l1 := CInt.u16 (yMin + 2 * (yMax - yMin) / 4)
  l2 := CInt.u16 (yMin + 3 * (yMax - yMin) / 4)

/-- The division in the band of a sample: what is divided and by what. -/
def Levels.division (l : Levels) (yMax yMin x : Nat) : Int × Int :=
  if x ≤ l.l0 then ((x : Int) - yMin, (l.l0 : Int) - yMin)
  else if x ≤ l.l1 then ((x : Int) - l.l0, (l.l1 : Int) - l.l0)
  else if x ≤ l.l2 then ((x : Int) - l.l1, (l.l2 : Int) - l.l1)
  else ((x : Int) - l.l2, (yMax : Int) - l.l2)

/-- The colour of a sample. -/
def Levels.colour (fpu : Fpu) (l : Levels) (yMax yMin x : Nat) : Rgb :=
  let (a, b) := l.division yMax yMin x
  let v := fpu.scale a b
  if x ≤ l.l0 then ⟨0, 0, v⟩
  else if x ≤ l.l1 then ⟨0, v, 255 - v⟩
  else if x ≤ l.l2 then ⟨v, 255, 0⟩
  else ⟨255, 255 - v, 0⟩

/-- The three bytes of a colour as a format has them in memory. -/
def PixelFormat.order (fmt : PixelFormat) (c : Rgb) : Byte × Byte × Byte :=
  match fmt with
  | .bgr24 | .bgr32 => (c.r, c.g, c.b)
  | _ => (c.b, c.g, c.r)

namespace ThermalUsb

/-- One pixel of the search; the pair is `yMax` and `yMin`. -/
def scanPixel (heap : Heap) (img : FrameFormat) (i j : Nat) (y : Nat × Nat) :
    Option (Nat × Nat) :=
  (heap.load16 img.ptr (CInt.u32 (i * img.bytesPerLine) + 2 * j)).map fun w =>
    (if y.1 < w.toNat then w.toNat else y.1, if y.2 > w.toNat then w.toNat else y.2)

/-- `yMax` and `yMin`. Without an image plane the source leaves them alone,
and nobody uses them. -/
def infraredFindMaxMin (s : ThermalUsb) : Option (Nat × Nat) :=
  let img := s.desc (.imgRawFrame s.frameIndex)
  (s.heap.load16 img.ptr 0).bind fun w =>
    forLoop 0 img.height (fun i => forLoop 0 img.width (scanPixel s.heap img i))
      (w.toNat, w.toNat)

/-- `ptr8[0]`, `ptr8[1]` and `ptr8[2]` -/
def storeBytes (ptr : Option Nat) (pos : Nat) (bytes : Byte × Byte × Byte) (heap : Heap) :
    Option Heap :=
  (heap.store8 ptr pos bytes.1).bind fun heap =>
    (heap.store8 ptr (pos + 1) bytes.2.1).bind fun heap =>
      heap.store8 ptr (pos + 2) bytes.2.2

/-- One pixel of the colouring. In a format that is not one of the four
nothing is stored. -/
def paintPixel (fpu : Fpu) (s : ThermalUsb) (l : Levels) (yMax yMin : Nat) (i j : Nat)
    (heap : Heap) : Option Heap :=
  let img := s.desc (.imgRawFrame s.frameIndex)
  let frame := s.desc (.frame s.frameIndex)
  (heap.load16 img.ptr (CInt.u32 (i * img.bytesPerLine) + 2 * j)).bind fun w =>
    match slotBytes s.pixelFmt (.frame s.frameIndex) with
    | none => some heap
    | some bytes =>
        (CInt.int ((j : Int) * bytes)).bind fun column =>
          storeBytes frame.ptr (CInt.u32 (i * frame.bytesPerLine) + column.toNat)
            (s.pixelFmt.order (l.colour fpu yMax yMin w.toNat)) heap

def pseudoColorAdaptiveThreshold1 (fpu : Fpu) (s : ThermalUsb) : Option ThermalUsb :=
  let img := s.desc (.imgRawFrame s.frameIndex)
  if img.ptr = none then some s
  else
    s.infraredFindMaxMin.bind fun (yMax, yMin) =>
      let l := Levels.of yMax yMin
      -- from here on `yMin` and `yMax` are the first sample
      (s.heap.load16 img.ptr 0).bind fun w =>
        (forLoop 0 img.height (fun i => forLoop 0 img.width
          (s.paintPixel fpu l w.toNat w.toNat i)) s.heap).map fun heap =>
            { s with heap := heap }

def pseudoColor (fpu : Fpu) (s : ThermalUsb) : Option ThermalUsb :=
  if (s.desc (.frame s.frameIndex)).ptr = none then some s
  else (s.pseudoColorAdaptiveThreshold1 fpu).bind processTemperature

end ThermalUsb

end IotCamera
