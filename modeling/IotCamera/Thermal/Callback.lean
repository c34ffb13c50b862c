import IotCamera.Thermal.Control
import IotCamera.Thermal.Palette

/-!
# One frame of the camera

`uvc_cb` takes a frame of the camera, whose upper half is the image and whose
lower half the temperatures, and copies the two halves to the raw planes of
the current buffer, turned by the rotation the object is set to. Then it has
the image coloured, hands the coloured frame out as a matrix with three bytes
for a pixel, and makes the other buffer the current one.

The four rotations are written out as four loops, and each of them has three
places that store a temperature, one for each mode. The loops differ in where
they store only, so here there is one loop, and `imgPos` and `tempPos` are
the index expressions of the source, in `unsigned int` and with all their
slips: two of them, for the temperatures, are not what the one for the image
is.

`step` and its products are `size_t`, which holds the size of any block.
-/

namespace IotCamera

/-- What is used of a `uvc_frame_t`; `data` is the block it points to. -/
structure UvcFrame where
  data : Block
  width : Nat
  height : Nat
  step : Nat

namespace UvcFrame

/-- The bytes into `data` at which sample `(i, j)` of the image is. -/
def upper (f : UvcFrame) (i j : Nat) : Nat := f.step * i + 2 * j

/-- The bytes into `data` at which sample `(i, j)` of the temperatures is. -/
def lower (f : UvcFrame) (i j : Nat) : Nat := f.step * (i + f.height / 2) + 2 * j

end UvcFrame

/-- A matrix with three bytes for each element. -/
structure Mat where
  rows : Nat
  cols : Nat
  pixel : Nat → Nat → Byte × Byte × Byte

namespace TemperatureMode

/-- `(int16_t)(v * 1.8 - 7354)`. In `double` this is exact for a 16-bit
sample, and so is its integer part. -/
def toFahrenheit (fpu : Fpu) (v : Int) : BitVec 16 :=
  let z := (9 * v - 36770).tdiv 5
  if -32768 ≤ z ∧ z ≤ 32767 then CInt.short z else fpu.short z

/-- The temperature that is stored for a sample. -/
def convert (fpu : Fpu) (mode : TemperatureMode) (v : BitVec 16) : BitVec 16 :=
  match mode with
  | .kelvin => v
  | .centigrade => CInt.short (v.toInt - 4370)
  | .fahrenheit => toFahrenheit fpu v.toInt

end TemperatureMode

namespace ThermalUsb

/-- The bytes into the raw image plane at which sample `(i, j)` is stored;
`img` and `temp` are the descriptors of the two raw planes. -/
def imgPos (mode : RotateMode) (img temp : FrameFormat) (i j : Nat) : Nat :=
  match mode with
  | .rotate0 => CInt.u32 (img.bytesPerLine * i) + 2 * j
  | .rotate180 =>
      CInt.u32 (img.bytesPerLine * CInt.sub (CInt.sub img.height 1) i) +
        2 * CInt.sub (CInt.sub img.width 1) j
  | .rotate90 =>
      2 * CInt.sub (CInt.sub (CInt.u32 (CInt.u32 (j * temp.bytesPerLine) / 2 + temp.width)) 1) i
  | .rotate270 =>
      2 * CInt.u32
        (CInt.u32 (CInt.sub (CInt.sub temp.height 1) j * temp.bytesPerLine) / 2 + i)

/-- The bytes into the raw temperature plane at which sample `(i, j)` is
stored. -/
def tempPos (mode : RotateMode) (temperature : TemperatureMode) (img temp : FrameFormat)
    (i j : Nat) : Nat :=
  match mode with
  | .rotate0 => CInt.u32 (temp.bytesPerLine * i) + 2 * j
  | .rotate180 =>
      CInt.u32 (temp.bytesPerLine * CInt.sub (CInt.sub temp.height 1) i) +
        2 * CInt.sub (CInt.sub temp.width 1) j
  | .rotate90 =>
      -- only the branch for Kelvin does not halve the bytes of a row
      let row := CInt.u32 (j * img.bytesPerLine)
      let row := if temperature = .kelvin then row else row / 2
      2 * CInt.sub (CInt.sub (CInt.u32 (row + img.width)) 1) i
  | .rotate270 =>
      -- the column counts from the right, which for the image it does not
      2 * CInt.sub (CInt.sub (CInt.u32
        (CInt.u32 (CInt.sub (CInt.sub img.height 1) j * img.bytesPerLine) / 2 + img.width)) 1) i

/-- The body of the copy loops. -/
def copyPixel (fpu : Fpu) (s : ThermalUsb) (f : UvcFrame) (i j : Nat) (heap : Heap) :
    Option Heap :=
  let img := s.desc (.imgRawFrame s.frameIndex)
  let temp := s.desc (.temperatureRawFrame s.frameIndex)
  (f.data.load16 (f.upper i j)).bind fun v =>
    (heap.store16 img.ptr (imgPos s.rotateMode img temp i j) v).bind fun heap =>
      (f.data.load16 (f.lower i j)).bind fun v =>
        heap.store16 temp.ptr (tempPos s.rotateMode s.temperatureMode img temp i j)
          (s.temperatureMode.convert fpu v)

/-- The copy loops. -/
def copyFrame (fpu : Fpu) (f : UvcFrame) (s : ThermalUsb) : Option ThermalUsb :=
  (forLoop 0 (f.height / 2) (fun i => forLoop 0 f.width (s.copyPixel fpu f i)) s.heap).map
    fun heap => { s with heap := heap }

/-- `cv::Mat(height, width, CV_8UC3, ptr, bytesPerLine)`, copied: row `i`
starts at `i * bytesPerLine` and has three bytes for each element. -/
def depthMat (s : ThermalUsb) : Option Mat :=
  let frame := s.desc (.frame s.frameIndex)
  (frame.ptr.bind s.heap.block).bind fun b =>
    if frame.height = 0 ∨ (frame.height - 1) * frame.bytesPerLine + 3 * frame.width ≤ b.size then
      some {
        rows := frame.height
        cols := frame.width
        pixel := fun i j =>
          let pos := i * frame.bytesPerLine + 3 * j
          (b.byte pos, b.byte (pos + 1), b.byte (pos + 2)) }
    else none

/-- The answer is NULL, or the coloured frame; with it comes `outframe`. -/
def uvc_cb (fpu : Fpu) (f : UvcFrame) (s : ThermalUsb) :
    Option (Option (Nat × Mat) × ThermalUsb) :=
  match (s.desc (.frame s.frameIndex)).ptr with
  | none => some (none, s)
  | some p =>
      let frame := s.desc (.frame s.frameIndex)
      let s := s.setDesc (.frame s.frameIndex) { frame with pixelFmt := s.pixelFmt }
      (s.copyFrame fpu f).bind fun s =>
        (s.pseudoColor fpu).bind fun s =>
          s.depthMat.map fun outframe =>
            (some (p, outframe), s.switchFrame)

/-- A public call. -/
inductive Call
  | control (c : Control)
  | uvc_cb (f : UvcFrame)

def call (fpu : Fpu) (alloc : Allocator) (s : ThermalUsb) : Call → Option ThermalUsb
  | .control c => control alloc s c
  | .uvc_cb f => (s.uvc_cb fpu f).map Prod.snd

end ThermalUsb

end IotCamera
