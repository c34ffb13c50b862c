import IotCamera.Lib.Loop
import IotCamera.Thermal.Frames

/-!
# The temperature filter

`processTemperature` smooths the raw temperature plane over a 3×3
neighbourhood into the next of the five filter planes, and then computes the
result plane from the five filter planes. Loops, pointers and sums are as in
the source: an address is a block and a byte offset computed in `unsigned
int`, a sum is an `int` that must not overflow, and every access is checked
against its block, so that the function has a result exactly where the C
function has a meaning.

Between two calls the camera's frame is split into the planes of one of the
two buffers. What matters of that here is which buffer is current and what
its raw temperature plane holds, and both are left open: a run of the filter
is a list of such `Feed`s.
-/

namespace IotCamera

namespace ThermalUsb

/-- `temperatureFilterFrame[m]`, for an index of the array. -/
def filterFrame (s : ThermalUsb) (m : Nat) : Option FrameFormat :=
  if h : m < 5 then some (s.desc (.temperatureFilterFrame ⟨m, h⟩)) else none

/-- `sum += ptr16[n]`, for the sample `pos` bytes into a plane. -/
def addSample (heap : Heap) (d : FrameFormat) (pos : Nat) (sum : Int) : Option Int :=
  (heap.load16 d.ptr pos).bind fun v => CInt.int (sum + v.toInt)

/-- The sum over the neighbourhood of a cell. The row is added to the pointer
first and the column, an `int` that is not negative here, after it. -/
def boxSum (heap : Heap) (raw : FrameFormat) (i j : Nat) : Option Int :=
  forLoop 0 (2 * kSize + 1) (fun m sum =>
    (CInt.int (((j - kSize : Nat) : Int) * 2)).bind fun column =>
      let ptr16 := CInt.u32 ((i - kSize + m) * raw.bytesPerLine) + column.toNat
      forLoop 0 (2 * kSize + 1) (fun n => addSample heap raw (ptr16 + 2 * n)) sum) 0

/-- `ptr16Dst[j] = value` in row `i` of a plane. -/
def storeSample (d : FrameFormat) (i j : Nat) (value : Int) (heap : Heap) : Option Heap :=
  heap.store16 d.ptr (CInt.u32 (i * d.bytesPerLine) + 2 * j) (CInt.short value)

/-- The body of the first two loops. -/
def filterCell (raw filter : FrameFormat) (i j : Nat) (heap : Heap) : Option Heap :=
  (boxSum heap raw i j).bind fun sum =>
    storeSample filter i j (sum.tdiv ((2 * kSize + 1) * (2 * kSize + 1) : Nat)) heap

/-- The sum over the filter planes, from the start of row `i` of each. -/
def temporalSum (s : ThermalUsb) (heap : Heap) (i : Nat) : Option Int :=
  forLoop 0 tSize (fun m sum =>
    (s.filterFrame m).bind fun filter =>
      addSample heap filter (CInt.u32 (i * filter.bytesPerLine)) sum) 0

/-- The body of the last two loops. -/
def resultCell (s : ThermalUsb) (result : FrameFormat) (i j : Nat) (heap : Heap) :
    Option Heap :=
  (s.temporalSum heap i).bind fun sum => storeSample result i j (sum.tdiv tSize) heap

def processTemperature (s : ThermalUsb) : Option ThermalUsb :=
  let raw := s.desc (.temperatureRawFrame s.frameIndex)
  let result := s.desc (.temperatureResultFrame s.frameIndex)
  (s.filterFrame s.frameCnt).bind fun filter =>
    (forLoop kSize (CInt.sub raw.height kSize) (fun i =>
      forLoop kSize (CInt.sub raw.width kSize) (filterCell raw filter i)) s.heap).bind
      fun heap =>
        let frameCnt := if s.frameCnt + 1 ≥ tSize then 0 else s.frameCnt + 1
        (forLoop 0 result.height (fun i =>
          forLoop 0 raw.width (s.resultCell result i)) heap).map fun heap =>
            { s with heap := heap, frameCnt := frameCnt }

/-- What is there for a call to process. -/
structure Feed where
  frameIndex : Fin 2
  raw : Nat → Byte

/-- Another buffer is current and has new raw temperatures. -/
def feed (f : Feed) (s : ThermalUsb) : Option ThermalUsb :=
  (s.heap.overwrite (s.desc (.temperatureRawFrame f.frameIndex)).ptr f.raw).map
    fun heap => { s with heap := heap, frameIndex := f.frameIndex }

/-- One step of a run. -/
def process (s : ThermalUsb) (f : Feed) : Option ThermalUsb :=
  (s.feed f).bind processTemperature

end ThermalUsb

end IotCamera
