import IotCamera.Lib.CInt
import IotCamera.Lib.Memory

/-!
# The thermal camera's frames

`thermalUsb` owns thirteen planes: two each for the colour image, the raw
temperatures, the raw image and the resulting temperatures, and five for the
filtered temperatures. A plane is a descriptor with its format, its geometry
and a pointer to its block. `uvcOpen` computes the geometry of all of them
from the size of the camera's frame, frees what they point to and allocates
them anew.

The source writes out the same few lines for each array. Here an array
element is a `Slot`, what is done to each of them is one function of the
slot, and the loops go over the slots in the source's order. Sizes are
`unsigned int`: every product and sum of them wraps. A call with no meaning
(a `free` of a block that is not live) has no result.
-/

namespace IotCamera

/-- `T_SIZE` -/
def tSize : Nat := 5

/-- `K_SIZE` -/
def kSize : Nat := 1

inductive PixelFormat
  | rgb24
  | bgr24
  | rgb32
  | bgr32
  | y16
  deriving DecidableEq, Repr, Inhabited

inductive RotateMode
  | rotate0
  | rotate90
  | rotate180
  | rotate270
  deriving DecidableEq, Repr, Inhabited

inductive TemperatureMode
  | kelvin
  | centigrade
  | fahrenheit
  deriving DecidableEq, Repr, Inhabited

structure FrameFormat where
  pixelFmt : PixelFormat
  width : Nat
  height : Nat
  bytesPerLine : Nat
  ptr : Option Nat
  deriving DecidableEq, Repr, Inhabited

/-- The descriptors of the object, array by array. -/
inductive Slot
  | frame (i : Fin 2)
  | temperatureRawFrame (i : Fin 2)
  | imgRawFrame (i : Fin 2)
  | temperatureResultFrame (i : Fin 2)
  | temperatureFilterFrame (m : Fin 5)
  deriving DecidableEq, Repr

/-- The order of the loops over `i < 2`. -/
def planeSlots : List Slot :=
  [.frame 0, .temperatureRawFrame 0, .imgRawFrame 0, .temperatureResultFrame 0,
    .frame 1, .temperatureRawFrame 1, .imgRawFrame 1, .temperatureResultFrame 1]

/-- The order of the loops over `i < T_SIZE`. -/
def filterSlots : List Slot :=
  [.temperatureFilterFrame 0, .temperatureFilterFrame 1, .temperatureFilterFrame 2,
    .temperatureFilterFrame 3, .temperatureFilterFrame 4]

/-- `frame[0]` and `frame[1]` -/
def frameSlots : List Slot := [.frame 0, .frame 1]

/-- The object and the heap it allocates from. `frameIndex` is 0 or 1, since
it starts at 0 and is only ever replaced by `1 - frameIndex`. -/
structure ThermalUsb where
  desc : Slot → FrameFormat
  pixelFmt : PixelFormat
  temperatureMode : TemperatureMode
  rotateMode : RotateMode
  frameIndex : Fin 2
  frameCnt : Nat
  startFlag : Bool
  openFlag : Bool
  uvcFrameWidth : Int
  uvcFrameHeight : Int
  heap : Heap
  deriving Inhabited

namespace ThermalUsb

/-- The constructor, which leaves some fields as `junk` has them. The heap is
the object's own part of the heap, where there is nothing yet. -/
def new (junk : ThermalUsb) : ThermalUsb :=
  { junk with
    desc := fun slot => { junk.desc slot with width := 0, height := 0, ptr := none }
    pixelFmt := .rgb24
    temperatureMode := .centigrade
    rotateMode := .rotate0
    frameIndex := 0
    frameCnt := 0
    startFlag := false
    openFlag := false
    heap := .empty }

/-- `frameIndex = 1 - frameIndex` -/
def switchFrame (s : ThermalUsb) : ThermalUsb := { s with frameIndex := 1 - s.frameIndex }

def setDesc (slot : Slot) (d : FrameFormat) (s : ThermalUsb) : ThermalUsb :=
  { s with desc := Function.update s.desc slot d }

def setPtr (slot : Slot) (ptr : Option Nat) (s : ThermalUsb) : ThermalUsb :=
  s.setDesc slot { s.desc slot with ptr := ptr }

/-- `if (ptr != NULL) { free(ptr); ptr = NULL; }` -/
def freeSlot (slot : Slot) (s : ThermalUsb) : Option ThermalUsb :=
  match (s.desc slot).ptr with
  | none => some s
  | some p => (s.heap.free p).map fun heap => { s with heap := heap }.setPtr slot none

/-- `ptr = malloc(bytesPerLine * height)` and whether it is not NULL. -/
def mallocSlot (alloc : Allocator) (slot : Slot) (s : ThermalUsb) : Bool × ThermalUsb :=
  let d := s.desc slot
  let (ptr, heap) := s.heap.malloc alloc (CInt.u32 (d.bytesPerLine * d.height))
  (ptr.isSome, { s with heap := heap }.setPtr slot ptr)

/-- Do something to one slot after another, up to the first that answers
`false`. -/
def untilFalse (f : Slot → ThermalUsb → Option (Bool × ThermalUsb)) :
    List Slot → ThermalUsb → Option (Bool × ThermalUsb)
  | [], s => some (true, s)
  | slot :: rest, s =>
      (f slot s).bind fun (ok, s) => if ok then untilFalse f rest s else some (false, s)

/-- The padded bytes of a row of `width` pixels of `bytes` bytes. -/
def lineBytes (width bytes : Nat) : Nat := CInt.u32 (CInt.u32 (width * bytes) + 3) / 4 * 4

/-- The format `uvcOpen` gives a slot: the object's own for a colour frame. -/
def slotFmt (fmt : PixelFormat) : Slot → PixelFormat
  | .frame _ => fmt
  | _ => .y16

/-- The bytes of a pixel of a slot; a colour frame has no other formats than
these four. -/
def slotBytes (fmt : PixelFormat) : Slot → Option Nat
  | .frame _ =>
      match fmt with
      | .rgb24 | .bgr24 => some 3
      | .rgb32 | .bgr32 => some 4
      | .y16 => none
  | _ => some 2

/-- What `uvcOpen` does to one descriptor before it allocates. -/
def openSlot (width height : Nat) (slot : Slot) (s : ThermalUsb) :
    Option (Bool × ThermalUsb) :=
  let d := { s.desc slot with width := width, height := height }
  match slotBytes s.pixelFmt slot with
  | none => some (false, s.setDesc slot d)
  | some bytes =>
      ((s.setDesc slot { d with
        bytesPerLine := lineBytes width bytes
        pixelFmt := slotFmt s.pixelFmt slot }).freeSlot slot).map fun s => (true, s)

def allocSlot (alloc : Allocator) (slot : Slot) (s : ThermalUsb) :
    Option (Bool × ThermalUsb) :=
  (s.freeSlot slot).map (mallocSlot alloc slot)

def myFreeBuffer (s : ThermalUsb) : Option ThermalUsb :=
  (planeSlots ++ filterSlots).foldlM (fun s slot => s.freeSlot slot) s

/-- A failure ends the loop it happens in; the second loop runs all the
same. -/
def myAllocBuffer (alloc : Allocator) (s : ThermalUsb) : Option (Bool × ThermalUsb) :=
  (untilFalse (allocSlot alloc) planeSlots s).bind fun (flag, s) =>
    (untilFalse (allocSlot alloc) filterSlots s).bind fun (flag', s) =>
      if flag && flag' then some (true, s)
      else s.myFreeBuffer.map fun s => (false, s)

/-- The geometry of the planes for the size of the camera's frame, whose
lower half holds the temperatures. -/
def planeSize (mode : RotateMode) (w h : Int) : Nat × Nat :=
  match mode with
  | .rotate0 | .rotate180 => (CInt.unsigned w, CInt.unsigned (h.tdiv 2))
  | .rotate90 | .rotate270 => (CInt.unsigned (h.tdiv 2), CInt.unsigned w)

def uvcOpen (alloc : Allocator) (w h : Int) (s : ThermalUsb) :
    Option (Bool × ThermalUsb) :=
  let s := { s with uvcFrameHeight := h, uvcFrameWidth := w }
  let (width, height) := planeSize s.rotateMode w h
  (untilFalse (openSlot width height) (planeSlots ++ filterSlots) s).bind fun (ok, s) =>
    if ok then
      (s.myAllocBuffer alloc).map fun (ok, s) =>
        (ok, if ok then { s with openFlag := true } else s)
    else some (false, s)

end ThermalUsb

end IotCamera
