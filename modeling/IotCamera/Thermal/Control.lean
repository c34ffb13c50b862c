import IotCamera.Thermal.Frames

/-!
# Closing the camera and changing its settings

The public calls of `thermalUsb` next to `uvcOpen`. `close` is `uvcClose`,
which clears the descriptors one after another and then has `myFreeBuffer`
free what is left. `setPixelFormat` gives the two colour frames new rows and
new blocks, one frame after the other.

In the branch of `uvcClose` for a result plane the pointer that is tested is
that of the result plane and the pointer that is freed that of the raw image.
`closeVictim` says so.
-/

namespace IotCamera

/-- There is one mode, so an object has no other, and the field for it is left
out. -/
inductive PseudoColorMode
  | adaptiveThreshold1
  deriving DecidableEq, Repr

namespace ThermalUsb

/-- `free(ptr)` -/
def freePtr (ptr : Option Nat) (s : ThermalUsb) : Option ThermalUsb :=
  match ptr with
  | none => some s
  | some p => (s.heap.free p).map fun heap => { s with heap := heap }

/-- Whose pointer `uvcClose` frees when it clears a slot. -/
def closeVictim : Slot → Slot
  | .temperatureResultFrame i => .imgRawFrame i
  | slot => slot

/-- What `uvcClose` does to one descriptor. -/
def closeSlot (slot : Slot) (s : ThermalUsb) : Option ThermalUsb :=
  let s := s.setDesc slot { s.desc slot with width := 0, height := 0, bytesPerLine := 0 }
  match (s.desc slot).ptr with
  | none => some s
  | some _ => (s.freePtr (s.desc (closeVictim slot)).ptr).map (setPtr slot none)

def uvcClose (s : ThermalUsb) : Option (Bool × ThermalUsb) :=
  let s := { s with startFlag := false, openFlag := false }
  ((planeSlots ++ filterSlots).foldlM (fun s slot => closeSlot slot s) s).bind fun s =>
    s.myFreeBuffer.map fun s => (true, s)

/-- The body of the loop of `setPixelFormat`. If there is no memory for a
frame, the frames before it are freed. -/
def formatSlot (alloc : Allocator) (fmt : PixelFormat) (slot : Slot) (s : ThermalUsb) :
    Option (Bool × ThermalUsb) :=
  match slotBytes fmt slot with
  | none => some (false, s)
  | some bytes =>
      let d := s.desc slot
      ((s.setDesc slot { d with bytesPerLine := lineBytes d.width bytes }).freeSlot slot).bind
        fun s =>
          let (ok, s) := mallocSlot alloc slot s
          if ok then some (true, s)
          else ((frameSlots.takeWhile (· ≠ slot)).foldlM (fun s slot => freeSlot slot s) s).map
            fun s => (false, s)

def setPixelFormat (alloc : Allocator) (fmt : PixelFormat) (s : ThermalUsb) :
    Option (Bool × ThermalUsb) :=
  if s.pixelFmt = fmt then some (true, s)
  else (untilFalse (formatSlot alloc fmt) frameSlots s).map fun (ok, s) =>
    (ok, if ok then { s with pixelFmt := fmt } else s)

def setPseudoColorMode (_mode : PseudoColorMode) (s : ThermalUsb) : ThermalUsb := s

def setTemperatureMode (mode : TemperatureMode) (s : ThermalUsb) : ThermalUsb :=
  { s with temperatureMode := mode }

/-- A public call that shows no picture. -/
inductive Control
  | uvcOpen (w h : Int)
  | close
  | setPixelFormat (fmt : PixelFormat)
  | setPseudoColorMode (mode : PseudoColorMode)
  | setTemperatureMode (mode : TemperatureMode)
  deriving DecidableEq, Repr

/-- A call, whatever it answers. -/
def control (alloc : Allocator) (s : ThermalUsb) : Control → Option ThermalUsb
  | .uvcOpen w h => (s.uvcOpen alloc w h).map Prod.snd
  | .close => s.uvcClose.map Prod.snd
  | .setPixelFormat fmt => (s.setPixelFormat alloc fmt).map Prod.snd
  | .setPseudoColorMode mode => some (s.setPseudoColorMode mode)
  | .setTemperatureMode mode => some (s.setTemperatureMode mode)

end ThermalUsb

end IotCamera
