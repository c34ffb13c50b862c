import IotCamera.Thermal.Callback

/-!
# From the driver to the callback

`v4l2_read_frame` copies the mapped buffer the driver hands it into a new
block and reports the buffer's length; `IRCHANNEL::run` makes a `uvc_frame_t`
of that block, with the width, the height and the row length it has set
itself, and calls `uvc_cb`. What the driver and the allocator answer is part
of the call.

The length of a buffer is an unsigned word and is reported as an `int`. From
2³¹ on that is negative, and the copy of so many bytes has no meaning.
-/

namespace IotCamera

/-- What is used of a `struct v4l2dev_buf`: its length and the memory mapped
for it. -/
structure MappedBuf where
  length : Nat
  start : Nat → Byte

/-- The answers to the calls of one `v4l2_read_frame`. -/
structure ReadAnswer where
  select : Int
  dqbuf : Int
  /-- the buffer that was dequeued -/
  index : Nat
  /-- whether there is memory for the copy -/
  memory : Bool
  qbuf : Int

/-- What the call returns, `*data` and `*dlen`. -/
structure ReadFrame where
  ret : Int
  data : Option Block
  dlen : Int

def v4l2_read_frame (bufs : List MappedBuf) (o : ReadAnswer) : Option ReadFrame :=
  if o.select < 0 then some ⟨o.select, none, 0⟩
  else if o.dqbuf < 0 then some ⟨o.dqbuf, none, 0⟩
  else
    bufs[o.index]?.bind fun buf =>
      if buf.length = 0 ∨ ¬ o.memory then some ⟨o.qbuf, none, 0⟩
      else if buf.length < 2147483648 then
        some ⟨o.qbuf, some ⟨buf.length, buf.start⟩, buf.length⟩
      else none

/-- The frame `IRCHANNEL::run` makes of a block, for its `w` and `h`. -/
def irFrame (w h : Nat) (data : Block) : UvcFrame where
  data := data
  width := w
  height := h
  step := w * 2

/-- The body of the loop of `IRCHANNEL::run` up to the answer of `uvc_cb`; its
`w` and `h` are 256 and 384. A frame of no length is passed over. -/
def captureFrame (fpu : Fpu) (w h : Nat) (bufs : List MappedBuf) (o : ReadAnswer)
    (s : ThermalUsb) : Option ThermalUsb :=
  (v4l2_read_frame bufs o).bind fun r =>
    if r.dlen ≤ 0 then some s
    else r.data.bind fun data => (s.uvc_cb fpu (irFrame w h data)).map Prod.snd

end IotCamera
