import IotCamera.Lib.Picture
import IotCamera.Proofs.ThermalGuard
import IotCamera.Proofs.ThermalLedger
import IotCamera.Proofs.ThermalRing

/-!
# An object at work

Between an `uvcOpen` that succeeded and the next call that opens or closes,
the planes keep the size they were opened for. `Working` is what holds of the
object in that time: every descriptor has the size, every plane that is not a
colour frame has its block, and a colour frame that has one has the rows of
the format the object is set to. A change of format that got no memory is the
only thing that takes a block away, and only from the colour frames.

A camera frame of the size `uvcOpen` was given is two pictures, one above the
other, and the rotation the object is set to is a number of quarter turns.
-/

namespace IotCamera

open Lts

/-- The rotation, in quarter turns clockwise. -/
def RotateMode.quarters : RotateMode → Nat
  | .rotate0 => 0
  | .rotate90 => 1
  | .rotate180 => 2
  | .rotate270 => 3

namespace UvcFrame

/-- A frame of the size given to `uvcOpen`, with all its samples in the
data. -/
structure Matches (f : UvcFrame) (w h : Nat) : Prop where
  width_eq : f.width = w
  height_eq : f.height = h
  inside : ∀ i j, i < h → j < w → f.step * i + 2 * j + 2 ≤ f.data.size

/-- The image. -/
def upperHalf (f : UvcFrame) : Picture (BitVec 16) where
  rows := f.height / 2
  cols := f.width
  pixel x := f.data.word (f.upper x.1 x.2)

/-- The temperatures. -/
def lowerHalf (f : UvcFrame) : Picture (BitVec 16) where
  rows := f.height / 2
  cols := f.width
  pixel x := f.data.word (f.lower x.1 x.2)

end UvcFrame

/-- What follows `uvcOpen` as long as the object stays open. -/
def ThermalUsb.Call.Keeps : ThermalUsb.Call → Prop
  | .control (.uvcOpen _ _) | .control .close => False
  | _ => True

namespace ThermalUsb

variable {s s' : ThermalUsb} {slot : Slot} {alloc : Allocator} {fpu : Fpu} {f : UvcFrame}
  {width height w h : Nat} {mode : RotateMode}

/-- The raw image plane of the current buffer. -/
def img (s : ThermalUsb) : FrameFormat := s.desc (.imgRawFrame s.frameIndex)

/-- The raw temperature plane of the current buffer. -/
def temp (s : ThermalUsb) : FrameFormat := s.desc (.temperatureRawFrame s.frameIndex)

/-- The colour frame of the current buffer. -/
def coloured (s : ThermalUsb) : FrameFormat := s.desc (.frame s.frameIndex)

structure Working (width height : Nat) (s : ThermalUsb) : Prop extends Sound s where
  cnt : s.frameCnt < 5
  width_eq : ∀ slot, (s.desc slot).width = width
  height_eq : ∀ slot, (s.desc slot).height = height
  line_eq : ∀ slot bytes, slotBytes s.pixelFmt slot = some bytes →
    (s.desc slot).ptr ≠ none → (s.desc slot).bytesPerLine = lineBytes width bytes
  ptr : ∀ slot, slot ∉ frameSlots → (s.desc slot).ptr ≠ none

theorem Opened.working (hopened : Opened width height s) (hfmt : s.pixelFmt ≠ .y16)
    (hcnt : s.frameCnt < 5) : Working width height s where
  toOwned := hopened.toOwned
  fmt := hfmt
  cnt := hcnt
  width_eq slot := (hopened.shaped slot).width_eq
  height_eq slot := (hopened.shaped slot).height_eq
  line_eq slot bytes hbytes _ := (hopened.shaped slot).line_eq bytes hbytes
  ptr slot _ := hopened.ptr slot

theorem Touches.working (ht : Touches s s') (hs : Working width height s) :
    Working width height s' where
  toSound := ht.sound hs.toSound
  cnt := ht.cnt hs.cnt
  width_eq slot := by rw [ht.desc]; exact hs.width_eq slot
  height_eq slot := by rw [ht.desc]; exact hs.height_eq slot
  line_eq slot bytes hbytes hptr := by
    rw [ht.ptr] at hptr
    rw [ht.pixelFmt] at hbytes
    rw [ht.desc]
    exact hs.line_eq slot bytes hbytes hptr
  ptr slot hslot := by rw [ht.ptr]; exact hs.ptr slot hslot

theorem Formats.sameSize {fmt : PixelFormat} {ok : Bool} (hformats : Formats alloc fmt s s' ok)
    (i : Fin 2) : SameSize s s' (.frame i) := by
  cases hformats with
  | unchanged _ _ hsame =>
      rw [hsame]
      exact ⟨rfl, rfl⟩
  | changed bytes _ _ _ _ hframe =>
      obtain ⟨p, hp⟩ := hframe i
      rw [SameSize, hp]
      exact ⟨rfl, rfl⟩
  | failed _ _ _ _ _ _ hsize => exact hsize i

/-- A colour frame with a block has the rows of the object's format. -/
theorem Formats.line_eq {fmt : PixelFormat} {ok : Bool} (hs : Working width height s)
    (hformats : Formats alloc fmt s s' ok) (i : Fin 2) {bytes : Nat}
    (hbytes : slotBytes s'.pixelFmt (.frame i) = some bytes)
    (hptr : (s'.desc (.frame i)).ptr ≠ none) :
    (s'.desc (.frame i)).bytesPerLine = lineBytes width bytes := by
  cases hformats with
  | unchanged _ _ hsame =>
      rw [hsame] at hbytes hptr ⊢
      exact hs.line_eq _ bytes hbytes hptr
  | changed bytes' _ hbytes' _ hpix hframe =>
      obtain ⟨p, hp⟩ := hframe i
      rw [hpix, hbytes' i, Option.some.injEq] at hbytes
      rw [hp, hs.width_eq, hbytes]
  | failed _ _ _ hpix hfirst hsecond =>
      refine (Fin.forall_fin_two.2 ⟨fun _ hptr => absurd hfirst hptr, fun hbytes hptr => ?_⟩ :
        ∀ i, slotBytes s'.pixelFmt (.frame i) = some bytes → (s'.desc (.frame i)).ptr ≠ none →
          (s'.desc (.frame i)).bytesPerLine = lineBytes width bytes) i hbytes hptr
      rcases hsecond with hnull | hsame
      · exact absurd hnull hptr
      · rw [hpix] at hbytes
        rw [hsame] at hptr ⊢
        exact hs.line_eq _ bytes hbytes hptr

theorem Working.setPixelFormat {fmt : PixelFormat} {ok : Bool} (hs : Working width height s)
    (hrun : s.setPixelFormat alloc fmt = some (ok, s')) :
    Working width height s' ∧ s'.rotateMode = s.rotateMode := by
  obtain ⟨ok', t, ht, howned, hmode, -, hothers, hformats⟩ :=
    setPixelFormat_spec alloc fmt hs.toOwned
  obtain ⟨rfl, rfl⟩ := Prod.mk.inj (Option.some.inj (ht.symm.trans hrun))
  have hsize : ∀ slot, SameSize s t slot := by
    intro slot
    by_cases hslot : slot ∈ frameSlots
    · obtain ⟨i, rfl⟩ := exists_frame hslot
      exact hformats.sameSize i
    · rw [SameSize, hothers slot hslot]
      exact ⟨rfl, rfl⟩
  refine ⟨⟨⟨howned, hformats.pixelFmt_ne hs.fmt⟩, by rw [hmode.frameCnt]; exact hs.cnt,
    fun slot => (hsize slot).1.trans (hs.width_eq slot),
    fun slot => (hsize slot).2.trans (hs.height_eq slot), fun slot bytes hbytes hptr => ?_,
    fun slot hslot => by rw [hothers slot hslot]; exact hs.ptr slot hslot⟩, hmode.rotateMode⟩
  by_cases hslot : slot ∈ frameSlots
  · obtain ⟨i, rfl⟩ := exists_frame hslot
    exact hformats.line_eq hs i hbytes hptr
  · rw [slotBytes_congr hslot] at hbytes
    rw [hothers slot hslot] at hptr ⊢
    exact hs.line_eq slot bytes hbytes hptr

/-- A call that neither opens nor closes. -/
theorem Working.call {c : Call} (hs : Working width height s) (hc : c.Keeps)
    (hrun : call fpu alloc s c = some s') :
    Working width height s' ∧ s'.rotateMode = s.rotateMode := by
  cases c with
  | uvc_cb f =>
      obtain ⟨⟨r, t⟩, ht, rfl⟩ := Option.map_eq_some_iff.1 hrun
      have htouch := uvc_cb_touches ht
      exact ⟨htouch.working hs, htouch.rotateMode⟩
  | control c =>
      cases c with
      | uvcOpen _ _ | close => exact hc.elim
      | setPixelFormat fmt =>
          obtain ⟨⟨ok, t⟩, ht, rfl⟩ := Option.map_eq_some_iff.1 hrun
          exact hs.setPixelFormat ht
      | setPseudoColorMode m | setTemperatureMode m =>
          cases hrun
          exact ⟨⟨⟨⟨⟨hs.frames.live, hs.frames.apart, hs.frames.bound⟩, hs.sized⟩, hs.fmt⟩,
            hs.cnt, hs.width_eq, hs.height_eq, hs.line_eq, hs.ptr⟩, rfl⟩

/-! ## The planes that are no colour frames -/

theorem Working.line16_eq (hs : Working width height s) (hslot : slot ∉ frameSlots) :
    (s.desc slot).bytesPerLine = lineBytes width 2 := by
  refine hs.line_eq slot 2 ?_ (hs.ptr slot hslot)
  cases slot with
  | frame i => exact absurd (by revert i; decide) hslot
  | _ => rfl

theorem Working.plane_spec (hs : Working width height s)
    (hfit : (layout16 width height).bytes < 4294967296) (slot : Slot) (hslot : slot ∉ frameSlots) :
    ∃ p, (s.desc slot).ptr = some p ∧ s.heap.block p = some (s.plane slot) ∧
      (s.plane slot).size = (layout16 width height).bytes :=
  hs.toOwned.plane_spec hfit (hs.ptr slot hslot) (hs.height_eq slot) (hs.line16_eq hslot)

/-- The filter has what it relies on. -/
theorem Working.ready (hs : Working width height s)
    (hfit : (layout16 width height).bytes < 4294967296) (hrows : 0 < height) :
    Ready (layout16 width height) s := by
  refine hs.toOwned.ready hs.cnt hfit hrows hs.width_eq hs.height_eq fun slot hy => ?_
  have hslot : slot ∉ frameSlots := by
    cases slot with
    | frame i => exact hy.elim
    | _ => simp [frameSlots]
  exact ⟨hs.ptr slot hslot, hs.line16_eq hslot⟩

/-! ## From the first call -/

/-- What every call keeps, those that open and close included. -/
structure Begun (mode : RotateMode) (s : ThermalUsb) : Prop extends Sound s where
  cnt : s.frameCnt < 5
  rotateMode : s.rotateMode = mode

theorem begun_start (junk : ThermalUsb) (mode : RotateMode) : Begun mode (start junk mode) where
  toSound := sound_start junk mode
  cnt := by
    show 0 < 5
    omega
  rotateMode := rfl

theorem Begun.sameMode (hs : Begun mode s) (hsound : Sound s') (hmode : SameMode s s') :
    Begun mode s' :=
  ⟨hsound, by rw [hmode.frameCnt]; exact hs.cnt, hmode.rotateMode.trans hs.rotateMode⟩

theorem Begun.call {c : Call} (hs : Begun mode s) (hrun : call fpu alloc s c = some s') :
    Begun mode s' := by
  cases c with
  | uvc_cb f =>
      obtain ⟨⟨r, t⟩, ht, rfl⟩ := Option.map_eq_some_iff.1 hrun
      have htouch := uvc_cb_touches ht
      exact ⟨htouch.sound hs.toSound, htouch.cnt hs.cnt, htouch.rotateMode.trans hs.rotateMode⟩
  | control c =>
      obtain ⟨t, ht, hsound, -⟩ := control_spec alloc hs.toSound c
      obtain rfl : t = s' := Option.some.inj (ht.symm.trans hrun)
      cases c with
      | uvcOpen w h' =>
          obtain ⟨ok, u, hu, -, hmode, -⟩ := uvcOpen_spec alloc w h' hs.toOwned hs.fmt
          rw [control, hu, Option.map_some, Option.some.injEq] at ht
          exact hs.sameMode hsound (ht ▸ hmode)
      | close =>
          obtain ⟨u, hu, -, hmode, -⟩ := uvcClose_spec hs.toOwned
          rw [control, hu, Option.map_some, Option.some.injEq] at ht
          exact hs.sameMode hsound (ht ▸ hmode)
      | setPixelFormat fmt =>
          obtain ⟨ok, u, hu, -, hmode, -⟩ := setPixelFormat_spec alloc fmt hs.toOwned
          rw [control, hu, Option.map_some, Option.some.injEq] at ht
          exact hs.sameMode hsound (ht ▸ hmode)
      | setPseudoColorMode m | setTemperatureMode m =>
          cases ht
          exact hs.sameMode hsound ⟨rfl, rfl, rfl⟩

/-- The object has been opened for frames of this size, after any calls, and
since then there were calls that neither opened nor closed it. -/
structure OpenedFor (fpu : Fpu) (alloc : Allocator) (mode : RotateMode) (w h : Nat)
    (s : ThermalUsb) : Prop where
  wide : w < 2147483648
  high : h < 2147483648
  run : ∃ junk before s₀ s₁ since, Run (call fpu alloc) (start junk mode) before s₀ ∧
    s₀.uvcOpen alloc w h = some (true, s₁) ∧ Run (call fpu alloc) s₁ since s ∧
    ∀ c ∈ since, c.Keeps

/-- The planes' size, from that of the frame. -/
theorem planeSize_turns (mode : RotateMode) (hw : w < 2147483648) (hh : h < 2147483648)
    (hf : f.Matches w h) :
    planeSize mode w h =
      ((f.upperHalf.turns mode.quarters).cols, (f.upperHalf.turns mode.quarters).rows) := by
  have hcols : CInt.unsigned (w : Int) = f.width := by
    rw [hf.width_eq]
    unfold CInt.unsigned
    omega
  have hrows : CInt.unsigned ((h : Int).tdiv 2) = f.height / 2 := by
    rw [hf.height_eq, Int.tdiv_eq_ediv_of_nonneg (by omega)]
    unfold CInt.unsigned
    omega
  cases mode <;> rw [planeSize, hcols, hrows] <;> rfl

theorem OpenedFor.working (ho : OpenedFor fpu alloc mode w h s) :
    Working (planeSize mode w h).1 (planeSize mode w h).2 s ∧ s.rotateMode = mode := by
  obtain ⟨junk, before, s₀, s₁, since, hbefore, hopen, hsince, hkeeps⟩ := ho.run
  have hbegun : Begun mode s₀ :=
    hbefore.invariant (I := Begun mode) (fun _ _ _ hs hrun => hs.call hrun) (begun_start junk mode)
  obtain ⟨ok, t, ht, -, hmode, hpix, -, hopened, -⟩ :=
    uvcOpen_spec alloc w h hbegun.toOwned hbegun.fmt
  obtain ⟨rfl, rfl⟩ := Prod.mk.inj (Option.some.inj (ht.symm.trans hopen))
  rw [hbegun.rotateMode] at hopened
  have hstart : Working (planeSize mode w h).1 (planeSize mode w h).2 t ∧ t.rotateMode = mode :=
    ⟨(hopened rfl).working (by rw [hpix]; exact hbegun.fmt)
      (by rw [hmode.frameCnt]; exact hbegun.cnt), hmode.rotateMode.trans hbegun.rotateMode⟩
  clear ht hopen hopened hpix hmode
  induction since generalizing t with
  | nil => exact run_nil.1 hsince ▸ hstart
  | cons c since ih =>
      obtain ⟨u, hu, hrest⟩ := run_cons.1 hsince
      have hstep := hstart.1.call (hkeeps c List.mem_cons_self) hu
      exact ih (fun c' hc' => hkeeps c' (List.mem_cons_of_mem c hc')) u hrest
        ⟨hstep.1, hstep.2.trans hstart.2⟩

/-! ## Objects that have been opened -/

/-- Memory that is always there, and holds these bytes. -/
def holding (bytes : Nat → Byte) : Allocator := fun _ => some bytes

/-- Every size of a frame can be opened, and every format and temperature mode
set; the image plane holds what the memory held. -/
theorem exists_openedFor (fpu : Fpu) (bytes : Nat → Byte) (mode : RotateMode) (fmt : PixelFormat)
    (temperature : TemperatureMode) (hfmt : fmt ≠ .y16) (hw : w < 2147483648)
    (hh : h < 2147483648) :
    ∃ s, OpenedFor fpu (holding bytes) mode w h s ∧ s.temperatureMode = temperature ∧
      s.pixelFmt = fmt ∧ s.coloured.ptr ≠ none ∧
      ∃ size, s.plane (.imgRawFrame s.frameIndex) = ⟨size, bytes⟩ := by
  have hrun : ((uvcOpen (holding bytes) w h (start default mode)).bind fun r =>
      (r.2.setPixelFormat (holding bytes) fmt).map fun r' => (r.1, r'.2.pixelFmt,
        r'.2.coloured.ptr.isSome, (r'.2.plane (.imgRawFrame r'.2.frameIndex)).byte)) =
      some (true, fmt, true, bytes) := by
    cases mode <;> cases fmt <;> first | rfl | exact absurd rfl hfmt
  obtain ⟨⟨ok, s⟩, hs, hrun⟩ := Option.bind_eq_some_iff.1 hrun
  obtain ⟨⟨ok', t⟩, ht, heq⟩ := Option.map_eq_some_iff.1 hrun
  simp only [Prod.mk.injEq] at heq
  obtain ⟨rfl, hpix, hptr, hbyte⟩ := heq
  refine ⟨t.setTemperatureMode temperature, ⟨hw, hh, default, [], _, s,
    [.control (.setPixelFormat fmt), .control (.setTemperatureMode temperature)], run_nil.2 rfl,
    hs, run_cons.2 ⟨t, ?_, run_single.2 rfl⟩, ?_⟩, rfl, hpix, Option.isSome_iff_ne_none.1 hptr, _,
    congrArg (Block.mk _) hbyte⟩
  · rw [ThermalUsb.call, control, ht, Option.map_some]
  · intro c hc
    rcases List.mem_cons.1 hc with rfl | hc
    · trivial
    · rw [List.mem_singleton.1 hc]
      trivial

end ThermalUsb

end IotCamera
