import IotCamera.Proofs.ThermalColours
import IotCamera.Proofs.ThermalRotation

/-!
# The picture a camera frame becomes

A call of `uvc_cb` turns the image, paints the colour frame and hands it out
as a matrix of three bytes for a pixel. `Takes.uvc_cb_spec` puts the three
together: the matrix is a view of a block that has the colour of every pixel
where the painter puts it.

The painter puts pixels three or four bytes apart, by the format, and the view
reads them three apart. So in the formats with four bytes the second pixel of
a row starts at a byte nobody painted, and two frames that ask for different
colours there get the same byte. In the formats with three bytes the picture
is right, whenever the sizes and offsets that are computed do not wrap.
-/

namespace IotCamera

open Layout

/-- All samples of a picture. -/
def samples (P : Picture (BitVec 16)) : Set Nat := (fun x => (P.pixel x).toNat) '' P.cells

/-- The bytes of the colour a pixel gets. -/
def falseColour (fpu : Fpu) (fmt : PixelFormat) (P : Picture (BitVec 16)) (yMax yMin : Nat)
    (x : Nat × Nat) : Triple :=
  fmt.order ((Levels.of yMax yMin).colour fpu (P.pixel (0, 0)).toNat (P.pixel (0, 0)).toNat
    (P.pixel x).toNat)

/-- A matrix shows a picture in the colours of a format. -/
structure Shows (fpu : Fpu) (fmt : PixelFormat) (P : Picture (BitVec 16)) (m : Mat) : Prop where
  rows_eq : m.rows = P.rows
  cols_eq : m.cols = P.cols
  pixels : ∃ yMax yMin, IsGreatest (samples P) yMax ∧ IsLeast (samples P) yMin ∧
    ∀ x ∈ P.cells, m.pixel x.1 x.2 = falseColour fpu fmt P yMax yMin x

namespace ThermalUsb

variable {s s' : ThermalUsb} {fpu : Fpu} {alloc : Allocator} {f : UvcFrame} {mode : RotateMode}
  {width height step w h p i j : Nat} {x y : Nat × Nat} {heap heap' : Heap}

/-! ## Frames that can be painted -/

/-- A colour frame has a pixel, and neither its size nor the offset of a pixel
in its row is too large to compute. -/
structure Paintable (width height step : Nat) : Prop where
  wide : 0 < width
  high : 0 < height
  fits : Fits width height step
  /-- the bytes before a pixel in its row are an `int` -/
  column : (width - 1) * step < 2147483648

theorem frameBytes_cases {fmt : PixelFormat} (hfmt : fmt ≠ .y16) (i : Fin 2) :
    (fmt = .rgb24 ∨ fmt = .bgr24) ∧ slotBytes fmt (.frame i) = some 3 ∨
      (fmt = .rgb32 ∨ fmt = .bgr32) ∧ slotBytes fmt (.frame i) = some 4 := by
  cases fmt with
  | rgb24 => exact Or.inl ⟨Or.inl rfl, rfl⟩
  | bgr24 => exact Or.inl ⟨Or.inr rfl, rfl⟩
  | rgb32 => exact Or.inr ⟨Or.inl rfl, rfl⟩
  | bgr32 => exact Or.inr ⟨Or.inr rfl, rfl⟩
  | y16 => exact absurd rfl hfmt

/-- The planes of two bytes a sample are not larger. -/
theorem Paintable.raw_fit (hpaint : Paintable width height step) (hstep : 2 ≤ step) :
    (layout16 width height).bytes < 4294967296 := by
  have hbytes : width * 2 ≤ width * step := Nat.mul_le_mul_left _ hstep
  have hrow : stride16 width ≤ (width * step + 3) / 4 * 4 := by
    unfold stride16
    omega
  exact Nat.lt_of_le_of_lt (Nat.mul_le_mul_right _ hrow) hpaint.fits.2

/-- A pixel that was painted lies inside its block, and so do the bytes before
it in its row. -/
theorem Working.paintPixel_inside (hs : Working width height s)
    (hbytes : slotBytes s.pixelFmt (.frame s.frameIndex) = some step)
    (hptr : s.coloured.ptr ≠ none) (hsame : Heap.SameSizes s.heap heap) {l : Levels}
    {yMax yMin : Nat} (hrun : paintPixel fpu s l yMax yMin i j heap = some heap') :
    j * step < 2147483648 ∧ CInt.u32 (i * lineBytes width step) + j * step + 3 ≤
      CInt.u32 (lineBytes width step * height) := by
  obtain ⟨v, -, hrun⟩ := Option.bind_eq_some_iff.1 hrun
  simp only [hbytes] at hrun
  obtain ⟨column, hcolumn, hrun⟩ := Option.bind_eq_some_iff.1 hrun
  obtain ⟨heap₁, h₁, hrun⟩ := Option.bind_eq_some_iff.1 hrun
  obtain ⟨heap₂, h₂, h₃⟩ := Option.bind_eq_some_iff.1 hrun
  have hcast : (j : Int) * step = ((j * step : Nat) : Int) := (Nat.cast_mul j step).symm
  rw [hcast] at hcolumn
  obtain rfl := CInt.int_eq_some hcolumn
  refine ⟨?_, ?_⟩
  · unfold CInt.int at hcolumn
    split at hcolumn
    · next hint => omega
    · cases hcolumn
  · obtain ⟨p, b, hp, hb, hin, -⟩ := Heap.store8_eq_some h₃
    have hshape := (hsame.trans (Heap.sameShape_store8 h₁).sizes).trans
      (Heap.sameShape_store8 h₂).sizes
    have hsize := (hs.sized (.frame s.frameIndex)).size_eq hshape hp hb
    rw [hs.line_eq _ step hbytes hptr, hs.height_eq] at hsize
    rw [hs.line_eq _ step hbytes hptr, Int.toNat_natCast] at hin
    omega

/-- If the painter has a result, the frame can be painted. -/
theorem Working.paintable (hs : Working width height s)
    (hbytes : slotBytes s.pixelFmt (.frame s.frameIndex) = some step)
    (hstep : step = 3 ∨ step = 4) (hptr : s.coloured.ptr ≠ none)
    (hrun : s.pseudoColorAdaptiveThreshold1 fpu = some s') : Paintable width height step := by
  have himg : s.img.ptr ≠ none := hs.ptr _ (by simp [frameSlots])
  unfold pseudoColorAdaptiveThreshold1 at hrun
  change (if s.img.ptr = none then some s else _) = _ at hrun
  rw [if_neg himg] at hrun
  obtain ⟨⟨yMax, yMin⟩, -, hrun⟩ := Option.bind_eq_some_iff.1 hrun
  obtain ⟨v, hfirst, hrun⟩ := Option.bind_eq_some_iff.1 hrun
  obtain ⟨heap, hloop, -⟩ := Option.map_eq_some_iff.1 hrun
  -- the first sample was read, so there is one
  obtain ⟨p, b, hp, hb, hin⟩ := Heap.load16_eq_some hfirst
  have hsize := (hs.sized (.imgRawFrame s.frameIndex)).size_eq (fun _ => rfl) hp hb
  rw [hs.line16_eq (by simp [frameSlots]), hs.height_eq] at hsize
  have hwide : 0 < width := by
    by_contra hzero
    obtain rfl : width = 0 := by omega
    change b.size = CInt.u32 (0 * height) at hsize
    rw [Nat.zero_mul] at hsize
    change b.size = 0 at hsize
    omega
  have hhigh : 0 < height := by
    by_contra hzero
    obtain rfl : height = 0 := by omega
    rw [Nat.mul_zero] at hsize
    change b.size = 0 at hsize
    omega
  have hpixel : ∀ r c, r < height → c < width → c * step < 2147483648 ∧
      CInt.u32 (r * lineBytes width step) + c * step + 3 ≤
        CInt.u32 (lineBytes width step * height) := by
    intro r c hr hc
    rw [hs.height_eq, hs.width_eq] at hloop
    obtain ⟨h₁, h₂, hshape, hpaint⟩ := sweep_each (J := Heap.SameShape s.heap)
      (fun i j h h' hh hp => hh.trans (paintPixel_shape hp)) hloop (.refl _)
      (i := r) (j := c) ⟨Nat.zero_le r, hr, Nat.zero_le c, hc⟩
    exact hs.paintPixel_inside hbytes hptr hshape.sizes hpaint
  refine ⟨hwide, hhigh, ?_, (hpixel 0 (width - 1) hhigh (by omega)).1⟩
  -- sizes and offsets are multiples of four, so the last pixel's fourth byte fits as well
  have hline := line_mod width step
  have hsize := (CInt.u32_mul_mod_four hline height).1
  refine noWrap_of_rows rfl (Nat.mul_pos hwide (by omega)) hhigh fun r hr => ?_
  have hlast := (hpixel r (width - 1) hr (by omega)).2
  have hstart := (CInt.u32_mul_mod_four hline r).2
  rcases hstep with rfl | rfl
  · omega
  · omega

/-! ## From the camera's frame to the matrix -/

/-- The matrix over a block whose rows are so many bytes apart. -/
def view (rows cols stride : Nat) (b : Block) : Mat where
  rows := rows
  cols := cols
  pixel i j := b.triple (i * stride + 3 * j)

/-- A view that reads pixels three bytes apart stays in the block. -/
theorem view_inside (R : Raster) (hrows : 0 < R.height) :
    (R.height - 1) * R.stride + 3 * R.width ≤ R.bytes := by
  have hthree : R.width * 3 ≤ R.width * R.step := Nat.mul_le_mul_left _ R.three
  have hfits := R.fits
  have hlast : (R.height - 1) * R.stride + R.stride = R.bytes := by
    rw [← Nat.succ_mul, Nat.succ_eq_add_one, Nat.sub_add_cancel hrows, Raster.bytes, Nat.mul_comm]
  omega

theorem Working.depthMat_eq (hs : Working width height s) (hptr : s.coloured.ptr ≠ none)
    (hstep : 3 ≤ step) (hbytes : slotBytes s.pixelFmt (.frame s.frameIndex) = some step)
    (hpaint : Paintable width height step) :
    s.depthMat = some (view height width (raster step hstep width height).stride
      (s.plane (.frame s.frameIndex))) := by
  obtain ⟨hline, p, hp, hb, hsize⟩ := hs.frame_spec hptr hstep hbytes hpaint.fits
  unfold depthMat
  show (s.coloured.ptr.bind s.heap.block).bind (fun b =>
    if s.coloured.height = 0 ∨
      (s.coloured.height - 1) * s.coloured.bytesPerLine + 3 * s.coloured.width ≤ b.size then
        some (view s.coloured.height s.coloured.width s.coloured.bytesPerLine b) else none) = _
  rw [hp, Option.bind_some, hb, Option.bind_some, hline, hsize, coloured, hs.height_eq,
    hs.width_eq]
  exact if_pos (Or.inr (view_inside (raster step hstep width height) hpaint.high))

/-- The painter and the filter, which comes after it and leaves the colour
frame alone: the matrix is a view of the painted frame. -/
theorem Working.pseudoColor_spec (hs : Working width height s) (fpu : Fpu)
    (hptr : s.coloured.ptr ≠ none) (hstep : 3 ≤ step)
    (hbytes : slotBytes s.pixelFmt (.frame s.frameIndex) = some step)
    (hpaint : Paintable width height step) :
    ∃ yMax yMin s' c, IsGreatest (s.levels (layout16 width height)) yMax ∧
      IsLeast (s.levels (layout16 width height)) yMin ∧ s.pseudoColor fpu = some s' ∧
      s'.depthMat = some (view height width (raster step hstep width height).stride c) ∧
      Raster.Painted (raster step hstep width height)
        (colourOf fpu (layout16 width height) s yMax yMin)
        (raster step hstep width height).cells (s.plane (.frame s.frameIndex)) c := by
  have hfit := hpaint.raw_fit (by omega)
  have hcanvas := hs.canvas hptr hstep hbytes hfit hpaint.fits hpaint.column hpaint.high
  obtain ⟨yMax, yMin, heap, p, hmax, hmin, hp, hrun, hpainted⟩ :=
    hcanvas.adaptiveThreshold_spec fpu ⟨hpaint.high, hpaint.wide⟩
  obtain ⟨c, hc, hcells⟩ := hpainted.painted
  have hready := ((adaptiveThreshold_touches hrun).working hs).ready hfit hpaint.high
  obtain ⟨s', hfilter, -, hfilters⟩ :=
    processTemperature_spec hready hfit hpaint.high hpaint.wide
  have hcolour : s.pseudoColor fpu = some s' := by
    unfold pseudoColor
    show (if s.coloured.ptr = none then some s else _) = _
    rw [if_neg hptr, hrun, Option.bind_some, hfilter]
  have htouch := pseudoColor_touches hcolour
  have hindex : s'.frameIndex = s.frameIndex := hfilters.index_eq
  have hkept : s'.plane (.frame s'.frameIndex) = c := by
    rw [hindex]
    exact (hfilters.others _ (by simp [ringSlot]) (by simp)).trans (plane_eq hp hc)
  refine ⟨yMax, yMin, s', c, hmax, hmin, hcolour, ?_, hcells⟩
  rw [← hkept]
  refine (htouch.working hs).depthMat_eq ?_ hstep ?_ hpaint
  · rw [coloured, hindex, htouch.ptr]
    exact hptr
  · rw [htouch.pixelFmt, hindex]
    exact hbytes

theorem plane_noted (slot : Slot) : s.noted.plane slot = s.plane slot := by
  rw [plane, plane, (touches_noted s).ptr]
  rfl

/-- The painter starts where the loops that copy the frame end. -/
theorem Takes.copied {t : ThermalUsb} (ht : Takes f s)
    (hcopy : s.noted.copyFrame fpu f = some t) :
    Working (s.turned f).cols (s.turned f).rows t ∧ t.pixelFmt = s.pixelFmt ∧
      t.frameIndex = s.frameIndex ∧ t.coloured.ptr = s.coloured.ptr := by
  have htouch := (touches_noted s).trans (copyFrame_touches hcopy)
  have hindex : t.frameIndex = s.frameIndex := by
    obtain ⟨heap, -, rfl⟩ := copyFrame_shape hcopy
    rfl
  refine ⟨htouch.working ht.toWorking, htouch.pixelFmt, hindex, ?_⟩
  rw [coloured, hindex]
  exact htouch.ptr _

/-- The image it finds there is that of the frame, turned. -/
theorem Takes.image_spec (ht : Takes f s) (fpu : Fpu)
    (hfit : (s.rawLayout f).bytes < 4294967296) (hstraight : s.Straight f) :
    ∃ t, s.noted.copyFrame fpu f = some t ∧
      (∀ x ∈ (s.turned f).cells, t.level (s.rawLayout f) x = ((s.turned f).pixel x).toNat) ∧
      t.plane (.frame s.frameIndex) = s.plane (.frame s.frameIndex) := by
  obtain ⟨heap, hcopy, hcopied⟩ := ht.noted.copyFrame_spec fpu hfit hstraight
  refine ⟨_, hcopy, fun x hx => congrArg BitVec.toNat (hcopied.plane_img hx), ?_⟩
  exact (hcopied.plane_other ht.noted.frames (by simp) (by simp)).trans (plane_noted _)

/-- The matrix a call hands out is a view of a colour frame that has the
colour of every pixel at its place. -/
theorem Takes.uvc_cb_spec (ht : Takes f s) (fpu : Fpu) (hptr : s.coloured.ptr ≠ none)
    (hstep : 3 ≤ step) (hbytes : slotBytes s.pixelFmt (.frame s.frameIndex) = some step)
    (hpaint : Paintable (s.turned f).cols (s.turned f).rows step) (hstraight : s.Straight f) :
    ∃ yMax yMin p s' c, IsGreatest (samples (s.turned f)) yMax ∧
      IsLeast (samples (s.turned f)) yMin ∧
      s.uvc_cb fpu f = some (some (p, view (s.turned f).rows (s.turned f).cols
        (raster step hstep (s.turned f).cols (s.turned f).rows).stride c), s') ∧
      Raster.Painted (raster step hstep (s.turned f).cols (s.turned f).rows)
        (falseColour fpu s.pixelFmt (s.turned f) yMax yMin) (s.turned f).cells
        (s.plane (.frame s.frameIndex)) c := by
  obtain ⟨p, hp⟩ := Option.ne_none_iff_exists'.1 hptr
  obtain ⟨t, hcopy, hlevel, hplane⟩ := ht.image_spec fpu (hpaint.raw_fit (by omega)) hstraight
  obtain ⟨hwork, hfmt, hindex, hptr'⟩ := ht.copied hcopy
  obtain ⟨yMax, yMin, u, c, hmax, hmin, hrun, hmat, hpainted⟩ :=
    hwork.pseudoColor_spec fpu (by rw [hptr']; exact hptr) hstep
      (by rw [hfmt, hindex]; exact hbytes) hpaint
  have hlevels : t.levels (s.rawLayout f) = samples (s.turned f) := Set.image_congr hlevel
  have hfirst : (0, 0) ∈ (s.turned f).cells := ⟨hpaint.high, hpaint.wide⟩
  refine ⟨yMax, yMin, p, u.switchFrame, c, hlevels ▸ hmax, hlevels ▸ hmin, ?_, ?_⟩
  · rw [uvc_cb_eq hp, hcopy, Option.bind_some, hrun, Option.bind_some, hmat, Option.map_some]
  · rw [hindex, hplane] at hpainted
    refine hpainted.congr fun x hx => ?_
    have hcolour : colourOf fpu (s.rawLayout f) t yMax yMin x =
        falseColour fpu s.pixelFmt (s.turned f) yMax yMin x := by
      rw [colourOf, hlevel x hx, hlevel (0, 0) hfirst, hfmt]
      rfl
    exact hcolour

/-! ## Three bytes and four -/

/-- Where pixels are three bytes apart, the view has them all, and where a row
has one pixel only it makes no difference. -/
theorem Takes.shows (ht : Takes f s) (fpu : Fpu) (hptr : s.coloured.ptr ≠ none)
    (hstep : 3 ≤ step) (hbytes : slotBytes s.pixelFmt (.frame s.frameIndex) = some step)
    (hpaint : Paintable (s.turned f).cols (s.turned f).rows step) (hstraight : s.Straight f)
    (hview : step = 3 ∨ (s.turned f).cols = 1) :
    ∃ p m s', s.uvc_cb fpu f = some (some (p, m), s') ∧
      Shows fpu s.pixelFmt (s.turned f) m := by
  obtain ⟨yMax, yMin, p, s', c, hmax, hmin, hrun, hpainted⟩ :=
    ht.uvc_cb_spec fpu hptr hstep hbytes hpaint hstraight
  refine ⟨p, _, s', hrun, rfl, rfl, yMax, yMin, hmax, hmin, fun x hx => ?_⟩
  have hcolumn : 3 * x.2 = x.2 * step := by
    rcases hview with rfl | hone
    · exact Nat.mul_comm 3 x.2
    · have hx₂ := hx.2
      obtain hzero : x.2 = 0 := by omega
      rw [hzero, Nat.mul_zero, Nat.zero_mul]
  show c.triple (x.1 * _ + 3 * x.2) = _
  rw [hcolumn]
  exact hpainted.triple_eq x hx

/-- Where they are four bytes apart, the second pixel of the view starts at a
byte that was there before. -/
theorem Takes.shows_unpainted {m : Mat} (ht : Takes f s) (hptr : s.coloured.ptr ≠ none)
    (hbytes : slotBytes s.pixelFmt (.frame s.frameIndex) = some 4)
    (hpaint : Paintable (s.turned f).cols (s.turned f).rows 4) (hstraight : s.Straight f)
    (htwo : 2 ≤ (s.turned f).cols) (hrun : s.uvc_cb fpu f = some (some (p, m), s'))
    (hshows : Shows fpu s.pixelFmt (s.turned f) m) :
    ∃ yMax yMin, IsGreatest (samples (s.turned f)) yMax ∧ IsLeast (samples (s.turned f)) yMin ∧
      (falseColour fpu s.pixelFmt (s.turned f) yMax yMin (0, 1)).1 =
        (s.plane (.frame s.frameIndex)).byte 3 := by
  obtain ⟨_, _, q, t, c, -, -, hrun', hpainted⟩ :=
    ht.uvc_cb_spec fpu hptr (by omega) hbytes hpaint hstraight
  obtain rfl := (Prod.mk.inj (Option.some.inj (Prod.mk.inj
    (Option.some.inj (hrun.symm.trans hrun'))).1)).2
  obtain ⟨yMax, yMin, hmax, hmin, hpixels⟩ := hshows.pixels
  refine ⟨yMax, yMin, hmax, hmin, ?_⟩
  rw [← hpixels (0, 1) ⟨hpaint.high, htwo⟩]
  show c.byte (0 * _ + 3 * 1) = _
  rw [Nat.zero_mul]
  refine hpainted.rest_eq 3 fun x hx => ?_
  obtain ⟨R, hR⟩ : ∃ R, raster 4 (by omega) (s.turned f).cols (s.turned f).rows = R := ⟨_, rfl⟩
  have hstride : 4 ≤ R.stride := by
    rw [← hR]
    show 4 ≤ ((s.turned f).cols * 4 + 3) / 4 * 4
    omega
  have hpos : R.pos x = x.1 * R.stride + x.2 * 4 := by
    rw [← hR]
    rfl
  rw [hR, hpos]
  by_cases hrow : x.1 = 0
  · rw [hrow, Nat.zero_mul]
    omega
  · have := Nat.mul_le_mul_right R.stride (Nat.one_le_iff_ne_zero.2 hrow)
    omega

/-! ## Frames with one bright pixel -/

/-- A frame with one sample of level 1 in its image. -/
def dotFrame (w h : Nat) (x : Nat × Nat) : UvcFrame :=
  irFrame w h ⟨w * 2 * h, fun k => if k = w * 2 * x.1 + 2 * x.2 then 1 else 0⟩

theorem dotFrame_pixel (hx : x ∈ grid (h / 2) w) (hy : y ∈ grid (h / 2) w) :
    (dotFrame w h x).upperHalf.pixel y = if y = x then 1 else 0 := by
  let L : Layout := ⟨w * 2, w, h / 2, by omega⟩
  have hpos : ∀ z, L.pos z = w * 2 * z.1 + 2 * z.2 := by
    intro z
    rw [Nat.mul_comm (w * 2)]
    rfl
  have heven : ∀ z, L.pos z % 2 = 0 := by
    intro z
    rw [hpos, Nat.mul_comm w, Nat.mul_assoc]
    omega
  show (if w * 2 * y.1 + 2 * y.2 + 1 = _ then (1 : Byte) else 0) ++
    (if w * 2 * y.1 + 2 * y.2 = _ then (1 : Byte) else 0) = (_ : BitVec 16)
  rw [← hpos, ← hpos, if_neg (by have := heven x; have := heven y; omega)]
  by_cases heq : y = x
  · rw [heq, if_pos rfl, if_pos rfl]
    rfl
  · rw [if_neg heq, if_neg fun h => heq (pos_inj (L := L) hy hx h)]
    rfl

/-- The bright pixel can be anywhere in the turned image. -/
theorem exists_dot (mode : RotateMode) (hw : w < 2147483648) (hh : h < 2147483648)
    (hy : y ∈ grid (planeSize mode w h).2 (planeSize mode w h).1) :
    ∃ f : UvcFrame, f.Matches w h ∧ ∀ z ∈ (f.upperHalf.turns mode.quarters).cells,
      (f.upperHalf.turns mode.quarters).pixel z = if z = y then 1 else 0 := by
  have hblank : (dotFrame w h (0, 0)).Matches w h := irFrame_matches (Nat.le_refl _)
  rw [planeSize_turns mode hw hh hblank] at hy
  obtain ⟨x, hx, hxy⟩ := ((dotFrame w h (0, 0)).upperHalf.bijOn_spots mode.quarters).surjOn hy
  have hx' : x ∈ grid (h / 2) w := hx
  have hbij := (dotFrame w h x).upperHalf.bijOn_spots mode.quarters
  have hspot : (dotFrame w h x).upperHalf.spots mode.quarters x = y :=
    (congrFun (Picture.spots_congr (dotFrame w h x).upperHalf
      (Q := (dotFrame w h (0, 0)).upperHalf) rfl rfl mode.quarters) x).trans hxy
  refine ⟨dotFrame w h x, irFrame_matches (Nat.le_refl _), fun z hz => ?_⟩
  obtain ⟨y', hy', rfl⟩ := hbij.surjOn hz
  rw [Picture.turns_spots _ _ hy', dotFrame_pixel hx' hy', ← hspot]
  by_cases heq : y' = x
  · rw [if_pos heq, if_pos (by rw [heq])]
  · rw [if_neg heq, if_neg fun h => heq (hbij.injOn hy' hx' h)]

section Dots

variable {P : Picture (BitVec 16)} {yMax yMin : Nat} {fmt : PixelFormat}

/-- A dark pixel and a bright one are the extremes. -/
theorem dot_extremes (hdot : ∀ z ∈ P.cells, P.pixel z = if z = y then 1 else 0)
    (hx : x ∈ P.cells) (hy : y ∈ P.cells) (hne : x ≠ y) (hmax : IsGreatest (samples P) yMax)
    (hmin : IsLeast (samples P) yMin) : yMax = 1 ∧ yMin = 0 := by
  have hone : 1 ∈ samples P := ⟨y, hy, by simp [hdot y hy]⟩
  have hzero : 0 ∈ samples P := ⟨x, hx, by simp [hdot x hx, hne]⟩
  have hle : yMax ≤ 1 := by
    obtain ⟨z, hz, hval⟩ := hmax.1
    dsimp only at hval
    rw [hdot z hz] at hval
    split at hval
    · exact Nat.le_of_eq hval.symm
    · exact hval ▸ Nat.zero_le 1
  have hge := hmax.2 hone
  have hlow := hmin.2 hzero
  omega

/-- A bright first pixel, and a dark one beside it: blue. -/
theorem falseColour_blue (hfirst : P.pixel (0, 0) = 1) (hsecond : P.pixel (0, 1) = 0) :
    falseColour fpu fmt P 1 0 (0, 1) = fmt.order ⟨0, 0, 255⟩ := by
  rw [falseColour, hfirst, hsecond]
  show fmt.order ⟨0, 0, fpu.scale (-1) (-1)⟩ = _
  rw [scale_self (by decide)]

/-- A dark first pixel, and a bright one beside it: between yellow and red. -/
theorem falseColour_red (fpu : Fpu) (fmt : PixelFormat) (hfirst : P.pixel (0, 0) = 0)
    (hsecond : P.pixel (0, 1) = 1) :
    ∃ g, falseColour fpu fmt P 1 0 (0, 1) = fmt.order ⟨255, g, 0⟩ := by
  rw [falseColour, hfirst, hsecond]
  exact ⟨_, congrArg fmt.order (colour_last (by decide) (by decide) (by decide))⟩

theorem order_blue_red (fmt : PixelFormat) (g : Byte) :
    (fmt.order ⟨0, 0, 255⟩).1 ≠ (fmt.order ⟨255, g, 0⟩).1 := by
  cases fmt with
  | bgr24 | bgr32 =>
      show (0 : Byte) ≠ 255
      decide
  | rgb24 | rgb32 | y16 =>
      show (255 : Byte) ≠ 0
      decide

end Dots

/-! ## The output picture -/

/-- All frames of the size the object was opened for are shown. -/
def ShowsAll (fpu : Fpu) (w h : Nat) (s : ThermalUsb) : Prop :=
  ∀ f : UvcFrame, f.Matches w h → ∃ p m s', s.uvc_cb fpu f = some (some (p, m), s') ∧
    Shows fpu s.pixelFmt (f.upperHalf.turns s.rotateMode.quarters) m

/-- A call that has a result has painted its frame. -/
theorem Takes.paintable {r : Option (Nat × Mat) × ThermalUsb} (ht : Takes f s)
    (hptr : s.coloured.ptr ≠ none)
    (hbytes : slotBytes s.pixelFmt (.frame s.frameIndex) = some step)
    (hstep : step = 3 ∨ step = 4) (hrun : s.uvc_cb fpu f = some r) :
    Paintable (s.turned f).cols (s.turned f).rows step ∧ s.Straight f := by
  obtain ⟨answer, s'⟩ := r
  obtain ⟨t, v, u, hcopy, hpainted, -, -⟩ := uvc_cb_steps hptr hrun
  obtain ⟨hwork, hfmt, hindex, hsame⟩ := ht.copied hcopy
  have hptr' : t.coloured.ptr ≠ none := by
    rw [hsame]
    exact hptr
  have hpaint := hwork.paintable (by rw [hfmt, hindex]; exact hbytes) hstep hptr' hpainted
  refine ⟨hpaint, ht.noted.straight ?_ hcopy⟩
  have hfirst : (0, 0) ∈ (s.turned f).cells := ⟨hpaint.high, hpaint.wide⟩
  obtain ⟨x, hx, -⟩ := (f.upperHalf.bijOn_spots s.rotateMode.quarters).surjOn hfirst
  exact (zero_mem_grid hx).1

/-- One column takes as much room in all formats. -/
theorem paintable_one : Paintable 1 height 4 ↔ Paintable 1 height 3 := by
  have hfits : Fits 1 height 4 ↔ Fits 1 height 3 := by
    unfold Fits
    omega
  refine ⟨fun h => ⟨h.wide, h.high, hfits.1 h.fits, ?_⟩,
    fun h => ⟨h.wide, h.high, hfits.2 h.fits, ?_⟩⟩
  · omega
  · omega

/-- Where pixels are four bytes apart, the byte at the second pixel is the same
wherever the bright pixel is. -/
theorem OpenedFor.dot_shown (ho : OpenedFor fpu alloc s.rotateMode w h s)
    (hptr : s.coloured.ptr ≠ none)
    (hbytes : slotBytes s.pixelFmt (.frame s.frameIndex) = some 4) (hall : s.ShowsAll fpu w h)
    (htwo : 2 ≤ (planeSize s.rotateMode w h).1) (hrows : 0 < (planeSize s.rotateMode w h).2)
    (hy : y ∈ grid 1 2) :
    ∃ P : Picture (BitVec 16), (∀ z ∈ grid 1 2, P.pixel z = if z = y then 1 else 0) ∧
      (falseColour fpu s.pixelFmt P 1 0 (0, 1)).1 = (s.plane (.frame s.frameIndex)).byte 3 := by
  have hgrid : ∀ z ∈ grid 1 2,
      z ∈ grid (planeSize s.rotateMode w h).2 (planeSize s.rotateMode w h).1 := fun z hz =>
    ⟨Nat.lt_of_lt_of_le hz.1 hrows, Nat.lt_of_lt_of_le hz.2 htwo⟩
  obtain ⟨f, hf, hdot⟩ := exists_dot s.rotateMode ho.wide ho.high (hgrid y hy)
  rw [planeSize_turns s.rotateMode ho.wide ho.high hf] at hgrid htwo
  obtain ⟨p, m, s', hrun, hshows⟩ := hall f hf
  have ht := (ho.takes hf).1
  obtain ⟨hpaint, hstraight⟩ := ht.paintable hptr hbytes (Or.inr rfl) hrun
  obtain ⟨yMax, yMin, hmax, hmin, hbyte⟩ :=
    ht.shows_unpainted hptr hbytes hpaint hstraight htwo hrun hshows
  -- of the first two pixels one is bright and the other is not
  obtain ⟨x, hx, hne⟩ : ∃ x ∈ grid 1 2, x ≠ y := by
    by_cases hfirst : y = (0, 0)
    · exact ⟨(0, 1), ⟨by decide, by decide⟩, by rw [hfirst]; decide⟩
    · exact ⟨(0, 0), ⟨by decide, by decide⟩, Ne.symm hfirst⟩
  obtain ⟨rfl, rfl⟩ := dot_extremes hdot (hgrid x hx) (hgrid y hy) hne hmax hmin
  exact ⟨s.turned f, fun z hz => hdot z (hgrid z hz), hbyte⟩

/-- So a picture that is right has one column. -/
theorem OpenedFor.one_column (ho : OpenedFor fpu alloc s.rotateMode w h s)
    (hptr : s.coloured.ptr ≠ none)
    (hbytes : slotBytes s.pixelFmt (.frame s.frameIndex) = some 4) (hall : s.ShowsAll fpu w h)
    (hrows : 0 < (planeSize s.rotateMode w h).2) : (planeSize s.rotateMode w h).1 ≤ 1 := by
  by_contra htwo
  have hfirst : (0, 0) ∈ grid 1 2 := ⟨by decide, by decide⟩
  have hsecond : (0, 1) ∈ grid 1 2 := ⟨by decide, by decide⟩
  obtain ⟨P, hP, hblue⟩ := ho.dot_shown hptr hbytes hall (by omega) hrows hfirst
  obtain ⟨Q, hQ, hred⟩ := ho.dot_shown hptr hbytes hall (by omega) hrows hsecond
  rw [falseColour_blue (hP _ hfirst) (hP _ hsecond)] at hblue
  obtain ⟨g, hg⟩ := falseColour_red fpu s.pixelFmt (hQ _ hfirst) (hQ _ hsecond)
  rw [hg] at hred
  exact order_blue_red _ g (hblue.trans hred.symm)

/-- For an object that has a colour frame and was opened for frames of this
size, whatever was set since then, every frame is shown as it should be exactly
if the frame can be painted, no more than one column of temperatures in Kelvin
gets a quarter turn, and the format has three bytes for a pixel or the picture
one column. -/
theorem output_iff (ho : OpenedFor fpu alloc mode w h s) (hptr : s.coloured.ptr ≠ none) :
    s.ShowsAll fpu w h ↔
      Paintable (planeSize mode w h).1 (planeSize mode w h).2 3 ∧
        ¬ (mode = .rotate90 ∧ s.temperatureMode = .kelvin ∧ 2 ≤ w) ∧
        (s.pixelFmt = .rgb24 ∨ s.pixelFmt = .bgr24 ∨ (planeSize mode w h).1 = 1) := by
  obtain ⟨hs, rfl⟩ := ho.working
  have hsize : ∀ f : UvcFrame, f.Matches w h →
      planeSize s.rotateMode w h = ((s.turned f).cols, (s.turned f).rows) := fun f hf =>
    planeSize_turns s.rotateMode ho.wide ho.high hf
  constructor
  · intro hall
    have hblank : (dotFrame w h (0, 0)).Matches w h := irFrame_matches (Nat.le_refl _)
    obtain ⟨p, m, s', hrun, -⟩ := hall _ hblank
    have ht := (ho.takes hblank).1
    rcases frameBytes_cases hs.fmt s.frameIndex with ⟨hfmt, hbytes⟩ | ⟨-, hbytes⟩
    · obtain ⟨hpaint, hstraight⟩ := ht.paintable hptr hbytes (Or.inl rfl) hrun
      rw [hsize _ hblank]
      exact ⟨hpaint, (straight_iff hblank).1 hstraight, or_assoc.1 (Or.inl hfmt)⟩
    · obtain ⟨hpaint, hstraight⟩ := ht.paintable hptr hbytes (Or.inr rfl) hrun
      have hpaint' : Paintable (planeSize s.rotateMode w h).1 (planeSize s.rotateMode w h).2 4 := by
        rw [hsize _ hblank]
        exact hpaint
      have hone : (planeSize s.rotateMode w h).1 = 1 :=
        Nat.le_antisymm (ho.one_column hptr hbytes hall hpaint'.high) hpaint'.wide
      rw [hone] at hpaint' ⊢
      exact ⟨paintable_one.1 hpaint', (straight_iff hblank).1 hstraight, Or.inr (Or.inr rfl)⟩
  · rintro ⟨hpaint, hturn, hfmt⟩ f hf
    have ht := (ho.takes hf).1
    have hstraight := (straight_iff hf).2 hturn
    rw [hsize f hf] at hpaint hfmt
    rcases frameBytes_cases hs.fmt s.frameIndex with ⟨-, hbytes⟩ | ⟨hlong, hbytes⟩
    · exact ht.shows fpu hptr (Nat.le_refl 3) hbytes hpaint hstraight (Or.inl rfl)
    · have hone : (s.turned f).cols = 1 := by
        rcases hfmt with hfmt | hfmt | hone
        · rw [hfmt] at hlong
          exact absurd hlong (by decide)
        · rw [hfmt] at hlong
          exact absurd hlong (by decide)
        · exact hone
      refine ht.shows fpu hptr (by decide) hbytes ?_ hstraight (Or.inr hone)
      dsimp only at hpaint
      rw [hone] at hpaint ⊢
      exact paintable_one.2 hpaint

/-- The camera's own frame in a format with three bytes. -/
theorem output_rgb24 : ∃ s,
    OpenedFor ⟨fun _ => 0, fun _ => 0⟩ (holding fun _ => 0) .rotate0 256 384 s ∧
    s.pixelFmt = .rgb24 ∧ s.ShowsAll ⟨fun _ => 0, fun _ => 0⟩ 256 384 := by
  obtain ⟨s, ho, -, hfmt, hptr, -⟩ := exists_openedFor (w := 256) (h := 384)
    ⟨fun _ => 0, fun _ => 0⟩ (fun _ => 0) .rotate0 .rgb24 .centigrade (by decide) (by decide)
    (by decide)
  exact ⟨s, ho, hfmt, (output_iff ho hptr).2
    ⟨⟨by decide, by decide, ⟨by decide, by decide⟩, by decide⟩,
      fun ⟨hmode, _, _⟩ => (by cases hmode), Or.inl hfmt⟩⟩

/-- The same frame with four bytes for each pixel. -/
theorem output_rgb32_wrong : ∃ s,
    OpenedFor ⟨fun _ => 0, fun _ => 0⟩ (holding fun _ => 0) .rotate0 256 384 s ∧
    s.pixelFmt = .rgb32 ∧ s.coloured.ptr ≠ none ∧
    ¬ s.ShowsAll ⟨fun _ => 0, fun _ => 0⟩ 256 384 := by
  obtain ⟨s, ho, -, hfmt, hptr, -⟩ := exists_openedFor (w := 256) (h := 384)
    ⟨fun _ => 0, fun _ => 0⟩ (fun _ => 0) .rotate0 .rgb32 .centigrade (by decide) (by decide)
    (by decide)
  refine ⟨s, ho, hfmt, hptr, fun hall => ?_⟩
  have hthree := ((output_iff ho hptr).1 hall).2.2
  rw [hfmt] at hthree
  exact absurd hthree (by decide)

end ThermalUsb

end IotCamera
