import IotCamera.Lib.Scatter
import IotCamera.Proofs.ThermalReads
import IotCamera.Proofs.ThermalWorking

/-!
# The copy loops turn the camera's frame

The four loops of `uvc_cb` store the image sample at `(i, j)` of the upper
half where a number of quarter turns takes that cell, and the temperature of
the same place, of the lower half, in the other plane. `imgPos_eq` and
`tempPos_eq` read that off the index expressions of the source: a position is
the start of a row of the plane, as it wraps, and two bytes for each column.

For the image this is so in every mode. For the temperatures it is not. In a
quarter turn with the temperatures in Kelvin, rows are twice as far apart, and
three quarter turns reverse the columns. So the temperatures belong to the
pixels they are stored with in some modes only.
-/

namespace IotCamera

open Layout

namespace ThermalUsb

variable {s s' : ThermalUsb} {fpu : Fpu} {alloc : Allocator} {f : UvcFrame} {img temp : FrameFormat}
  {mode : RotateMode} {temperature : TemperatureMode} {w h i j k line : Nat}

/-! ## Where the samples go -/

theorem line_mod (width bytes : Nat) : lineBytes width bytes % 4 = 0 := by
  unfold lineBytes
  omega

/-- The start of a row in samples, doubled, is the start of the row. -/
theorem double_half (r : Nat) (hline : line % 4 = 0) :
    2 * (CInt.u32 (r * line) / 2) = CInt.u32 (r * line) := by
  have hfour := (CInt.u32_mul_mod_four hline r).2
  omega

theorem sub_sub_eq {n c : Nat} (hn : n < 4294967296) (hc : c < n) :
    CInt.sub (CInt.sub n 1) c = n - 1 - c := by
  rw [CInt.sub_eq (by omega) hn, CInt.sub_eq (by omega) (by omega)]

/-- A sample in a row whose start, in samples, has been computed. -/
theorem rowSample_eq {r c : Nat} (hline : line % 4 = 0) (hc : c < 1073741824) :
    2 * CInt.u32 (CInt.u32 (r * line) / 2 + c) = CInt.u32 (r * line) + 2 * c := by
  have hhalf := double_half r hline
  have hrow := CInt.u32_lt (r * line)
  rw [CInt.u32_eq (by omega)]
  omega

/-- The same, with the column counted from the right. -/
theorem rowSample_rev {r n c : Nat} (hline : line % 4 = 0) (hn : n < 1073741824) (hc : c < n) :
    2 * CInt.sub (CInt.sub (CInt.u32 (CInt.u32 (r * line) / 2 + n)) 1) c =
      CInt.u32 (r * line) + 2 * (n - 1 - c) := by
  have hhalf := double_half r hline
  have hrow := CInt.u32_lt (r * line)
  rw [CInt.u32_eq (by omega), sub_sub_eq (by omega) (by omega)]
  omega

/-- The two raw planes of a frame that is turned. -/
structure RawPlanes (f : UvcFrame) (mode : RotateMode) (line : Nat) (img temp : FrameFormat) :
    Prop where
  img_width : img.width = (f.upperHalf.turns mode.quarters).cols
  img_height : img.height = (f.upperHalf.turns mode.quarters).rows
  img_line : img.bytesPerLine = line
  temp_width : temp.width = (f.upperHalf.turns mode.quarters).cols
  temp_height : temp.height = (f.upperHalf.turns mode.quarters).rows
  temp_line : temp.bytesPerLine = line
  line_mod : line % 4 = 0
  wide : f.width < 2147483648
  high : f.height < 2147483648

/-- Where the temperatures go. -/
def tempSpot (f : UvcFrame) (mode : RotateMode) (x : Nat × Nat) : Nat × Nat :=
  if mode = .rotate270 then (f.width - 1 - x.2, f.height / 2 - 1 - x.1)
  else f.upperHalf.spots mode.quarters x

theorem spots_three {x : Nat × Nat} (hx : x.1 < f.height / 2) :
    f.upperHalf.spots 3 x = (f.width - 1 - x.2, x.1) := by
  show (f.width - 1 - x.2, f.height / 2 - 1 - (f.height / 2 - 1 - x.1)) = _
  rw [show f.height / 2 - 1 - (f.height / 2 - 1 - x.1) = x.1 by omega]

theorem RawPlanes.imgPos_eq (ht : RawPlanes f mode line img temp) (hi : i < f.height / 2)
    (hj : j < f.width) :
    imgPos mode img temp i j = CInt.u32 ((f.upperHalf.spots mode.quarters (i, j)).1 * line) +
      2 * (f.upperHalf.spots mode.quarters (i, j)).2 := by
  obtain ⟨hiw, hih, hil, htw, hth, htl, hline, hwide, hhigh⟩ := ht
  cases mode with
  | rotate0 =>
      rw [imgPos, hil, Nat.mul_comm]
      rfl
  | rotate90 =>
      change temp.width = f.height / 2 at htw
      rw [imgPos, htl, htw]
      exact rowSample_rev hline (by omega) hi
  | rotate180 =>
      change img.width = f.width at hiw
      change img.height = f.height / 2 at hih
      rw [imgPos, hil, hiw, hih, sub_sub_eq (by omega) hi, sub_sub_eq (by omega) hj, Nat.mul_comm]
      rfl
  | rotate270 =>
      change temp.height = f.width at hth
      rw [imgPos, htl, hth, sub_sub_eq (by omega) hj]
      show _ = CInt.u32 ((f.upperHalf.spots 3 (i, j)).1 * line) +
        2 * (f.upperHalf.spots 3 (i, j)).2
      rw [spots_three hi]
      exact rowSample_eq hline (by omega)

/-- In Kelvin, only the first column of a frame that gets a quarter turn goes
where it should. -/
theorem RawPlanes.tempPos_eq (ht : RawPlanes f mode line img temp) (hi : i < f.height / 2)
    (hj : j < f.width) (hkelvin : mode = .rotate90 → temperature = .kelvin → j = 0) :
    tempPos mode temperature img temp i j =
      CInt.u32 ((tempSpot f mode (i, j)).1 * line) + 2 * (tempSpot f mode (i, j)).2 := by
  obtain ⟨hiw, hih, hil, htw, hth, htl, hline, hwide, hhigh⟩ := ht
  cases mode with
  | rotate0 =>
      rw [tempPos, htl, Nat.mul_comm]
      rfl
  | rotate90 =>
      change img.width = f.height / 2 at hiw
      rw [tempPos, hil, hiw]
      have hrow : (if temperature = .kelvin then CInt.u32 (j * line)
          else CInt.u32 (j * line) / 2) = CInt.u32 (j * line) / 2 := by
        split
        · next hk =>
            rw [hkelvin rfl hk, Nat.zero_mul]
            rfl
        · rfl
      simp only [hrow]
      exact rowSample_rev hline (by omega) hi
  | rotate180 =>
      change temp.width = f.width at htw
      change temp.height = f.height / 2 at hth
      rw [tempPos, htl, htw, hth, sub_sub_eq (by omega) hi, sub_sub_eq (by omega) hj, Nat.mul_comm]
      rfl
  | rotate270 =>
      change img.height = f.width at hih
      change img.width = f.height / 2 at hiw
      rw [tempPos, hil, hih, hiw, sub_sub_eq (by omega) hj]
      exact rowSample_rev hline (by omega) hi

/-! ## What the loops need -/

/-- The image as the object turns it. -/
def turned (s : ThermalUsb) (f : UvcFrame) : Picture (BitVec 16) :=
  f.upperHalf.turns s.rotateMode.quarters

/-- The layout of the planes it goes to. -/
def rawLayout (s : ThermalUsb) (f : UvcFrame) : Layout :=
  layout16 (s.turned f).cols (s.turned f).rows

/-- The object is at work with planes of the size the frame is turned to. -/
structure Takes (f : UvcFrame) (s : ThermalUsb) : Prop
    extends Working (s.turned f).cols (s.turned f).rows s where
  wide : f.width < 2147483648
  high : f.height < 2147483648
  inside : ∀ i j, i < f.height → j < f.width → f.step * i + 2 * j + 2 ≤ f.data.size

theorem OpenedFor.takes (ho : OpenedFor fpu alloc mode w h s) (hf : f.Matches w h) :
    Takes f s ∧ s.rotateMode = mode := by
  obtain ⟨hs, hmode⟩ := ho.working
  rw [planeSize_turns mode ho.wide ho.high hf, ← hmode] at hs
  refine ⟨⟨hs, ?_, ?_, ?_⟩, hmode⟩
  · rw [hf.width_eq]
    exact ho.wide
  · rw [hf.height_eq]
    exact ho.high
  · rw [hf.width_eq, hf.height_eq]
    exact hf.inside

theorem Takes.noted (ht : Takes f s) : Takes f s.noted :=
  ⟨(touches_noted s).working ht.toWorking, ht.wide, ht.high, ht.inside⟩

theorem Takes.rawPlanes (ht : Takes f s) :
    RawPlanes f s.rotateMode (lineBytes (s.turned f).cols 2)
      (s.desc (.imgRawFrame s.frameIndex)) (s.desc (.temperatureRawFrame s.frameIndex)) where
  img_width := ht.width_eq _
  img_height := ht.height_eq _
  img_line := ht.line16_eq (by simp [frameSlots])
  temp_width := ht.width_eq _
  temp_height := ht.height_eq _
  temp_line := ht.line16_eq (by simp [frameSlots])
  line_mod := line_mod _ _
  wide := ht.wide
  high := ht.high

/-- An iteration reads the two samples of its cell and stores them. -/
theorem Takes.copyPixel_eq (ht : Takes f s) (hi : i < f.height / 2) (hj : j < f.width)
    (heap : Heap) :
    copyPixel fpu s f i j heap =
      (heap.store16 (s.desc (.imgRawFrame s.frameIndex)).ptr
        (imgPos s.rotateMode (s.desc (.imgRawFrame s.frameIndex))
          (s.desc (.temperatureRawFrame s.frameIndex)) i j)
        (f.upperHalf.pixel (i, j))).bind fun heap =>
          heap.store16 (s.desc (.temperatureRawFrame s.frameIndex)).ptr
            (tempPos s.rotateMode s.temperatureMode (s.desc (.imgRawFrame s.frameIndex))
              (s.desc (.temperatureRawFrame s.frameIndex)) i j)
            (s.temperatureMode.convert fpu (f.lowerHalf.pixel (i, j))) := by
  have hupper : f.upper i j + 2 ≤ f.data.size := ht.inside i j (by omega) hj
  have hlower : f.lower i j + 2 ≤ f.data.size := ht.inside (i + f.height / 2) j (by omega) hj
  rw [copyPixel, Block.load16_eq hupper, Option.bind_some]
  simp only [Block.load16_eq hlower, Option.bind_some]
  rfl

/-- The bytes of a slot's block, after any stores. -/
theorem Sized.size_eq {heap : Heap} {slot : Slot} {p : Nat} {b : Block} (hsized : Sized s slot)
    (hsame : Heap.SameSizes s.heap heap) (hptr : (s.desc slot).ptr = some p)
    (hb : heap.block p = some b) :
    b.size = CInt.u32 ((s.desc slot).bytesPerLine * (s.desc slot).height) := by
  have hsize := hsame p
  rw [hb, Option.map_some] at hsize
  obtain ⟨b', hb', hsize'⟩ := Option.map_eq_some_iff.1 hsize.symm
  rw [← hsized p b' hptr hb', hsize']

/-- A store that was done was done inside the block the slot computes. -/
theorem store_inside {heap heap' : Heap} {slot : Slot} {off : Nat} {v : BitVec 16}
    (hsized : Sized s slot) (hsame : Heap.SameSizes s.heap heap)
    (hstore : heap.store16 (s.desc slot).ptr off v = some heap') :
    off + 2 ≤ CInt.u32 ((s.desc slot).bytesPerLine * (s.desc slot).height) := by
  obtain ⟨p, b, hptr, hb, hoff, -⟩ := Heap.store16_eq_some hstore
  rw [← hsized.size_eq hsame hptr hb]
  exact hoff

theorem Takes.positions_inside (ht : Takes f s) (hrun : s.copyFrame fpu f = some s')
    (hi : i < f.height / 2) (hj : j < f.width) :
    imgPos s.rotateMode (s.desc (.imgRawFrame s.frameIndex))
        (s.desc (.temperatureRawFrame s.frameIndex)) i j + 2 ≤
          CInt.u32 (lineBytes (s.turned f).cols 2 * (s.turned f).rows) ∧
      tempPos s.rotateMode s.temperatureMode (s.desc (.imgRawFrame s.frameIndex))
        (s.desc (.temperatureRawFrame s.frameIndex)) i j + 2 ≤
          CInt.u32 (lineBytes (s.turned f).cols 2 * (s.turned f).rows) := by
  obtain ⟨heap, heap', hshape, hpixel⟩ := copyFrame_each hrun hi hj
  rw [ht.copyPixel_eq hi hj] at hpixel
  obtain ⟨heap₁, himg, htemp⟩ := Option.bind_eq_some_iff.1 hpixel
  have hshape₁ := hshape.trans (Heap.sameShape_store16 himg)
  have hinside := store_inside (ht.sized _) hshape.sizes himg
  have hinside' := store_inside (ht.sized _) hshape₁.sizes htemp
  rw [ht.rawPlanes.img_line, ht.height_eq] at hinside
  rw [ht.rawPlanes.temp_line, ht.height_eq] at hinside'
  exact ⟨hinside, hinside'⟩

/-- If the loops have a result, the planes have fewer than 2³² bytes. -/
theorem Takes.bytes_lt (ht : Takes f s) (hrun : s.copyFrame fpu f = some s') :
    (s.rawLayout f).bytes < 4294967296 := by
  by_cases hrows : (s.turned f).rows = 0
  · rw [rawLayout, hrows]
    show stride16 _ * 0 < 4294967296
    omega
  by_cases hcols : (s.turned f).cols = 0
  · rw [rawLayout, hcols]
    show 0 * _ < 4294967296
    omega
  refine bytes_lt_of_rows (by omega) (by omega) fun r hr => ?_
  -- the last cell of every row has been stored
  have hlast : (r, (s.turned f).cols - 1) ∈ (s.turned f).cells := by
    refine ⟨hr, ?_⟩
    show (s.turned f).cols - 1 < (s.turned f).cols
    omega
  obtain ⟨⟨i, j⟩, ⟨hi, hj⟩, hspot⟩ :=
    (f.upperHalf.bijOn_spots s.rotateMode.quarters).surjOn hlast
  have hin := (ht.positions_inside hrun hi hj).1
  rw [ht.rawPlanes.imgPos_eq hi hj, hspot] at hin
  change CInt.u32 (r * lineBytes (s.turned f).cols 2) + 2 * ((s.turned f).cols - 1) + 2 ≤ _
    at hin
  omega

/-! ## What they leave, if the planes fit -/

/-- A cell of the turned image, as a position in its plane. -/
theorem rawPos_eq (hfit : (s.rawLayout f).bytes < 4294967296) {x : Nat × Nat}
    (hx : x ∈ (s.turned f).cells) :
    CInt.u32 (x.1 * lineBytes (s.turned f).cols 2) + 2 * x.2 = (s.rawLayout f).pos x := by
  have hin := pos_lt (L := s.rawLayout f) hx
  rw [rawLine_eq hfit (zero_mem_grid hx).1]
  change x.1 * stride16 (s.turned f).cols + 2 * x.2 + 2 ≤ _ at hin
  rw [CInt.u32_eq (by omega)]
  rfl

theorem injects_spots (s : ThermalUsb) (f : UvcFrame) :
    Injects (s.rawLayout f) (f.height / 2) f.width
      (f.upperHalf.spots s.rotateMode.quarters) where
  mapsTo := (f.upperHalf.bijOn_spots s.rotateMode.quarters).mapsTo
  injOn := (f.upperHalf.bijOn_spots s.rotateMode.quarters).injOn

theorem injects_tempSpot (s : ThermalUsb) (f : UvcFrame) :
    Injects (s.rawLayout f) (f.height / 2) f.width (tempSpot f s.rotateMode) := by
  by_cases hmode : s.rotateMode = .rotate270
  · have hspot : tempSpot f s.rotateMode =
        fun x => (f.width - 1 - x.2, f.height / 2 - 1 - x.1) := by
      funext x
      rw [tempSpot, if_pos hmode]
    rw [hspot]
    refine ⟨fun x hx => ?_, fun x hx y hy heq => ?_⟩
    · obtain ⟨hr, hc⟩ := hx
      have hgrid : grid (s.rawLayout f).height (s.rawLayout f).width =
          grid f.width (f.height / 2) := by
        rw [rawLayout, turned, hmode]
        rfl
      rw [hgrid]
      refine ⟨?_, ?_⟩
      · show f.width - 1 - x.2 < f.width
        omega
      · show f.height / 2 - 1 - x.1 < f.height / 2
        omega
    · obtain ⟨hr, hc⟩ := hx
      obtain ⟨hr', hc'⟩ := hy
      obtain ⟨heq₁, heq₂⟩ := Prod.mk.inj heq
      exact Prod.ext (by omega) (by omega)
  · have hspot : tempSpot f s.rotateMode = f.upperHalf.spots s.rotateMode.quarters := by
      funext x
      rw [tempSpot, if_neg hmode]
    rw [hspot]
    exact injects_spots s f

/-- In Kelvin, a frame of more than one column does not get the quarter turn. -/
def Straight (s : ThermalUsb) (f : UvcFrame) : Prop :=
  s.rotateMode = .rotate90 → s.temperatureMode = .kelvin → f.width ≤ 1

theorem straight_iff (hf : f.Matches w h) :
    s.Straight f ↔
      ¬ (s.rotateMode = .rotate90 ∧ s.temperatureMode = .kelvin ∧ 2 ≤ w) := by
  rw [Straight, hf.width_eq]
  constructor
  · intro hone ⟨hmode, hkelvin, htwo⟩
    have := hone hmode hkelvin
    omega
  · intro hnot hmode hkelvin
    by_contra htwo
    exact hnot ⟨hmode, hkelvin, by omega⟩

/-- The two planes after the loops. -/
def Copied (fpu : Fpu) (f : UvcFrame) (s : ThermalUsb) (heap : Heap) : Prop :=
  ∃ p p', (s.desc (.imgRawFrame s.frameIndex)).ptr = some p ∧
    (s.desc (.temperatureRawFrame s.frameIndex)).ptr = some p' ∧
    ScatteredBoth (s.rawLayout f) (f.upperHalf.spots s.rotateMode.quarters)
      (tempSpot f s.rotateMode) f.upperHalf.pixel
      (fun x => s.temperatureMode.convert fpu (f.lowerHalf.pixel x)) (grid (f.height / 2) f.width)
      p p' (s.plane (.imgRawFrame s.frameIndex)) (s.plane (.temperatureRawFrame s.frameIndex))
      s.heap heap

theorem Takes.copyFrame_spec (fpu : Fpu) (ht : Takes f s)
    (hfit : (s.rawLayout f).bytes < 4294967296) (hstraight : s.Straight f) :
    ∃ heap, s.copyFrame fpu f = some { s with heap := heap } ∧ Copied fpu f s heap := by
  obtain ⟨p, hp, hb, hsize⟩ := ht.plane_spec hfit (.imgRawFrame s.frameIndex)
    (by simp [frameSlots])
  obtain ⟨p', hp', hb', hsize'⟩ := ht.plane_spec hfit
    (.temperatureRawFrame s.frameIndex) (by simp [frameSlots])
  have hne : p ≠ p' := by
    rintro rfl
    cases ht.frames.apart _ _ p hp hp'
  have hspots := injects_spots s f
  have htemps := injects_tempSpot s f
  obtain ⟨heap, hloop, hboth⟩ := scatter (L := s.rawLayout f) (copyPixel fpu s f) f.upperHalf.pixel
    (fun x => s.temperatureMode.convert fpu (f.lowerHalf.pixel x)) hne hb hb'
    (Nat.le_of_eq hsize.symm) (Nat.le_of_eq hsize'.symm) hspots htemps
    fun i j heap hx => by
      obtain ⟨hi, hj⟩ := hx
      rw [ht.copyPixel_eq hi hj, hp, hp', ht.rawPlanes.imgPos_eq hi hj,
        ht.rawPlanes.tempPos_eq hi hj fun hmode hkelvin => ?_,
        rawPos_eq hfit (hspots.mapsTo ⟨hi, hj⟩), rawPos_eq hfit (htemps.mapsTo ⟨hi, hj⟩)]
      have := hstraight hmode hkelvin
      change j < f.width at hj
      omega
  exact ⟨heap, by rw [copyFrame, hloop, Option.map_some], p, p', hp, hp', hboth⟩

theorem Copied.plane_img {heap : Heap} (hc : Copied fpu f s heap) {y : Nat × Nat}
    (hy : y ∈ (s.turned f).cells) :
    (plane { s with heap := heap } (.imgRawFrame s.frameIndex)).word ((s.rawLayout f).pos y) =
      (s.turned f).pixel y := by
  obtain ⟨p, p', hp, -, hboth⟩ := hc
  obtain ⟨b, hb, hscattered⟩ := hboth.first
  obtain ⟨x, hx, rfl⟩ := (f.upperHalf.bijOn_spots s.rotateMode.quarters).surjOn hy
  have hplane : plane { s with heap := heap } (.imgRawFrame s.frameIndex) = b := plane_eq hp hb
  rw [hplane, hscattered.word_eq x hx]
  exact (f.upperHalf.turns_spots _ hx).symm

theorem Copied.plane_other {heap : Heap} (hc : Copied fpu f s heap) (hs : Frames s) {slot : Slot}
    (himg : slot ≠ .imgRawFrame s.frameIndex) (htemp : slot ≠ .temperatureRawFrame s.frameIndex) :
    plane { s with heap := heap } slot = s.plane slot := by
  obtain ⟨p, p', hp, hp', hboth⟩ := hc
  refine plane_stores fun q hq => ?_
  have hne : q ≠ p := fun heq => himg (hs.apart slot _ p (heq ▸ hq) hp)
  have hne' : q ≠ p' := fun heq => htemp (hs.apart slot _ p' (heq ▸ hq) hp')
  exact hboth.others q hne hne'

/-- In Kelvin, the quarter turn stores the last column outside the plane. -/
theorem Takes.straight (ht : Takes f s) (hrows : 0 < f.height / 2)
    (hrun : s.copyFrame fpu f = some s') : s.Straight f := by
  intro hmode hkelvin
  by_contra hwide
  have hfit := ht.bytes_lt hrun
  have hin := (ht.positions_inside hrun hrows (show f.width - 1 < f.width by omega)).2
  have hcols : (s.turned f).cols = f.height / 2 := by
    rw [turned, hmode]
    rfl
  have hturned : (s.turned f).rows = f.width := by
    rw [turned, hmode]
    rfl
  have hsize : CInt.u32 (lineBytes (s.turned f).cols 2 * (s.turned f).rows) =
      (s.rawLayout f).bytes := rawSize_eq hfit
  rw [hsize, hmode, hkelvin, tempPos, if_pos rfl, ht.rawPlanes.img_line,
    ht.width_eq, hcols] at hin
  have hline := rawLine_eq hfit (by omega)
  rw [hcols] at hline
  have hbytes : (s.rawLayout f).bytes = stride16 (f.height / 2) * f.width := by
    rw [rawLayout, hcols, hturned]
    rfl
  have hstride : 2 * (f.height / 2) ≤ stride16 (f.height / 2) := by
    unfold stride16
    omega
  obtain ⟨n, hn⟩ : ∃ n, f.width = n + 2 := ⟨f.width - 2, by omega⟩
  have hrow : (f.width - 1) * stride16 (f.height / 2) + stride16 (f.height / 2) =
      stride16 (f.height / 2) * f.width := by
    rw [hn, ← Nat.succ_mul, Nat.mul_comm]
    rfl
  have hlast : stride16 (f.height / 2) ≤ (f.width - 1) * stride16 (f.height / 2) := by
    rw [hn]
    exact Nat.le_mul_of_pos_left _ (by omega)
  have hhigh := ht.high
  rw [hbytes] at hin hfit
  have hlow : CInt.u32 ((f.width - 1) * stride16 (f.height / 2)) =
      (f.width - 1) * stride16 (f.height / 2) := CInt.u32_eq (by omega)
  rw [hline, hlow, CInt.u32_eq (by omega), sub_sub_eq (by omega) (by omega)] at hin
  omega

end ThermalUsb

end IotCamera
