import IotCamera.Proofs.ThermalCopy

/-!
# Rotated images and their temperatures

What the copy loops are for, in two statements. `Turned` says that the raw
image plane holds the upper half of the camera's frame, turned, and that
nothing around it is touched. `Registered` says that the temperature of every
pixel is where the pixel is.

Both hold for planes of fewer than 2³² bytes, except for what the index
expressions for the temperatures get wrong. A quarter turn in Kelvin stores
outside the temperature plane as soon as the frame has two columns, and then
the loops have no meaning at all. Three quarter turns store every temperature
in a row with the columns reversed, which shows as soon as a row has two.
-/

namespace IotCamera

open Layout

/-- A position is that of a row and a column inside a 16-bit plane. -/
def FrameFormat.Cell (d : FrameFormat) (pos : Nat) (x : Nat × Nat) : Prop :=
  x ∈ grid d.height d.width ∧ pos = x.1 * d.bytesPerLine + 2 * x.2

namespace ThermalUsb

variable {s s' : ThermalUsb} {fpu : Fpu} {alloc : Allocator} {f : UvcFrame} {mode : RotateMode}
  {w h : Nat} {x y : Nat × Nat}

/-- Where the loops store the sample of the image at a cell. -/
def imgAt (s : ThermalUsb) (x : Nat × Nat) : Nat := imgPos s.rotateMode s.img s.temp x.1 x.2

/-- Where the loops store the temperature at a cell. -/
def tempAt (s : ThermalUsb) (x : Nat × Nat) : Nat :=
  tempPos s.rotateMode s.temperatureMode s.img s.temp x.1 x.2

/-- The temperatures are registered with the image. -/
structure Registered (fpu : Fpu) (f : UvcFrame) (s : ThermalUsb) : Prop where
  /-- a sample of each half goes to the same row and column of its plane -/
  same : ∀ x ∈ grid (f.height / 2) f.width, ∃ y,
    s.img.Cell (s.imgAt x) y ∧ s.temp.Cell (s.tempAt x) y
  /-- every cell gets its temperature from one sample -/
  once : ∀ y ∈ grid s.temp.height s.temp.width, ∃! x,
    x ∈ grid (f.height / 2) f.width ∧ s.tempAt x = y.1 * s.temp.bytesPerLine + 2 * y.2
  /-- and what is there is the sample, converted -/
  stored : ∃ s', s.copyFrame fpu f = some s' ∧ ∀ x ∈ grid (f.height / 2) f.width,
    s'.heap.load16 s.temp.ptr (s.tempAt x) =
      some (s.temperatureMode.convert fpu (f.lowerHalf.pixel x))

/-- The image plane after the loops, if `P` is what it should hold. -/
structure Turned (f : UvcFrame) (P : Picture (BitVec 16)) (s s' : ThermalUsb) : Prop where
  rows_eq : s.img.height = P.rows
  cols_eq : s.img.width = P.cols
  pixels : ∀ y ∈ P.cells,
    s'.heap.load16 s.img.ptr (y.1 * s.img.bytesPerLine + 2 * y.2) = some (P.pixel y)
  once : ∀ y ∈ P.cells, ∃! x, x ∈ grid (f.height / 2) f.width ∧
    s.imgAt x = y.1 * s.img.bytesPerLine + 2 * y.2
  inside : ∀ x ∈ grid (f.height / 2) f.width,
    s.imgAt x / 2 < s.img.bytesPerLine * s.img.height / 2
  /-- the bytes that belong to no cell are those there were -/
  padding : ∀ k, (∀ y ∈ P.cells, k ≠ y.1 * s.img.bytesPerLine + 2 * y.2 ∧
      k ≠ y.1 * s.img.bytesPerLine + 2 * y.2 + 1) →
    (s'.plane (.imgRawFrame s.frameIndex)).byte k = (s.plane (.imgRawFrame s.frameIndex)).byte k
  other : s'.plane (.imgRawFrame (1 - s.frameIndex)) = s.plane (.imgRawFrame (1 - s.frameIndex))

/-! ## Cells -/

theorem Takes.row_eq (ht : Takes f s) (hfit : (s.rawLayout f).bytes < 4294967296)
    (hy : y ∈ (s.turned f).cells) :
    y.1 * s.img.bytesPerLine + 2 * y.2 = (s.rawLayout f).pos y ∧
      y.1 * s.temp.bytesPerLine + 2 * y.2 = (s.rawLayout f).pos y := by
  have hline := rawLine_eq hfit (zero_mem_grid hy).1
  rw [img, temp, ht.rawPlanes.img_line, ht.rawPlanes.temp_line, hline]
  exact ⟨rfl, rfl⟩

theorem Takes.img_grid (ht : Takes f s) :
    grid s.img.height s.img.width = (s.turned f).cells := by
  rw [img, ht.height_eq, ht.width_eq]
  rfl

theorem Takes.temp_grid (ht : Takes f s) :
    grid s.temp.height s.temp.width = (s.turned f).cells := by
  rw [temp, ht.height_eq, ht.width_eq]
  rfl

theorem Takes.imgAt_eq (ht : Takes f s) (hfit : (s.rawLayout f).bytes < 4294967296)
    (hx : x ∈ grid (f.height / 2) f.width) :
    s.imgAt x = (s.rawLayout f).pos (f.upperHalf.spots s.rotateMode.quarters x) := by
  rw [imgAt, img, temp, ht.rawPlanes.imgPos_eq hx.1 hx.2]
  exact rawPos_eq hfit ((injects_spots s f).mapsTo hx)

theorem Takes.tempAt_eq (ht : Takes f s) (hfit : (s.rawLayout f).bytes < 4294967296)
    (hstraight : s.Straight f) (hx : x ∈ grid (f.height / 2) f.width) :
    s.tempAt x = (s.rawLayout f).pos (tempSpot f s.rotateMode x) := by
  rw [tempAt, img, temp, ht.rawPlanes.tempPos_eq hx.1 hx.2 fun hmode hkelvin => ?_]
  · exact rawPos_eq hfit ((injects_tempSpot s f).mapsTo hx)
  · have hone := hstraight hmode hkelvin
    have hcol := hx.2
    omega

/-- Two cells of a plane at one position are one cell. -/
theorem pos_inj {L : Layout} (hx : x ∈ grid L.height L.width) (hy : y ∈ grid L.height L.width)
    (heq : L.pos x = L.pos y) : x = y := by
  by_contra hne
  have hapart : L.pos x + 2 ≤ L.pos y ∨ L.pos y + 2 ≤ L.pos x :=
    off_apart hx.2 hy.2 fun hxy => hne (Prod.ext hxy.1 hxy.2)
  omega

/-- A sample at a cell's position is the one sample that goes to the cell. -/
theorem existsUnique_pos {L : Layout} {P : Picture (BitVec 16)} {k : Nat} {place : Nat × Nat → Nat}
    (hgrid : (P.turns k).cells = grid L.height L.width)
    (hat : ∀ x ∈ P.cells, place x = L.pos (P.spots k x)) (hy : y ∈ (P.turns k).cells) :
    ∃! x, x ∈ P.cells ∧ place x = L.pos y := by
  obtain ⟨x, ⟨hx, hxy⟩, honly⟩ := P.existsUnique_spots k hy
  refine ⟨x, ⟨hx, by rw [hat x hx, hxy]⟩, fun z ⟨hz, hzy⟩ => honly z ⟨hz, ?_⟩⟩
  rw [hat z hz] at hzy
  exact pos_inj (hgrid ▸ (P.bijOn_spots k).mapsTo hz) (hgrid ▸ hy) hzy

/-! ## The image -/

/-- If the loops have a result, the image is turned. -/
theorem Takes.turned_of_run (ht : Takes f s) (hrows : 0 < f.height / 2)
    (hrun : s.copyFrame fpu f = some s') : Turned f (s.turned f) s s' := by
  have hfit := ht.bytes_lt hrun
  obtain ⟨heap, hrun', hcopied⟩ := ht.copyFrame_spec fpu hfit (ht.straight hrows hrun)
  obtain rfl : s' = { s with heap := heap } := Option.some.inj (hrun.symm.trans hrun')
  obtain ⟨p, p', hp, -, hboth⟩ := id hcopied
  obtain ⟨b, hb, hscattered⟩ := hboth.first
  have hafter : plane { s with heap := heap } (.imgRawFrame s.frameIndex) = b := plane_eq hp hb
  obtain ⟨-, -, -, hsize⟩ := ht.plane_spec hfit (.imgRawFrame s.frameIndex)
    (by simp [frameSlots])
  have hbij := f.upperHalf.bijOn_spots s.rotateMode.quarters
  refine ⟨ht.height_eq _, ht.width_eq _, fun y hy => ?_, fun y hy => ?_, fun x hx => ?_,
    fun k hk => ?_, ?_⟩
  · have hin : (s.rawLayout f).pos y + 2 ≤ b.size := by
      rw [hscattered.size_eq, hsize]
      exact pos_lt (L := s.rawLayout f) hy
    rw [(ht.row_eq hfit hy).1, img, hp, Heap.load16_eq hb hin, ← hafter, hcopied.plane_img hy]
  · rw [(ht.row_eq hfit hy).1]
    exact existsUnique_pos rfl (fun x hx => ht.imgAt_eq hfit hx) hy
  · have hin := pos_lt (L := s.rawLayout f) (hbij.mapsTo hx)
    have hbytes : s.img.bytesPerLine * s.img.height = (s.rawLayout f).bytes := by
      rw [img, ht.rawPlanes.img_line, ht.height_eq,
        rawLine_eq hfit (zero_mem_grid (hbij.mapsTo hx)).1]
      rfl
    rw [ht.imgAt_eq hfit hx, hbytes]
    omega
  · rw [hafter]
    refine hscattered.rest_eq k fun x hx => ?_
    have hne := hk _ (hbij.mapsTo hx)
    rwa [(ht.row_eq hfit (hbij.mapsTo hx)).1] at hne
  · have hother : (1 - s.frameIndex : Fin 2) ≠ s.frameIndex := by
      generalize s.frameIndex = i
      revert i
      decide
    exact hcopied.plane_other ht.frames (fun heq => hother (Slot.imgRawFrame.inj heq)) (by simp)

/-- For a frame of the size the object was opened for, the loops turn the
image as they should exactly if the planes have fewer than 2³² bytes and no
more than one column of temperatures in Kelvin gets a quarter turn. -/
theorem turned_iff (ho : OpenedFor fpu alloc mode w h s) (hf : f.Matches w h)
    (hh : 2 ≤ h) :
    (∃ s', s.copyFrame fpu f = some s' ∧ Turned f (f.upperHalf.turns mode.quarters) s s') ↔
      (layout16 (planeSize mode w h).1 (planeSize mode w h).2).bytes < 4294967296 ∧
        ¬ (mode = .rotate90 ∧ s.temperatureMode = .kelvin ∧ 2 ≤ w) := by
  obtain ⟨ht, rfl⟩ := ho.takes hf
  have hrows : 0 < f.height / 2 := by
    rw [hf.height_eq]
    omega
  rw [planeSize_turns _ ho.wide ho.high hf]
  constructor
  · rintro ⟨s', hrun, -⟩
    exact ⟨ht.bytes_lt hrun, (straight_iff hf).1 (ht.straight hrows hrun)⟩
  · intro ⟨hfit, hnot⟩
    obtain ⟨heap, hrun, -⟩ := ht.copyFrame_spec fpu hfit ((straight_iff hf).2 hnot)
    exact ⟨_, hrun, ht.turned_of_run hrows hrun⟩

/-- A frame of the size given, with enough data. -/
theorem irFrame_matches {data : Block} (hlen : w * 2 * h ≤ data.size) :
    (irFrame w h data).Matches w h where
  width_eq := rfl
  height_eq := rfl
  inside i j hi hj := by
    have hrow : w * 2 * (i + 1) ≤ w * 2 * h := Nat.mul_le_mul_left _ hi
    rw [Nat.mul_succ] at hrow
    show w * 2 * i + 2 * j + 2 ≤ data.size
    omega

/-- The camera's own frame, a quarter turn, and temperatures in centigrade. -/
theorem turned_camera : ∃ s f s',
    OpenedFor ⟨fun _ => 0, fun _ => 0⟩ (holding fun _ => 0) .rotate90 256 384 s ∧
    f.Matches 256 384 ∧ s.copyFrame ⟨fun _ => 0, fun _ => 0⟩ f = some s' ∧
    Turned f (f.upperHalf.turns 1) s s' := by
  obtain ⟨s, ho, htemp, -⟩ := exists_openedFor (w := 256) (h := 384) ⟨fun _ => 0, fun _ => 0⟩
    (fun _ => 0) .rotate90 .rgb24 .centigrade (by decide) (by decide) (by decide)
  have hf : (irFrame 256 384 ⟨196608, fun _ => 0⟩).Matches 256 384 := irFrame_matches (by decide)
  obtain ⟨s', hrun, hturned⟩ := (turned_iff ho hf (by decide)).2
    ⟨by decide, fun ⟨_, hkelvin, _⟩ => (by rw [htemp] at hkelvin; cases hkelvin)⟩
  exact ⟨s, _, s', ho, hf, hrun, hturned⟩

/-- Two columns and two rows of a frame in Kelvin. -/
theorem kelvin_turned_outside : ∃ s f,
    OpenedFor ⟨fun _ => 0, fun _ => 0⟩ (holding fun _ => 0) .rotate90 2 2 s ∧ f.Matches 2 2 ∧
    ¬ ∃ s', s.copyFrame ⟨fun _ => 0, fun _ => 0⟩ f = some s' ∧
      Turned f (f.upperHalf.turns 1) s s' := by
  obtain ⟨s, ho, htemp, -⟩ := exists_openedFor (w := 2) (h := 2) ⟨fun _ => 0, fun _ => 0⟩
    (fun _ => 0) .rotate90 .rgb24 .kelvin (by decide) (by decide) (by decide)
  have hf : (irFrame 2 2 ⟨8, fun _ => 0⟩).Matches 2 2 := irFrame_matches (by decide)
  exact ⟨s, _, ho, hf, fun h => ((turned_iff ho hf (by decide)).1 h).2 ⟨rfl, htemp, by decide⟩⟩

/-! ## The temperatures -/

theorem rawBytes_empty (hempty : f.height / 2 = 0 ∨ f.width = 0) : (s.rawLayout f).bytes = 0 := by
  have hsides : (s.turned f).cols = 0 ∨ (s.turned f).rows = 0 := by
    rw [turned]
    cases s.rotateMode with
    | rotate0 | rotate180 => exact hempty.symm
    | rotate90 | rotate270 => exact hempty
  show stride16 (s.turned f).cols * (s.turned f).rows = 0
  rcases hsides with hcols | hrows
  · rw [hcols]
    exact Nat.zero_mul _
  · rw [hrows, Nat.mul_zero]

/-- Without a pixel the loops do nothing. -/
theorem copyFrame_empty (hempty : f.height / 2 = 0 ∨ f.width = 0) :
    s.copyFrame fpu f = some s := by
  have hloop : ∃ heap, forLoop 0 (f.height / 2) (fun i => forLoop 0 f.width (copyPixel fpu s f i))
      s.heap = some heap ∧ heap = s.heap := by
    refine sweep (I := fun _ heap => heap = s.heap) rfl fun i j D heap hx _ _ _ => ?_
    rcases hempty with hzero | hzero
    · exact absurd hx.1 (by omega)
    · exact absurd hx.2 (by omega)
  obtain ⟨heap, hrun, rfl⟩ := hloop
  rw [copyFrame, hrun, Option.map_some]

theorem turned_empty (hempty : f.height / 2 = 0 ∨ f.width = 0) : y ∉ (s.turned f).cells := by
  intro hy
  obtain ⟨x, hx, -⟩ := (f.upperHalf.bijOn_spots s.rotateMode.quarters).surjOn hy
  rcases hempty with hzero | hzero
  · exact absurd hx.1 (by change ¬ x.1 < f.height / 2; omega)
  · exact absurd hx.2 (by change ¬ x.2 < f.width; omega)

/-- Without a pixel there is nothing to register. -/
theorem Takes.registered_empty (ht : Takes f s) (hempty : f.height / 2 = 0 ∨ f.width = 0) :
    Registered fpu f s where
  same x hx := by
    have hx' : x ∈ f.upperHalf.cells := hx
    exact absurd ((f.upperHalf.bijOn_spots s.rotateMode.quarters).mapsTo hx')
      (turned_empty hempty)
  once y hy := absurd (ht.temp_grid ▸ hy) (turned_empty hempty)
  stored := by
    refine ⟨s, copyFrame_empty hempty, fun x hx => ?_⟩
    have hx' : x ∈ f.upperHalf.cells := hx
    exact absurd ((f.upperHalf.bijOn_spots s.rotateMode.quarters).mapsTo hx')
      (turned_empty hempty)

/-- Where the temperatures go where the image goes, they are registered. -/
theorem Takes.registered_of_spots (ht : Takes f s) (hfit : (s.rawLayout f).bytes < 4294967296)
    (hstraight : s.Straight f) (hspot : ∀ x ∈ grid (f.height / 2) f.width,
      tempSpot f s.rotateMode x = f.upperHalf.spots s.rotateMode.quarters x) :
    Registered fpu f s := by
  have hbij := f.upperHalf.bijOn_spots s.rotateMode.quarters
  have htemp : ∀ x ∈ f.upperHalf.cells,
      s.tempAt x = (s.rawLayout f).pos (f.upperHalf.spots s.rotateMode.quarters x) := by
    intro x hx
    rw [ht.tempAt_eq hfit hstraight hx, hspot x hx]
  refine ⟨fun x hx => ⟨f.upperHalf.spots s.rotateMode.quarters x, ⟨?_, ?_⟩, ?_, ?_⟩,
    fun y hy => ?_, ?_⟩
  · rw [ht.img_grid]
    exact hbij.mapsTo hx
  · rw [ht.imgAt_eq hfit hx, (ht.row_eq hfit (hbij.mapsTo hx)).1]
  · rw [ht.temp_grid]
    exact hbij.mapsTo hx
  · rw [htemp x hx, (ht.row_eq hfit (hbij.mapsTo hx)).2]
  · rw [ht.temp_grid] at hy
    rw [(ht.row_eq hfit hy).2]
    exact existsUnique_pos rfl htemp hy
  · obtain ⟨heap, hrun, p, p', hp, hp', hboth⟩ := ht.copyFrame_spec fpu hfit hstraight
    obtain ⟨b, hb, hscattered⟩ := hboth.second
    obtain ⟨p₁, hp₁, hb₁, hsize⟩ := ht.plane_spec hfit (.temperatureRawFrame s.frameIndex)
      (by simp [frameSlots])
    refine ⟨_, hrun, fun x hx => ?_⟩
    have hin : (s.rawLayout f).pos (tempSpot f s.rotateMode x) + 2 ≤ b.size := by
      rw [hscattered.size_eq, hsize]
      exact pos_lt ((injects_tempSpot s f).mapsTo hx)
    rw [ht.tempAt_eq hfit hstraight hx, temp, hp', Heap.load16_eq hb hin,
      hscattered.word_eq x hx]

/-- Three quarter turns bring the first row of the image to the first column,
and its temperatures to the last. -/
theorem Takes.one_row (ht : Takes f s) (hreg : Registered fpu f s)
    (hmode : s.rotateMode = .rotate270) (hx : (0, 0) ∈ grid (f.height / 2) f.width) :
    f.height / 2 = 1 := by
  obtain ⟨s', hrun, -⟩ := hreg.stored
  have hfit := ht.bytes_lt hrun
  have hrows : 0 < f.height / 2 := hx.1
  obtain ⟨y, himg, htemp⟩ := hreg.same (0, 0) hx
  have hpos : s.imgAt (0, 0) = s.tempAt (0, 0) := by
    rw [himg.2, htemp.2, img, temp, ht.rawPlanes.img_line, ht.rawPlanes.temp_line]
  rw [ht.imgAt_eq hfit hx, ht.tempAt_eq hfit (ht.straight hrows hrun) hx] at hpos
  have heq := pos_inj ((injects_spots s f).mapsTo hx) ((injects_tempSpot s f).mapsTo hx) hpos
  rw [tempSpot, if_pos hmode, hmode] at heq
  have hcol := congrArg Prod.snd (heq.symm.trans (spots_three hrows))
  change f.height / 2 - 1 - 0 = 0 at hcol
  omega

/-- For a frame of the size the object was opened for, whatever format and
mode were set since then, the temperatures are registered with the image
exactly if the planes have fewer than 2³² bytes, no more than one column of
temperatures in Kelvin gets a quarter turn, and no more than one row gets
three. -/
theorem registered_iff (ho : OpenedFor fpu alloc mode w h s) (hf : f.Matches w h) :
    Registered fpu f s ↔
      (layout16 (planeSize mode w h).1 (planeSize mode w h).2).bytes < 4294967296 ∧
        (mode = .rotate90 → s.temperatureMode = .kelvin → w ≤ 1 ∨ h < 2) ∧
        (mode = .rotate270 → w = 0 ∨ h / 2 ≤ 1) := by
  obtain ⟨ht, rfl⟩ := ho.takes hf
  rw [planeSize_turns _ ho.wide ho.high hf]
  have hwidth := hf.width_eq
  have hheight := hf.height_eq
  by_cases hempty : f.height / 2 = 0 ∨ f.width = 0
  · refine ⟨fun _ => ⟨?_, fun _ _ => by omega, fun _ => by omega⟩,
      fun _ => ht.registered_empty hempty⟩
    exact Nat.lt_of_le_of_lt (Nat.le_of_eq (rawBytes_empty (s := s) hempty)) (by omega)
  have hfirst : (0, 0) ∈ grid (f.height / 2) f.width := by
    refine ⟨?_, ?_⟩
    · show 0 < f.height / 2
      omega
    · show 0 < f.width
      omega
  constructor
  · intro hreg
    obtain ⟨s', hrun, -⟩ := hreg.stored
    refine ⟨ht.bytes_lt hrun, fun hmode hkelvin => Or.inl ?_, fun hmode => Or.inr ?_⟩
    · rw [← hwidth]
      exact ht.straight hfirst.1 hrun hmode hkelvin
    · rw [← hheight, ht.one_row hreg hmode hfirst]
  · rintro ⟨hfit, hkelvin, hthree⟩
    refine ht.registered_of_spots hfit (fun hmode hk => ?_) fun x hx => ?_
    · have := hkelvin hmode hk
      omega
    · by_cases hmode : s.rotateMode = .rotate270
      · have hone := hthree hmode
        have hrow := hx.1
        rw [tempSpot, if_pos hmode, hmode]
        refine Eq.trans ?_ (spots_three hrow).symm
        exact Prod.ext rfl (by change f.height / 2 - 1 - x.1 = x.1; omega)
      · rw [tempSpot, if_neg hmode]

/-- The camera's own size: a frame in Kelvin upright and upside down, and one in
centigrade with a quarter turn. -/
theorem registered_upright : ∃ f : UvcFrame, f.Matches 256 384 ∧ f.lowerHalf.pixel (0, 0) = 265 ∧
    ∀ m ∈ [(RotateMode.rotate0, TemperatureMode.kelvin), (.rotate180, .kelvin),
      (.rotate90, .centigrade)],
    ∃ s, OpenedFor ⟨fun _ => 0, BitVec.ofInt 16⟩ (holding fun _ => 1) m.1 256 384 s ∧
      s.temperatureMode = m.2 ∧ Registered ⟨fun _ => 0, BitVec.ofInt 16⟩ f s := by
  have hf : (irFrame 256 384 ⟨196608, fun k => if k % 2 = 0 then 9 else 1⟩).Matches 256 384 :=
    irFrame_matches (by decide)
  refine ⟨_, hf, rfl, fun m hm => ?_⟩
  have hmode : m.1 ≠ .rotate270 ∧ (m.1 = .rotate90 → m.2 ≠ .kelvin) := by
    revert m
    decide
  obtain ⟨s, ho, htemp, -⟩ := exists_openedFor (w := 256) (h := 384)
    ⟨fun _ => 0, BitVec.ofInt 16⟩ (fun _ => 1) m.1 .rgb24 m.2 (by decide) (by decide) (by decide)
  refine ⟨s, ho, htemp, (registered_iff ho hf).2 ⟨?_, fun hquarter hkelvin => ?_, fun hthree => ?_⟩⟩
  · cases m.1 <;> decide
  · exact absurd (htemp ▸ hkelvin) (hmode.2 hquarter)
  · exact absurd hthree hmode.1

/-- Two pixels above each other, and three quarter turns. -/
theorem mirrored_temperatures : ∃ s f,
    OpenedFor ⟨fun _ => 0, fun _ => 0⟩ (holding fun _ => 0) .rotate270 1 4 s ∧ f.Matches 1 4 ∧
    ¬ Registered ⟨fun _ => 0, fun _ => 0⟩ f s := by
  obtain ⟨s, ho, -⟩ := exists_openedFor (w := 1) (h := 4) ⟨fun _ => 0, fun _ => 0⟩
    (fun _ => 0) .rotate270 .rgb24 .centigrade (by decide) (by decide) (by decide)
  have hf : (irFrame 1 4 ⟨8, fun _ => 0⟩).Matches 1 4 := irFrame_matches (by decide)
  refine ⟨s, _, ho, hf, fun hreg => ?_⟩
  have hone := ((registered_iff ho hf).1 hreg).2.2 rfl
  omega

end ThermalUsb

end IotCamera
