import IotCamera.Lib.Raster
import IotCamera.Lib.Scatter
import IotCamera.Proofs.ThermalWorking

/-!
# What the palette divides

`infraredFindMaxMin` finds the largest and the smallest sample of the image,
and with these the three thresholds are where they should be. The divisions
that follow use other numbers: `yMin` and `yMax` have been set to the first
sample of the image by then, and the first and the last band divide by the
distance of a threshold to it.

So the first band is all right only if the first sample is the largest and
the band has no more than one level, and the last only if the first sample is
the largest. `palette_in_range_iff` says what that leaves of all images:
those whose largest sample is one to three levels above the smallest, and is
in the top left corner.
-/

namespace IotCamera

open Layout

/-- A division by something, with a quotient that scales to a byte. -/
structure InRange (d : Int × Int) : Prop where
  divisor : d.2 ≠ 0
  low : 0 ≤ (d.1 : ℚ) / d.2
  high : (d.1 : ℚ) / d.2 ≤ 1
  byte : (FloatVal.div d.1 d.2).byte? ≠ none

theorem byte_of_le {q : ℚ} (hlo : 0 ≤ q) (hhi : q ≤ 1) :
    (FloatVal.finite q).byte? = some (BitVec.ofInt 8 ⌊q * 255⌋) := by
  have hnonneg : 0 ≤ q * 255 := by linarith
  have hfloor : 0 ≤ ⌊q * 255⌋ := Int.floor_nonneg.2 hnonneg
  have hlt : ⌊q * 255⌋ < 256 := by
    rw [Int.floor_lt]
    push_cast
    linarith
  simp only [FloatVal.byte?, FloatVal.truncate, if_pos hnonneg]
  rw [if_pos ⟨hfloor, hlt⟩]

/-- The quotient is between 0 and 1 if the divided number is between 0 and the
divisor, on whatever side of 0 that is. -/
theorem inRange_iff (d : Int × Int) :
    InRange d ↔ (0 < d.2 ∧ 0 ≤ d.1 ∧ d.1 ≤ d.2) ∨ (d.2 < 0 ∧ d.2 ≤ d.1 ∧ d.1 ≤ 0) := by
  obtain ⟨a, b⟩ := d
  dsimp only
  constructor
  · intro h
    have hdivisor := h.divisor
    have hlow := h.low
    have hhigh := h.high
    dsimp only at hdivisor hlow hhigh
    rcases Int.lt_or_gt_of_ne hdivisor with hneg | hpos
    · have hb : (b : ℚ) < 0 := by exact_mod_cast hneg
      rw [div_le_one_of_neg hb] at hhigh
      rw [le_div_iff_of_neg hb, zero_mul] at hlow
      exact Or.inr ⟨hneg, by exact_mod_cast hhigh, by exact_mod_cast hlow⟩
    · have hb : (0 : ℚ) < b := by exact_mod_cast hpos
      rw [div_le_one hb] at hhigh
      rw [le_div_iff₀ hb, zero_mul] at hlow
      exact Or.inl ⟨hpos, by exact_mod_cast hlow, by exact_mod_cast hhigh⟩
  · intro h
    have hne : b ≠ 0 := by omega
    have hquot : 0 ≤ (a : ℚ) / b ∧ (a : ℚ) / b ≤ 1 := by
      rcases h with ⟨hpos, hlow, hhigh⟩ | ⟨hneg, hlow, hhigh⟩
      · have hb : (0 : ℚ) < b := by exact_mod_cast hpos
        rw [div_le_one hb, le_div_iff₀ hb, zero_mul]
        exact ⟨by exact_mod_cast hlow, by exact_mod_cast hhigh⟩
      · have hb : (b : ℚ) < 0 := by exact_mod_cast hneg
        rw [div_le_one_of_neg hb, le_div_iff_of_neg hb, zero_mul]
        exact ⟨by exact_mod_cast hhigh, by exact_mod_cast hlow⟩
    refine ⟨hne, hquot.1, hquot.2, ?_⟩
    rw [FloatVal.div, if_pos hne, byte_of_le hquot.1 hquot.2]
    exact Option.some_ne_none _

/-- The thresholds, where nothing wraps. -/
theorem levels_of {yMax yMin : Nat} (hle : yMin ≤ yMax) (hlt : yMax < 65536) :
    Levels.of yMax yMin = ⟨yMin + (yMax - yMin) / 4, yMin + 2 * (yMax - yMin) / 4,
      yMin + 3 * (yMax - yMin) / 4⟩ := by
  rw [Levels.of, CInt.u16_eq (by omega), CInt.u16_eq (by omega), CInt.u16_eq (by omega)]

/-- The divisions of all levels between the smallest and the largest. -/
theorem divisions_in_range_iff {S : Set Nat} {yMax yMin first : Nat} (hmax : IsGreatest S yMax)
    (hmin : IsLeast S yMin) (hfirst : first ∈ S) (hlt : yMax < 65536) :
    (∀ v ∈ S, InRange ((Levels.of yMax yMin).division first first v)) ↔
      yMin + 1 ≤ yMax ∧ yMax ≤ yMin + 3 ∧ first = yMax := by
  have hle : yMin ≤ yMax := hmax.2 hmin.1
  have hfirstMax : first ≤ yMax := hmax.2 hfirst
  have hfirstMin : yMin ≤ first := hmin.2 hfirst
  rw [levels_of hle hlt]
  constructor
  · intro hall
    -- the largest sample is in the last band, or it is the smallest as well
    have hlast := (inRange_iff _).1 (hall yMax hmax.1)
    have hlow := (inRange_iff _).1 (hall yMin hmin.1)
    unfold Levels.division at hlast hlow
    rw [if_pos (show yMin ≤ yMin + (yMax - yMin) / 4 by omega)] at hlow
    by_cases heq : yMin = yMax
    · dsimp only at hlow
      omega
    · rw [if_neg (by dsimp only; omega), if_neg (by dsimp only; omega),
        if_neg (by dsimp only; omega)] at hlast
      dsimp only at hlast hlow
      omega
  · rintro ⟨hone, hthree, rfl⟩ v hv
    have hv₀ := hmin.2 hv
    have hv₁ := hmax.2 hv
    rw [inRange_iff]
    unfold Levels.division
    dsimp only
    split
    · dsimp only
      omega
    split
    · dsimp only
      omega
    split
    · dsimp only
      omega
    · dsimp only
      omega

namespace ThermalUsb

variable {s s' : ThermalUsb} {L : Layout} {R : Raster} {fpu : Fpu} {x : Nat × Nat} {heap : Heap}

/-! ## The search -/

/-- The raw image plane of the current buffer is a picture of this layout. -/
structure HasImage (L : Layout) (s : ThermalUsb) : Prop where
  width_eq : s.img.width = L.width
  height_eq : s.img.height = L.height
  fit : L.bytes < 4294967296
  holds : ∃ p, Holds L s.heap s.img p (s.plane (.imgRawFrame s.frameIndex))

/-- The sample at a cell of the image. -/
def level (L : Layout) (s : ThermalUsb) (x : Nat × Nat) : Nat :=
  ((s.plane (.imgRawFrame s.frameIndex)).word (L.pos x)).toNat

/-- All samples of the image. -/
def levels (L : Layout) (s : ThermalUsb) : Set Nat := s.level L '' grid L.height L.width

theorem level_lt : s.level L x < 65536 := BitVec.isLt _

theorem HasImage.load (h : HasImage L s) (hx : x ∈ grid L.height L.width)
    (hheap : ∀ p, s.img.ptr = some p → heap.block p = s.heap.block p) :
    heap.load16 s.img.ptr (CInt.u32 (x.1 * s.img.bytesPerLine) + 2 * x.2) =
      some ((s.plane (.imgRawFrame s.frameIndex)).word (L.pos x)) := by
  obtain ⟨p, hp⟩ := h.holds
  have hin := pos_lt hx
  have hsize := hp.size
  have hfit := h.fit
  have hrow : CInt.u32 (x.1 * s.img.bytesPerLine) + 2 * x.2 = L.pos x := by
    change x.1 * L.stride + 2 * x.2 + 2 ≤ L.bytes at hin
    rw [hp.line, CInt.u32_eq (by omega)]
    rfl
  rw [hrow, hp.ptr, Heap.load16_eq ((hheap p hp.ptr).trans hp.block) (by omega)]

theorem HasImage.load_first (h : HasImage L s) (hne : (0, 0) ∈ grid L.height L.width) :
    s.heap.load16 s.img.ptr 0 =
      some ((s.plane (.imgRawFrame s.frameIndex)).word (L.pos (0, 0))) := by
  have hload := h.load hne fun p _ => rfl
  rw [Nat.zero_mul] at hload
  exact hload

/-- What the search has found after some of the cells. -/
def Found (S : Set Nat) (y : Nat × Nat) : Prop := IsGreatest S y.1 ∧ IsLeast S y.2

theorem Found.insert {S : Set Nat} {y : Nat × Nat} (h : Found S y) (v : Nat) :
    Found (insert v S) (if y.1 < v then v else y.1, if y.2 > v then v else y.2) := by
  have hmax : (if y.1 < v then v else y.1) = max v y.1 := by
    split <;> omega
  have hmin : (if y.2 > v then v else y.2) = min v y.2 := by
    split <;> omega
  rw [hmax, hmin]
  exact ⟨h.1.insert v, h.2.insert v⟩

theorem HasImage.findMaxMin (h : HasImage L s) (hne : (0, 0) ∈ grid L.height L.width) :
    ∃ yMax yMin, s.infraredFindMaxMin = some (yMax, yMin) ∧ IsGreatest (s.levels L) yMax ∧
      IsLeast (s.levels L) yMin := by
  have hloop : ∃ y, forLoop 0 L.height
      (fun i => forLoop 0 L.width (scanPixel s.heap s.img i))
      (s.level L (0, 0), s.level L (0, 0)) = some y ∧
        Found (insert (s.level L (0, 0)) (s.levels L)) y := by
    refine sweep (I := fun D => Found (insert (s.level L (0, 0)) (s.level L '' D)))
      (by simp [Found]) fun i j D y hx _ _ hI => ?_
    refine ⟨_, by rw [scanPixel, h.load (x := (i, j)) hx fun p _ => rfl, Option.map_some], ?_⟩
    rw [Set.image_insert_eq, Set.insert_comm]
    exact hI.insert (s.level L (i, j))
  obtain ⟨⟨yMax, yMin⟩, hrun, hfound⟩ := hloop
  rw [Set.insert_eq_of_mem (show s.level L (0, 0) ∈ s.levels L from
    Set.mem_image_of_mem _ hne)] at hfound
  refine ⟨yMax, yMin, ?_, hfound.1, hfound.2⟩
  unfold infraredFindMaxMin
  show (s.heap.load16 s.img.ptr 0).bind _ = _
  rw [h.load_first hne, Option.bind_some]
  show forLoop 0 s.img.height (fun i => forLoop 0 s.img.width (scanPixel s.heap s.img i)) _ = _
  rw [h.height_eq, h.width_eq]
  exact hrun

/-- All divisions the palette does for the image are in range. -/
def PaletteInRange (s : ThermalUsb) : Prop :=
  ∃ yMax yMin first, s.infraredFindMaxMin = some (yMax, yMin) ∧
    s.heap.load16 s.img.ptr 0 = some first ∧
    ∀ x ∈ grid s.img.height s.img.width, ∃ v,
      s.heap.load16 s.img.ptr (CInt.u32 (x.1 * s.img.bytesPerLine) + 2 * x.2) = some v ∧
      InRange ((Levels.of yMax yMin).division first.toNat first.toNat v.toNat)

/-- For every image with a pixel, the divisions are in range exactly if the
largest sample is one to three levels above the smallest, and is the first. -/
theorem palette_in_range_iff (h : HasImage L s) (hne : (0, 0) ∈ grid L.height L.width) :
    PaletteInRange s ↔ ∃ yMax yMin, IsGreatest (s.levels L) yMax ∧ IsLeast (s.levels L) yMin ∧
      yMin + 1 ≤ yMax ∧ yMax ≤ yMin + 3 ∧ s.level L (0, 0) = yMax := by
  obtain ⟨yMax, yMin, hrun, hmax, hmin⟩ := h.findMaxMin hne
  have hlt : yMax < 65536 := by
    obtain ⟨x, -, rfl⟩ := hmax.1
    exact level_lt
  have hfirst : s.level L (0, 0) ∈ s.levels L := Set.mem_image_of_mem _ hne
  have hiff := divisions_in_range_iff hmax hmin hfirst hlt
  have hall : PaletteInRange s ↔ ∀ v ∈ s.levels L,
      InRange ((Levels.of yMax yMin).division (s.level L (0, 0)) (s.level L (0, 0)) v) := by
    constructor
    · rintro ⟨yMax', yMin', first, hrun', hload, hpixels⟩ v ⟨x, hx, rfl⟩
      obtain ⟨rfl, rfl⟩ := Prod.mk.inj (Option.some.inj (hrun.symm.trans hrun'))
      obtain rfl := Option.some.inj ((h.load_first hne).symm.trans hload)
      obtain ⟨w, hw, hrange⟩ := hpixels x (by rw [h.height_eq, h.width_eq]; exact hx)
      obtain rfl := Option.some.inj ((h.load hx fun p _ => rfl).symm.trans hw)
      exact hrange
    · intro hlevels
      refine ⟨yMax, yMin, _, hrun, h.load_first hne, fun x hx => ?_⟩
      rw [h.height_eq, h.width_eq] at hx
      exact ⟨_, h.load hx fun p _ => rfl, hlevels _ (Set.mem_image_of_mem _ hx)⟩
  rw [hall, hiff]
  constructor
  · intro hcond
    exact ⟨yMax, yMin, hmax, hmin, hcond⟩
  · rintro ⟨yMax', yMin', hmax', hmin', hcond⟩
    rw [hmax.unique hmax', hmin.unique hmin']
    exact hcond

/-! ## Images of an opened object -/

theorem Working.hasImage {width height : Nat} (hs : Working width height s)
    (hfit : (layout16 width height).bytes < 4294967296) (hrows : 0 < height) :
    HasImage (layout16 width height) s where
  width_eq := hs.width_eq _
  height_eq := hs.height_eq _
  fit := hfit
  holds := by
    obtain ⟨p, hp, hb, hsize⟩ := hs.plane_spec hfit (.imgRawFrame s.frameIndex)
      (by simp [frameSlots])
    refine ⟨p, hp, hb, ?_, Nat.le_of_eq hsize.symm⟩
    rw [img, hs.line16_eq (by simp [frameSlots])]
    exact rawLine_eq hfit hrows

/-- A row of pixels that hold what the memory held. -/
theorem exists_row (bytes : Nat → Byte) (width : Nat) (hwidth : width < 2147483648)
    (hsize : planeSize .rotate0 width 2 = (width, 1))
    (hfit : (layout16 width 1).bytes < 4294967296) :
    ∃ s, Working width 1 s ∧ s.pixelFmt = .rgb24 ∧ s.coloured.ptr ≠ none ∧
      HasImage (layout16 width 1) s ∧ ∀ x, s.level (layout16 width 1) x =
        (bytes ((layout16 width 1).pos x + 1) ++ bytes ((layout16 width 1).pos x)).toNat := by
  obtain ⟨s, ho, -, hfmt, hptr, size, hplane⟩ := exists_openedFor (w := width) (h := 2)
    ⟨fun _ => 0, fun _ => 0⟩ bytes .rotate0 .rgb24 .centigrade (by decide) hwidth (by decide)
  have hs : Working width 1 s := by
    have hwork := ho.working.1
    rw [show planeSize .rotate0 width (2 : Nat) = (width, 1) from hsize] at hwork
    exact hwork
  refine ⟨s, hs, hfmt, hptr, hs.hasImage hfit (by decide), fun x => ?_⟩
  rw [level, hplane]
  rfl

/-- A pixel of level 1 and one of level 0 next to it. -/
theorem palette_in_range_two : ∃ s, HasImage (layout16 2 1) s ∧ PaletteInRange s := by
  obtain ⟨s, -, -, -, himg, hlevel⟩ :=
    exists_row (fun k => if k = 0 then 1 else 0) 2 (by decide) rfl (by decide)
  have hfirst : s.level (layout16 2 1) (0, 0) = 1 := (hlevel _).trans (by decide)
  have hsecond : s.level (layout16 2 1) (0, 1) = 0 := (hlevel _).trans (by decide)
  have hle : ∀ x, s.level (layout16 2 1) x ≤ 1 := by
    intro x
    rw [hlevel]
    by_cases hpos : (layout16 2 1).pos x = 0
    · simp [hpos]
    · simp [hpos]
  have hzero : (0, 0) ∈ grid (layout16 2 1).height (layout16 2 1).width := by
    exact ⟨by decide, by decide⟩
  have hone : (0, 1) ∈ grid (layout16 2 1).height (layout16 2 1).width := by
    exact ⟨by decide, by decide⟩
  refine ⟨s, himg, (palette_in_range_iff himg hzero).2 ⟨1, 0, ⟨⟨_, hzero, hfirst⟩, ?_⟩,
    ⟨⟨_, hone, hsecond⟩, fun v _ => Nat.zero_le v⟩, by omega, by omega, hfirst⟩⟩
  rintro v ⟨x, -, rfl⟩
  exact hle x

/-- Two black pixels. -/
theorem constant_out_of_range : ∃ s, HasImage (layout16 2 1) s ∧ ¬ PaletteInRange s := by
  obtain ⟨s, -, -, -, himg, hlevel⟩ := exists_row (fun _ => 0) 2 (by decide) rfl (by decide)
  have hzero : (0, 0) ∈ grid (layout16 2 1).height (layout16 2 1).width := by
    exact ⟨by decide, by decide⟩
  refine ⟨s, himg, fun h => ?_⟩
  obtain ⟨yMax, yMin, hmax, -, hlt, -⟩ := (palette_in_range_iff himg hzero).1 h
  obtain ⟨x, -, rfl⟩ := hmax.1
  have hblack : s.level (layout16 2 1) x = 0 := (hlevel x).trans (by decide)
  omega

end ThermalUsb

end IotCamera
