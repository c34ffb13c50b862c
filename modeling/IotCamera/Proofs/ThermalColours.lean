import IotCamera.Proofs.ThermalPalette
import Mathlib.Logic.Equiv.Set

/-!
# What the colours depend on

A call of `pseudoColorAdaptiveThreshold_1` stores the colour of every pixel
of the image in the colour frame and changes nothing else; that is
`Canvas.adaptiveThreshold_spec`. The colour of a pixel is a function of its
own sample, of the extremes of the image, and of the first sample, which two
of the bands divide by.

Because of the first sample, the same samples in other places get other
colours. If it is the same in both images, every pixel keeps its colour. If
it is not, one does not: where both first samples are above the last
threshold, a pixel with the smaller of them, and otherwise the pixel with the
largest sample, whose quotient then no byte can hold in one of the images. In
that case the machine decides, and there are machines that decide
differently.
-/

namespace IotCamera

open Layout

/-! ## Divisions with different divisors -/

theorem div_ne {a b b' : Int} (ha : 0 < a) (hne : b ≠ b') :
    FloatVal.div a b ≠ FloatVal.div a b' := by
  have ha' : (a : ℚ) ≠ 0 := by exact_mod_cast Int.ne_of_gt ha
  unfold FloatVal.div
  by_cases hb : b = 0
  · rw [if_neg (by omega), if_neg (by omega), if_pos (by omega)]
    exact fun heq => by cases heq
  by_cases hb' : b' = 0
  · rw [if_pos hb, if_neg (by omega), if_neg (by omega)]
    exact fun heq => by cases heq
  · rw [if_pos hb, if_pos hb']
    intro heq
    have hquot := FloatVal.finite.inj heq
    have hb₁ : (b : ℚ) ≠ 0 := by exact_mod_cast hb
    have hb₂ : (b' : ℚ) ≠ 0 := by exact_mod_cast hb'
    rw [div_eq_div_iff hb₁ hb₂] at hquot
    have := mul_left_cancel₀ ha' hquot
    exact hne (by exact_mod_cast this.symm)

/-- No byte holds the quotient by a negative number that is not too large. -/
theorem byte_of_neg {a b : Int} (ha : 0 < a) (hb : b ≤ 0) (hlarge : -b ≤ 255 * a) :
    (FloatVal.div a b).byte? = none := by
  unfold FloatVal.div
  by_cases hzero : b = 0
  · rw [if_neg (by omega), if_neg (by omega)]
    rfl
  · have hneg : (b : ℚ) < 0 := by exact_mod_cast (show b < 0 by omega)
    have hquot : (a : ℚ) / b * 255 ≤ -1 := by
      rw [div_mul_eq_mul_div, div_le_iff_of_neg hneg]
      have : (-b : ℚ) ≤ 255 * a := by exact_mod_cast hlarge
      linarith
    have htruncate : FloatVal.truncate ((a : ℚ) / b * 255) ≤ -1 := by
      rw [FloatVal.truncate, if_neg (by linarith), Int.ceil_le]
      exact_mod_cast hquot
    rw [if_pos hzero]
    simp only [FloatVal.byte?]
    rw [if_neg (by omega)]

theorem scale_self {fpu : Fpu} {a : Int} (ha : a ≠ 0) : fpu.scale a a = 255 := by
  have hone : (a : ℚ) / a = 1 := div_self (by exact_mod_cast ha)
  have hfloor : ⌊(1 : ℚ) * 255⌋ = 255 := by norm_num
  rw [Fpu.scale, FloatVal.div, if_pos ha, hone,
    byte_of_le (by norm_num) (by norm_num), hfloor]
  rfl

theorem scale_lt (fpu : Fpu) {a b : Int} (ha : 0 < a) (hlt : a < b) : fpu.scale a b ≠ 255 := by
  have hb : (0 : ℚ) < b := by exact_mod_cast ha.trans hlt
  have ha' : (0 : ℚ) < a := by exact_mod_cast ha
  have hle : (a : ℚ) / b < 1 := by
    rw [div_lt_one hb]
    exact_mod_cast hlt
  have hnonneg : 0 ≤ (a : ℚ) / b := le_of_lt (div_pos ha' hb)
  have hlow : 0 ≤ ⌊(a : ℚ) / b * 255⌋ := Int.floor_nonneg.2 (by linarith)
  have hhigh : ⌊(a : ℚ) / b * 255⌋ < 255 := by
    rw [Int.floor_lt]
    push_cast
    linarith
  rw [Fpu.scale, FloatVal.div, if_pos (by omega), byte_of_le hnonneg hle.le, Option.getD_some]
  intro heq
  have hval := congrArg BitVec.toNat heq
  rw [BitVec.toNat_ofInt] at hval
  change (⌊(a : ℚ) / b * 255⌋ % 256).toNat = 255 at hval
  omega

/-- In the last band the colour is yellow that turns to red. -/
theorem colour_last {fpu : Fpu} {l : Levels} {yMax yMin v : Nat} (h₀ : l.l0 < v) (h₁ : l.l1 < v)
    (h₂ : l.l2 < v) :
    l.colour fpu yMax yMin v =
      ⟨255, 255 - fpu.scale ((v : Int) - l.l2) ((yMax : Int) - l.l2), 0⟩ := by
  unfold Levels.colour Levels.division
  simp only [if_neg (Nat.not_le.2 h₀), if_neg (Nat.not_le.2 h₁), if_neg (Nat.not_le.2 h₂)]

/-- Two first samples of which one is not above the last threshold: some
machine makes a difference for the largest sample. -/
theorem colour_ne_of_low {yMax yMin t t' : Nat} (hmin : yMin ≤ t) (hlt : yMin < yMax)
    (hbound : yMax < 65536) (hne : t ≠ t') (hlow : t ≤ (Levels.of yMax yMin).l2) :
    ∃ fpu, (Levels.of yMax yMin).colour fpu t t yMax ≠
      (Levels.of yMax yMin).colour fpu t' t' yMax := by
  have hlevels := levels_of (Nat.le_of_lt hlt) hbound
  obtain ⟨l, hl⟩ : ∃ l, Levels.of yMax yMin = l := ⟨_, rfl⟩
  rw [hl] at hlow hlevels ⊢
  have h₀ : l.l0 = yMin + (yMax - yMin) / 4 := by rw [hlevels]
  have h₁ : l.l1 = yMin + 2 * (yMax - yMin) / 4 := by rw [hlevels]
  have h₂ : l.l2 = yMin + 3 * (yMax - yMin) / 4 := by rw [hlevels]
  have ha : (0 : Int) < (yMax : Int) - l.l2 := by omega
  obtain ⟨v, hv⟩ : ∃ v, FloatVal.div ((yMax : Int) - l.l2) ((t : Int) - l.l2) = v := ⟨_, rfl⟩
  obtain ⟨v', hv'⟩ : ∃ v', FloatVal.div ((yMax : Int) - l.l2) ((t' : Int) - l.l2) = v' := ⟨_, rfl⟩
  have hdiffer : v' ≠ v := by
    rw [← hv, ← hv']
    exact div_ne ha (by omega)
  have hnone : v.byte? = none := by
    rw [← hv]
    exact byte_of_neg ha (by omega) (by omega)
  -- it makes of the one quotient what it does not make of the other
  let fpu : Fpu := ⟨fun u => if u = v then v'.byte?.getD 0 + 1 else 0, fun _ => 0⟩
  refine ⟨fpu, ?_⟩
  rw [colour_last (by omega) (by omega) (by omega), colour_last (by omega) (by omega) (by omega)]
  have hscale : fpu.scale ((yMax : Int) - l.l2) ((t : Int) - l.l2) = v'.byte?.getD 0 + 1 := by
    simp only [Fpu.scale, hv, hnone, Option.getD_none, fpu, if_true]
  have hscale' : fpu.scale ((yMax : Int) - l.l2) ((t' : Int) - l.l2) = v'.byte?.getD 0 := by
    simp only [Fpu.scale, hv', fpu, if_neg hdiffer]
  rw [hscale, hscale']
  intro heq
  have hgreen := congrArg Rgb.g heq
  dsimp only at hgreen
  generalize v'.byte?.getD 0 = byte at hgreen
  revert byte
  decide

/-- Two first samples above the last threshold: a pixel with the smaller one
turns out differently. -/
theorem colour_ne_of_high {fpu : Fpu} {yMax yMin t t' : Nat} (hlt : yMin ≤ yMax)
    (hbound : yMax < 65536) (hsmall : t < t') (hhigh : (Levels.of yMax yMin).l2 < t) :
    (Levels.of yMax yMin).colour fpu t t t ≠ (Levels.of yMax yMin).colour fpu t' t' t := by
  have hlevels := levels_of hlt hbound
  obtain ⟨l, hl⟩ : ∃ l, Levels.of yMax yMin = l := ⟨_, rfl⟩
  rw [hl] at hhigh hlevels ⊢
  have h₀ : l.l0 = yMin + (yMax - yMin) / 4 := by rw [hlevels]
  have h₁ : l.l1 = yMin + 2 * (yMax - yMin) / 4 := by rw [hlevels]
  have h₂ : l.l2 = yMin + 3 * (yMax - yMin) / 4 := by rw [hlevels]
  rw [colour_last (by omega) (by omega) hhigh, colour_last (by omega) (by omega) hhigh,
    scale_self (by omega)]
  have hscale := scale_lt fpu (a := (t : Int) - l.l2) (b := (t' : Int) - l.l2)
    (by omega) (by omega)
  intro heq
  have hgreen := congrArg Rgb.g heq
  dsimp only at hgreen
  generalize fpu.scale ((t : Int) - l.l2) ((t' : Int) - l.l2) = byte at hgreen hscale
  revert byte
  decide

/-- The first sample makes no difference to any level, on any machine, only if
it is the same. -/
theorem colour_eq_iff {S : Set Nat} {yMax yMin t t' : Nat} (hmax : IsGreatest S yMax)
    (hmin : IsLeast S yMin) (ht : t ∈ S) (ht' : t' ∈ S) (hbound : yMax < 65536) :
    (∀ fpu, ∀ v ∈ S, (Levels.of yMax yMin).colour fpu t t v =
      (Levels.of yMax yMin).colour fpu t' t' v) ↔ t = t' := by
  refine ⟨fun hall => ?_, fun heq fpu v _ => by rw [heq]⟩
  by_contra hne
  have hlow := hmin.2 ht
  have hlow' := hmin.2 ht'
  have hhigh := hmax.2 ht
  have hhigh' := hmax.2 ht'
  have hlt : yMin < yMax := by omega
  by_cases h : t ≤ (Levels.of yMax yMin).l2
  · obtain ⟨fpu, hfpu⟩ := colour_ne_of_low hlow hlt hbound hne h
    exact hfpu (hall fpu yMax hmax.1)
  by_cases h' : t' ≤ (Levels.of yMax yMin).l2
  · obtain ⟨fpu, hfpu⟩ := colour_ne_of_low hlow' hlt hbound (Ne.symm hne) h'
    exact hfpu (hall fpu yMax hmax.1).symm
  · let fpu : Fpu := ⟨fun _ => 0, fun _ => 0⟩
    rcases Nat.lt_or_gt_of_ne hne with hsmall | hsmall
    · exact colour_ne_of_high (Nat.le_of_lt hlt) hbound hsmall (by omega) (hall fpu t ht)
    · exact colour_ne_of_high (Nat.le_of_lt hlt) hbound hsmall (by omega) (hall fpu t' ht').symm

theorem order_inj {fmt : PixelFormat} {c c' : Rgb} (h : fmt.order c = fmt.order c') : c = c' := by
  obtain ⟨r, g, b⟩ := c
  obtain ⟨r', g', b'⟩ := c'
  cases fmt <;>
    (obtain ⟨h₁, h₂, h₃⟩ : _ ∧ _ ∧ _ := by simpa [PixelFormat.order] using h
     simp [h₁, h₂, h₃])

namespace ThermalUsb

variable {s s' : ThermalUsb} {L L' : Layout} {R R' : Raster} {fpu : Fpu} {x : Nat × Nat}
  {heap : Heap}

/-! ## Painting the colour frame -/

/-- An image, and a colour frame of the same size. -/
structure Canvas (L : Layout) (R : Raster) (s : ThermalUsb) : Prop extends HasImage L s where
  rows_eq : R.height = L.height
  cols_eq : R.width = L.width
  line_eq : s.coloured.bytesPerLine = R.stride
  step_eq : slotBytes s.pixelFmt (.frame s.frameIndex) = some R.step
  /-- the bytes before a pixel in its row are an `int` -/
  column : (R.width - 1) * R.step < 2147483648
  fits : R.bytes < 4294967296
  apart : s.coloured.ptr ≠ s.img.ptr
  block : ∃ p, s.coloured.ptr = some p ∧
    s.heap.block p = some (s.plane (.frame s.frameIndex)) ∧
    R.bytes ≤ (s.plane (.frame s.frameIndex)).size

/-- The bytes of a pixel's colour. -/
def colourOf (fpu : Fpu) (L : Layout) (s : ThermalUsb) (yMax yMin : Nat) (x : Nat × Nat) :
    Triple :=
  s.pixelFmt.order ((Levels.of yMax yMin).colour fpu (s.level L (0, 0)) (s.level L (0, 0))
    (s.level L x))

theorem Canvas.cells_eq (hc : Canvas L R s) : R.cells = grid L.height L.width := by
  rw [Raster.cells, hc.rows_eq, hc.cols_eq]

theorem Canvas.paintPixel_eq (hc : Canvas L R s) (fpu : Fpu) (yMax yMin : Nat) {i j p : Nat}
    (hx : (i, j) ∈ R.cells) (hp : s.coloured.ptr = some p)
    (hothers : ∀ q, q ≠ p → heap.block q = s.heap.block q) :
    paintPixel fpu s (Levels.of yMax yMin) (s.level L (0, 0)) (s.level L (0, 0)) i j heap =
      (heap.store8 (some p) (R.pos (i, j)) (colourOf fpu L s yMax yMin (i, j)).1).bind fun h =>
        (h.store8 (some p) (R.pos (i, j) + 1) (colourOf fpu L s yMax yMin (i, j)).2.1).bind
          fun h => h.store8 (some p) (R.pos (i, j) + 2)
            (colourOf fpu L s yMax yMin (i, j)).2.2 := by
  have hload := hc.load (x := (i, j)) (hc.cells_eq ▸ hx) fun q hq =>
    hothers q fun heq => hc.apart (by rw [hp, hq, heq])
  have hcolumn : CInt.int ((j : Int) * R.step) = some ((j : Int) * R.step) := by
    have hj : j * R.step ≤ (R.width - 1) * R.step :=
      Nat.mul_le_mul_right _ (by have := hx.2; change j < R.width at this; omega)
    have hlt := hc.column
    have hcast : (j : Int) * R.step = ((j * R.step : Nat) : Int) := (Nat.cast_mul j R.step).symm
    rw [hcast]
    exact CInt.int_eq (by omega) (by omega)
  have hpos : CInt.u32 (i * s.coloured.bytesPerLine) + ((j : Int) * R.step).toNat =
      R.pos (i, j) := by
    have hin := Raster.pos_lt hx
    have hfit := hc.fits
    have hcast : ((j : Int) * R.step).toNat = j * R.step := by
      rw [← Nat.cast_mul, Int.toNat_natCast]
    change i * R.stride + j * R.step + 3 ≤ R.bytes at hin
    rw [hcast, hc.line_eq, CInt.u32_eq (by omega)]
    rfl
  unfold paintPixel
  show (heap.load16 s.img.ptr (CInt.u32 (i * s.img.bytesPerLine) + 2 * j)).bind _ = _
  rw [hload, Option.bind_some]
  simp only [hc.step_eq]
  rw [hcolumn, Option.bind_some]
  show storeBytes s.coloured.ptr
    (CInt.u32 (i * s.coloured.bytesPerLine) + ((j : Int) * R.step).toNat) _ heap = _
  rw [hpos, hp]
  rfl

/-- What a call does, if the image has a pixel. -/
theorem Canvas.adaptiveThreshold_spec (hc : Canvas L R s) (fpu : Fpu)
    (hne : (0, 0) ∈ grid L.height L.width) :
    ∃ yMax yMin heap p, IsGreatest (s.levels L) yMax ∧ IsLeast (s.levels L) yMin ∧
      s.coloured.ptr = some p ∧
      s.pseudoColorAdaptiveThreshold1 fpu = some { s with heap := heap } ∧
      Raster.PaintedIn R (colourOf fpu L s yMax yMin) R.cells p (s.plane (.frame s.frameIndex))
        s.heap heap := by
  obtain ⟨yMax, yMin, hrun, hmax, hmin⟩ := hc.findMaxMin hne
  obtain ⟨p, hp, hb, hsize⟩ := hc.block
  obtain ⟨heap, hloop, hpainted⟩ := Raster.paint
    (paintPixel fpu s (Levels.of yMax yMin) (s.level L (0, 0)) (s.level L (0, 0)))
    (colourOf fpu L s yMax yMin) hb hsize fun i j h₁ hx hothers =>
      hc.paintPixel_eq fpu yMax yMin hx hp hothers
  refine ⟨yMax, yMin, heap, p, hmax, hmin, hp, ?_, hpainted⟩
  have himg : s.img.ptr ≠ none := by
    obtain ⟨q, hq⟩ := hc.holds
    rw [hq.ptr]
    exact Option.some_ne_none q
  rw [hc.rows_eq, hc.cols_eq] at hloop
  unfold pseudoColorAdaptiveThreshold1
  show (if s.img.ptr = none then some s else _) = _
  rw [if_neg himg, hrun, Option.bind_some]
  show (s.heap.load16 s.img.ptr 0).bind _ = _
  rw [hc.load_first hne, Option.bind_some]
  show (forLoop 0 s.img.height (fun i => forLoop 0 s.img.width
    (paintPixel fpu s (Levels.of yMax yMin) (s.level L (0, 0)) (s.level L (0, 0)) i))
      s.heap).map _ = _
  rw [hc.height_eq, hc.width_eq, hloop, Option.map_some]

/-! ## Images with the same samples -/

/-- The bytes of the colour frame at a pixel. -/
def shown (R : Raster) (s : ThermalUsb) (x : Nat × Nat) : Triple :=
  (s.plane (.frame s.frameIndex)).triple (R.pos x)

theorem Canvas.shown_eq (hc : Canvas L R s) (fpu : Fpu) (hx : x ∈ grid L.height L.width) :
    ∃ yMax yMin r, IsGreatest (s.levels L) yMax ∧ IsLeast (s.levels L) yMin ∧
      s.pseudoColorAdaptiveThreshold1 fpu = some r ∧
      ∀ x ∈ grid L.height L.width, r.shown R x = colourOf fpu L s yMax yMin x := by
  have hne := zero_mem_grid hx
  obtain ⟨yMax, yMin, heap, p, hmax, hmin, hp, hrun, hpainted⟩ :=
    hc.adaptiveThreshold_spec fpu hne
  obtain ⟨c, hc', hcells⟩ := hpainted.painted
  refine ⟨yMax, yMin, _, hmax, hmin, hrun, fun x hx => ?_⟩
  rw [shown, show plane { s with heap := heap } (.frame s.frameIndex) = c from plane_eq hp hc']
  exact hcells.triple_eq x (hc.cells_eq ▸ hx)

/-- Every pixel of the second image gets the colour of the pixel of the first
it comes from, whatever the machine makes of what is undefined. -/
def ColoursFollow (σ : Nat × Nat → Nat × Nat) (L : Layout) (R R' : Raster)
    (s s' : ThermalUsb) : Prop :=
  ∀ fpu, ∀ x ∈ grid L.height L.width, ∃ r r', s.pseudoColorAdaptiveThreshold1 fpu = some r ∧
    s'.pseudoColorAdaptiveThreshold1 fpu = some r' ∧ r'.shown R' (σ x) = r.shown R x

/-- For two images of one size, the second with the samples of the first in
other places, the colours follow the samples exactly if both have the same
first sample. -/
theorem colours_follow_iff {σ : Nat × Nat → Nat × Nat} (hc : Canvas L R s)
    (hc' : Canvas L' R' s') (hrows : L'.height = L.height) (hcols : L'.width = L.width)
    (hfmt : s'.pixelFmt = s.pixelFmt)
    (hσ : Set.BijOn σ (grid L.height L.width) (grid L.height L.width))
    (hperm : ∀ x ∈ grid L.height L.width, s'.level L' (σ x) = s.level L x) :
    ColoursFollow σ L R R' s s' ↔
      ((0, 0) ∈ grid L.height L.width → s.level L (0, 0) = s'.level L' (0, 0)) := by
  by_cases hne : (0, 0) ∈ grid L.height L.width
  case neg =>
    exact ⟨fun _ h => absurd h hne, fun _ fpu x hx => absurd (zero_mem_grid hx) hne⟩
  have hgrid : grid L'.height L'.width = grid L.height L.width := by rw [hrows, hcols]
  have hsame : s'.levels L' = s.levels L := by
    have hmoved : s'.level L' '' grid L.height L.width =
        s'.level L' '' (σ '' grid L.height L.width) := by rw [hσ.image_eq]
    rw [levels, levels, hgrid, hmoved, Set.image_image]
    exact Set.image_congr hperm
  have hfirst : s.level L (0, 0) ∈ s.levels L := Set.mem_image_of_mem _ hne
  have hfirst' : s'.level L' (0, 0) ∈ s.levels L := by
    rw [← hsame]
    exact Set.mem_image_of_mem _ (hgrid ▸ hne)
  obtain ⟨yMax, yMin, -, hmax, hmin⟩ := hc.findMaxMin hne
  have hbound : yMax < 65536 := by
    obtain ⟨x, -, rfl⟩ := hmax.1
    exact level_lt
  have hpixel : ∀ fpu, ∀ x ∈ grid L.height L.width, ∃ r r',
      s.pseudoColorAdaptiveThreshold1 fpu = some r ∧
      s'.pseudoColorAdaptiveThreshold1 fpu = some r' ∧
      (r'.shown R' (σ x) = r.shown R x ↔
        (Levels.of yMax yMin).colour fpu (s'.level L' (0, 0)) (s'.level L' (0, 0)) (s.level L x) =
          (Levels.of yMax yMin).colour fpu (s.level L (0, 0)) (s.level L (0, 0))
            (s.level L x)) := by
    intro fpu x hx
    obtain ⟨M, m, r, hM, hm, hrun, hshown⟩ := hc.shown_eq fpu hx
    obtain ⟨M', m', r', hM', hm', hrun', hshown'⟩ := hc'.shown_eq fpu (hgrid ▸ hx)
    rw [hsame] at hM' hm'
    rw [hM.unique hmax, hm.unique hmin] at hshown
    rw [hM'.unique hmax, hm'.unique hmin] at hshown'
    refine ⟨r, r', hrun, hrun', ?_⟩
    rw [hshown x hx, hshown' _ (hgrid ▸ hσ.mapsTo hx), colourOf, colourOf, hfmt, hperm x hx]
    exact ⟨order_inj, fun heq => by rw [heq]⟩
  have hiff := colour_eq_iff hmax hmin hfirst' hfirst hbound
  constructor
  · intro hfollow _
    refine (hiff.1 fun fpu v hv => ?_).symm
    obtain ⟨x, hx, rfl⟩ := hv
    obtain ⟨r, r', hrun, hrun', heq⟩ := hfollow fpu x hx
    obtain ⟨t, t', ht, ht', hcolour⟩ := hpixel fpu x hx
    obtain rfl := Option.some.inj (hrun.symm.trans ht)
    obtain rfl := Option.some.inj (hrun'.symm.trans ht')
    exact hcolour.1 heq
  · intro heq fpu x hx
    obtain ⟨r, r', hrun, hrun', hcolour⟩ := hpixel fpu x hx
    exact ⟨r, r', hrun, hrun', hcolour.2 (by rw [heq hne])⟩

/-! ## Colour frames of an opened object -/

/-- The raster of a colour frame. -/
def raster (step : Nat) (hstep : 3 ≤ step) (width height : Nat) : Raster where
  stride := (width * step + 3) / 4 * 4
  step := step
  width := width
  height := height
  three := hstep
  fits := by omega

/-- A colour frame with a block has the bytes of its raster. -/
theorem Working.frame_spec {width height step : Nat} (hs : Working width height s)
    (hptr : s.coloured.ptr ≠ none) (hstep : 3 ≤ step)
    (hbytes : slotBytes s.pixelFmt (.frame s.frameIndex) = some step)
    (hfits : Fits width height step) :
    s.coloured.bytesPerLine = (raster step hstep width height).stride ∧
      ∃ p, s.coloured.ptr = some p ∧ s.heap.block p = some (s.plane (.frame s.frameIndex)) ∧
        (s.plane (.frame s.frameIndex)).size = (raster step hstep width height).bytes := by
  have hline := (hs.line_eq _ step hbytes hptr).trans hfits.lineBytes_eq
  obtain ⟨p, hp⟩ := Option.ne_none_iff_exists'.1 hptr
  obtain ⟨b, hb⟩ := Option.ne_none_iff_exists'.1 (hs.frames.live _ p hp)
  rw [plane_eq hp hb]
  refine ⟨hline, p, hp, hb, ?_⟩
  rw [hs.sized _ p b hp hb, hline, hs.height_eq, CInt.u32_eq hfits.2]
  rfl

theorem Working.canvas {width height step : Nat} (hs : Working width height s)
    (hptr : s.coloured.ptr ≠ none) (hstep : 3 ≤ step)
    (hbytes : slotBytes s.pixelFmt (.frame s.frameIndex) = some step)
    (hfit : (layout16 width height).bytes < 4294967296) (hfits : Fits width height step)
    (hcolumn : (width - 1) * step < 2147483648) (hrows : 0 < height) :
    Canvas (layout16 width height) (raster step hstep width height) s where
  toHasImage := hs.hasImage hfit hrows
  rows_eq := rfl
  cols_eq := rfl
  line_eq := (hs.frame_spec hptr hstep hbytes hfits).1
  step_eq := hbytes
  column := hcolumn
  fits := hfits.2
  apart heq := by
    obtain ⟨p, hp⟩ := Option.ne_none_iff_exists'.1 hptr
    cases hs.frames.apart _ _ p hp (heq.symm.trans hp)
  block := by
    obtain ⟨-, p, hp, hb, hsize⟩ := hs.frame_spec hptr hstep hbytes hfits
    exact ⟨p, hp, hb, Nat.le_of_eq hsize.symm⟩

/-- Three pixels next to each other. -/
theorem exists_three_pixels (u v w : Byte) :
    ∃ s, Canvas (layout16 3 1) (raster 3 (by decide) 3 1) s ∧ s.pixelFmt = .rgb24 ∧
      s.level (layout16 3 1) (0, 0) = u.toNat ∧ s.level (layout16 3 1) (0, 1) = v.toNat ∧
      s.level (layout16 3 1) (0, 2) = w.toNat := by
  obtain ⟨s, hs, hfmt, hptr, -, hlevel⟩ := exists_row (fun k => if k = 0 then u else
    if k = 2 then v else if k = 4 then w else 0) 3 (by decide) rfl (by decide)
  have hcanvas : Canvas (layout16 3 1) (raster 3 (by decide) 3 1) s :=
    hs.canvas hptr (by decide) (by rw [hfmt]; rfl) (by decide) ⟨by decide, by decide⟩ (by decide)
      (by decide)
  have hbyte : ∀ c : Byte, ((0 : Byte) ++ c).toNat = c.toNat := by
    intro c
    rw [BitVec.toNat_append]
    exact Nat.zero_or _
  exact ⟨s, hcanvas, hfmt, (hlevel _).trans (hbyte u), (hlevel _).trans (hbyte v),
    (hlevel _).trans (hbyte w)⟩

theorem cells_three {x : Nat × Nat} :
    x ∈ grid (layout16 3 1).height (layout16 3 1).width ↔
      x = (0, 0) ∨ x = (0, 1) ∨ x = (0, 2) := by
  show (x.1 < 1 ∧ x.2 < 3) ↔ _
  simp only [Prod.ext_iff]
  omega

/-- Two pixels change places. -/
theorem level_swap {a b : Nat × Nat} (hab : s'.level L a = s.level L b)
    (hba : s'.level L b = s.level L a)
    (hrest : ∀ x ∈ grid L.height L.width, x ≠ a → x ≠ b → s'.level L x = s.level L x)
    (hx : x ∈ grid L.height L.width) : s'.level L (Equiv.swap a b x) = s.level L x := by
  by_cases ha : x = a
  · rw [ha, Equiv.swap_apply_left, hba]
  by_cases hb : x = b
  · rw [hb, Equiv.swap_apply_right, hab]
  · rw [Equiv.swap_apply_of_ne_of_ne ha hb]
    exact hrest x hx ha hb

/-- The first sample stays where it is, and the other two change places. -/
theorem colours_stay : ∃ s s', Canvas (layout16 3 1) (raster 3 (by decide) 3 1) s ∧
    Canvas (layout16 3 1) (raster 3 (by decide) 3 1) s' ∧
    ColoursFollow (Equiv.swap (0, 1) (0, 2)) (layout16 3 1) (raster 3 (by decide) 3 1)
      (raster 3 (by decide) 3 1) s s' := by
  obtain ⟨s, hc, hfmt, h₀, h₁, h₂⟩ := exists_three_pixels 80 100 0
  obtain ⟨s', hc', hfmt', h₀', h₁', h₂'⟩ := exists_three_pixels 80 0 100
  have hsame : s'.level (layout16 3 1) (0, 0) = s.level (layout16 3 1) (0, 0) := h₀'.trans h₀.symm
  refine ⟨s, s', hc, hc', (colours_follow_iff hc hc' rfl rfl (hfmt'.trans hfmt.symm)
    (Equiv.swap_bijOn_self (iff_of_true (cells_three.2 (by decide)) (cells_three.2 (by decide))))
    fun x hx => level_swap (h₁'.trans h₂.symm) (h₂'.trans h₁.symm) (fun z hz hne hne' => ?_) hx).2
    fun _ => hsame.symm⟩
  obtain rfl : z = (0, 0) := by
    rcases cells_three.1 hz with heq | heq | heq
    · exact heq
    · exact absurd heq hne
    · exact absurd heq hne'
  exact hsame

/-- The first two samples change places; both are above the last threshold. -/
theorem swapped_colours_differ : ∃ s s', Canvas (layout16 3 1) (raster 3 (by decide) 3 1) s ∧
    Canvas (layout16 3 1) (raster 3 (by decide) 3 1) s' ∧ s'.pixelFmt = s.pixelFmt ∧
    (∀ x ∈ grid (layout16 3 1).height (layout16 3 1).width,
      s'.level (layout16 3 1) (Equiv.swap (0, 0) (0, 1) x) = s.level (layout16 3 1) x) ∧
    ¬ ColoursFollow (Equiv.swap (0, 0) (0, 1)) (layout16 3 1) (raster 3 (by decide) 3 1)
      (raster 3 (by decide) 3 1) s s' := by
  obtain ⟨s, hc, hfmt, h₀, h₁, h₂⟩ := exists_three_pixels 80 100 0
  obtain ⟨s', hc', hfmt', h₀', h₁', h₂'⟩ := exists_three_pixels 100 80 0
  have hperm : ∀ x ∈ grid (layout16 3 1).height (layout16 3 1).width,
      s'.level (layout16 3 1) (Equiv.swap (0, 0) (0, 1) x) = s.level (layout16 3 1) x := by
    refine fun x hx => level_swap (h₀'.trans h₁.symm) (h₁'.trans h₀.symm)
      (fun z hz hne hne' => ?_) hx
    obtain rfl : z = (0, 2) := by
      rcases cells_three.1 hz with heq | heq | heq
      · exact absurd heq hne
      · exact absurd heq hne'
      · exact heq
    exact h₂'.trans h₂.symm
  refine ⟨s, s', hc, hc', hfmt'.trans hfmt.symm, hperm, fun hfollow => ?_⟩
  have heq := (colours_follow_iff hc hc' rfl rfl (hfmt'.trans hfmt.symm)
    (Equiv.swap_bijOn_self (iff_of_true (cells_three.2 (by decide)) (cells_three.2 (by decide))))
    hperm).1 hfollow (cells_three.2 (Or.inl rfl))
  rw [h₀, h₀'] at heq
  exact absurd heq (by decide)

end ThermalUsb

end IotCamera
