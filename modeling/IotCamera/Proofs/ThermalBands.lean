import IotCamera.Proofs.ThermalPalette

/-!
# The thresholds and the bands between them

What `pseudoColorAdaptiveThreshold_1` computes before it sets `yMin` and
`yMax` again is sound. The search returns the largest and the smallest of the
samples in the rows, whatever is in the padding, the thresholds cut the range
between them into four bands, and the arithmetic stays below 2¹⁶.

The second and the third band divide by the distance of two thresholds. They
do not use `yMin` and `yMax`, so it does not matter what these hold by then.
A sample above a threshold and not above the next one shows that the two
differ. That is all there is to the divisor, and with it to the quotient.
-/

namespace IotCamera

open Layout

/-- The bands of the palette, from black to red. -/
inductive Band
  | first
  | second
  | third
  | fourth
  deriving DecidableEq

/-- The levels of a band: the lower end belongs to the band below, but for
the first. -/
def Levels.InBand (l : Levels) (yMax yMin x : Nat) : Band → Prop
  | .first => yMin ≤ x ∧ x ≤ l.l0
  | .second => l.l0 < x ∧ x ≤ l.l1
  | .third => l.l1 < x ∧ x ≤ l.l2
  | .fourth => l.l2 < x ∧ x ≤ yMax

/-- The branch the colouring takes. -/
def Levels.band (l : Levels) (x : Nat) : Band :=
  if x ≤ l.l0 then .first
  else if x ≤ l.l1 then .second
  else if x ≤ l.l2 then .third
  else .fourth

/-- The thresholds are between the extremes, and in order. -/
structure Levels.Ordered (l : Levels) (yMax yMin : Nat) : Prop where
  low : yMin ≤ l.l0
  first : l.l0 ≤ l.l1
  second : l.l1 ≤ l.l2
  high : l.l2 ≤ yMax

theorem Levels.ordered {yMax yMin : Nat} (hle : yMin ≤ yMax) (hlt : yMax < 65536) :
    (Levels.of yMax yMin).Ordered yMax yMin := by
  rw [levels_of hle hlt]
  constructor
  · show yMin ≤ yMin + (yMax - yMin) / 4
    omega
  · show yMin + (yMax - yMin) / 4 ≤ yMin + 2 * (yMax - yMin) / 4
    omega
  · show yMin + 2 * (yMax - yMin) / 4 ≤ yMin + 3 * (yMax - yMin) / 4
    omega
  · show yMin + 3 * (yMax - yMin) / 4 ≤ yMax
    omega

/-- A division by a positive number, with a quotient in (0, 1]. -/
structure Proper (d : Int × Int) : Prop where
  divisor : 0 < d.2
  low : 0 < (d.1 : ℚ) / d.2
  high : (d.1 : ℚ) / d.2 ≤ 1

theorem proper_of_le {a b : Int} (ha : 0 < a) (hb : a ≤ b) : Proper (a, b) := by
  have hpos : (0 : ℚ) < b := by
    exact_mod_cast Int.lt_of_lt_of_le ha hb
  refine ⟨Int.lt_of_lt_of_le ha hb, ?_, ?_⟩
  · show (0 : ℚ) < (a : ℚ) / b
    exact div_pos (by exact_mod_cast ha) hpos
  · show (a : ℚ) / b ≤ 1
    rw [div_le_one hpos]
    exact_mod_cast hb

namespace Levels

variable {l : Levels} {yMax yMin x : Nat} {b : Band}

/-! ## One band for each level -/

/-- The branch the colouring takes is a band the level is in. -/
theorem inBand_band (hlow : yMin ≤ x) (hhigh : x ≤ yMax) :
    l.InBand yMax yMin x (l.band x) := by
  unfold band
  split
  · next h0 => exact ⟨hlow, h0⟩
  · next h0 =>
      split
      · next h1 => exact ⟨by omega, h1⟩
      · next h1 =>
          split
          · next h2 => exact ⟨by omega, h2⟩
          · next h2 => exact ⟨by omega, hhigh⟩

/-- It is the only one, as the thresholds are in order. -/
theorem Ordered.band_eq (h : l.Ordered yMax yMin) (hb : l.InBand yMax yMin x b) :
    l.band x = b := by
  have hfirst := h.first
  have hsecond := h.second
  unfold band
  cases b with
  | first => exact if_pos hb.2
  | second =>
      have hx := hb.1
      rw [if_neg (by omega), if_pos hb.2]
  | third =>
      have hx := hb.1
      rw [if_neg (by omega), if_neg (by omega), if_pos hb.2]
  | fourth =>
      have hx := hb.1
      rw [if_neg (by omega), if_neg (by omega), if_neg (by omega)]

theorem Ordered.exists_unique (h : l.Ordered yMax yMin) (hlow : yMin ≤ x) (hhigh : x ≤ yMax) :
    ∃! b, l.InBand yMax yMin x b :=
  ⟨l.band x, inBand_band hlow hhigh, fun _ hb => (h.band_eq hb).symm⟩

/-! ## The divisions in the middle -/

/-- Whatever `yMin` and `yMax` hold when the level is coloured. -/
theorem proper (hmid : l.band x = .second ∨ l.band x = .third) (yMax' yMin' : Nat) :
    Proper (l.division yMax' yMin' x) := by
  unfold band at hmid
  unfold division
  split at hmid
  · simp at hmid
  · next h0 =>
      rw [if_neg h0]
      split at hmid
      · next h1 =>
          rw [if_pos h1]
          exact proper_of_le (by omega) (by omega)
      · next h1 =>
          rw [if_neg h1]
          split at hmid
          · next h2 =>
              rw [if_pos h2]
              exact proper_of_le (by omega) (by omega)
          · simp at hmid

end Levels

namespace ThermalUsb

variable {s : ThermalUsb} {L : Layout}

/-- What holds of the extremes of a plane, and of the thresholds between
them. -/
structure Banded (L : Layout) (s : ThermalUsb) (yMax yMin : Nat) : Prop where
  greatest : IsGreatest (s.levels L) yMax
  least : IsLeast (s.levels L) yMin
  exact : Levels.of yMax yMin = ⟨yMin + (yMax - yMin) / 4, yMin + 2 * (yMax - yMin) / 4,
    yMin + 3 * (yMax - yMin) / 4⟩
  fits : yMin + 3 * (yMax - yMin) / 4 < 65536
  ordered : (Levels.of yMax yMin).Ordered yMax yMin
  one : ∀ x ∈ grid L.height L.width, ∃! b, (Levels.of yMax yMin).InBand yMax yMin (s.level L x) b
  taken : ∀ x ∈ grid L.height L.width,
    (Levels.of yMax yMin).InBand yMax yMin (s.level L x) ((Levels.of yMax yMin).band (s.level L x))
  proper : ∀ x ∈ grid L.height L.width, ∀ b ∈ [Band.second, Band.third],
    (Levels.of yMax yMin).band (s.level L x) = b →
      ∀ yMax' yMin', Proper ((Levels.of yMax yMin).division yMax' yMin' (s.level L x))

/-- For every image plane with a pixel, the search finds the extremes of the
pixels, and the thresholds set four bands between them. -/
theorem extremes_and_bands (h : HasImage L s) (hne : (0, 0) ∈ grid L.height L.width) :
    ∃ yMax yMin, s.infraredFindMaxMin = some (yMax, yMin) ∧ Banded L s yMax yMin := by
  obtain ⟨yMax, yMin, hrun, hmax, hmin⟩ := h.findMaxMin hne
  have hle : yMin ≤ yMax := hmax.2 hmin.1
  have hlt : yMax < 65536 := by
    obtain ⟨x, -, rfl⟩ := hmax.1
    exact level_lt
  have hordered := Levels.ordered hle hlt
  refine ⟨yMax, yMin, hrun, hmax, hmin, levels_of hle hlt, by omega, hordered, ?_, ?_, ?_⟩
  · intro x hx
    have hlevel : s.level L x ∈ s.levels L := Set.mem_image_of_mem _ hx
    exact hordered.exists_unique (hmin.2 hlevel) (hmax.2 hlevel)
  · intro x hx
    have hlevel : s.level L x ∈ s.levels L := Set.mem_image_of_mem _ hx
    exact Levels.inBand_band (hmin.2 hlevel) (hmax.2 hlevel)
  · intro x _ b hb htaken yMax' yMin'
    refine Levels.proper ?_ yMax' yMin'
    rw [htaken]
    simpa using hb

/-- A pixel of level 9 and one of level 3 next to it. -/
theorem extremes_and_bands_two : ∃ s, HasImage (layout16 2 1) s ∧
    s.levels (layout16 2 1) ⊆ {9, 3} ∧
    ∃ yMax yMin, s.infraredFindMaxMin = some (yMax, yMin) ∧
      Banded (layout16 2 1) s yMax yMin := by
  obtain ⟨s, -, -, -, himg, hlevel⟩ :=
    exists_row (fun k => if k = 0 then 9 else if k = 2 then 3 else 0) 2 (by decide) rfl
      (by decide)
  refine ⟨s, himg, ?_, extremes_and_bands himg ⟨by decide, by decide⟩⟩
  intro v hv
  obtain ⟨⟨i, j⟩, ⟨hi, hj⟩, rfl⟩ := hv
  change i < 1 at hi
  change j < 2 at hj
  obtain rfl : i = 0 := by omega
  rw [hlevel]
  have hcases : j = 0 ∨ j = 1 := by omega
  rcases hcases with rfl | rfl
  · exact Or.inl (by decide)
  · exact Or.inr (by decide)

end ThermalUsb

end IotCamera
