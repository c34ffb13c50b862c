import IotCamera.Common.Yuv
import IotCamera.Lib.Sweep

/-!
# What the converters by pixel write

Both loops keep one index for the luma and one or two for the chroma, and
advance the second kind only where row and column are even. Their place is
known in closed form: before pixel `(i, j)` the luma index has made
`i * w + j` steps and the chroma `sampled w i j`, which counts the even cells
passed. The step of the one or the other is then a step of a run, and the end
of a row needs only that `sampled` takes no notice of it.
-/

namespace IotCamera

variable {w h i j n k m s : Nat} {rgb : Block} {z : Int} {c : Colour}

/-! ## Colours -/

namespace Colour

/-- Every channel is a byte. -/
structure Bytes (c : Colour) : Prop where
  R : 0 ≤ c.R ∧ c.R ≤ 255
  G : 0 ≤ c.G ∧ c.G ≤ 255
  B : 0 ≤ c.B ∧ c.B ≤ 255

theorem Y_range (hc : c.Bytes) : 16 ≤ c.Y ∧ c.Y ≤ 235 := by
  obtain ⟨hR, hG, hB⟩ := hc
  rw [Y, Int.shiftRight_eq_div_pow]
  omega

theorem U_range (hc : c.Bytes) : 16 ≤ c.U ∧ c.U ≤ 240 := by
  obtain ⟨hR, hG, hB⟩ := hc
  rw [U, Int.shiftRight_eq_div_pow]
  omega

theorem V_range (hc : c.Bytes) : 16 ≤ c.V ∧ c.V ≤ 240 := by
  obtain ⟨hR, hG, hB⟩ := hc
  rw [V, Int.shiftRight_eq_div_pow]
  omega

end Colour

theorem toNat_uchar (hlo : 0 ≤ z) (hhi : z ≤ 255) : ((uchar z).toNat : Int) = z := by
  rw [uchar, BitVec.toNat_ofInt]
  omega

theorem clamp_eq (hlo : 0 ≤ z) (hhi : z ≤ 255) : clamp z = uchar z := by
  rw [clamp, if_neg (by omega), if_neg (by omega)]

theorem toNat_clamp (hlo : 0 ≤ z) (hhi : z ≤ 255) : ((clamp z).toNat : Int) = z := by
  rw [clamp_eq hlo hhi, toNat_uchar hlo hhi]

/-- The pixel at a place in an image with `step` bytes for each. -/
def colourAt (img : Block) (step n : Nat) : Colour where
  R := (img.byte (step * n + 2)).toNat
  G := (img.byte (step * n + 1)).toNat
  B := (img.byte (step * n)).toNat

theorem bytes_colourAt (img : Block) (step n : Nat) : (colourAt img step n).Bytes := by
  have hbyte : ∀ b : Byte, (0 : Int) ≤ (b.toNat : Int) ∧ (b.toNat : Int) ≤ 255 := fun b => by
    have := b.isLt
    omega
  exact ⟨hbyte _, hbyte _, hbyte _⟩

/-! ## Reading a pixel -/

theorem fetch_eq {img : Block} (hk : k < img.size) :
    fetch img k = some ((img.byte k).toNat : Int) := by
  rw [fetch, if_pos (Int.natCast_nonneg k), Int.toNat_natCast, Block.load8, if_pos hk]
  rfl

theorem channel_eq (hn : i * w + j = n) (hsize : 3 * n + k < rgb.size)
    (hfit : 3 * n + k < 2147483648) :
    channel rgb w i j k = some ((rgb.byte (3 * n + k)).toNat : Int) := by
  have hrow : CInt.int ((i : Int) * w) = some ((i * w : Nat) : Int) := by
    rw [← Nat.cast_mul]
    exact CInt.int_eq (by omega) (by omega)
  have hcell : CInt.int (((i * w : Nat) : Int) + j) = some (n : Int) := by
    rw [← Nat.cast_add, hn]
    exact CInt.int_eq (by omega) (by omega)
  have hstart : CInt.int ((n : Int) * 3) = some ((3 * n : Nat) : Int) := by
    have hmul : (n : Int) * 3 = ((3 * n : Nat) : Int) := by omega
    rw [hmul]
    exact CInt.int_eq (by omega) (by omega)
  have hindex : CInt.int (((3 * n : Nat) : Int) + k) = some ((3 * n + k : Nat) : Int) := by
    rw [← Nat.cast_add]
    exact CInt.int_eq (by omega) (by omega)
  rw [channel, hrow, Option.bind_eq_bind, Option.bind_some, hcell, Option.bind_some, hstart,
    Option.bind_some, hindex, Option.bind_some, fetch_eq hsize]

theorem pixel_eq (hn : i * w + j = n) (hsize : 3 * n + 2 < rgb.size)
    (hfit : 3 * n + 2 < 2147483648) : pixel rgb w i j = some (colourAt rgb 3 n) := by
  have hB : channel rgb w i j 0 = some ((rgb.byte (3 * n)).toNat : Int) :=
    channel_eq (k := 0) hn (by omega) (by omega)
  have hG : channel rgb w i j 1 = some ((rgb.byte (3 * n + 1)).toNat : Int) :=
    channel_eq (k := 1) hn (by omega) (by omega)
  have hR : channel rgb w i j 2 = some ((rgb.byte (3 * n + 2)).toNat : Int) :=
    channel_eq (k := 2) hn hsize hfit
  rw [pixel, hB, hG, hR]
  rfl

theorem cell_lt (hi : i < h) (hj : j < w) : i * w + j < w * h := by
  have hrow : (i + 1) * w ≤ h * w := Nat.mul_le_mul_right w hi
  rw [Nat.succ_mul, Nat.mul_comm h] at hrow
  omega

theorem cell_row : i * w + w = (i + 1) * w + 0 := by rw [Nat.succ_mul, Nat.add_zero]

theorem push_eq {out : Log Byte} (hn : n + 1 < 2147483648) :
    push out n z = some (out.put n (clamp z), ((n + 1 : Nat) : Int)) := by
  rw [push, CInt.int_eq (by omega) (by omega)]
  rfl

/-! ## Where the chroma index stands -/

/-- The even cells before a cell, row by row. -/
def sampled (w i j : Nat) : Nat :=
  (i + 1) / 2 * ((w + 1) / 2) + if i % 2 = 0 then (j + 1) / 2 else 0

/-- The place of the pixel a sample is of. -/
def sampleCell (w s : Nat) : Nat := 2 * (s / ((w + 1) / 2)) * w + 2 * (s % ((w + 1) / 2))

theorem sampled_even (hi : i % 2 = 0) (hj : j % 2 = 0) :
    sampled w i j = i / 2 * ((w + 1) / 2) + j / 2 := by
  have hrow : (i + 1) / 2 = i / 2 := by omega
  have hcol : (j + 1) / 2 = j / 2 := by omega
  rw [sampled, if_pos hi, hrow, hcol]

theorem sampled_next (hi : i % 2 = 0) (hj : j % 2 = 0) :
    sampled w i (j + 1) = sampled w i j + 1 := by
  simp only [sampled, if_pos hi]
  omega

theorem sampled_skip (hij : ¬ (i % 2 = 0 ∧ j % 2 = 0)) :
    sampled w i (j + 1) = sampled w i j := by
  by_cases hi : i % 2 = 0
  · simp only [sampled, if_pos hi]
    omega
  · simp only [sampled, if_neg hi]

theorem sampled_row : sampled w i w = sampled w (i + 1) 0 := by
  by_cases hi : i % 2 = 0
  · have hnext : (i + 1 + 1) / 2 = (i + 1) / 2 + 1 := by omega
    rw [sampled, sampled, if_pos hi, if_neg (by omega), hnext, Nat.succ_mul]
    rfl
  · have hnext : (i + 1 + 1) / 2 = (i + 1) / 2 := by omega
    rw [sampled, sampled, if_neg hi, if_pos (by omega), hnext]

theorem sampled_zero : sampled w 0 0 = 0 := by simp [sampled]

/-- A sample is of the pixel it is taken at. -/
theorem sampleCell_sampled (hi : i % 2 = 0) (hj : j % 2 = 0) (hjw : j < w) :
    sampleCell w (sampled w i j) = i * w + j := by
  have hlt : j / 2 < (w + 1) / 2 := by omega
  have hdiv : sampled w i j / ((w + 1) / 2) = i / 2 := by
    rw [sampled_even hi hj, Nat.mul_comm, Nat.mul_add_div (by omega), Nat.div_eq_of_lt hlt,
      Nat.add_zero]
  have hmod : sampled w i j % ((w + 1) / 2) = j / 2 := by
    rw [sampled_even hi hj, Nat.mul_comm, Nat.mul_add_mod, Nat.mod_eq_of_lt hlt]
  have hi₂ : 2 * (i / 2) = i := by omega
  have hj₂ : 2 * (j / 2) = j := by omega
  rw [sampleCell, hdiv, hmod, hi₂, hj₂]

/-- The samples of a picture. -/
def chroma (w h : Nat) : Nat := (h + 1) / 2 * ((w + 1) / 2)

theorem sampled_end : sampled w h 0 = chroma w h := by
  simp [sampled, chroma]

theorem sampled_lt (hi : i % 2 = 0) (hj : j % 2 = 0) (hih : i < h) (hjw : j < w) :
    sampled w i j < chroma w h := by
  have hrows : (i / 2 + 1) * ((w + 1) / 2) ≤ (h + 1) / 2 * ((w + 1) / 2) :=
    Nat.mul_le_mul_right _ (by omega)
  rw [Nat.succ_mul] at hrows
  rw [sampled_even hi hj, chroma]
  omega

theorem chroma_le : chroma w h ≤ w * h := by
  rw [chroma, Nat.mul_comm w]
  exact Nat.mul_le_mul (by omega) (by omega)

/-! ## The bytes -/

open Log (run tally_put run_succ run_succ_succ)

/-- The luma byte of a pixel. -/
def lumaByte (rgb : Block) (n : Nat) : Byte := clamp (colourAt rgb 3 n).Y

/-- The pixel a sample is of. -/
def sampleAt (rgb : Block) (w s : Nat) : Colour := colourAt rgb 3 (sampleCell w s)

theorem sampleAt_sampled (hi : i % 2 = 0) (hj : j % 2 = 0) (hjw : j < w) :
    sampleAt rgb w (sampled w i j) = colourAt rgb 3 (i * w + j) := by
  rw [sampleAt, sampleCell_sampled hi hj hjw]

/-- The bytes of the interleaved plane, two for each sample. -/
def interleaved (rgb : Block) (w m : Nat) : Byte :=
  clamp (if m % 2 = 0 then (sampleAt rgb w (m / 2)).V else (sampleAt rgb w (m / 2)).U)

theorem interleaved_even : interleaved rgb w (2 * s) = clamp (sampleAt rgb w s).V := by
  have hhalf : 2 * s / 2 = s := by omega
  rw [interleaved, if_pos (by omega), hhalf]

theorem interleaved_odd : interleaved rgb w (2 * s + 1) = clamp (sampleAt rgb w s).U := by
  have hhalf : (2 * s + 1) / 2 = s := by omega
  rw [interleaved, if_neg (by omega), hhalf]

theorem frameSize_eq (hfit : 3 * (w * h) < 2147483648) :
    CInt.int ((w : Int) * h) = some ((w * h : Nat) : Int) := by
  rw [← Nat.cast_mul]
  exact CInt.int_eq (by omega) (by omega)

/-! ## `encodeYUV420sp` -/

theorem semiPlanarPixel_even {out : Log Byte} {y u : Nat} (hc : pixel rgb w i j = some c)
    (hij : i % 2 = 0 ∧ j % 2 = 0) (hy : y + 1 < 2147483648) (hu : u + 2 < 2147483648) :
    semiPlanarPixel rgb w i j ⟨out, y, u⟩ =
      some ⟨((out.put y (clamp c.Y)).put u (clamp c.V)).put (u + 1 : Nat) (clamp c.U),
        (y + 1 : Nat), (u + 2 : Nat)⟩ := by
  rw [semiPlanarPixel, hc, Option.bind_eq_bind, Option.bind_some]
  dsimp only
  rw [push_eq hy, Option.bind_eq_bind, Option.bind_some]
  dsimp only
  rw [if_pos hij, push_eq (by omega), Option.bind_some]
  dsimp only
  rw [push_eq hu, Option.bind_some]

theorem semiPlanarPixel_odd {out : Log Byte} {y : Nat} {u : Int}
    (hc : pixel rgb w i j = some c) (hij : ¬ (i % 2 = 0 ∧ j % 2 = 0))
    (hy : y + 1 < 2147483648) :
    semiPlanarPixel rgb w i j ⟨out, y, u⟩ =
      some ⟨out.put y (clamp c.Y), (y + 1 : Nat), u⟩ := by
  rw [semiPlanarPixel, hc, Option.bind_eq_bind, Option.bind_some]
  dsimp only
  rw [push_eq hy, Option.bind_eq_bind, Option.bind_some]
  dsimp only
  rw [if_neg hij]

/-- The state before pixel `(i, j)`. -/
structure SemiPlanarAt (rgb : Block) (w h i j : Nat) (s : SemiPlanar) : Prop where
  y : s.yIndex = (i * w + j : Nat)
  uv : s.uvIndex = (w * h + 2 * sampled w i j : Nat)
  tally : s.out.tally = run 0 (i * w + j) (lumaByte rgb) +
    run (w * h : Nat) (2 * sampled w i j) (interleaved rgb w)

theorem semiPlanarPixel_spec {t : SemiPlanar} (hsize : rgb.size = 3 * (w * h))
    (hfit : 3 * (w * h) < 2147483648) (hi : i < h) (hj : j < w)
    (ht : SemiPlanarAt rgb w h i j t) :
    ∃ t', semiPlanarPixel rgb w i j t = some t' ∧ SemiPlanarAt rgb w h i (j + 1) t' := by
  have hcell := cell_lt hi hj
  have hpixel : pixel rgb w i j = some (colourAt rgb 3 (i * w + j)) :=
    pixel_eq rfl (by omega) (by omega)
  obtain ⟨out, y, u⟩ := t
  obtain ⟨rfl, rfl, htally⟩ := ht
  by_cases hij : i % 2 = 0 ∧ j % 2 = 0
  · have hlt : sampled w i j < chroma w h := sampled_lt hij.1 hij.2 hi hj
    have hchroma : chroma w h ≤ w * h := chroma_le
    have hnext : 2 * sampled w i (j + 1) = 2 * sampled w i j + 2 := by
      rw [sampled_next hij.1 hij.2, Nat.mul_succ]
    refine ⟨_, semiPlanarPixel_even hpixel hij (by omega) (by omega), rfl, ?_, ?_⟩
    · rw [hnext, ← Nat.add_assoc]
    · rw [tally_put, tally_put, tally_put, htally, hnext, run_succ_succ, interleaved_even,
        interleaved_odd, sampleAt_sampled hij.1 hij.2 hj, ← Nat.add_assoc, run_succ, lumaByte,
        zero_add, Nat.cast_succ, Nat.cast_add]
      abel
  · refine ⟨_, semiPlanarPixel_odd hpixel hij (by omega), rfl, ?_, ?_⟩
    · rw [sampled_skip hij]
    · rw [tally_put, htally, sampled_skip hij, ← Nat.add_assoc, run_succ, lumaByte, zero_add]
      abel

/-- What `encodeYUV420sp` stores: the luma of every pixel, then the samples. -/
theorem encodeYUV420sp_spec (hsize : rgb.size = 3 * (w * h))
    (hfit : 3 * (w * h) < 2147483648) :
    ∃ out, encodeYUV420sp (some []) (some rgb) w h = some (some out) ∧
      out.tally = run 0 (w * h) (lumaByte rgb) +
        run (w * h : Nat) (2 * chroma w h) (interleaved rgb w) := by
  have hstart : SemiPlanarAt rgb w h 0 0 ⟨[], 0, (w * h : Nat)⟩ :=
    ⟨by simp, by simp [sampled_zero], by
      rw [sampled_zero, Nat.zero_mul]
      simp [Log.run_zero, Log.tally_nil]⟩
  obtain ⟨t, ht, hend⟩ := forLoop_cells (I := SemiPlanarAt rgb w h) hstart
    (fun i j t hi hj hI => semiPlanarPixel_spec hsize hfit hi hj hI)
    fun i t _ hI => by
      obtain ⟨hy, huv, htally⟩ := hI
      rw [cell_row] at hy
      rw [sampled_row] at huv
      rw [cell_row, sampled_row] at htally
      exact ⟨hy, huv, htally⟩
  refine ⟨t.out, ?_, ?_⟩
  · rw [encodeYUV420sp, frameSize_eq hfit, Option.bind_eq_bind, Option.bind_some, Int.toNat_natCast,
      Int.toNat_natCast, ht]
    rfl
  · rw [hend.tally, sampled_end, Nat.add_zero, Nat.mul_comm h]

/-! ## `rgb_to_yuv420p` -/

theorem planarPixel_even {out : Log Byte} {y u v : Nat} (hc : pixel rgb w i j = some c)
    (hij : i % 2 = 0 ∧ j % 2 = 0) (hy : y + 1 < 2147483648) (hu : u + 1 < 2147483648)
    (hv : v + 1 < 2147483648) :
    planarPixel rgb w i j ⟨out, y, u, v⟩ =
      some ⟨((out.put y (clamp c.Y)).put u (clamp c.U)).put v (clamp c.V),
        (y + 1 : Nat), (u + 1 : Nat), (v + 1 : Nat)⟩ := by
  rw [planarPixel, hc, Option.bind_eq_bind, Option.bind_some]
  dsimp only
  rw [push_eq hy, Option.bind_eq_bind, Option.bind_some]
  dsimp only
  rw [if_pos hij, push_eq hu, Option.bind_some]
  dsimp only
  rw [push_eq hv, Option.bind_some]

theorem planarPixel_odd {out : Log Byte} {y : Nat} {u v : Int}
    (hc : pixel rgb w i j = some c) (hij : ¬ (i % 2 = 0 ∧ j % 2 = 0))
    (hy : y + 1 < 2147483648) :
    planarPixel rgb w i j ⟨out, y, u, v⟩ =
      some ⟨out.put y (clamp c.Y), (y + 1 : Nat), u, v⟩ := by
  rw [planarPixel, hc, Option.bind_eq_bind, Option.bind_some]
  dsimp only
  rw [push_eq hy, Option.bind_eq_bind, Option.bind_some]
  dsimp only
  rw [if_neg hij]

/-- The state before pixel `(i, j)`. -/
structure PlanarAt (rgb : Block) (w h i j : Nat) (s : Planar) : Prop where
  y : s.yIndex = (i * w + j : Nat)
  u : s.uIndex = (w * h + sampled w i j : Nat)
  v : s.vIndex = (w * h + w * h / 4 + sampled w i j : Nat)
  tally : s.out.tally = run 0 (i * w + j) (lumaByte rgb) +
    run (w * h : Nat) (sampled w i j) (fun s => clamp (sampleAt rgb w s).U) +
    run (w * h + w * h / 4 : Nat) (sampled w i j) fun s => clamp (sampleAt rgb w s).V

theorem planarPixel_spec {t : Planar} (hsize : rgb.size = 3 * (w * h))
    (hfit : 3 * (w * h) < 2147483648) (hi : i < h) (hj : j < w)
    (ht : PlanarAt rgb w h i j t) :
    ∃ t', planarPixel rgb w i j t = some t' ∧ PlanarAt rgb w h i (j + 1) t' := by
  have hcell := cell_lt hi hj
  have hpixel : pixel rgb w i j = some (colourAt rgb 3 (i * w + j)) :=
    pixel_eq rfl (by omega) (by omega)
  obtain ⟨out, y, u, v⟩ := t
  obtain ⟨rfl, rfl, rfl, htally⟩ := ht
  by_cases hij : i % 2 = 0 ∧ j % 2 = 0
  · have hlt : sampled w i j < chroma w h := sampled_lt hij.1 hij.2 hi hj
    have hchroma : chroma w h ≤ w * h := chroma_le
    have hnext : sampled w i (j + 1) = sampled w i j + 1 := sampled_next hij.1 hij.2
    refine ⟨_, planarPixel_even hpixel hij (by omega) (by omega) (by omega), rfl, ?_, ?_, ?_⟩
    · rw [hnext, ← Nat.add_assoc]
    · rw [hnext, ← Nat.add_assoc]
    · rw [tally_put, tally_put, tally_put, htally, hnext, run_succ, run_succ,
        sampleAt_sampled hij.1 hij.2 hj, ← Nat.add_assoc (i * w), run_succ, lumaByte, zero_add,
        Nat.cast_add (w * h), Nat.cast_add (w * h + w * h / 4)]
      abel
  · refine ⟨_, planarPixel_odd hpixel hij (by omega), rfl, ?_, ?_, ?_⟩
    · rw [sampled_skip hij]
    · rw [sampled_skip hij]
    · rw [tally_put, htally, sampled_skip hij, ← Nat.add_assoc (i * w), run_succ, lumaByte,
        zero_add]
      abel

/-- What `rgb_to_yuv420p` stores: the luma of every pixel, and each sample
once in each of two runs, which need not be apart. -/
theorem rgb_to_yuv420p_spec (hsize : rgb.size = 3 * (w * h))
    (hfit : 3 * (w * h) < 2147483648) :
    ∃ out, rgb_to_yuv420p (some []) (some rgb) w h = some (some out) ∧
      out.tally = run 0 (w * h) (lumaByte rgb) +
        run (w * h : Nat) (chroma w h) (fun s => clamp (sampleAt rgb w s).U) +
        run (w * h + w * h / 4 : Nat) (chroma w h) fun s => clamp (sampleAt rgb w s).V := by
  have hquarter : ((w * h : Nat) : Int).tdiv 4 = ((w * h / 4 : Nat) : Int) := by
    rw [Int.tdiv_eq_ediv_of_nonneg (Int.natCast_nonneg _)]
    omega
  have hchroma : CInt.int (((w * h : Nat) : Int) + ((w * h / 4 : Nat) : Int)) =
      some ((w * h + w * h / 4 : Nat) : Int) := by
    rw [← Nat.cast_add]
    exact CInt.int_eq (by omega) (by omega)
  have hstart : PlanarAt rgb w h 0 0
      ⟨[], 0, (w * h : Nat), (w * h + w * h / 4 : Nat)⟩ :=
    ⟨by simp, by simp [sampled_zero], by simp [sampled_zero], by
      rw [sampled_zero]
      simp [Log.run_zero, Log.tally_nil]⟩
  obtain ⟨t, ht, hend⟩ := forLoop_cells (I := PlanarAt rgb w h) hstart
    (fun i j t hi hj hI => planarPixel_spec hsize hfit hi hj hI)
    fun i t _ hI => by
      obtain ⟨hy, hu, hv, htally⟩ := hI
      rw [cell_row] at hy
      rw [sampled_row] at hu hv
      rw [cell_row, sampled_row] at htally
      exact ⟨hy, hu, hv, htally⟩
  refine ⟨t.out, ?_, ?_⟩
  · rw [rgb_to_yuv420p, frameSize_eq hfit, Option.bind_eq_bind, Option.bind_some, hquarter]
    dsimp only
    rw [hchroma, Option.bind_some, Int.toNat_natCast, Int.toNat_natCast, ht]
    rfl
  · rw [hend.tally, sampled_end, Nat.add_zero, Nat.mul_comm h]

/-! ## The pictures -/

/-- The byte is stored to exactly once, and this number. -/
def StoredAs (out : Log Byte) (k : Int) (z : Int) : Prop :=
  ∃ b, out.stored k = [b] ∧ (b.toNat : Int) = z

theorem storedAs_clamp {out : Log Byte} {k : Int} (ht : out.tally k = {clamp z}) (hlo : 16 ≤ z)
    (hhi : z ≤ 240) : StoredAs out k z :=
  ⟨clamp z, Log.stored_eq_singleton.2 ht, toNat_clamp (by omega) (by omega)⟩

theorem storedAs_luma {out : Log Byte} (ht : out.tally n = {lumaByte rgb n}) :
    StoredAs out n (colourAt rgb 3 n).Y := by
  obtain ⟨hlo, hhi⟩ := Colour.Y_range (bytes_colourAt rgb 3 n)
  exact storedAs_clamp ht hlo (by omega)

theorem encodeYUV420sp_nv21 (w h : Nat) (rgb : Block) (hfit : 3 * (w * h) < 2147483648)
    (hsize : rgb.size = 3 * (w * h)) :
    ∃ out, encodeYUV420sp (some []) (some rgb) w h = some (some out) ∧
      out.Fills (w * h + 2 * (((w + 1) / 2) * ((h + 1) / 2))) ∧
      (∀ i j, i < h → j < w →
        StoredAs out (i * w + j : Nat) (colourAt rgb 3 (i * w + j)).Y ∧
        (i % 2 = 0 → j % 2 = 0 →
          StoredAs out (w * h + 2 * (i / 2 * ((w + 1) / 2) + j / 2) : Nat)
            (colourAt rgb 3 (i * w + j)).V ∧
          StoredAs out (w * h + 2 * (i / 2 * ((w + 1) / 2) + j / 2) + 1 : Nat)
            (colourAt rgb 3 (i * w + j)).U)) ∧
      ∀ n, (16 ≤ (colourAt rgb 3 n).Y ∧ (colourAt rgb 3 n).Y ≤ 235) ∧
        (16 ≤ (colourAt rgb 3 n).U ∧ (colourAt rgb 3 n).U ≤ 240) ∧
        16 ≤ (colourAt rgb 3 n).V ∧ (colourAt rgb 3 n).V ≤ 240 := by
  obtain ⟨out, hout, htally⟩ := encodeYUV420sp_spec hsize hfit
  have hapart : (0 : Int) + (w * h : Nat) ≤ (w * h : Nat) := by omega
  refine ⟨out, hout, ?_, fun i j hi hj => ⟨?_, fun hi₂ hj₂ => ?_⟩, fun n => ?_⟩
  · rw [Nat.mul_comm ((w + 1) / 2)]
    exact Log.fills_two htally
  · refine storedAs_luma ?_
    rw [htally, ← zero_add ((i * w + j : Nat) : Int)]
    exact Log.runs_fst (cell_lt hi hj) hapart
  · have hlt : sampled w i j < chroma w h := sampled_lt hi₂ hj₂ hi hj
    have hbytes := bytes_colourAt rgb 3 (i * w + j)
    obtain ⟨hVlo, hVhi⟩ := Colour.V_range hbytes
    obtain ⟨hUlo, hUhi⟩ := Colour.U_range hbytes
    rw [← sampled_even hi₂ hj₂]
    refine ⟨storedAs_clamp ?_ hVlo hVhi, storedAs_clamp ?_ hUlo hUhi⟩
    · rw [htally, Nat.cast_add, ← sampleAt_sampled hi₂ hj₂ hj, ← interleaved_even]
      exact Log.runs_snd (by omega) hapart
    · rw [htally, Nat.add_assoc, Nat.cast_add, ← sampleAt_sampled hi₂ hj₂ hj,
        ← interleaved_odd]
      exact Log.runs_snd (by omega) hapart
  · exact ⟨Colour.Y_range (bytes_colourAt rgb 3 n), Colour.U_range (bytes_colourAt rgb 3 n),
      Colour.V_range (bytes_colourAt rgb 3 n)⟩

/-- Three by three pixels, white but for a red one in the last corner. -/
def redCorner : Block := ⟨27, fun k => if k = 24 ∨ k = 25 then 0 else 255⟩

theorem encodeYUV420sp_nv21_pixel : ∃ out,
    encodeYUV420sp (some []) (some redCorner) (3 : Nat) (3 : Nat) = some (some out) ∧
      out.Fills 17 ∧ StoredAs out 0 235 ∧ StoredAs out 8 82 ∧ StoredAs out 9 128 ∧
      StoredAs out 15 240 ∧ StoredAs out 16 90 := by
  obtain ⟨out, hout, hfills, hbytes, -⟩ := encodeYUV420sp_nv21 3 3 redCorner (by decide) rfl
  obtain ⟨hwhite, hwhites⟩ := hbytes 0 0 (by decide) (by decide)
  obtain ⟨hred, hreds⟩ := hbytes 2 2 (by decide) (by decide)
  exact ⟨out, hout, hfills, hwhite, hred, (hwhites rfl rfl).1, (hreds rfl rfl).1,
    (hreds rfl rfl).2⟩

/-! ## Even sizes -/

/-- A quarter of the pixels are sampled, and the buffer has a byte for each
store. -/
theorem chroma_even (hw : w % 2 = 0) (hh : h % 2 = 0) :
    chroma w h = w * h / 4 ∧ w * h * 3 / 2 = w * h + 2 * chroma w h := by
  obtain ⟨a, rfl⟩ := Nat.dvd_of_mod_eq_zero hw
  obtain ⟨b, rfl⟩ := Nat.dvd_of_mod_eq_zero hh
  have hmul : 2 * a * (2 * b) = 4 * (b * a) := by ring
  have ha : (2 * a + 1) / 2 = a := by omega
  have hb : (2 * b + 1) / 2 = b := by omega
  rw [chroma, ha, hb, hmul]
  omega

/-- The planes of a picture of an even size. -/
structure Planes (rgb : Block) (w h : Nat) (P : Log Byte) : Prop where
  fills : P.Fills (w * h * 3 / 2)
  luma : ∀ k, k < w * h → P.stored k = [lumaByte rgb k]
  u : ∀ k, k < w * h / 4 → P.stored (w * h + k : Nat) = [clamp (sampleAt rgb w k).U]
  v : ∀ k, k < w * h / 4 →
    P.stored (w * h + w * h / 4 + k : Nat) = [clamp (sampleAt rgb w k).V]

theorem rgb_to_yuv420p_even (hw : w % 2 = 0) (hh : h % 2 = 0) (hsize : rgb.size = 3 * (w * h))
    (hfit : 3 * (w * h) < 2147483648) :
    ∃ P, rgb_to_yuv420p (some []) (some rgb) w h = some (some P) ∧ Planes rgb w h P := by
  obtain ⟨P, hP, htally⟩ := rgb_to_yuv420p_spec hsize hfit
  obtain ⟨hchroma, hbytes⟩ := chroma_even hw hh
  rw [hchroma] at htally hbytes
  refine ⟨P, hP, ?_, fun k hk => ?_, fun k hk => ?_, fun k hk => ?_⟩
  · rw [hbytes, Nat.two_mul, ← Nat.add_assoc]
    exact Log.fills_three htally
  · rw [Log.stored_eq_singleton, htally, Pi.add_apply, Log.run_out (by omega), add_zero,
      ← zero_add (k : Int)]
    exact Log.runs_fst hk (by omega)
  · rw [Log.stored_eq_singleton, htally, Pi.add_apply, Log.run_out (by omega), add_zero,
      Nat.cast_add]
    exact Log.runs_snd hk (by omega)
  · rw [Log.stored_eq_singleton, htally, Pi.add_apply, Pi.add_apply, Log.run_out (by omega),
      Log.run_out (by omega), add_zero, zero_add, Nat.cast_add (w * h + w * h / 4)]
    exact Log.run_in hk

theorem encodeYUV420sp_even (hw : w % 2 = 0) (hh : h % 2 = 0) (hsize : rgb.size = 3 * (w * h))
    (hfit : 3 * (w * h) < 2147483648) :
    ∃ S, encodeYUV420sp (some []) (some rgb) w h = some (some S) ∧
      S.Fills (w * h * 3 / 2) ∧ (∀ k, k < w * h → S.stored k = [lumaByte rgb k]) ∧
      ∀ k, k < w * h / 4 →
        S.stored (w * h + 2 * k : Nat) = [clamp (sampleAt rgb w k).V] ∧
        S.stored (w * h + 2 * k + 1 : Nat) = [clamp (sampleAt rgb w k).U] := by
  obtain ⟨S, hS, htally⟩ := encodeYUV420sp_spec hsize hfit
  obtain ⟨hchroma, hbytes⟩ := chroma_even hw hh
  have hapart : (0 : Int) + (w * h : Nat) ≤ (w * h : Nat) := by omega
  rw [hchroma] at htally hbytes
  refine ⟨S, hS, ?_, fun k hk => ?_, fun k hk => ⟨?_, ?_⟩⟩
  · rw [hbytes]
    exact Log.fills_two htally
  · rw [Log.stored_eq_singleton, htally, ← zero_add (k : Int)]
    exact Log.runs_fst hk hapart
  · rw [Log.stored_eq_singleton, htally, ← interleaved_even, Nat.cast_add]
    exact Log.runs_snd (by omega) hapart
  · rw [Log.stored_eq_singleton, htally, ← interleaved_odd, Nat.add_assoc, Nat.cast_add]
    exact Log.runs_snd (by omega) hapart

theorem planar_eq_semiPlanar (w h : Nat) (rgb : Block) (hw : w % 2 = 0) (hh : h % 2 = 0)
    (hfit : 3 * (w * h) < 2147483648) (hsize : rgb.size = 3 * (w * h)) :
    ∃ P S, rgb_to_yuv420p (some []) (some rgb) w h = some (some P) ∧
      encodeYUV420sp (some []) (some rgb) w h = some (some S) ∧
      P.Fills (w * h * 3 / 2) ∧ S.Fills (w * h * 3 / 2) ∧
      (∀ k : Nat, k < w * h → P.stored k = S.stored k) ∧
      ∀ k : Nat, k < w * h / 4 →
        P.stored (w * h + k : Nat) = S.stored (w * h + 2 * k + 1 : Nat) ∧
        P.stored (w * h + w * h / 4 + k : Nat) = S.stored (w * h + 2 * k : Nat) := by
  obtain ⟨P, hP, hplanes⟩ := rgb_to_yuv420p_even hw hh hsize hfit
  obtain ⟨S, hS, hfills, hluma, hchroma⟩ := encodeYUV420sp_even hw hh hsize hfit
  refine ⟨P, S, hP, hS, hplanes.fills, hfills, fun k hk => ?_, fun k hk => ⟨?_, ?_⟩⟩
  · rw [hplanes.luma k hk, hluma k hk]
  · rw [hplanes.u k hk, (hchroma k hk).2]
  · rw [hplanes.v k hk, (hchroma k hk).1]

theorem planar_eq_semiPlanar_block : ∃ P S,
    rgb_to_yuv420p (some []) (some ⟨12, fun _ => 0⟩) (2 : Nat) (2 : Nat) = some (some P) ∧
      encodeYUV420sp (some []) (some ⟨12, fun _ => 0⟩) (2 : Nat) (2 : Nat) = some (some S) ∧
      P.Fills 6 ∧ S.Fills 6 ∧ P.stored 4 = S.stored 5 := by
  obtain ⟨P, S, hP, hS, hfills, hfills', -, hchroma⟩ :=
    planar_eq_semiPlanar 2 2 ⟨12, fun _ => 0⟩ rfl rfl (by decide) rfl
  exact ⟨P, S, hP, hS, hfills, hfills', (hchroma 0 (by decide)).1⟩

/-- A picture of 2³² pixels has no frame size. -/
theorem planar_overflow : ¬ ∀ (w h : Nat) (rgb : Block), w % 2 = 0 → h % 2 = 0 →
    rgb.size = 3 * (w * h) →
    ∃ P S, rgb_to_yuv420p (some []) (some rgb) w h = some (some P) ∧
      encodeYUV420sp (some []) (some rgb) w h = some (some S) ∧
      P.Fills (w * h * 3 / 2) ∧ S.Fills (w * h * 3 / 2) ∧
      (∀ k : Nat, k < w * h → P.stored k = S.stored k) ∧
      ∀ k : Nat, k < w * h / 4 →
        P.stored (w * h + k : Nat) = S.stored (w * h + 2 * k + 1 : Nat) ∧
        P.stored (w * h + w * h / 4 + k : Nat) = S.stored (w * h + 2 * k : Nat) := by
  intro hall
  obtain ⟨P, S, hP, -⟩ := hall 65536 65536 ⟨12884901888, fun _ => 0⟩ rfl rfl rfl
  have hnone : CInt.int (((65536 : Nat) : Int) * ((65536 : Nat) : Int)) = none := rfl
  rw [rgb_to_yuv420p, hnone] at hP
  cases hP

/-! ## Any size -/

theorem pixel_fit (hc : pixel rgb w i j = some c) : 3 * (i * w + j) + 2 < 2147483648 := by
  simp only [pixel, channel, Option.bind_eq_bind, Option.bind_eq_some_iff] at hc
  obtain ⟨-, -, -, -, -, ⟨row, hrow, cell, hcell, start, hstart, index, hindex, -⟩, -⟩ := hc
  obtain rfl := CInt.int_eq_some hrow
  obtain rfl := CInt.int_eq_some hcell
  obtain rfl := CInt.int_eq_some hstart
  have hlt := (CInt.int_bounds hindex).2
  rw [← Nat.cast_mul, ← Nat.cast_add] at hlt
  omega

/-- It has a result only if the indices into the picture fit. -/
theorem encodeYUV420sp_fit {S : Option (Log Byte)} (hw : 1 ≤ w) (hh : 1 ≤ h)
    (hS : encodeYUV420sp (some []) (some rgb) w h = some S) : 3 * (w * h) < 2147483648 := by
  simp only [encodeYUV420sp, Option.bind_eq_bind, Option.bind_eq_some_iff,
    Int.toNat_natCast] at hS
  obtain ⟨_, _, t, ht, -⟩ := hS
  have hlast : (h - 1, w - 1) ∈ box 0 h 0 w := by
    show 0 ≤ h - 1 ∧ h - 1 < h ∧ 0 ≤ w - 1 ∧ w - 1 < w
    omega
  obtain ⟨u, u', -, hu⟩ := sweep_each (J := fun _ => True) (fun _ _ _ _ _ _ => trivial) ht
    trivial hlast
  rw [semiPlanarPixel, Option.bind_eq_bind] at hu
  obtain ⟨c, hc, -⟩ := Option.bind_eq_some_iff.1 hu
  have hfit := pixel_fit hc
  have hcell : (h - 1) * w + (w - 1) + 1 = w * h := by
    rw [Nat.sub_mul, Nat.one_mul, Nat.mul_comm h]
    have : w ≤ w * h := Nat.le_mul_of_pos_right w hh
    omega
  omega

/-- On a size that is not even the samples take more than the half picture
there is room for. -/
theorem room_lt_chroma (hw : 1 ≤ w) (hh : 1 ≤ h) (hodd : ¬ (w % 2 = 0 ∧ h % 2 = 0)) :
    w * h * 3 / 2 < w * h + 2 * chroma w h := by
  have hfour : 2 * ((w + 1) / 2) * (2 * ((h + 1) / 2)) = 4 * chroma w h := by
    rw [chroma]
    ring
  have hlt : w * h < 2 * ((w + 1) / 2) * (2 * ((h + 1) / 2)) := by
    by_cases hw₂ : w % 2 = 0
    · exact Nat.mul_lt_mul_of_le_of_lt (by omega) (by omega) (by omega)
    · exact Nat.mul_lt_mul_of_lt_of_le (by omega) (by omega) (by omega)
  omega

theorem planes_fit_iff (w h : Nat) (rgb : Block) (hw : 1 ≤ w) (hh : 1 ≤ h)
    (hsize : rgb.size = 3 * (w * h)) :
    (∃ P S, rgb_to_yuv420p (some []) (some rgb) w h = some (some P) ∧
      encodeYUV420sp (some []) (some rgb) w h = some (some S) ∧
      P.Within (w * h * 3 / 2) ∧ S.Within (w * h * 3 / 2) ∧ P.Once) ↔
    w % 2 = 0 ∧ h % 2 = 0 ∧ 3 * (w * h) < 2147483648 := by
  refine ⟨fun hall => ?_, fun ⟨hw₂, hh₂, hfit⟩ => ?_⟩
  · obtain ⟨P, S, -, hS, -, hwithin, -⟩ := hall
    have hfit := encodeYUV420sp_fit hw hh hS
    by_contra hodd
    have hroom := room_lt_chroma hw hh fun heven => hodd ⟨heven.1, heven.2, hfit⟩
    obtain ⟨S', hS', htally⟩ := encodeYUV420sp_spec hsize hfit
    obtain rfl : S' = S := Option.some.inj (Option.some.inj (hS'.symm.trans hS))
    -- the last sample lies past the end
    have hlast : (S'.stored (w * h + (2 * chroma w h - 1) : Nat)).length = 1 := by
      rw [Log.length_stored, htally, Nat.cast_add, Log.runs_snd (by omega) (by omega)]
      rfl
    have hin := hwithin _ fun hnil => by
      rw [hnil] at hlast
      cases hlast
    omega
  · obtain ⟨P, hP, hplanes⟩ := rgb_to_yuv420p_even hw₂ hh₂ hsize hfit
    obtain ⟨S, hS, hfills, -, -⟩ := encodeYUV420sp_even hw₂ hh₂ hsize hfit
    exact ⟨P, S, hP, hS, hplanes.fills.within, hfills.within, hplanes.fills.once⟩

/-- On three by three pixels there is room for 13 bytes and 17 are stored. -/
theorem planes_fit_three : ¬ ∃ P S,
    rgb_to_yuv420p (some []) (some ⟨27, fun _ => 0⟩) (3 : Nat) (3 : Nat) = some (some P) ∧
      encodeYUV420sp (some []) (some ⟨27, fun _ => 0⟩) (3 : Nat) (3 : Nat) = some (some S) ∧
      P.Within 13 ∧ S.Within 13 ∧ P.Once := by
  intro hfit
  have heven := (planes_fit_iff 3 3 ⟨27, fun _ => 0⟩ (by decide) (by decide) rfl).1 hfit
  exact absurd heven.1 (by decide)

theorem planes_fit_four : ∃ P S,
    rgb_to_yuv420p (some []) (some ⟨24, fun _ => 0⟩) (4 : Nat) (2 : Nat) = some (some P) ∧
      encodeYUV420sp (some []) (some ⟨24, fun _ => 0⟩) (4 : Nat) (2 : Nat) = some (some S) ∧
      P.Within 12 ∧ S.Within 12 ∧ P.Once :=
  (planes_fit_iff 4 2 ⟨24, fun _ => 0⟩ (by decide) (by decide) rfl).2
    ⟨rfl, rfl, by decide⟩

end IotCamera
