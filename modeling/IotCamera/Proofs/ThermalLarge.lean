import IotCamera.Proofs.ThermalFilter

/-!
# Planes of 2³² bytes and more

The sizes of the planes are `unsigned int`, so `uvcOpen` computes the bytes
of a plane modulo 2³² and allocates that. For a plane of 2³² bytes or more
the block is shorter than the plane. This file shows that a call of
`processTemperature` then has no meaning.

The first two loops read the last sample of every row of the raw plane. Row
offsets wrap as well, but the last row that starts below 2³² does not wrap,
and its end lies within three bytes of 2³² or beyond, while the size of the
block is a multiple of four below 2³². So that row ends outside the block.
-/

namespace IotCamera

namespace ThermalUsb

open Layout

/-- If every row ends inside the block, neither the bytes of a row nor the size
of the block has wrapped. -/
theorem noWrap_of_rows {width height bytes n : Nat} (hn : width * bytes = n) (hpos : 0 < n)
    (hh : 0 < height)
    (hrows : ∀ r, r < height → CInt.u32 (r * lineBytes width bytes) + n ≤
      CInt.u32 (lineBytes width bytes * height)) :
    n + 3 < 4294967296 ∧ (n + 3) / 4 * 4 * height < 4294967296 := by
  have hsize := CInt.u32_lt (lineBytes width bytes * height)
  have hfirst := hrows 0 hh
  rw [Nat.zero_mul] at hfirst
  have hrow : CInt.u32 (width * bytes) = n := by
    rw [hn]
    exact CInt.u32_eq (by omega)
  have hwide : n + 3 < 4294967296 := by
    by_contra hwraps
    have hzero : lineBytes width bytes = 0 := by
      rw [lineBytes, hrow]
      unfold CInt.u32
      omega
    rw [hzero, Nat.zero_mul] at hfirst
    change CInt.u32 0 + n ≤ CInt.u32 0 at hfirst
    omega
  have hline : lineBytes width bytes = (n + 3) / 4 * 4 := by
    rw [lineBytes, hrow, CInt.u32_eq hwide]
  refine ⟨hwide, ?_⟩
  rw [hline] at hrows hsize
  obtain ⟨line, hline'⟩ : ∃ line, (n + 3) / 4 * 4 = line := ⟨_, rfl⟩
  have hfour : n ≤ line ∧ line ≤ n + 3 ∧ line % 4 = 0 := by omega
  rw [hline'] at hrows hsize ⊢
  by_contra hge
  -- the last row that starts below 2³²
  obtain ⟨r, hr⟩ : ∃ r, 4294967295 / line = r := ⟨_, rfl⟩
  have hstart : r * line ≤ 4294967295 := hr ▸ Nat.div_mul_le_self _ _
  have hend : 4294967295 < (r + 1) * line := by
    rw [← hr, Nat.mul_comm]
    exact Nat.lt_mul_div_succ _ (by omega)
  have hlt : r < height := by
    by_contra hle
    have := Nat.mul_le_mul_left line (Nat.le_of_not_lt hle)
    rw [Nat.mul_comm _ r] at this
    omega
  have hlast := hrows r hlt
  have hsize' := (CInt.u32_mul_mod_four hfour.2.2 height).1
  have hmod : (r + 1) * line % 4 = 0 := by
    rw [Nat.mul_mod, hfour.2.2, Nat.mul_zero, Nat.zero_mod]
  rw [CInt.u32_eq (by omega)] at hlast
  rw [Nat.succ_mul] at hend hmod
  omega

theorem bytes_lt_of_rows {width height : Nat} (hw : 0 < width) (hh : 0 < height)
    (hrows : ∀ r, r < height → CInt.u32 (r * lineBytes width 2) + 2 * width ≤
      CInt.u32 (lineBytes width 2 * height)) :
    (layout16 width height).bytes < 4294967296 :=
  (noWrap_of_rows (Nat.mul_comm width 2) (by omega) hh hrows).2

variable {raw filter d : FrameFormat} {heap heap' : Heap} {i j : Nat}

theorem sameSizes_filterCell (h : filterCell raw filter i j heap = some heap') :
    Heap.SameSizes heap heap' := by
  obtain ⟨sum, -, hstore⟩ := Option.bind_eq_some_iff.1 h
  exact Heap.sameSizes_store16 hstore

theorem read_of_filterCell (h : filterCell raw filter i j heap = some heap') {m : Nat}
    (hm : m < 3) :
    ∃ p b, raw.ptr = some p ∧ heap.block p = some b ∧
      CInt.u32 ((i - 1 + m) * raw.bytesPerLine) + 2 * (j - 1) + 6 ≤ b.size := by
  obtain ⟨sum, hsum, -⟩ := Option.bind_eq_some_iff.1 h
  obtain ⟨sum₁, sum₂, -, hrow⟩ := forLoop_each (J := fun _ => True) (i := m)
    (fun _ _ _ _ _ => trivial) hsum trivial (Nat.zero_le _) (by unfold kSize; omega)
  obtain ⟨column, hcolumn, hrow⟩ := Option.bind_eq_some_iff.1 hrow
  obtain ⟨sum₃, sum₄, -, hsample⟩ := forLoop_each (J := fun _ => True) (i := 2)
    (fun _ _ _ _ _ => trivial) hrow trivial (Nat.zero_le _) (by unfold kSize; omega)
  obtain ⟨v, hload, -⟩ := Option.bind_eq_some_iff.1 hsample
  obtain ⟨p, b, hptr, hblock, hin⟩ := Heap.load16_eq_some hload
  refine ⟨p, b, hptr, hblock, ?_⟩
  have hcolumn' : column = ((j - 1 : Nat) : Int) * 2 := CInt.int_eq_some hcolumn
  change CInt.u32 ((i - 1 + m) * raw.bytesPerLine) + column.toNat + 2 * 2 + 2 ≤ b.size at hin
  omega

variable {s s' : ThermalUsb}

/-- A call that has a result has read the last sample of every row of the raw
plane. -/
theorem read_of_process {width height : Nat} (hw : 3 ≤ width) (hh : 3 ≤ height)
    (hwidth : (s.desc (.temperatureRawFrame s.frameIndex)).width = width)
    (hheight : (s.desc (.temperatureRawFrame s.frameIndex)).height = height)
    (hwidth' : width < 4294967296) (hheight' : height < 4294967296)
    (hrun : s.processTemperature = some s') {r : Nat} (hr : r < height) :
    ∃ p b, (s.desc (.temperatureRawFrame s.frameIndex)).ptr = some p ∧
      s.heap.block p = some b ∧
      CInt.u32 (r * (s.desc (.temperatureRawFrame s.frameIndex)).bytesPerLine) + 2 * width ≤
        b.size := by
  -- the row is one of the three that some row of cells reads
  obtain ⟨i, m, hi, hi', hm, hrow⟩ :
      ∃ i m, 1 ≤ i ∧ i < height - 1 ∧ m < 3 ∧ i - 1 + m = r := by
    by_cases h0 : r = 0
    · exact ⟨1, 0, by omega, by omega, by omega, by omega⟩
    · by_cases hlast : r + 1 = height
      · exact ⟨r - 1, 2, by omega, by omega, by omega, by omega⟩
      · exact ⟨r, 1, by omega, by omega, by omega, by omega⟩
  obtain ⟨filter, -, hrun⟩ := Option.bind_eq_some_iff.1 hrun
  obtain ⟨heap, hloop, -⟩ := Option.bind_eq_some_iff.1 hrun
  have hrows : CInt.sub height kSize = height - 1 :=
    CInt.sub_eq (by unfold kSize; omega) hheight'
  have hcols : CInt.sub width kSize = width - 1 :=
    CInt.sub_eq (by unfold kSize; omega) hwidth'
  rw [hwidth, hheight, hrows, hcols] at hloop
  obtain ⟨u, u', hsame', hcell⟩ := sweep_each (J := Heap.SameSizes s.heap) (i := i)
    (j := width - 2) (fun i j t t' h ht => h.trans (sameSizes_filterCell ht)) hloop (.refl _)
    ⟨by unfold kSize; omega, hi', by unfold kSize; omega, by omega⟩
  obtain ⟨p, b, hptr, hblock, hin⟩ := read_of_filterCell hcell hm
  have hsize := hsame' p
  rw [hblock, Option.map_some] at hsize
  obtain ⟨b', hb', hsize'⟩ := Option.map_eq_some_iff.1 hsize.symm
  refine ⟨p, b', hptr, hb', ?_⟩
  rw [hrow] at hin
  omega

theorem Opened.bytes_lt {width height : Nat} (h : Opened width height s) (hw : 3 ≤ width)
    (hh : 3 ≤ height) (hwidth : width < 4294967296) (hheight : height < 4294967296)
    (hrun : s.processTemperature = some s') :
    (layout16 width height).bytes < 4294967296 := by
  have hraw := h.shaped (.temperatureRawFrame s.frameIndex)
  have hline := hraw.line_eq 2 rfl
  refine bytes_lt_of_rows (by omega) (by omega) fun r hr => ?_
  obtain ⟨p, b, hptr, hblock, hin⟩ :=
    read_of_process hw hh hraw.width_eq hraw.height_eq hwidth hheight hrun hr
  rw [h.sized _ p b hptr hblock, hline, hraw.height_eq] at hin
  exact hin

end ThermalUsb

end IotCamera
