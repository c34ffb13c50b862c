import IotCamera.Lib.Plane
import IotCamera.Proofs.ThermalOpen
import IotCamera.Thermal.Temperature

/-!
# One call of the temperature filter

The file says what a call of `processTemperature` on an opened object does,
as long as the planes have fewer than 2³² bytes. The first two loops fill the
interior of one filter plane with the 3×3 means of the raw plane. The last
two fill the result plane, and every cell of a row gets one and the same
value: the mean of the samples that stand at the start of that row in the
five filter planes. Nothing else changes.
-/

namespace IotCamera

open Layout

/-- The bytes of a row of 16-bit samples, padded to a multiple of four. -/
def stride16 (width : Nat) : Nat := (2 * width + 3) / 4 * 4

/-- The layout of a 16-bit plane. -/
def layout16 (width height : Nat) : Layout where
  stride := stride16 width
  width := width
  height := height
  fits := by unfold stride16; omega

/-- The sum over the 3×3 neighbourhood of a cell. -/
def boxTotal (L : Layout) (b : Block) (i j : Nat) : Int :=
  ∑ m ∈ Finset.range 3, ∑ n ∈ Finset.range 3, L.sample b (i - 1 + m) (j - 1 + n)

/-- The truncated mean over the 3×3 neighbourhood of a cell. -/
def boxMean (L : Layout) (b : Block) (i j : Nat) : Int := (boxTotal L b i j).tdiv 9

theorem fitsShort_sample (L : Layout) (b : Block) (i j : Nat) :
    -32768 ≤ L.sample b i j ∧ L.sample b i j ≤ 32767 := CInt.fitsShort_toInt _

theorem boxTotal_bounds (L : Layout) (b : Block) (i j : Nat) :
    -32768 * 9 ≤ boxTotal L b i j ∧ boxTotal L b i j ≤ 32767 * 9 := by
  have hrow : ∀ m, -32768 * 3 ≤ ∑ n ∈ Finset.range 3, L.sample b (i - 1 + m) (j - 1 + n) ∧
      ∑ n ∈ Finset.range 3, L.sample b (i - 1 + m) (j - 1 + n) ≤ 32767 * 3 := fun m =>
    CInt.sum_bounds (fun n => fitsShort_sample L b (i - 1 + m) (j - 1 + n)) 3
  have htotal := CInt.sum_bounds hrow 3
  unfold boxTotal
  omega

theorem fitsShort_boxMean (L : Layout) (b : Block) (i j : Nat) :
    CInt.FitsShort (boxMean L b i j) :=
  CInt.fitsShort_tdiv (by decide) (boxTotal_bounds L b i j).1 (boxTotal_bounds L b i j).2

namespace ThermalUsb

variable {L : Layout} {heap : Heap} {d : FrameFormat} {p : Nat} {b : Block} {i j : Nat}

/-- A descriptor of a plane with layout `L` whose block is `b`. -/
structure Holds (L : Layout) (heap : Heap) (d : FrameFormat) (p : Nat) (b : Block) :
    Prop where
  ptr : d.ptr = some p
  block : heap.block p = some b
  line : d.bytesPerLine = L.stride
  size : L.bytes ≤ b.size

theorem Holds.addSample (h : Holds L heap d p b) {pos r c : Nat} {sum : Int}
    (hpos : pos = L.off r c) (hr : r < L.height) (hc : c < L.width)
    (hlo : -2147483648 ≤ sum + L.sample b r c) (hhi : sum + L.sample b r c < 2147483648) :
    addSample heap d pos sum = some (sum + L.sample b r c) := by
  have hin : L.off r c + 2 ≤ b.size := Nat.le_trans (off_lt hr hc) h.size
  rw [ThermalUsb.addSample, h.ptr, hpos, Heap.load16_eq h.block hin, Option.bind_some]
  exact CInt.int_eq hlo hhi

theorem stride_lt (hfit : L.bytes < 4294967296) (hheight : 3 ≤ L.height) :
    3 * L.stride < 4294967296 := by
  have h := Nat.mul_le_mul_left L.stride hheight
  unfold Layout.bytes at hfit
  omega

theorem off_small (hfit : L.bytes < 4294967296) (hi : i < L.height) (hj : j < L.width) :
    L.off i j < 4294967296 := by
  have := off_lt hi hj
  omega

theorem Holds.boxSum (h : Holds L heap d p b) (hfit : L.bytes < 4294967296)
    (hi : 1 ≤ i) (hi' : i + 1 < L.height) (hj : 1 ≤ j) (hj' : j + 1 < L.width) :
    boxSum heap d i j = some (boxTotal L b i j) := by
  have hstride := stride_lt hfit (by omega)
  have hwidth := L.fits
  have hsample := fitsShort_sample L b
  have hrow : ∀ m, -32768 * 3 ≤ ∑ n ∈ Finset.range 3, L.sample b (i - 1 + m) (j - 1 + n) ∧
      ∑ n ∈ Finset.range 3, L.sample b (i - 1 + m) (j - 1 + n) ≤ 32767 * 3 := fun m =>
    CInt.sum_bounds (fun n => hsample (i - 1 + m) (j - 1 + n)) 3
  have houter := CInt.forLoop_sum (a := 0) (n := 3)
    (f := fun m => ∑ n ∈ Finset.range 3, L.sample b (i - 1 + m) (j - 1 + n))
    (fun m sum =>
      (CInt.int (((j - kSize : Nat) : Int) * 2)).bind fun column =>
        let ptr16 := CInt.u32 ((i - kSize + m) * d.bytesPerLine) + column.toNat
        forLoop 0 (2 * kSize + 1)
          (fun n => ThermalUsb.addSample heap d (ptr16 + 2 * n)) sum) fun m hm => by
    have hpartial := CInt.sum_bounds hrow m
    have hcolumn : CInt.int (((j - 1 : Nat) : Int) * 2) = some ((2 * (j - 1) : Nat) : Int) := by
      rw [CInt.int_eq (by omega) (by omega)]
      congr 1
      omega
    have hptr : CInt.u32 ((i - 1 + m) * d.bytesPerLine) +
        ((2 * (j - 1) : Nat) : Int).toNat = L.off (i - 1 + m) (j - 1) := by
      have hrow := off_small hfit (i := i - 1 + m) (j := j - 1) (by omega) (by omega)
      unfold Layout.off at hrow
      rw [Int.toNat_natCast, h.line, CInt.u32_eq (by omega), Layout.off]
    simp only [kSize]
    rw [hcolumn, Option.bind_some]
    simp only [hptr]
    refine CInt.forLoop_sum (f := fun n => L.sample b (i - 1 + m) (j - 1 + n)) _
      fun n hn => ?_
    have hinner := CInt.sum_bounds (fun n => hsample (i - 1 + m) (j - 1 + n)) n
    have hlast := hsample (i - 1 + m) (j - 1 + n)
    refine h.addSample ?_ (by omega) (by omega) ?_ ?_
    · unfold Layout.off
      omega
    · omega
    · omega
  rw [ThermalUsb.boxSum]
  refine houter.trans ?_
  rw [zero_add, boxTotal]

theorem Holds.other (h : Holds L heap d p b) {heap' : Heap}
    (hblock : heap'.block p = heap.block p) : Holds L heap' d p b :=
  ⟨h.ptr, hblock.trans h.block, h.line, h.size⟩

theorem Holds.storeSample (h : Holds L heap d p b) (hfit : L.bytes < 4294967296)
    (hi : i < L.height) (hj : j < L.width) (value : Int) (heap' : Heap) :
    storeSample d i j value heap' =
      heap'.store16 (some p) (L.off i j) (CInt.short value) := by
  have hrow := off_small hfit hi hj
  unfold Layout.off at hrow
  rw [ThermalUsb.storeSample, h.ptr, h.line, CInt.u32_eq (by omega), Layout.off]

/-! ## The planes of an object -/

/-- The block of a slot; of a slot without one, an empty block. -/
def plane (s : ThermalUsb) (slot : Slot) : Block :=
  ((s.desc slot).ptr.bind s.heap.block).getD ⟨0, fun _ => 0⟩

/-- The filter slot of a number, which the object counts modulo five. -/
def ringSlot (m : Nat) : Slot :=
  .temperatureFilterFrame ⟨m % 5, Nat.mod_lt m (by decide)⟩

/-- The slots of 16-bit planes. -/
def IsY16 : Slot → Prop
  | .frame _ => False
  | _ => True

variable {s : ThermalUsb} {slot slot' : Slot}

theorem ringSlot_ne_raw (m : Nat) (k : Fin 2) : ringSlot m ≠ .temperatureRawFrame k := by
  intro heq
  rw [ringSlot] at heq
  cases heq

theorem ringSlot_ne_result (m : Nat) (k : Fin 2) :
    ringSlot m ≠ .temperatureResultFrame k := by
  intro heq
  rw [ringSlot] at heq
  cases heq

theorem filterFrame_eq {m : Nat} (hm : m < 5) :
    s.filterFrame m = some (s.desc (ringSlot m)) := by
  have hmod : (⟨m, hm⟩ : Fin 5) = ⟨m % 5, Nat.mod_lt m (by decide)⟩ :=
    Fin.ext (Nat.mod_eq_of_lt hm).symm
  rw [filterFrame, dif_pos hm, hmod, ringSlot]

theorem plane_eq (hptr : (s.desc slot).ptr = some p) (hb : s.heap.block p = some b) :
    s.plane slot = b := by
  rw [plane, hptr, Option.bind_some, hb, Option.getD_some]

/-- Stores that leave the block of a slot leave its plane. -/
theorem plane_stores {heap : Heap}
    (hblock : ∀ q, (s.desc slot).ptr = some q → heap.block q = s.heap.block q) :
    plane { s with heap := heap } slot = s.plane slot := by
  cases hq : (s.desc slot).ptr with
  | none => simp only [plane, hq, Option.bind_none]
  | some q => simp only [plane, hq, Option.bind_some, hblock q hq]

/-- What the filter relies on: every 16-bit slot has the plane's geometry and
a block of its own for it. -/
structure Ready (L : Layout) (s : ThermalUsb) : Prop where
  frames : Frames s
  cnt : s.frameCnt < 5
  width_eq : ∀ slot, IsY16 slot → (s.desc slot).width = L.width
  height_eq : ∀ slot, IsY16 slot → (s.desc slot).height = L.height
  size_eq : ∀ slot, IsY16 slot → (s.plane slot).size = L.bytes
  holds : ∀ slot, IsY16 slot → ∃ p, Holds L s.heap (s.desc slot) p (s.plane slot)

theorem Holds.ptr_ne (h : Holds L s.heap (s.desc slot) p b) (hframes : Frames s)
    {q : Nat} (hptr : (s.desc slot').ptr = some q) (hne : slot' ≠ slot) : q ≠ p := by
  intro heq
  exact hne (hframes.apart slot' slot p (heq ▸ hptr) h.ptr)

/-- Writing one plane leaves the object ready and the other planes as they
were. -/
theorem Ready.setBlock (h : Ready L s) (heap : Heap) (hp : (s.desc slot).ptr = some p)
    (hothers : ∀ q, q ≠ p → heap.block q = s.heap.block q)
    (hcalls : heap.calls = s.heap.calls) (hb : heap.block p = some b)
    (hsize : b.size = (s.plane slot).size) :
    Ready L { s with heap := heap } ∧ plane { s with heap := heap } slot = b ∧
      ∀ slot', slot' ≠ slot → plane { s with heap := heap } slot' = s.plane slot' := by
  have hself : plane { s with heap := heap } slot = b := plane_eq hp hb
  have hblock : ∀ slot' q, slot' ≠ slot → (s.desc slot').ptr = some q →
      heap.block q = s.heap.block q := by
    intro slot' q hne hq
    exact hothers q fun heq => hne (h.frames.apart slot' slot p (heq ▸ hq) hp)
  have hother : ∀ slot', slot' ≠ slot →
      plane { s with heap := heap } slot' = s.plane slot' := fun slot' hne =>
    plane_stores fun q hq => hblock slot' q hne hq
  refine ⟨⟨⟨fun slot' q hq => ?_, h.frames.apart, fun q hq => ?_⟩, h.cnt, h.width_eq,
    h.height_eq, fun slot' hy' => ?_, fun slot' hy' => ?_⟩, hself, hother⟩
  · by_cases hne : slot' = slot
    · have hqp : q = p := Option.some.inj ((hne ▸ hq).symm.trans hp)
      rw [hqp]
      show heap.block p ≠ none
      rw [hb]
      nofun
    · show heap.block q ≠ none
      rw [hblock slot' q hne hq]
      exact h.frames.live slot' q hq
  · show q < heap.calls
    rw [hcalls]
    by_cases hqp : q = p
    · exact hqp ▸ h.frames.bound p (h.frames.live slot p hp)
    · exact h.frames.bound q (hothers q hqp ▸ hq)
  · by_cases hne : slot' = slot
    · subst hne
      rw [hself, hsize]
      exact h.size_eq slot' hy'
    · rw [hother slot' hne]
      exact h.size_eq slot' hy'
  · obtain ⟨q, hq⟩ := h.holds slot' hy'
    by_cases hne : slot' = slot
    · subst hne
      obtain rfl : q = p := Option.some.inj (hq.ptr.symm.trans hp)
      refine ⟨q, hq.ptr, ?_, hq.line, ?_⟩
      · rw [hself]
        exact hb
      · rw [hself, hsize]
        exact hq.size
    · rw [hother slot' hne]
      exact ⟨q, hq.other (hblock slot' q hne hq.ptr)⟩

theorem Ready.filled (h : Ready L s) {done : Nat → Nat → Prop}
    {val : Nat → Nat → BitVec 16} (hp : (s.desc slot).ptr = some p)
    (hf : FilledIn L done val p (s.plane slot) s.heap heap) :
    Ready L { s with heap := heap } ∧
      Filled L done val (s.plane slot) (plane { s with heap := heap } slot) ∧
      ∀ slot', slot' ≠ slot → plane { s with heap := heap } slot' = s.plane slot' := by
  obtain ⟨b', hb', hfill⟩ := hf.filled
  obtain ⟨hready, hself, hother⟩ :=
    h.setBlock heap hp hf.others hf.calls hb' hfill.size_eq
  exact ⟨hready, hself ▸ hfill, hother⟩

/-! ## One call -/

/-- The cells that have eight neighbours. -/
def Interior (L : Layout) (i j : Nat) : Prop :=
  1 ≤ i ∧ i + 1 < L.height ∧ 1 ≤ j ∧ j + 1 < L.width

theorem Interior.column_lt (h : Interior L i j) : j < L.width := by
  unfold Interior at h
  omega

/-- The first column has no left neighbours. -/
theorem not_interior_zero : ¬ Interior L i 0 := by
  unfold Interior
  omega

/-- The truncated mean of the samples at the start of row `i` of the five
filter planes. -/
def startMean (L : Layout) (planes : Nat → Block) (i : Nat) : Int :=
  (∑ m ∈ Finset.range 5, L.sample (planes m) i 0).tdiv 5

/-- What a call does, from the raw plane `raw`. -/
structure Filters (L : Layout) (raw : Block) (s s' : ThermalUsb) : Prop where
  desc_eq : s'.desc = s.desc
  index_eq : s'.frameIndex = s.frameIndex
  cnt_eq : s'.frameCnt = (s.frameCnt + 1) % 5
  filter : Filled L (Interior L) (fun i j => CInt.short (boxMean L raw i j))
    (s.plane (ringSlot s.frameCnt)) (s'.plane (ringSlot s.frameCnt))
  result : Filled L (fun i j => i < L.height ∧ j < L.width)
    (fun i _ => CInt.short (startMean L (fun m => s'.plane (ringSlot m)) i))
    (s.plane (.temperatureResultFrame s.frameIndex))
    (s'.plane (.temperatureResultFrame s.frameIndex))
  others : ∀ slot, slot ≠ ringSlot s.frameCnt →
    slot ≠ .temperatureResultFrame s.frameIndex → s'.plane slot = s.plane slot

theorem startMean_bounds (L : Layout) (planes : Nat → Block) (i n : Nat) (hn : n ≤ 5) :
    -2147483648 ≤ ∑ m ∈ Finset.range n, L.sample (planes m) i 0 ∧
      ∑ m ∈ Finset.range n, L.sample (planes m) i 0 < 2147483648 := by
  have h := CInt.sum_bounds (fun m => fitsShort_sample L (planes m) i 0) n
  omega

theorem fitsShort_startMean (L : Layout) (planes : Nat → Block) (i : Nat) :
    CInt.FitsShort (startMean L planes i) := by
  have h := CInt.sum_bounds (fun m => fitsShort_sample L (planes m) i 0) 5
  exact CInt.fitsShort_tdiv (by decide) h.1 h.2

theorem startMean_congr {planes planes' : Nat → Block}
    (hcolumn : ∀ m, L.sample (planes m) i 0 = L.sample (planes' m) i 0) :
    startMean L planes i = startMean L planes' i := by
  unfold startMean
  congr 1
  exact Finset.sum_congr rfl fun m _ => hcolumn m

/-- The sum over the filter planes reads the start of the row in each. -/
theorem Ready.temporalSum (h : Ready L s) (hfit : L.bytes < 4294967296)
    (hi : i < L.height) (hw : 0 < L.width) {heap : Heap}
    (hheap : ∀ m q, (s.desc (ringSlot m)).ptr = some q →
      heap.block q = s.heap.block q) :
    s.temporalSum heap i =
      some (∑ m ∈ Finset.range 5, L.sample (s.plane (ringSlot m)) i 0) := by
  have hsum := CInt.forLoop_sum (a := 0) (n := 5)
    (f := fun m => L.sample (s.plane (ringSlot m)) i 0)
    (fun m sum => (s.filterFrame m).bind fun filter =>
      ThermalUsb.addSample heap filter (CInt.u32 (i * filter.bytesPerLine)) sum)
    fun m hm => by
      obtain ⟨p, hp⟩ := h.holds (ringSlot m) trivial
      have hpos : CInt.u32 (i * (s.desc (ringSlot m)).bytesPerLine) = L.off i 0 := by
        rw [hp.line]
        exact CInt.u32_eq (off_small hfit hi hw)
      have hpartial := startMean_bounds L (fun m => s.plane (ringSlot m)) i (m + 1) hm
      rw [Finset.sum_range_succ] at hpartial
      rw [filterFrame_eq hm, Option.bind_some, hpos, zero_add]
      exact (hp.other (hheap m p hp.ptr)).addSample rfl hi hw hpartial.1 hpartial.2
  rw [ThermalUsb.temporalSum]
  exact hsum.trans (by rw [zero_add])

/-- The bytes of a row are an `unsigned int`. -/
theorem row_lt (hfit : L.bytes < 4294967296) (hh : 0 < L.height) : 2 * L.width < 4294967296 := by
  have hfits := L.fits
  have hone : L.stride * 1 ≤ L.stride * L.height := Nat.mul_le_mul_left _ hh
  unfold Layout.bytes at hfit
  omega

theorem Ready.height_lt (h : L.bytes < 4294967296) (hw : 0 < L.width) :
    L.height < 4294967296 := by
  have hfits := L.fits
  have hrows : 1 * L.height ≤ L.stride * L.height := Nat.mul_le_mul_right _ (by omega)
  unfold Layout.bytes at h
  omega

theorem Ready.filterLoops (h : Ready L s) (hfit : L.bytes < 4294967296)
    (hh : 0 < L.height) (hw : 0 < L.width) :
    ∃ heap, forLoop kSize
        (CInt.sub (s.desc (.temperatureRawFrame s.frameIndex)).height kSize)
        (fun i => forLoop kSize
          (CInt.sub (s.desc (.temperatureRawFrame s.frameIndex)).width kSize)
          (filterCell (s.desc (.temperatureRawFrame s.frameIndex))
            (s.desc (ringSlot s.frameCnt)) i)) s.heap = some heap ∧
      Ready L { s with heap := heap } ∧
      Filled L (Interior L)
        (fun i j => CInt.short (boxMean L (s.plane (.temperatureRawFrame s.frameIndex)) i j))
        (s.plane (ringSlot s.frameCnt)) (plane { s with heap := heap } (ringSlot s.frameCnt)) ∧
      ∀ slot, slot ≠ ringSlot s.frameCnt →
        plane { s with heap := heap } slot = s.plane slot := by
  have hwidth := row_lt hfit hh
  have hheight := Ready.height_lt hfit hw
  obtain ⟨pr, hraw⟩ := h.holds (.temperatureRawFrame s.frameIndex) trivial
  obtain ⟨pf, hfilter⟩ := h.holds (ringSlot s.frameCnt) trivial
  have hapart : pr ≠ pf := hfilter.ptr_ne h.frames hraw.ptr (ringSlot_ne_raw _ _).symm
  obtain ⟨heap, hloop, hfilled⟩ := Layout.fill
    (filterCell (s.desc (.temperatureRawFrame s.frameIndex)) (s.desc (ringSlot s.frameCnt)))
    (fun i j => CInt.short (boxMean L (s.plane (.temperatureRawFrame s.frameIndex)) i j))
    1 (L.height - 1) 1 (L.width - 1) hfilter.block hfilter.size (by omega) (by omega)
    fun i j heap' hi hi' hj hj' hothers => by
      rw [filterCell, (hraw.other (hothers pr hapart)).boxSum hfit hi (by omega) hj
        (by omega), Option.bind_some]
      exact hfilter.storeSample hfit (by omega) (by omega) _ heap'
  obtain ⟨hready, hfill, hother⟩ := h.filled hfilter.ptr hfilled
  have hrows : CInt.sub L.height kSize = L.height - 1 :=
    CInt.sub_eq (by unfold kSize; omega) hheight
  have hcols : CInt.sub L.width kSize = L.width - 1 :=
    CInt.sub_eq (by unfold kSize; omega) (by omega)
  refine ⟨heap, ?_, hready, hfill.congr fun i j => by unfold Interior; omega, hother⟩
  rw [h.height_eq (.temperatureRawFrame _) trivial,
    h.width_eq (.temperatureRawFrame _) trivial, hrows, hcols]
  exact hloop

theorem Ready.resultLoops (h : Ready L s) (hfit : L.bytes < 4294967296) :
    ∃ heap, forLoop 0 (s.desc (.temperatureResultFrame s.frameIndex)).height
        (fun i => forLoop 0 (s.desc (.temperatureRawFrame s.frameIndex)).width
          (s.resultCell (s.desc (.temperatureResultFrame s.frameIndex)) i)) s.heap =
        some heap ∧
      Ready L { s with heap := heap } ∧
      Filled L (fun i j => i < L.height ∧ j < L.width)
        (fun i _ => CInt.short (startMean L (fun m => s.plane (ringSlot m)) i))
        (s.plane (.temperatureResultFrame s.frameIndex))
        (plane { s with heap := heap } (.temperatureResultFrame s.frameIndex)) ∧
      ∀ slot, slot ≠ .temperatureResultFrame s.frameIndex →
        plane { s with heap := heap } slot = s.plane slot := by
  obtain ⟨p, hresult⟩ := h.holds (.temperatureResultFrame s.frameIndex) trivial
  obtain ⟨heap, hloop, hfilled⟩ := Layout.fill
    (s.resultCell (s.desc (.temperatureResultFrame s.frameIndex)))
    (fun i _ => CInt.short (startMean L (fun m => s.plane (ringSlot m)) i))
    0 L.height 0 L.width hresult.block hresult.size (Nat.le_refl _) (Nat.le_refl _)
    fun i j heap' _ hi _ hj hothers => by
      have hsum := h.temporalSum hfit hi (by omega) fun m q hq =>
        hothers q (hresult.ptr_ne h.frames hq (ringSlot_ne_result m _))
      rw [resultCell, hsum, Option.bind_some]
      exact hresult.storeSample hfit hi hj _ heap'
  obtain ⟨hready, hfill, hother⟩ := h.filled hresult.ptr hfilled
  refine ⟨heap, ?_, hready, hfill.congr fun i j => by omega, hother⟩
  rw [h.height_eq (.temperatureResultFrame _) trivial,
    h.width_eq (.temperatureRawFrame _) trivial]
  exact hloop

theorem Ready.setCnt (h : Ready L s) {cnt : Nat} (hcnt : cnt < 5) :
    Ready L { s with frameCnt := cnt } where
  frames := ⟨h.frames.live, h.frames.apart, h.frames.bound⟩
  cnt := hcnt
  width_eq := h.width_eq
  height_eq := h.height_eq
  size_eq := h.size_eq
  holds := h.holds

theorem processTemperature_spec (h : Ready L s) (hfit : L.bytes < 4294967296)
    (hh : 0 < L.height) (hw : 0 < L.width) :
    ∃ s', s.processTemperature = some s' ∧ Ready L s' ∧
      Filters L (s.plane (.temperatureRawFrame s.frameIndex)) s s' := by
  obtain ⟨heap₁, hloop₁, hready₁, hfill₁, hother₁⟩ := h.filterLoops hfit hh hw
  obtain ⟨heap₂, hloop₂, hready₂, hfill₂, hother₂⟩ := hready₁.resultLoops hfit
  have hcnt : (if s.frameCnt + 1 ≥ tSize then 0 else s.frameCnt + 1) =
      (s.frameCnt + 1) % 5 := by
    have := h.cnt
    unfold tSize
    split <;> omega
  refine ⟨{ s with heap := heap₂, frameCnt := (s.frameCnt + 1) % 5 }, ?_,
    hready₂.setCnt (Nat.mod_lt _ (by decide)), rfl, rfl, rfl, ?_, ?_,
    fun slot hne hne' => ?_⟩
  · unfold processTemperature
    rw [filterFrame_eq h.cnt, Option.bind_some, hloop₁, Option.bind_some, hcnt]
    exact congrArg (Option.map _) hloop₂
  · have hkept := hother₂ (ringSlot s.frameCnt) (ringSlot_ne_result _ _)
    exact hkept ▸ hfill₁
  · have hplanes : (fun m => plane { s with heap := heap₂ } (ringSlot m)) =
        fun m => plane { s with heap := heap₁ } (ringSlot m) :=
      funext fun m => hother₂ (ringSlot m) (ringSlot_ne_result m _)
    have hbefore := hother₁ _ (ringSlot_ne_result _ s.frameIndex).symm
    rw [← hbefore]
    exact hplanes ▸ hfill₂
  · exact (hother₂ slot hne').trans (hother₁ slot hne)

end ThermalUsb

end IotCamera
