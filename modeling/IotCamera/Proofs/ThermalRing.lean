import IotCamera.Lib.Ring
import IotCamera.Lib.Run
import IotCamera.Lib.Trace
import IotCamera.Proofs.ThermalLarge

/-!
# Runs of the temperature filter

A freshly opened object is ready for the filter, a feed and a call leave it
ready, and so it stays along a run of any length. The file states what the
planes hold after a run.

* **The ring.** Call number `m`, counted from zero, writes the interior of
  filter plane `m % 5`, and no call before `m + 5` writes there again. So the
  last five calls have their 3×3 means in the ring, which is `Recent`.

* **The first column.** It is no part of the interior, so no call ever
  writes it: what a filter plane has there is what `malloc` left there.

* **The result.** The result plane is computed from the first column of the
  filter planes alone. It is the same after every call, and the raw
  temperatures do not enter into it.

All of it holds for planes of fewer than 2³² bytes. `filter_ring` is the
statement about the ring, `filter_ring_large` the size it needs.
-/

namespace IotCamera

open Layout Lts

namespace ThermalUsb

variable {L : Layout} {s s' t s₀ : ThermalUsb} {slot : Slot} {f : Feed} {fs : List Feed}
  {width height i j m : Nat}

/-! ## From opening to the first call -/

theorem stride16_eq (hfit : 2 * width + 3 < 4294967296) :
    lineBytes width 2 = stride16 width := by
  have hbytes : CInt.u32 (width * 2) = 2 * width := by
    rw [CInt.u32_eq (by omega), Nat.mul_comm]
  rw [lineBytes, hbytes, CInt.u32_eq hfit, stride16]

theorem slotBytes_y16 (fmt : PixelFormat) (hy : IsY16 slot) : slotBytes fmt slot = some 2 := by
  cases slot with
  | frame i => exact hy.elim
  | _ => rfl

/-- The bytes of a row of a 16-bit slot, as the object computes them. -/
theorem Opened.line_eq (h : Opened width height s) (hy : IsY16 slot) :
    (s.desc slot).bytesPerLine = lineBytes width 2 :=
  (h.shaped slot).line_eq 2 (slotBytes_y16 s.pixelFmt hy)

theorem rawLine_eq (hfit : (layout16 width height).bytes < 4294967296) (hrows : 0 < height) :
    lineBytes width 2 = stride16 width := by
  refine stride16_eq ?_
  have hone : stride16 width * 1 ≤ stride16 width * height := Nat.mul_le_mul_left _ hrows
  change stride16 width * height < 4294967296 at hfit
  unfold stride16 at hone hfit
  omega

theorem rawSize_eq (hfit : (layout16 width height).bytes < 4294967296) :
    CInt.u32 (lineBytes width 2 * height) = (layout16 width height).bytes := by
  by_cases hrows : height = 0
  · rw [hrows]
    rfl
  · rw [rawLine_eq hfit (by omega)]
    exact CInt.u32_eq hfit

/-- A slot with a block for rows of 16-bit samples. -/
theorem Owned.plane_spec (h : Owned s) (hfit : (layout16 width height).bytes < 4294967296)
    (hptr : (s.desc slot).ptr ≠ none) (hheight : (s.desc slot).height = height)
    (hline : (s.desc slot).bytesPerLine = lineBytes width 2) :
    ∃ p, (s.desc slot).ptr = some p ∧ s.heap.block p = some (s.plane slot) ∧
      (s.plane slot).size = (layout16 width height).bytes := by
  obtain ⟨p, hp⟩ := Option.ne_none_iff_exists'.1 hptr
  obtain ⟨b, hb⟩ := Option.ne_none_iff_exists'.1 (h.frames.live slot p hp)
  rw [plane_eq hp hb]
  refine ⟨p, hp, hb, ?_⟩
  rw [h.sized slot p b hp hb, hline, hheight, rawSize_eq hfit]

theorem Owned.ready (h : Owned s) (hcnt : s.frameCnt < 5)
    (hfit : (layout16 width height).bytes < 4294967296) (hrows : 0 < height)
    (hwidth : ∀ slot, (s.desc slot).width = width)
    (hheight : ∀ slot, (s.desc slot).height = height)
    (hplane : ∀ slot, IsY16 slot → (s.desc slot).ptr ≠ none ∧
      (s.desc slot).bytesPerLine = lineBytes width 2) :
    Ready (layout16 width height) s := by
  refine ⟨h.frames, hcnt, fun slot _ => hwidth slot, fun slot _ => hheight slot,
    fun slot hy => ?_, fun slot hy => ?_⟩
  · obtain ⟨hptr, hline⟩ := hplane slot hy
    obtain ⟨p, -, -, hsize⟩ := h.plane_spec hfit hptr (hheight slot) hline
    exact hsize
  · obtain ⟨hptr, hline⟩ := hplane slot hy
    obtain ⟨p, hp, hb, hsize⟩ := h.plane_spec hfit hptr (hheight slot) hline
    exact ⟨p, hp, hb, hline.trans (rawLine_eq hfit hrows), Nat.le_of_eq hsize.symm⟩

theorem Opened.ready (h : Opened width height s) (hcnt : s.frameCnt < 5) (hrows : 0 < height)
    (hfit : (layout16 width height).bytes < 4294967296) :
    Ready (layout16 width height) s :=
  h.toOwned.ready hcnt hfit hrows (fun slot => (h.shaped slot).width_eq)
    (fun slot => (h.shaped slot).height_eq) fun slot hy => ⟨h.ptr slot, h.line_eq hy⟩

/-- What opening a new object gives, with any rotation and pixel format set in
between. -/
theorem uvcOpen_new {junk : ThermalUsb} {mode : RotateMode} {fmt : PixelFormat}
    {alloc : Allocator} {w h : Int} (hsize : planeSize mode w h = (width, height))
    (hopen : uvcOpen alloc w h { new junk with rotateMode := mode, pixelFmt := fmt } =
      some (true, s₀)) : Opened width height s₀ ∧ s₀.frameCnt = 0 := by
  have howned := owned_new junk
  obtain ⟨hopened, hcnt, -⟩ := uvcOpen_true (s := { new junk with
    rotateMode := mode, pixelFmt := fmt }) ⟨⟨howned.frames.live, howned.frames.apart,
    howned.frames.bound⟩, howned.sized⟩ hsize hopen
  exact ⟨hopened, hcnt⟩

theorem Opened.feed (h : Opened width height s) (hfeed : s.feed f = some t) :
    Opened width height t := by
  obtain ⟨heap, hwrite, rfl⟩ := Option.map_eq_some_iff.1 hfeed
  obtain ⟨p, -, hwrite⟩ := Option.bind_eq_some_iff.1 hwrite
  obtain ⟨b, hb, rfl⟩ := Option.map_eq_some_iff.1 hwrite
  have hsame := Heap.sameSizes_update { b with byte := f.raw } hb rfl
  refine ⟨⟨⟨fun slot q hq => (hsame.block_ne_none q).2 (h.frames.live slot q hq),
    h.frames.apart, fun q hq => h.frames.bound q ((hsame.block_ne_none q).1 hq)⟩,
    fun slot q c hq hc => ?_⟩, fun slot => ?_, h.ptr⟩
  · have hsize := hsame q
    rw [show _ = some c from hc, Option.map_some] at hsize
    obtain ⟨c', hc', hsize'⟩ := Option.map_eq_some_iff.1 hsize.symm
    exact hsize' ▸ h.sized slot q c' hq hc'
  · obtain ⟨hw, hh, hline⟩ := h.shaped slot
    exact ⟨hw, hh, hline⟩

/-- A step on an opened object has a result only if the planes have fewer than
2³² bytes. -/
theorem bytes_lt_of_process (h : Opened width height s) (hw : 3 ≤ width) (hh : 3 ≤ height)
    (hwidth : width < 4294967296) (hheight : height < 4294967296)
    (hrun : process s f = some s') : (layout16 width height).bytes < 4294967296 := by
  obtain ⟨t, hfeed, hcall⟩ := Option.bind_eq_some_iff.1 hrun
  exact (h.feed hfeed).bytes_lt hw hh hwidth hheight hcall

/-! ## A feed and a call -/

/-- The raw temperature plane of a feed. -/
def Feed.plane (L : Layout) (f : Feed) : Block := ⟨L.bytes, f.raw⟩

/-- What a step does. -/
structure Processed (L : Layout) (f : Feed) (s s' : ThermalUsb) : Prop where
  index_eq : s'.frameIndex = f.frameIndex
  cnt_eq : s'.frameCnt = (s.frameCnt + 1) % 5
  filter : Filled L (Interior L) (fun i j => CInt.short (boxMean L (f.plane L) i j))
    (s.plane (ringSlot s.frameCnt)) (s'.plane (ringSlot s.frameCnt))
  result : ∀ i j, i < L.height → j < L.width →
    L.sample (s'.plane (.temperatureResultFrame f.frameIndex)) i j =
      startMean L (fun m => s'.plane (ringSlot m)) i
  others : ∀ m, m % 5 ≠ s.frameCnt → s'.plane (ringSlot m) = s.plane (ringSlot m)

theorem feed_spec (h : Ready L s) (f : Feed) :
    ∃ t, s.feed f = some t ∧ Ready L t ∧ t.frameCnt = s.frameCnt ∧
      t.frameIndex = f.frameIndex ∧
      t.plane (.temperatureRawFrame f.frameIndex) = f.plane L ∧
      ∀ slot, slot ≠ .temperatureRawFrame f.frameIndex → t.plane slot = s.plane slot := by
  obtain ⟨p, hraw⟩ := h.holds (.temperatureRawFrame f.frameIndex) trivial
  have hsize := h.size_eq (.temperatureRawFrame f.frameIndex) trivial
  let heap : Heap := { s.heap with
    block := Function.update s.heap.block p (some (f.plane L)) }
  obtain ⟨hready, hself, hother⟩ := h.setBlock heap hraw.ptr
    (fun q hq => Function.update_of_ne hq _ _) rfl (Function.update_self ..) hsize.symm
  refine ⟨{ s with heap := heap, frameIndex := f.frameIndex }, ?_, ⟨⟨hready.frames.live,
    hready.frames.apart, hready.frames.bound⟩, hready.cnt, hready.width_eq,
    hready.height_eq, hready.size_eq, hready.holds⟩, rfl, rfl, hself, hother⟩
  rw [feed, Heap.overwrite, hraw.ptr, Option.bind_some, hraw.block, Option.map_some,
    Option.map_some, hsize]
  rfl

theorem ringSlot_ne {m n : Nat} (hne : m % 5 ≠ n % 5) : ringSlot m ≠ ringSlot n := by
  intro heq
  rw [ringSlot, ringSlot, Slot.temperatureFilterFrame.injEq] at heq
  exact hne (congrArg Fin.val heq)

theorem ringSlot_mod (n : Nat) : ringSlot (n % 5) = ringSlot n :=
  congrArg Slot.temperatureFilterFrame (Fin.ext (Nat.mod_mod n 5))

theorem ringSlot_of_mod {n : Nat} (hm : m % 5 = n) : ringSlot m = ringSlot n := by
  rw [← hm, ringSlot_mod]

theorem process_spec (h : Ready L s) (hfit : L.bytes < 4294967296) (hh : 3 ≤ L.height)
    (hw : 3 ≤ L.width) (f : Feed) :
    ∃ s', process s f = some s' ∧ Ready L s' ∧ Processed L f s s' := by
  obtain ⟨t, ht, hready, hcnt, hindex, hraw, hother⟩ := feed_spec h f
  obtain ⟨s', hs', hready', hfilters⟩ := processTemperature_spec hready hfit (by omega)
    (by omega)
  rw [hindex, hraw] at hfilters
  have hring : ∀ m, t.plane (ringSlot m) = s.plane (ringSlot m) :=
    fun m => hother (ringSlot m) (ringSlot_ne_raw m _)
  refine ⟨s', by rw [process, ht]; exact hs', hready', hfilters.index_eq.trans hindex, ?_, ?_,
    fun i j hi hj => ?_, fun m hm => ?_⟩
  · rw [hfilters.cnt_eq, hcnt]
  · rw [← hring, ← hcnt]
    exact hfilters.filter
  · have hword := hfilters.result.word_eq i j ⟨hi, hj⟩
    rw [hindex] at hword
    rw [Layout.sample, hword, CInt.toInt_short (fitsShort_startMean L _ i)]
  · rw [← hring]
    refine hfilters.others (ringSlot m) (ringSlot_ne ?_) (ringSlot_ne_result m _)
    rw [hcnt, Nat.mod_eq_of_lt h.cnt]
    exact hm

/-! ## Runs -/

/-- The state after the feeds `fs`, `s₀` being the opened object. -/
structure Ring (L : Layout) (s₀ : ThermalUsb) (fs : List Feed) (s : ThermalUsb) : Prop where
  ready : Ready L s
  cnt_eq : s.frameCnt = fs.length % 5
  recent : Recent 5 (fun m f => ∀ i j, Interior L i j →
    L.sample (s.plane (ringSlot m)) i j = boxMean L (f.plane L) i j) fs
  column : ∀ m i, L.sample (s.plane (ringSlot m)) i 0 = L.sample (s₀.plane (ringSlot m)) i 0
  result : fs ≠ [] → ∀ i j, i < L.height → j < L.width →
    L.sample (s.plane (.temperatureResultFrame s.frameIndex)) i j =
      startMean L (fun m => s₀.plane (ringSlot m)) i

theorem ring_nil (h : Ready L s) (hcnt : s.frameCnt = 0) : Ring L s [] s where
  ready := h
  cnt_eq := hcnt
  recent := recent_nil
  column _ _ := rfl
  result hne := absurd rfl hne

/-- The step of the induction over a run. -/
theorem Ring.next (h : Ring L s₀ fs s) (hw : 3 ≤ L.width) (hready : Ready L s')
    (hstep : Processed L f s s') : Ring L s₀ (fs ++ [f]) s' := by
  have hslot : ringSlot s.frameCnt = ringSlot fs.length := by
    rw [h.cnt_eq, ringSlot_mod]
  have hcolumn : ∀ m i, L.sample (s'.plane (ringSlot m)) i 0 =
      L.sample (s₀.plane (ringSlot m)) i 0 := by
    intro m i
    rw [← h.column m i]
    by_cases hm : m % 5 = s.frameCnt
    · rw [ringSlot_of_mod hm]
      exact hstep.filter.sample_eq (fun i j hij => hij.column_lt) (by omega) not_interior_zero
    · rw [hstep.others m hm]
  refine ⟨hready, ?_, h.recent.snoc (fun i j hij => ?_) fun m g hm hold i j hij => ?_,
    hcolumn, fun _ i j hi hj => ?_⟩
  · rw [hstep.cnt_eq, h.cnt_eq, List.length_append, List.length_singleton, Nat.mod_add_mod]
  · rw [← hslot, Layout.sample, hstep.filter.word_eq i j hij,
      CInt.toInt_short (fitsShort_boxMean L _ i j)]
  · rw [hstep.others m (h.cnt_eq ▸ hm)]
    exact hold i j hij
  · rw [hstep.index_eq, hstep.result i j hi hj]
    exact startMean_congr fun m => hcolumn m i

/-- Every list of feeds is a run, and leaves the ring as it should be. -/
theorem ring_run (h : Ready L s₀) (hcnt : s₀.frameCnt = 0) (hfit : L.bytes < 4294967296)
    (hh : 3 ≤ L.height) (hw : 3 ≤ L.width) (fs : List Feed) :
    ∃ s, Run process s₀ fs s ∧ Ring L s₀ fs s := by
  induction fs using Trace.snoc_induction with
  | nil => exact ⟨s₀, run_nil.2 rfl, ring_nil h hcnt⟩
  | snoc fs f ih =>
      obtain ⟨s, hrun, hring⟩ := ih
      obtain ⟨s', hs', hready, hstep⟩ := process_spec hring.ready hfit hh hw f
      exact ⟨s', run_snoc.2 ⟨s, hrun, hs'⟩, hring.next hw hready hstep⟩

/-! ## The ring -/

/-- The call `f` after the calls `fs`, from `s` to `s'`. -/
structure RingKept (L : Layout) (fs : List Feed) (f : Feed) (s s' : ThermalUsb) : Prop where
  cnt_eq : s'.frameCnt = (fs.length + 1) % 5
  cnt_lt : s'.frameCnt < 5
  /-- the last five calls have their means in their slots -/
  means : Recent 5 (fun m g => ∀ i j, Interior L i j →
    (-2147483648 ≤ boxTotal L (g.plane L) i j ∧ boxTotal L (g.plane L) i j < 2147483648) ∧
      CInt.FitsShort ((boxTotal L (g.plane L) i j).tdiv 9) ∧
      L.sample (s'.plane (ringSlot m)) i j = (boxTotal L (g.plane L) i j).tdiv 9) (fs ++ [f])
  /-- no slot has a new border cell -/
  border : ∀ m i j, j < L.width → ¬ Interior L i j →
    L.sample (s'.plane (ringSlot m)) i j = L.sample (s.plane (ringSlot m)) i j
  /-- the other slots have nothing new -/
  others : ∀ m, m % 5 ≠ fs.length % 5 → s'.plane (ringSlot m) = s.plane (ringSlot m)

theorem Ring.kept (h : Ring L s₀ fs s) (hw : 3 ≤ L.width) (hready : Ready L s')
    (hstep : Processed L f s s') : RingKept L fs f s s' := by
  have hnext := h.next hw hready hstep
  refine ⟨?_, hready.cnt, fun m g hm hnear i j hij => ⟨?_, ?_, ?_⟩,
    fun m i j hj hborder => ?_, fun m hm => ?_⟩
  · rw [hnext.cnt_eq, List.length_append, List.length_singleton]
  · have hbounds := boxTotal_bounds L (g.plane L) i j
    omega
  · exact fitsShort_boxMean L (g.plane L) i j
  · exact hnext.recent m g hm hnear i j hij
  · by_cases hm : m % 5 = s.frameCnt
    · rw [ringSlot_of_mod hm]
      exact hstep.filter.sample_eq (fun i j hij => hij.column_lt) hj hborder
    · rw [hstep.others m hm]
  · exact hstep.others m (h.cnt_eq ▸ hm)

theorem filter_ring {junk : ThermalUsb} {mode : RotateMode} {fmt : PixelFormat}
    {alloc : Allocator} {w h : Int} (hsize : planeSize mode w h = (width, height))
    (hw : 3 ≤ width) (hh : 3 ≤ height)
    (hfit : (layout16 width height).bytes < 4294967296)
    (hopen : uvcOpen alloc w h { new junk with rotateMode := mode, pixelFmt := fmt } =
      some (true, s₀)) (fs : List Feed) (f : Feed) :
    ∃ s s', Run process s₀ fs s ∧ process s f = some s' ∧
      RingKept (layout16 width height) fs f s s' := by
  obtain ⟨hopened, hcnt⟩ := uvcOpen_new hsize hopen
  have hready := hopened.ready (by omega) (by omega) hfit
  obtain ⟨s, hrun, hring⟩ := ring_run hready hcnt hfit hh hw fs
  obtain ⟨s', hs', hready', hstep⟩ := process_spec hring.ready hfit hh hw f
  exact ⟨s, s', hrun, hs', hring.kept hw hready' hstep⟩

/-- A new object opened for a camera whose frame is `w` by `h`, with an
allocator that never refuses. -/
theorem opened_of_isSome {w h : Int}
    (hok : (uvcOpen (fun _ => some fun _ => 0) w h { new default with
      rotateMode := .rotate0, pixelFmt := .rgb24 }).map Prod.fst = some true) :
    ∃ s₀, uvcOpen (fun _ => some fun _ => 0) w h { new default with
      rotateMode := .rotate0, pixelFmt := .rgb24 } = some (true, s₀) := by
  obtain ⟨⟨ok, s₀⟩, hs₀, hok'⟩ := Option.map_eq_some_iff.1 hok
  exact ⟨s₀, by rw [hs₀]; cases hok'; rfl⟩

theorem filter_ring_three :
    ∃ s₀, uvcOpen (fun _ => some fun _ => 0) 3 6 { new default with
      rotateMode := .rotate0, pixelFmt := .rgb24 } = some (true, s₀) ∧
      ∃ s s', Run process s₀ [⟨0, fun k => BitVec.ofNat 8 k⟩] s ∧
        process s ⟨1, fun _ => 0⟩ = some s' ∧
        RingKept (layout16 3 3) [⟨0, fun k => BitVec.ofNat 8 k⟩] ⟨1, fun _ => 0⟩ s s' := by
  obtain ⟨s₀, hs₀⟩ := opened_of_isSome (w := 3) (h := 6) rfl
  have hsize : planeSize .rotate0 3 6 = (3, 3) := rfl
  exact ⟨s₀, hs₀, filter_ring hsize (by decide) (by decide) (by decide) hs₀ _ _⟩

/-- A plane of 65536 by 65537 samples: opening succeeds, with blocks of 131072
bytes, and the first call leaves them. -/
theorem filter_ring_large :
    ∃ s₀, uvcOpen (fun _ => some fun _ => 0) 65536 131074 { new default with
      rotateMode := .rotate0, pixelFmt := .rgb24 } = some (true, s₀) ∧
      planeSize .rotate0 65536 131074 = (65536, 65537) ∧
      ¬ ∃ s s', Run process s₀ [] s ∧ process s ⟨0, fun _ => 0⟩ = some s' ∧
        RingKept (layout16 65536 65537) [] ⟨0, fun _ => 0⟩ s s' := by
  obtain ⟨s₀, hs₀⟩ := opened_of_isSome (w := 65536) (h := 131074) rfl
  have hsize : planeSize .rotate0 65536 131074 = (65536, 65537) := rfl
  refine ⟨s₀, hs₀, hsize, fun hall => ?_⟩
  obtain ⟨s, s', hrun, hs', -⟩ := hall
  obtain rfl := run_nil.1 hrun
  have hopened := (uvcOpen_new hsize hs₀).1
  exact absurd (bytes_lt_of_process hopened (by decide) (by decide) (by decide) (by decide)
    hs') (by decide)

end ThermalUsb

end IotCamera
