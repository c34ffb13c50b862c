import IotCamera.Proofs.ThermalMean
import IotCamera.Proofs.ThermalOutput

/-!
# What the result planes depend on

Nothing clears the blocks `uvcOpen` gets from `malloc`. The raw planes do not
need it, since a frame fills them, and of a filter plane a frame fills the
interior. But the mean that goes to the result plane is taken over the first
column of the filter planes, which is border, so it is a mean of what `malloc`
left in five blocks. The frames do not enter into it, neither their number nor
their size nor what is in them.

This is a statement about two runs, with the same frames and other memory, and
there is nothing to relate step by step: after two frames each run has in
both result planes a function of the memory it was opened with. So the two
publish the same cells exactly if these functions agree. A frame is taken
through all of `uvc_cb` here, not the filter alone. The loops that copy it and
the loops that paint it store into other planes, whatever the frame is, as
long as they have a result. Whether they have one depends on the size and the
modes alone, so the two runs exist together or not at all.
-/

namespace IotCamera

open Layout Lts

namespace ThermalUsb

variable {s s' s₀ s₀' : ThermalUsb} {slot : Slot} {alloc alloc' : Allocator} {fpu : Fpu}
  {f : UvcFrame} {fs : List UvcFrame} {width height w h : Nat} {i j : Nat}

/-! ## Planes that copying and painting leave alone -/

theorem copyFrame_plane (hs : Frames s) (hrun : s.copyFrame fpu f = some s')
    (himg : slot ≠ .imgRawFrame s.frameIndex) (htemp : slot ≠ .temperatureRawFrame s.frameIndex) :
    s'.plane slot = s.plane slot := by
  obtain ⟨heap, hloop, rfl⟩ := Option.map_eq_some_iff.1 hrun
  refine plane_stores fun q hq => ?_
  have hne : (s.desc (.imgRawFrame s.frameIndex)).ptr ≠ some q :=
    fun heq => himg (hs.apart slot _ q hq heq)
  have hne' : (s.desc (.temperatureRawFrame s.frameIndex)).ptr ≠ some q :=
    fun heq => htemp (hs.apart slot _ q hq heq)
  refine sweep_keeps (J := fun heap => heap.block q = s.heap.block q)
    (fun i j t t' ht hpixel => ?_) hloop rfl
  obtain ⟨v, -, hpixel⟩ := Option.bind_eq_some_iff.1 hpixel
  obtain ⟨u, hfirst, hpixel⟩ := Option.bind_eq_some_iff.1 hpixel
  obtain ⟨v', -, hsecond⟩ := Option.bind_eq_some_iff.1 hpixel
  rw [Heap.store16_other hsecond hne', Heap.store16_other hfirst hne]
  exact ht

theorem storeBytes_other {ptr : Option Nat} {pos q : Nat} {bytes : Byte × Byte × Byte}
    {heap heap' : Heap} (hrun : storeBytes ptr pos bytes heap = some heap')
    (hq : ptr ≠ some q) : heap'.block q = heap.block q := by
  obtain ⟨heap₁, h₁, hrun⟩ := Option.bind_eq_some_iff.1 hrun
  obtain ⟨heap₂, h₂, h₃⟩ := Option.bind_eq_some_iff.1 hrun
  rw [Heap.store8_other h₃ hq, Heap.store8_other h₂ hq, Heap.store8_other h₁ hq]

theorem adaptiveThreshold_plane (hs : Frames s)
    (hrun : s.pseudoColorAdaptiveThreshold1 fpu = some s') (hslot : slot ≠ .frame s.frameIndex) :
    s'.plane slot = s.plane slot := by
  unfold pseudoColorAdaptiveThreshold1 at hrun
  dsimp only at hrun
  split at hrun
  · cases hrun
    rfl
  · obtain ⟨⟨yMax, yMin⟩, -, hrun⟩ := Option.bind_eq_some_iff.1 hrun
    obtain ⟨v, -, hrun⟩ := Option.bind_eq_some_iff.1 hrun
    obtain ⟨heap, hloop, rfl⟩ := Option.map_eq_some_iff.1 hrun
    refine plane_stores fun q hq => ?_
    have hne : (s.desc (.frame s.frameIndex)).ptr ≠ some q :=
      fun heq => hslot (hs.apart slot _ q hq heq)
    refine sweep_keeps (J := fun heap => heap.block q = s.heap.block q)
      (fun i j t t' ht hpixel => ?_) hloop rfl
    obtain ⟨v', -, hpixel⟩ := Option.bind_eq_some_iff.1 hpixel
    split at hpixel
    · cases hpixel
      exact ht
    · obtain ⟨column, -, hstore⟩ := Option.bind_eq_some_iff.1 hpixel
      exact (storeBytes_other hstore hne).trans ht

/-! ## One frame -/

/-- An object at work that has both its colour frames. -/
structure Filming (width height : Nat) (s : ThermalUsb) : Prop extends Working width height s where
  coloured : ∀ i, (s.desc (.frame i)).ptr ≠ none

theorem Touches.filming (ht : Touches s s') (hs : Filming width height s) :
    Filming width height s' where
  toWorking := ht.working hs.toWorking
  coloured i := by
    rw [ht.ptr]
    exact hs.coloured i

/-- What a frame does to the planes of the filter. -/
structure Published (L : Layout) (s s' : ThermalUsb) : Prop where
  index_eq : s'.frameIndex = 1 - s.frameIndex
  column : ∀ m i, L.sample (s'.plane (ringSlot m)) i 0 = L.sample (s.plane (ringSlot m)) i 0
  result : ∀ i j, i < L.height → j < L.width →
    L.sample (s'.plane (.temperatureResultFrame s.frameIndex)) i j =
      startMean L (fun m => s.plane (ringSlot m)) i
  other : ∀ k, k ≠ s.frameIndex →
    s'.plane (.temperatureResultFrame k) = s.plane (.temperatureResultFrame k)

/-- The filter leaves the first column of every plane. -/
theorem Filters.column_eq {L : Layout} {raw : Block} (h : Filters L raw s s') (hw : 0 < L.width)
    (hcnt : s.frameCnt < 5) (m i : Nat) :
    L.sample (s'.plane (ringSlot m)) i 0 = L.sample (s.plane (ringSlot m)) i 0 := by
  by_cases hm : m % 5 = s.frameCnt
  · rw [ringSlot_of_mod hm]
    exact h.filter.sample_eq (fun i j hij => hij.column_lt) hw not_interior_zero
  · rw [h.others _ (ringSlot_ne (by rw [Nat.mod_eq_of_lt hcnt]; exact hm))
      (ringSlot_ne_result m _)]

/-- A frame that has a result, of whatever size and with whatever in it. -/
theorem Filming.uvc_cb_spec {r : Option (Nat × Mat)} (hs : Filming width height s)
    (hrun : s.uvc_cb fpu f = some (r, s')) :
    Filming width height s' ∧ Published (layout16 width height) s s' := by
  refine ⟨(uvc_cb_touches hrun).filming hs, ?_⟩
  obtain ⟨t, v, u, hcopy, hpainted, hfilter, rfl⟩ := uvc_cb_steps (hs.coloured _) hrun
  have htouch := (touches_noted s).trans (copyFrame_touches hcopy)
  have hwork := htouch.filming hs
  have hindex : t.frameIndex = s.frameIndex := by
    obtain ⟨heap, -, rfl⟩ := copyFrame_shape hcopy
    rfl
  have hindex' : v.frameIndex = s.frameIndex := by
    obtain ⟨heap, -, rfl⟩ := adaptiveThreshold_shape hpainted
    exact hindex
  -- a frame that was painted is small enough for all that is computed
  obtain ⟨step, hstep, hpaint⟩ : ∃ step, 2 ≤ step ∧ Paintable width height step := by
    rcases frameBytes_cases hwork.fmt t.frameIndex with ⟨-, hbytes⟩ | ⟨-, hbytes⟩
    · exact ⟨3, by omega, hwork.paintable hbytes (Or.inl rfl) (hwork.coloured _) hpainted⟩
    · exact ⟨4, by omega, hwork.paintable hbytes (Or.inr rfl) (hwork.coloured _) hpainted⟩
  have hfit := hpaint.raw_fit hstep
  have hready := ((adaptiveThreshold_touches hpainted).working hwork.toWorking).ready hfit
    hpaint.high
  obtain ⟨u', hu', -, hfilters⟩ := processTemperature_spec hready hfit hpaint.high hpaint.wide
  obtain rfl : u = u' := Option.some.inj (hfilter.symm.trans hu')
  have hkept : ∀ slot, slot ≠ .frame s.frameIndex → slot ≠ .imgRawFrame s.frameIndex →
      slot ≠ .temperatureRawFrame s.frameIndex → v.plane slot = s.plane slot := by
    intro slot hframe himg htemp
    rw [adaptiveThreshold_plane hwork.frames hpainted (by rw [hindex]; exact hframe),
      copyFrame_plane ((touches_noted s).filming hs).frames hcopy himg htemp, plane_noted]
  have hring : ∀ m, v.plane (ringSlot m) = s.plane (ringSlot m) := fun m =>
    hkept _ (by simp [ringSlot]) (by simp [ringSlot]) (ringSlot_ne_raw m _)
  have hcolumn : ∀ m i, (layout16 width height).sample (u.plane (ringSlot m)) i 0 =
      (layout16 width height).sample (s.plane (ringSlot m)) i 0 := by
    intro m i
    rw [hfilters.column_eq hpaint.wide hready.cnt, hring]
  refine ⟨?_, hcolumn, fun i j hi hj => ?_, fun k hk => ?_⟩
  · show 1 - u.frameIndex = 1 - s.frameIndex
    rw [hfilters.index_eq, hindex']
  · have hword := hfilters.result.word_eq i j ⟨hi, hj⟩
    rw [hindex'] at hword
    show (layout16 width height).sample (u.plane _) i j = _
    rw [Layout.sample, hword, CInt.toInt_short (fitsShort_startMean _ _ i)]
    exact startMean_congr fun m => hcolumn m i
  · show u.plane _ = _
    rw [hfilters.others _ (ringSlot_ne_result _ k).symm (by rw [hindex']; simpa using hk)]
    exact hkept _ (by simp) (by simp) (by simp)

/-! ## A run -/

/-- The object after `n` frames, of which `s₀` has seen none. -/
structure Filmed (width height : Nat) (s₀ : ThermalUsb) (n : Nat) (s : ThermalUsb) : Prop
    extends Filming width height s where
  column : ∀ m i, (layout16 width height).sample (s.plane (ringSlot m)) i 0 =
    (layout16 width height).sample (s₀.plane (ringSlot m)) i 0
  /-- the buffer of the last frame, and from the second frame on both -/
  result : ∀ k i j, 1 ≤ n → k ≠ s.frameIndex ∨ 2 ≤ n → i < height → j < width →
    (layout16 width height).sample (s.plane (.temperatureResultFrame k)) i j =
      startMean (layout16 width height) (fun m => s₀.plane (ringSlot m)) i

theorem Filming.filmed (hs : Filming width height s) : Filmed width height s 0 s where
  toFilming := hs
  column _ _ := rfl
  result _ _ _ hn := absurd hn (Nat.not_succ_le_zero 0)

theorem other_index {i k : Fin 2} (hne : k ≠ i) : k = 1 - i := by
  revert i k
  decide

/-- The step of the induction over the frames. -/
theorem Filmed.next {n : Nat} {r : Option (Nat × Mat)} (h : Filmed width height s₀ n s)
    (hrun : s.uvc_cb fpu f = some (r, s')) : Filmed width height s₀ (n + 1) s' := by
  obtain ⟨hfilming, hpublished⟩ := h.toFilming.uvc_cb_spec hrun
  refine ⟨hfilming, fun m i => (hpublished.column m i).trans (h.column m i),
    fun k i j _ hk hi hj => ?_⟩
  by_cases hnew : k = s.frameIndex
  · rw [hnew, hpublished.result i j hi hj]
    exact startMean_congr fun m => h.column m i
  · -- the other buffer is that of the frame before
    have hindex : k = s'.frameIndex := by
      rw [hpublished.index_eq]
      exact other_index hnew
    have hn : 1 ≤ n := by
      rcases hk with hne | htwo
      · exact absurd hindex hne
      · omega
    rw [hpublished.other k hnew]
    exact h.result k i j hn (Or.inl hnew) hi hj

theorem Filmed.run {n : Nat} (h : Filmed width height s₀ n s)
    (hrun : Run (call fpu alloc) s (fs.map Call.uvc_cb) s') :
    Filmed width height s₀ (n + fs.length) s' := by
  induction fs generalizing n s with
  | nil => exact run_nil.1 hrun ▸ h
  | cons f fs ih =>
      obtain ⟨t, ht, hrest⟩ := run_cons.1 hrun
      obtain ⟨⟨r, u⟩, hu, rfl⟩ := Option.map_eq_some_iff.1 ht
      rw [List.length_cons, Nat.add_comm fs.length, ← Nat.add_assoc]
      exact ih (h.next hu) hrest

/-! ## Frames that have a result

The runs of the theorem are there for every sequence of frames of the size the
object was opened for, if the colour frames are not too large to be painted and
the temperatures not in Kelvin where that goes wrong. -/

structure Accepts (w h step : Nat) (s : ThermalUsb) : Prop
    extends Filming (planeSize s.rotateMode w h).1 (planeSize s.rotateMode w h).2 s where
  wide : w < 2147483648
  high : h < 2147483648
  three : 3 ≤ step
  bytes_eq : ∀ i, slotBytes s.pixelFmt (.frame i) = some step
  paint : Paintable (planeSize s.rotateMode w h).1 (planeSize s.rotateMode w h).2 step
  straight : ¬ (s.rotateMode = .rotate90 ∧ s.temperatureMode = .kelvin ∧ 2 ≤ w)

theorem Touches.accepts {step : Nat} (ht : Touches s s') (hs : Accepts w h step s) :
    Accepts w h step s' where
  toFilming := by
    rw [ht.rotateMode]
    exact ht.filming hs.toFilming
  wide := hs.wide
  high := hs.high
  three := hs.three
  bytes_eq := by
    rw [ht.pixelFmt]
    exact hs.bytes_eq
  paint := by
    rw [ht.rotateMode]
    exact hs.paint
  straight := by
    rw [ht.rotateMode, ht.temperatureMode]
    exact hs.straight

/-- An object at work takes the frames it was opened for. -/
theorem Filming.takes
    (hs : Filming (planeSize s.rotateMode w h).1 (planeSize s.rotateMode w h).2 s)
    (hw : w < 2147483648) (hh : h < 2147483648) (hf : f.Matches w h) : Takes f s := by
  have hwork := hs.toWorking
  rw [planeSize_turns s.rotateMode hw hh hf] at hwork
  refine ⟨hwork, ?_, ?_, ?_⟩
  · rw [hf.width_eq]
    exact hw
  · rw [hf.height_eq]
    exact hh
  · rw [hf.width_eq, hf.height_eq]
    exact hf.inside

theorem Accepts.exists_uvc_cb {step : Nat} (hs : Accepts w h step s) (fpu : Fpu)
    (hf : f.Matches w h) : ∃ r s', s.uvc_cb fpu f = some (r, s') := by
  have hpaint := hs.paint
  rw [planeSize_turns s.rotateMode hs.wide hs.high hf] at hpaint
  obtain ⟨yMax, yMin, p, s', c, -, -, hrun, -⟩ :=
    (hs.toFilming.takes hs.wide hs.high hf).uvc_cb_spec fpu (hs.coloured _) hs.three
      (hs.bytes_eq _) hpaint ((straight_iff hf).2 hs.straight)
  exact ⟨_, s', hrun⟩

theorem Accepts.exists_run {step : Nat} (hs : Accepts w h step s) (fpu : Fpu) (alloc : Allocator)
    (fs : List UvcFrame) (hfs : ∀ f ∈ fs, f.Matches w h) :
    ∃ s', Run (call fpu alloc) s (fs.map Call.uvc_cb) s' := by
  induction fs generalizing s with
  | nil => exact ⟨s, run_nil.2 rfl⟩
  | cons f fs ih =>
      obtain ⟨r, t, ht⟩ := hs.exists_uvc_cb fpu (hfs f List.mem_cons_self)
      obtain ⟨s', hrest⟩ := ih ((uvc_cb_touches ht).accepts hs) fun f' hf' =>
        hfs f' (List.mem_cons_of_mem f hf')
      exact ⟨s', run_cons.2 ⟨t, by rw [call, ht, Option.map_some], hrest⟩⟩

/-- The first frame of a run was painted. -/
theorem Filming.of_run {step : Nat}
    (hs : Filming (planeSize s.rotateMode w h).1 (planeSize s.rotateMode w h).2 s)
    (hw : w < 2147483648) (hh : h < 2147483648) (hf : f.Matches w h)
    (hbytes : slotBytes s.pixelFmt (.frame s.frameIndex) = some step)
    (hstep : step = 3 ∨ step = 4)
    (hrun : Run (call fpu alloc) s ((f :: fs).map Call.uvc_cb) s') :
    Paintable (planeSize s.rotateMode w h).1 (planeSize s.rotateMode w h).2 step ∧
      ¬ (s.rotateMode = .rotate90 ∧ s.temperatureMode = .kelvin ∧ 2 ≤ w) := by
  obtain ⟨t, ht, -⟩ := run_cons.1 hrun
  obtain ⟨r, hr, -⟩ := Option.map_eq_some_iff.1 ht
  obtain ⟨hpaint, hstraight⟩ := (hs.takes hw hh hf).paintable (hs.coloured _) hbytes hstep hr
  rw [planeSize_turns s.rotateMode hw hh hf]
  exact ⟨hpaint, (straight_iff hf).1 hstraight⟩

/-! ## From the constructor -/

section Opening

variable {junk : ThermalUsb} {mode : RotateMode} {fmt : PixelFormat}
  {temperature : TemperatureMode} {w h : Int}

/-- A format that is none of the four has no rows. -/
theorem uvcOpen_y16 (hfmt : s.pixelFmt = .y16) : s.uvcOpen alloc w h ≠ some (true, s') := by
  intro hopen
  obtain ⟨⟨ok, t⟩, hslots, hopen⟩ := Option.bind_eq_some_iff.1 hopen
  have hfirst : ok = false := by
    rw [show planeSlots ++ filterSlots = .frame 0 :: (planeSlots ++ filterSlots).tail from rfl,
      untilFalse, openSlot, hfmt] at hslots
    exact (congrArg Prod.fst (Option.some.inj hslots)).symm
  rw [hfirst] at hopen
  cases hopen

/-- An object that has just been opened is ready for frames. -/
theorem filming_of_open (hsize : planeSize mode w h = (width, height))
    (hopen : uvcOpen alloc w h { new junk with
      rotateMode := mode, pixelFmt := fmt, temperatureMode := temperature } = some (true, s₀)) :
    Filming width height s₀ ∧ s₀.rotateMode = mode ∧ s₀.pixelFmt = fmt ∧
      s₀.temperatureMode = temperature := by
  have howned := owned_new junk
  obtain ⟨hopened, hcnt, hmode, hfmt, htemperature⟩ := uvcOpen_true (s := { new junk with
    rotateMode := mode, pixelFmt := fmt, temperatureMode := temperature })
    ⟨⟨howned.frames.live, howned.frames.apart, howned.frames.bound⟩, howned.sized⟩ hsize hopen
  refine ⟨⟨hopened.working ?_ ?_, fun i => hopened.ptr _⟩, hmode, hfmt, htemperature⟩
  · rw [hfmt]
    exact fun heq => uvcOpen_y16 heq hopen
  · rw [hcnt]
    show 0 < 5
    omega

/-- The frames all have the size the object is opened for. -/
def OfSize (w h : Int) (fs : List UvcFrame) : Prop :=
  ∃ w' h' : Nat, w = w' ∧ h = h' ∧ w' < 2147483648 ∧ h' < 2147483648 ∧
    ∀ f ∈ fs, f.Matches w' h'

/-- The colour frames are not too large to be painted, and no more than one
column of temperatures in Kelvin gets a quarter turn. -/
def Films (mode : RotateMode) (fmt : PixelFormat) (temperature : TemperatureMode) (w h : Int) :
    Prop :=
  (∀ i step, slotBytes fmt (.frame i) = some step →
    Paintable (planeSize mode w h).1 (planeSize mode w h).2 step) ∧
  ¬ (mode = .rotate90 ∧ temperature = .kelvin ∧ 2 ≤ w)

/-- Frames of the size the object was opened for are taken exactly if they can
be painted, and turned where the temperatures are in Kelvin. -/
theorem exists_run_iff (fpu : Fpu)
    (hopen : uvcOpen alloc w h { new junk with
      rotateMode := mode, pixelFmt := fmt, temperatureMode := temperature } = some (true, s₀))
    (hfs : OfSize w h fs) (hne : fs ≠ []) :
    (∃ s, Run (call fpu alloc) s₀ (fs.map Call.uvc_cb) s) ↔ Films mode fmt temperature w h := by
  obtain ⟨w, h, rfl, rfl, hw, hh, hfs⟩ := hfs
  obtain ⟨hs, rfl, rfl, rfl⟩ := filming_of_open rfl hopen
  obtain ⟨step, hstep, hbytes⟩ : ∃ step, (step = 3 ∨ step = 4) ∧
      ∀ i, slotBytes s₀.pixelFmt (.frame i) = some step := by
    rcases frameBytes_cases hs.fmt 0 with ⟨-, hbytes⟩ | ⟨-, hbytes⟩
    · exact ⟨3, Or.inl rfl, fun _ => hbytes⟩
    · exact ⟨4, Or.inr rfl, fun _ => hbytes⟩
  constructor
  · rintro ⟨s, hrun⟩
    obtain ⟨f, rest, rfl⟩ := List.exists_cons_of_ne_nil hne
    obtain ⟨hpaint, hturn⟩ :=
      hs.of_run hw hh (hfs f List.mem_cons_self) (hbytes _) hstep hrun
    refine ⟨fun i step' hstep' => ?_, fun hbad => hturn ⟨hbad.1, hbad.2.1, by omega⟩⟩
    obtain rfl := Option.some.inj ((hbytes i).symm.trans hstep')
    exact hpaint
  · rintro ⟨hpaint, hturn⟩
    have haccepts : Accepts w h step s₀ := ⟨hs, hw, hh, by omega, hbytes, hpaint 0 step (hbytes 0),
      fun hbad => hturn ⟨hbad.1, hbad.2.1, by omega⟩⟩
    exact haccepts.exists_run fpu alloc fs hfs

/-! ## Two runs -/

/-- The result planes of two objects have the same cells, in both buffers. -/
def SameResult (L : Layout) (s s' : ThermalUsb) : Prop :=
  ∀ k i j, i < L.height → j < L.width →
    L.sample (s.plane (.temperatureResultFrame k)) i j =
      L.sample (s'.plane (.temperatureResultFrame k)) i j

/-- In every row the mean of the samples the five filter planes have at its
start is the same. -/
def SameStart (L : Layout) (s s' : ThermalUsb) : Prop :=
  ∀ i, i < L.height →
    startMean L (fun m => s.plane (ringSlot m)) i = startMean L (fun m => s'.plane (ringSlot m)) i

/-- After two frames the result planes are a function of the filter planes as
they were allocated. -/
theorem Filming.sameResult (hs : Filming width height s₀) (hs' : Filming width height s₀')
    (hw : 0 < width) (htwo : 2 ≤ fs.length)
    (hrun : Run (call fpu alloc) s₀ (fs.map Call.uvc_cb) s)
    (hrun' : Run (call fpu alloc') s₀' (fs.map Call.uvc_cb) s') :
    SameResult (layout16 width height) s s' ↔ SameStart (layout16 width height) s₀ s₀' := by
  have hresult := fun k i j => (hs.filmed.run hrun).result k i j (by omega) (Or.inr (by omega))
  have hresult' := fun k i j =>
    (hs'.filmed.run hrun').result k i j (by omega) (Or.inr (by omega))
  constructor
  · intro hsame i hi
    have hcell := hsame 0 i 0 hi hw
    rw [hresult 0 i 0 hi hw, hresult' 0 i 0 hi hw] at hcell
    exact hcell
  · intro hmean k i j hi hj
    rw [hresult k i j hi hj, hresult' k i j hi hj]
    exact hmean i hi

/-- Two objects that are the same up to the memory they are opened with, and
take the same frames, publish the same temperatures exactly if in every row the
mean of the samples their five filter planes were allocated with, at the start
of the row, is the same. They do take the frames, if these have the size the
objects were opened for, exactly if such frames can be filmed. -/
theorem sameResult_iff (hsize : planeSize mode w h = (width, height)) (hw : 0 < width)
    (hopen : uvcOpen alloc w h { new junk with
      rotateMode := mode, pixelFmt := fmt, temperatureMode := temperature } = some (true, s₀))
    (hopen' : uvcOpen alloc' w h { new junk with
      rotateMode := mode, pixelFmt := fmt, temperatureMode := temperature } = some (true, s₀'))
    (htwo : 2 ≤ fs.length) :
    (∀ s s', Run (call fpu alloc) s₀ (fs.map Call.uvc_cb) s →
      Run (call fpu alloc') s₀' (fs.map Call.uvc_cb) s' →
      (SameResult (layout16 width height) s s' ↔
        SameStart (layout16 width height) s₀ s₀')) ∧
    (OfSize w h fs →
      ((∃ s s', Run (call fpu alloc) s₀ (fs.map Call.uvc_cb) s ∧
          Run (call fpu alloc') s₀' (fs.map Call.uvc_cb) s' ∧
          SameResult (layout16 width height) s s') ↔
        Films mode fmt temperature w h ∧ SameStart (layout16 width height) s₀ s₀')) := by
  obtain ⟨hs, -⟩ := filming_of_open hsize hopen
  obtain ⟨hs', -⟩ := filming_of_open hsize hopen'
  have hsame := fun s s' (hrun : Run (call fpu alloc) s₀ (fs.map Call.uvc_cb) s)
      (hrun' : Run (call fpu alloc') s₀' (fs.map Call.uvc_cb) s') =>
    hs.sameResult hs' hw htwo hrun hrun'
  refine ⟨hsame, fun hfs => ?_⟩
  have hne : fs ≠ [] := by
    rintro rfl
    exact absurd htwo (by decide)
  constructor
  · rintro ⟨s, s', hrun, hrun', hresult⟩
    exact ⟨(exists_run_iff fpu hopen hfs hne).1 ⟨s, hrun⟩, (hsame s s' hrun hrun').1 hresult⟩
  · rintro ⟨hfilms, hstart⟩
    obtain ⟨s, hrun⟩ := (exists_run_iff fpu hopen hfs hne).2 hfilms
    obtain ⟨s', hrun'⟩ := (exists_run_iff fpu hopen' hfs hne).2 hfilms
    exact ⟨s, s', hrun, hrun', (hsame s s' hrun hrun').2 hstart⟩

end Opening

/-! ## Five frames of nothing -/

/-- A frame of three columns, whose image and temperatures have three rows. -/
def darkFrame : UvcFrame := irFrame 3 6 ⟨36, fun _ => 0⟩

theorem ofSize_dark : OfSize 3 6 (List.replicate 5 darkFrame) := by
  refine ⟨3, 6, rfl, rfl, by decide, by decide, fun f hf => ?_⟩
  rw [List.eq_of_mem_replicate hf]
  exact irFrame_matches (by decide)

theorem films_dark : Films .rotate0 .rgb24 .centigrade 3 6 := by
  refine ⟨fun i step hstep => ?_, fun hbad => absurd hbad.1 (by decide)⟩
  obtain rfl := Option.some.inj hstep
  exact ⟨by decide, by decide, ⟨by decide, by decide⟩, by decide⟩

/-- An object opened for it in memory with these bytes. -/
theorem dark_open (bytes : Nat → Byte) :
    ∃ s₀, uvcOpen (holding bytes) 3 6 { new default with
        rotateMode := .rotate0, pixelFmt := .rgb24, temperatureMode := .centigrade } =
          some (true, s₀) ∧
      ∀ m, s₀.plane (ringSlot m) = ⟨24, bytes⟩ := by
  have hopen : (uvcOpen (holding bytes) 3 6 { new default with
        rotateMode := .rotate0, pixelFmt := .rgb24, temperatureMode := .centigrade }).map (fun r =>
        (r.1, filterSlots.map r.2.plane)) =
      some (true, List.replicate 5 ⟨24, bytes⟩) := rfl
  obtain ⟨⟨ok, s₀⟩, hs₀, heq⟩ := Option.map_eq_some_iff.1 hopen
  obtain ⟨rfl, hplanes⟩ := Prod.mk.inj heq
  refine ⟨s₀, hs₀, fun m => ?_⟩
  have hmem : ringSlot m ∈ filterSlots := by
    have hall : ∀ n : Fin 5, Slot.temperatureFilterFrame n ∈ filterSlots := by decide
    exact hall _
  exact List.eq_of_mem_replicate (hplanes ▸ List.mem_map_of_mem hmem)

/-- Memory that differs everywhere but in the first column. -/
theorem sameResult_first_column :
    ∃ s₀ s s₀' s',
      uvcOpen (holding fun _ => 0) 3 6 { new default with
        rotateMode := .rotate0, pixelFmt := .rgb24, temperatureMode := .centigrade } =
          some (true, s₀) ∧
      uvcOpen (holding fun k => if k % 8 < 2 then 0 else 7) 3 6 { new default with
        rotateMode := .rotate0, pixelFmt := .rgb24, temperatureMode := .centigrade } =
          some (true, s₀') ∧
      Run (call ⟨fun _ => 0, fun _ => 0⟩ (holding fun _ => 0)) s₀
        ((List.replicate 5 darkFrame).map Call.uvc_cb) s ∧
      Run (call ⟨fun _ => 0, fun _ => 0⟩ (holding fun k => if k % 8 < 2 then 0 else 7)) s₀'
        ((List.replicate 5 darkFrame).map Call.uvc_cb) s' ∧
      SameResult (layout16 3 3) s s' := by
  obtain ⟨s₀, hs₀, hplanes⟩ := dark_open fun _ => 0
  obtain ⟨s₀', hs₀', hplanes'⟩ := dark_open fun k => if k % 8 < 2 then 0 else 7
  have hstart : SameStart (layout16 3 3) s₀ s₀' := by
    intro i hi
    simp only [hplanes, hplanes']
    revert i
    decide
  obtain ⟨s, s', hruns⟩ : ∃ s s',
      Run (call ⟨fun _ => 0, fun _ => 0⟩ (holding fun _ => 0)) s₀
        ((List.replicate 5 darkFrame).map Call.uvc_cb) s ∧
      Run (call ⟨fun _ => 0, fun _ => 0⟩ (holding fun k => if k % 8 < 2 then 0 else 7)) s₀'
        ((List.replicate 5 darkFrame).map Call.uvc_cb) s' ∧
      SameResult (layout16 3 3) s s' :=
    ((sameResult_iff rfl (by decide) hs₀ hs₀' (by decide)).2 ofSize_dark).2 ⟨films_dark, hstart⟩
  exact ⟨s₀, s, s₀', s', hs₀, hs₀', hruns⟩

/-- Memory of zeros and memory of ones: the temperatures are 0 in one run and 257
in the other, and the frames are the same. -/
theorem sameResult_lost :
    ∃ s₀ s s₀' s',
      uvcOpen (holding fun _ => 0) 3 6 { new default with
        rotateMode := .rotate0, pixelFmt := .rgb24, temperatureMode := .centigrade } =
          some (true, s₀) ∧
      uvcOpen (holding fun _ => 1) 3 6 { new default with
        rotateMode := .rotate0, pixelFmt := .rgb24, temperatureMode := .centigrade } =
          some (true, s₀') ∧
      planeSize .rotate0 3 6 = (3, 3) ∧
      Run (call ⟨fun _ => 0, fun _ => 0⟩ (holding fun _ => 0)) s₀
        ((List.replicate 5 darkFrame).map Call.uvc_cb) s ∧
      Run (call ⟨fun _ => 0, fun _ => 0⟩ (holding fun _ => 1)) s₀'
        ((List.replicate 5 darkFrame).map Call.uvc_cb) s' ∧
      ¬ SameResult (layout16 3 3) s s' := by
  obtain ⟨s₀, hs₀, hplanes⟩ := dark_open fun _ => 0
  obtain ⟨s₀', hs₀', hplanes'⟩ := dark_open fun _ => 1
  have hne : List.replicate 5 darkFrame ≠ [] := by decide
  obtain ⟨s, hrun⟩ := (exists_run_iff ⟨fun _ => 0, fun _ => 0⟩ hs₀ ofSize_dark hne).2 films_dark
  obtain ⟨s', hrun'⟩ := (exists_run_iff ⟨fun _ => 0, fun _ => 0⟩ hs₀' ofSize_dark hne).2 films_dark
  refine ⟨s₀, s, s₀', s', hs₀, hs₀', rfl, hrun, hrun', fun hsame => ?_⟩
  have hstart := ((filming_of_open rfl hs₀).1.sameResult (filming_of_open rfl hs₀').1 (by decide)
    (by decide) hrun hrun').1 hsame
  have hmean := hstart 1 (by decide)
  simp only [hplanes, hplanes'] at hmean
  exact absurd hmean (by decide)

end ThermalUsb

end IotCamera
