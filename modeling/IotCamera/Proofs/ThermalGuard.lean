import IotCamera.Lib.Sweep
import IotCamera.Proofs.ThermalControl
import IotCamera.Thermal.Callback

/-!
# The one pointer `uvc_cb` tests

A frame of the camera is copied, coloured and filtered through nine planes,
and `uvc_cb` looks at the pointer of one of them, the current colour frame.
So a colour frame with a block has to mean that the other planes have blocks
too. All that a frame does to the heap is to store into blocks, so this is a
matter of the other calls. `uvcOpen` gives blocks to all slots or to none,
and `close` takes them from all. `setPixelFormat` allocates the colour frames
alone, whether the object is open or not.
-/

namespace IotCamera

open Lts

namespace ThermalUsb

variable {s s' : ThermalUsb} {slot : Slot} {alloc : Allocator} {fpu : Fpu} {f : UvcFrame}
  {heap heap' : Heap} {i j : Nat}

/-! ## What a frame leaves alone -/

theorem sameShape_loops {lo hi lo' hi' : Nat} {body : Nat → Nat → Heap → Option Heap}
    (hbody : ∀ i j h h', body i j h = some h' → Heap.SameShape h h')
    (hrun : forLoop lo hi (fun i => forLoop lo' hi' (body i)) heap = some heap') :
    Heap.SameShape heap heap' :=
  sweep_keeps (J := Heap.SameShape heap) (fun i j h h' hh hj => hh.trans (hbody i j h h' hj))
    hrun (.refl heap)

theorem copyPixel_shape (hrun : copyPixel fpu s f i j heap = some heap') :
    Heap.SameShape heap heap' := by
  obtain ⟨v, -, hrun⟩ := Option.bind_eq_some_iff.1 hrun
  obtain ⟨heap₁, himg, hrun⟩ := Option.bind_eq_some_iff.1 hrun
  obtain ⟨v', -, htemp⟩ := Option.bind_eq_some_iff.1 hrun
  exact (Heap.sameShape_store16 himg).trans (Heap.sameShape_store16 htemp)

theorem copyFrame_shape (hrun : s.copyFrame fpu f = some s') :
    ∃ heap, Heap.SameShape s.heap heap ∧ s' = { s with heap := heap } := by
  obtain ⟨heap, hloop, rfl⟩ := Option.map_eq_some_iff.1 hrun
  exact ⟨heap, sameShape_loops (fun i j h h' => copyPixel_shape) hloop, rfl⟩

theorem storeBytes_shape {ptr : Option Nat} {pos : Nat} {bytes : Byte × Byte × Byte}
    (hrun : storeBytes ptr pos bytes heap = some heap') : Heap.SameShape heap heap' := by
  obtain ⟨heap₁, h₁, hrun⟩ := Option.bind_eq_some_iff.1 hrun
  obtain ⟨heap₂, h₂, h₃⟩ := Option.bind_eq_some_iff.1 hrun
  exact ((Heap.sameShape_store8 h₁).trans (Heap.sameShape_store8 h₂)).trans
    (Heap.sameShape_store8 h₃)

theorem paintPixel_shape {l : Levels} {yMax yMin : Nat}
    (hrun : paintPixel fpu s l yMax yMin i j heap = some heap') :
    Heap.SameShape heap heap' := by
  obtain ⟨w, -, hrun⟩ := Option.bind_eq_some_iff.1 hrun
  split at hrun
  · cases hrun
    exact .refl heap
  · obtain ⟨column, -, hstore⟩ := Option.bind_eq_some_iff.1 hrun
    exact storeBytes_shape hstore

theorem processTemperature_shape (hrun : s.processTemperature = some s') :
    ∃ heap cnt, Heap.SameShape s.heap heap ∧ cnt < 5 ∧
      s' = { s with heap := heap, frameCnt := cnt } := by
  obtain ⟨filter, -, hrun⟩ := Option.bind_eq_some_iff.1 hrun
  obtain ⟨heap₁, hloop₁, hrun⟩ := Option.bind_eq_some_iff.1 hrun
  obtain ⟨heap₂, hloop₂, rfl⟩ := Option.map_eq_some_iff.1 hrun
  refine ⟨heap₂, _, ?_, by unfold tSize; split <;> omega, rfl⟩
  refine (sameShape_loops (fun i j h h' hbody => ?_) hloop₁).trans
    (sameShape_loops (fun i j h h' hbody => ?_) hloop₂)
  · obtain ⟨sum, -, hstore⟩ := Option.bind_eq_some_iff.1 hbody
    exact Heap.sameShape_store16 hstore
  · obtain ⟨sum, -, hstore⟩ := Option.bind_eq_some_iff.1 hbody
    exact Heap.sameShape_store16 hstore

theorem adaptiveThreshold_shape (hrun : s.pseudoColorAdaptiveThreshold1 fpu = some s') :
    ∃ heap, Heap.SameShape s.heap heap ∧ s' = { s with heap := heap } := by
  unfold pseudoColorAdaptiveThreshold1 at hrun
  dsimp only at hrun
  split at hrun
  · cases hrun
    exact ⟨s.heap, .refl _, rfl⟩
  · obtain ⟨⟨yMax, yMin⟩, -, hrun⟩ := Option.bind_eq_some_iff.1 hrun
    obtain ⟨w, -, hrun⟩ := Option.bind_eq_some_iff.1 hrun
    obtain ⟨heap, hloop, rfl⟩ := Option.map_eq_some_iff.1 hrun
    exact ⟨heap, sameShape_loops (fun i j h h' => paintPixel_shape) hloop, rfl⟩

/-- A frame moves no block and no descriptor, except that it notes the format
in the descriptor of the colour frame. -/
structure Touches (s s' : ThermalUsb) : Prop where
  shape : Heap.SameShape s.heap s'.heap
  desc : ∀ slot, s'.desc slot = { s.desc slot with pixelFmt := (s'.desc slot).pixelFmt }
  pixelFmt : s'.pixelFmt = s.pixelFmt
  rotateMode : s'.rotateMode = s.rotateMode
  temperatureMode : s'.temperatureMode = s.temperatureMode
  cnt : s.frameCnt < 5 → s'.frameCnt < 5

theorem Touches.trans {s'' : ThermalUsb} (h : Touches s s') (h' : Touches s' s'') :
    Touches s s'' where
  shape := h.shape.trans h'.shape
  desc slot := by
    rw [h'.desc, h.desc]
  pixelFmt := h'.pixelFmt.trans h.pixelFmt
  rotateMode := h'.rotateMode.trans h.rotateMode
  temperatureMode := h'.temperatureMode.trans h.temperatureMode
  cnt hcnt := h'.cnt (h.cnt hcnt)

theorem touches_stores {cnt : Nat} (hshape : Heap.SameShape s.heap heap)
    (hcnt : s.frameCnt < 5 → cnt < 5) :
    Touches s { s with heap := heap, frameCnt := cnt } :=
  ⟨hshape, fun _ => rfl, rfl, rfl, rfl, hcnt⟩

theorem uvc_cb_null (hptr : (s.desc (.frame s.frameIndex)).ptr = none) :
    s.uvc_cb fpu f = some (none, s) := by
  simp only [uvc_cb, hptr]

/-- The object with its format noted in the colour frame. -/
def noted (s : ThermalUsb) : ThermalUsb :=
  s.setDesc (.frame s.frameIndex)
    { s.desc (.frame s.frameIndex) with pixelFmt := s.pixelFmt }

theorem uvc_cb_eq {p : Nat} (hptr : (s.desc (.frame s.frameIndex)).ptr = some p) :
    s.uvc_cb fpu f = (s.noted.copyFrame fpu f).bind fun s =>
      (s.pseudoColor fpu).bind fun s =>
        s.depthMat.map fun outframe => (some (p, outframe), s.switchFrame) := by
  simp only [uvc_cb, hptr, noted]

theorem touches_noted (s : ThermalUsb) : Touches s s.noted := by
  refine ⟨.refl _, fun slot => ?_, rfl, rfl, rfl, fun hcnt => hcnt⟩
  by_cases hne : slot = .frame s.frameIndex
  · subst hne
    rw [noted, desc_setDesc]
  · rw [noted, (onlySlot_setDesc s.heap).desc slot hne]

theorem pseudoColor_shape (hrun : s.pseudoColor fpu = some s') :
    ∃ heap cnt, Heap.SameShape s.heap heap ∧ (s.frameCnt < 5 → cnt < 5) ∧
      s' = { s with heap := heap, frameCnt := cnt } := by
  unfold pseudoColor at hrun
  split at hrun
  · cases hrun
    exact ⟨_, _, .refl _, fun hcnt => hcnt, rfl⟩
  · obtain ⟨s₁, h₁, h₂⟩ := Option.bind_eq_some_iff.1 hrun
    obtain ⟨heap₁, hshape₁, rfl⟩ := adaptiveThreshold_shape h₁
    obtain ⟨heap₂, cnt, hshape₂, hcnt, rfl⟩ := processTemperature_shape h₂
    exact ⟨heap₂, cnt, hshape₁.trans hshape₂, fun _ => hcnt, rfl⟩

theorem copyFrame_touches (hrun : s.copyFrame fpu f = some s') : Touches s s' := by
  obtain ⟨heap, hshape, rfl⟩ := copyFrame_shape hrun
  exact touches_stores hshape fun hcnt => hcnt

theorem adaptiveThreshold_touches (hrun : s.pseudoColorAdaptiveThreshold1 fpu = some s') :
    Touches s s' := by
  obtain ⟨heap, hshape, rfl⟩ := adaptiveThreshold_shape hrun
  exact touches_stores hshape fun hcnt => hcnt

theorem pseudoColor_touches (hrun : s.pseudoColor fpu = some s') : Touches s s' := by
  obtain ⟨heap, cnt, hshape, hcnt, rfl⟩ := pseudoColor_shape hrun
  exact touches_stores hshape hcnt

/-- The steps a frame goes through, if the current colour frame has a block. -/
theorem uvc_cb_steps {r : Option (Nat × Mat)} (hptr : (s.desc (.frame s.frameIndex)).ptr ≠ none)
    (hrun : s.uvc_cb fpu f = some (r, s')) :
    ∃ t v u, s.noted.copyFrame fpu f = some t ∧ t.pseudoColorAdaptiveThreshold1 fpu = some v ∧
      v.processTemperature = some u ∧ s' = u.switchFrame := by
  obtain ⟨p, hp⟩ := Option.ne_none_iff_exists'.1 hptr
  rw [uvc_cb_eq hp] at hrun
  obtain ⟨t, hcopy, hrun⟩ := Option.bind_eq_some_iff.1 hrun
  obtain ⟨u, hcolour, hrun⟩ := Option.bind_eq_some_iff.1 hrun
  obtain ⟨outframe, -, heq⟩ := Option.map_eq_some_iff.1 hrun
  have hptr' : (t.desc (.frame t.frameIndex)).ptr ≠ none := by
    obtain ⟨heap, -, rfl⟩ := copyFrame_shape hcopy
    show (s.noted.desc (.frame s.frameIndex)).ptr ≠ none
    rw [(touches_noted s).desc]
    exact hptr
  rw [pseudoColor, if_neg hptr'] at hcolour
  obtain ⟨v, hpainted, hfilter⟩ := Option.bind_eq_some_iff.1 hcolour
  exact ⟨t, v, u, hcopy, hpainted, hfilter, (congrArg Prod.snd heq).symm⟩

theorem uvc_cb_touches {r : Option (Nat × Mat)} (hrun : s.uvc_cb fpu f = some (r, s')) :
    Touches s s' := by
  by_cases hptr : (s.desc (.frame s.frameIndex)).ptr = none
  · rw [uvc_cb_null hptr] at hrun
    cases hrun
    exact touches_stores (.refl _) fun hcnt => hcnt
  · obtain ⟨t, v, u, hcopy, hpainted, hfilter, rfl⟩ := uvc_cb_steps hptr hrun
    obtain ⟨heap, cnt, hshape, hcnt, rfl⟩ := processTemperature_shape hfilter
    have htouch := (((touches_noted s).trans (copyFrame_touches hcopy)).trans
      (adaptiveThreshold_touches hpainted)).trans (touches_stores hshape fun _ => hcnt)
    exact ⟨htouch.shape, htouch.desc, htouch.pixelFmt, htouch.rotateMode,
      htouch.temperatureMode, htouch.cnt⟩

theorem Touches.ptr (h : Touches s s') (slot : Slot) :
    (s'.desc slot).ptr = (s.desc slot).ptr := by
  rw [h.desc]

theorem Touches.sound (h : Touches s s') (hs : Sound s) : Sound s' where
  frames := by
    refine ⟨fun slot p hp => ?_, fun slot slot' p hp hp' => ?_, fun p hp => ?_⟩
    · rw [h.ptr] at hp
      exact (h.shape.sizes.block_ne_none p).2 (hs.frames.live slot p hp)
    · rw [h.ptr] at hp hp'
      exact hs.frames.apart slot slot' p hp hp'
    · rw [h.shape.calls]
      exact hs.frames.bound p ((h.shape.sizes.block_ne_none p).1 hp)
  sized slot p b hp hb := by
    rw [h.ptr] at hp
    obtain ⟨b', hb'⟩ := Option.ne_none_iff_exists'.1 (hs.frames.live slot p hp)
    have hsize := h.shape.sizes p
    rw [hb, hb', Option.map_some, Option.map_some, Option.some.injEq] at hsize
    rw [h.desc slot, hsize]
    exact hs.sized slot p b' hp hb'
  fmt := by
    rw [h.pixelFmt]
    exact hs.fmt

/-! ## The guard -/

/-- The planes a frame goes through, next to the colour frame. -/
def used (s : ThermalUsb) : List Slot :=
  [.imgRawFrame s.frameIndex, .temperatureRawFrame s.frameIndex,
    .temperatureResultFrame s.frameIndex] ++ filterSlots

/-- If the current colour frame has a block, the other planes have. -/
def Guarded (s : ThermalUsb) : Prop :=
  (s.desc (.frame s.frameIndex)).ptr ≠ none → ∀ slot ∈ s.used, (s.desc slot).ptr ≠ none

/-- Only an open object is given two new colour frames. -/
def FormatsOpen (alloc : Allocator) (s : ThermalUsb) : Call → Prop
  | .control (.setPixelFormat fmt) => fmt ≠ s.pixelFmt → fmt ≠ .y16 → Grants alloc s →
      (s.desc (.temperatureRawFrame s.frameIndex)).ptr ≠ none
  | _ => True

theorem used_not_frame (h : slot ∈ s.used) : slot ∉ frameSlots := by
  intro hmem
  simp only [frameSlots, List.mem_cons, List.not_mem_nil, or_false] at hmem
  rcases hmem with rfl | rfl <;> simp [used, filterSlots] at h

/-- The planes other than the colour frames have blocks, all or none. -/
def AllOrNone (s : ThermalUsb) : Prop :=
  (∀ slot, slot ∉ frameSlots → (s.desc slot).ptr ≠ none) ∨
    ∀ slot, slot ∉ frameSlots → (s.desc slot).ptr = none

/-- What every call keeps. -/
structure Steady (s : ThermalUsb) : Prop extends Sound s where
  planes : AllOrNone s

/-- What every call that meets the condition keeps. -/
def Closed (s : ThermalUsb) : Prop :=
  (∀ slot, slot ∉ frameSlots → (s.desc slot).ptr ≠ none) ∨ ∀ slot, (s.desc slot).ptr = none

theorem AllOrNone.congr (h : AllOrNone s)
    (hptr : ∀ slot, slot ∉ frameSlots → (s'.desc slot).ptr = (s.desc slot).ptr) :
    AllOrNone s' := by
  rcases h with h | h
  · exact Or.inl fun slot hslot => by rw [hptr slot hslot]; exact h slot hslot
  · exact Or.inr fun slot hslot => by rw [hptr slot hslot]; exact h slot hslot

theorem Closed.guarded (h : Closed s) : Guarded s := by
  intro hptr slot hslot
  rcases h with h | h
  · exact h slot (used_not_frame hslot)
  · exact absurd (h _) hptr

/-- What a call can do to the pointers. -/
theorem call_spec {c : Call} (h : Steady s) (hs : call fpu alloc s c = some s') :
    Steady s' ∧ ((∀ slot, (s'.desc slot).ptr ≠ none) ∨ (∀ slot, (s'.desc slot).ptr = none) ∨
      (∀ slot, (s'.desc slot).ptr = (s.desc slot).ptr) ∨
      ∃ fmt ok, c = .control (.setPixelFormat fmt) ∧ Formats alloc fmt s s' ok ∧
        ∀ slot, slot ∉ frameSlots → s'.desc slot = s.desc slot) := by
  cases c with
  | uvc_cb f =>
      obtain ⟨⟨r, t⟩, hrun, rfl⟩ := Option.map_eq_some_iff.1 hs
      have htouch := uvc_cb_touches hrun
      exact ⟨⟨htouch.sound h.toSound, h.planes.congr fun slot _ => htouch.ptr slot⟩,
        Or.inr (Or.inr (Or.inl htouch.ptr))⟩
  | control c =>
      obtain ⟨t, ht, hsound, -⟩ := control_spec alloc h.toSound c
      obtain rfl : t = s' := Option.some.inj (ht.symm.trans hs)
      cases c with
      | uvcOpen w h' =>
          obtain ⟨ok, u, hrun, -, -, -, -, hopened, hnull⟩ :=
            uvcOpen_spec alloc w h' h.toOwned h.fmt
          rw [control, hrun, Option.map_some, Option.some.injEq] at ht
          subst ht
          cases ok with
          | true =>
              have hptr := (hopened rfl).ptr
              exact ⟨⟨hsound, Or.inl fun slot _ => hptr slot⟩, Or.inl hptr⟩
          | false =>
              exact ⟨⟨hsound, Or.inr fun slot _ => hnull rfl slot⟩, Or.inr (Or.inl (hnull rfl))⟩
      | close =>
          obtain ⟨u, hrun, -, -, -, hnull, -⟩ := uvcClose_spec h.toOwned
          rw [control, hrun, Option.map_some, Option.some.injEq] at ht
          subst ht
          exact ⟨⟨hsound, Or.inr fun slot _ => hnull slot⟩, Or.inr (Or.inl hnull)⟩
      | setPixelFormat fmt =>
          obtain ⟨ok, u, hrun, -, -, -, hothers, hformats⟩ :=
            setPixelFormat_spec alloc fmt h.toOwned
          rw [control, hrun, Option.map_some, Option.some.injEq] at ht
          subst ht
          exact ⟨⟨hsound, h.planes.congr fun slot hslot => by rw [hothers slot hslot]⟩,
            Or.inr (Or.inr (Or.inr ⟨fmt, ok, rfl, hformats, hothers⟩))⟩
      | setPseudoColorMode mode | setTemperatureMode mode =>
          cases ht
          exact ⟨⟨hsound, h.planes.congr fun _ _ => rfl⟩, Or.inr (Or.inr (Or.inl fun _ => rfl))⟩

theorem Closed.call {c : Call} (h : Steady s) (hclosed : Closed s)
    (hc : FormatsOpen alloc s c) (hs : call fpu alloc s c = some s') : Closed s' := by
  obtain ⟨-, hall | hnone | hsame | ⟨fmt, ok, rfl, hformats, hothers⟩⟩ := call_spec h hs
  · exact Or.inl fun slot _ => hall slot
  · exact Or.inr hnone
  · rcases hclosed with hopen | hnone
    · exact Or.inl fun slot hslot => by rw [hsame]; exact hopen slot hslot
    · exact Or.inr fun slot => by rw [hsame]; exact hnone slot
  · rcases hclosed with hopen | hnone
    · exact Or.inl fun slot hslot => by rw [hothers slot hslot]; exact hopen slot hslot
    · refine Or.inr fun slot => ?_
      by_cases hslot : slot ∈ frameSlots
      · cases hformats with
        | unchanged _ _ hsame => rw [hsame]; exact hnone slot
        | changed bytes hne hbytes hgrants _ _ =>
            refine absurd (hnone _) (hc hne ?_ hgrants)
            rintro rfl
            cases hbytes 0
        | failed _ _ _ _ hfirst hsecond =>
            simp only [frameSlots, List.mem_cons, List.not_mem_nil, or_false] at hslot
            rcases hslot with rfl | rfl
            · exact hfirst
            · rcases hsecond with hnull | heq
              · exact hnull
              · rw [heq]
                exact hnone _
      · rw [hothers slot hslot]
        exact hnone slot

theorem formatsOpen_of_guarded (fpu : Fpu) {c : Call} (h : Steady s)
    (hs : call fpu alloc s c = some s')
    (hguard : Guarded s') : FormatsOpen alloc s c := by
  cases c with
  | uvc_cb f => trivial
  | control c =>
      cases c
      case setPixelFormat fmt =>
        intro hne hfmt hgrants
        obtain ⟨ok, u, hrun, -, -, -, hothers, hformats⟩ :=
          setPixelFormat_spec alloc fmt h.toOwned
        rw [call, control, hrun, Option.map_some, Option.some.injEq] at hs
        subst hs
        have hframes : ∀ i, (u.desc (.frame i)).ptr ≠ none := by
          cases hformats with
          | unchanged _ hsame _ => exact absurd hsame (not_or.2 ⟨hne, hfmt⟩)
          | changed bytes _ _ _ _ hframe =>
              intro i
              obtain ⟨p, hdesc⟩ := hframe i
              rw [hdesc]
              exact Option.some_ne_none p
          | failed _ _ hrefused => exact absurd hgrants hrefused
        have hraw := hguard (hframes _) (.temperatureRawFrame u.frameIndex) (by simp [used])
        rw [hothers _ (by simp [frameSlots])] at hraw
        rcases h.planes with hall | hnone
        · exact hall _ (by simp [frameSlots])
        · exact absurd (hnone _ (by simp [frameSlots])) hraw
      all_goals trivial

theorem steady_start (junk : ThermalUsb) (mode : RotateMode) : Steady (start junk mode) where
  toSound := sound_start junk mode
  planes := Or.inr fun _ _ => rfl

theorem call_steady {calls : List Call} (h : Steady s) (hrun : Run (call fpu alloc) s calls s') :
    Steady s' :=
  hrun.invariant (I := Steady) (fun _ _ _ h hs => (call_spec h hs).1) h

/-- In every sequence of calls, a colour frame with a block means that the
other planes have blocks, after every call, exactly if every change of format
that gets its memory is asked of an open object. Where it does mean that, a
frame of the camera is ignored, or all planes it goes through are allocated. -/
theorem guarded_along_iff (fpu : Fpu) (alloc : Allocator) (junk : ThermalUsb)
    (mode : RotateMode) (calls : List Call) :
    (Along Guarded (call fpu alloc) (start junk mode) calls ↔
      Meets (FormatsOpen alloc) (call fpu alloc) (start junk mode) calls) ∧
    ∀ pre s, pre <+: calls → Run (call fpu alloc) (start junk mode) pre s → Guarded s →
      (∀ f, s.uvc_cb fpu f = some (none, s)) ∨
        ∀ slot ∈ .frame s.frameIndex :: s.used,
          ∃ p b, (s.desc slot).ptr = some p ∧ s.heap.block p = some b := by
  have hstart := steady_start junk mode
  refine ⟨⟨?_, ?_⟩, ?_⟩
  · intro halong pre c post s hsplit hpre
    have hsteady := call_steady hstart hpre
    -- a frame may have no result, but it changes no format
    cases c with
    | uvc_cb f => trivial
    | control c =>
        obtain ⟨s', hs', -⟩ := control_spec alloc hsteady.toSound c
        refine formatsOpen_of_guarded fpu hsteady hs'
          (halong (pre ++ [.control c]) s' ⟨post, by rw [hsplit]; simp⟩ ?_)
        exact run_snoc.2 ⟨s, hpre, hs'⟩
  · intro hmeets
    refine (Along.of_meets (I := fun s => Steady s ∧ Closed s) ?_ hmeets
      ⟨hstart, Or.inr fun _ => rfl⟩).mono fun _ h => h.2.guarded
    intro s c s' ⟨h, hclosed⟩ hc hs
    exact ⟨(call_spec h hs).1, hclosed.call h hc hs⟩
  · intro pre s hpre hrun hguard
    have hsteady := call_steady hstart hrun
    by_cases hptr : (s.desc (.frame s.frameIndex)).ptr = none
    · exact Or.inl fun f => uvc_cb_null hptr
    · refine Or.inr fun slot hslot => ?_
      have hne : (s.desc slot).ptr ≠ none := by
        rcases List.mem_cons.1 hslot with rfl | hslot
        · exact hptr
        · exact hguard hptr slot hslot
      obtain ⟨p, hp⟩ := Option.ne_none_iff_exists'.1 hne
      obtain ⟨b, hb⟩ := Option.ne_none_iff_exists'.1 (hsteady.frames.live slot p hp)
      exact ⟨p, b, hp, hb⟩

theorem copyPixel_null (himg : (s.desc (.imgRawFrame s.frameIndex)).ptr = none) :
    copyPixel fpu s f i j heap = none := by
  rw [copyPixel, himg]
  cases f.data.load16 (f.upper i j) <;> rfl

/-- Without an image plane the first sample has nowhere to go. -/
theorem uvc_cb_missing (hptr : (s.desc (.frame s.frameIndex)).ptr ≠ none)
    (himg : (s.desc (.imgRawFrame s.frameIndex)).ptr = none) (hrows : 0 < f.height / 2)
    (hcols : 0 < f.width) : s.uvc_cb fpu f = none := by
  cases hrun : s.uvc_cb fpu f with
  | none => rfl
  | some r =>
      exfalso
      unfold uvc_cb at hrun
      split at hrun
      · next hnull => exact hptr hnull
      · obtain ⟨s₁, h₁, -⟩ := Option.bind_eq_some_iff.1 hrun
        obtain ⟨heap, hloop, -⟩ := Option.map_eq_some_iff.1 h₁
        obtain ⟨h, h', -, hrow⟩ := forLoop_each (J := fun _ => True) (fun _ _ _ _ _ => trivial)
          hloop trivial (Nat.le_refl 0) hrows
        obtain ⟨u, u', -, hcell⟩ := forLoop_each (J := fun _ => True)
          (fun _ _ _ _ _ => trivial) hrow trivial (Nat.le_refl 0) hcols
        rw [copyPixel_null] at hcell
        · cases hcell
        · rw [(onlySlot_setDesc s.heap).desc _ (by simp)]
          exact himg

/-- A format asked of a new object: its colour frames have blocks, of no bytes,
and the first frame of the camera is stored through NULL. -/
theorem format_before_open :
    ∃ s, Run (call ⟨fun _ => 0, fun _ => 0⟩ fun _ => some fun _ => 0) (start default .rotate0)
        [.control (.setPixelFormat .rgb32)] s ∧ ¬ Guarded s ∧
      s.uvc_cb ⟨fun _ => 0, fun _ => 0⟩ ⟨⟨196608, fun _ => 0⟩, 256, 384, 512⟩ = none := by
  have hrun : ([Call.control (.setPixelFormat .rgb32)].foldlM
      (call ⟨fun _ => 0, fun _ => 0⟩ fun _ => some fun _ => 0) (start default .rotate0)).map
        (fun s => (s.frameIndex, (s.desc (.frame 0)).ptr, (s.desc (.imgRawFrame 0)).ptr)) =
      some (0, some 0, none) := rfl
  obtain ⟨s, hs, heq⟩ := Option.map_eq_some_iff.1 hrun
  simp only [Prod.mk.injEq] at heq
  obtain ⟨hindex, hptr, himg⟩ := heq
  have hptr' : (s.desc (.frame s.frameIndex)).ptr ≠ none := by
    rw [hindex, hptr]
    exact Option.some_ne_none 0
  refine ⟨s, hs, fun hguard => ?_, uvc_cb_missing hptr' ?_ (by decide) (by decide)⟩
  · refine hguard hptr' (.imgRawFrame 0) ?_ himg
    rw [used, hindex]
    exact List.mem_cons_self
  · rw [hindex, himg]

end ThermalUsb

end IotCamera
