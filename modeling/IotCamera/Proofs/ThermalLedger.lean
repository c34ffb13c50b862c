import IotCamera.Proofs.ThermalControl

/-!
# The frame memory over any sequence of calls

Two accounts of the blocks the object has allocated. The ledger says that
they are those its descriptors point to, no more and no fewer. No call frees
what is not allocated, and no two descriptors ever share a block, but the
ledger is balanced only as long as nobody closes an open object: `uvcClose`
drops the pointers of the two result planes without freeing them.

The geometry says what a block is good for. Whatever the allocator refuses
and whatever format change fails half way, a descriptor that has a block has
one with exactly the bytes of its rows.
-/

namespace IotCamera

open Lts

namespace ThermalUsb

variable {s s' : ThermalUsb} {slot : Slot} {alloc : Allocator} {calls : List Control}

/-! ## The ledger -/

/-- The blocks that are allocated are those the descriptors point to, one
each. -/
structure Balanced (s : ThermalUsb) : Prop where
  blocks : ∀ p, s.heap.block p ≠ none ↔ ∃ slot, (s.desc slot).ptr = some p
  apart : ∀ slot slot' p, (s.desc slot).ptr = some p → (s.desc slot').ptr = some p →
    slot = slot'

theorem Owned.balanced_iff (h : Owned s) : Balanced s ↔ ∀ p, ¬ Leaked s p := by
  constructor
  · rintro hb p ⟨hlive, hnone⟩
    obtain ⟨slot, hp⟩ := (hb.blocks p).1 hlive
    exact hnone slot hp
  · intro hnone
    refine ⟨fun p => ⟨fun hlive => ?_, ?_⟩, h.frames.apart⟩
    · by_contra hfree
      exact hnone p ⟨hlive, fun slot hp => hfree ⟨slot, hp⟩⟩
    · rintro ⟨slot, hp⟩
      exact h.frames.live slot p hp

/-- `close` finds the result planes without blocks. -/
def ClosesEmpty (s : ThermalUsb) : Control → Prop
  | .close => ∀ i, (s.desc (.temperatureResultFrame i)).ptr = none
  | _ => True

theorem ClosesEmpty.balanced {c : Control} (h : Sound s) (hb : Balanced s)
    (hc : ClosesEmpty s c) (hs : control alloc s c = some s') : Balanced s' := by
  obtain ⟨t, ht, hsound, hleaked⟩ := control_spec alloc h c
  rw [hs, Option.some.injEq] at ht
  subst ht
  rw [hsound.toOwned.balanced_iff]
  intro p hp
  rcases (hleaked p).1 hp with hp | ⟨rfl, i, hptr⟩
  · exact h.toOwned.balanced_iff.1 hb p hp
  · rw [hc i] at hptr
    cases hptr

theorem closesEmpty_of_balanced {c : Control} (h : Sound s)
    (hs : control alloc s c = some s') (hb : Balanced s') : ClosesEmpty s c := by
  obtain ⟨t, ht, hsound, hleaked⟩ := control_spec alloc h c
  rw [hs, Option.some.injEq] at ht
  subst ht
  cases c
  case close =>
    intro i
    by_contra hptr
    obtain ⟨p, hp⟩ := Option.ne_none_iff_exists'.1 hptr
    exact hsound.toOwned.balanced_iff.1 hb p ((hleaked p).2 (Or.inr ⟨rfl, i, hp⟩))
  all_goals exact trivial

theorem balanced_start (junk : ThermalUsb) (mode : RotateMode) : Balanced (start junk mode) :=
  (sound_start junk mode).toOwned.balanced_iff.2 fun _ hp => hp.1 rfl

/-- Every sequence of calls has a meaning: what it frees is allocated. The
ledger is balanced after each of them exactly if every `close` finds the
result planes without blocks. -/
theorem balanced_along_iff (alloc : Allocator) (junk : ThermalUsb) (mode : RotateMode)
    (calls : List Control) :
    (∃ s, Run (control alloc) (start junk mode) calls s) ∧
      (Along Balanced (control alloc) (start junk mode) calls ↔
        Meets ClosesEmpty (control alloc) (start junk mode) calls) := by
  have hstart := sound_start junk mode
  have hsound : ∀ {pre s}, Run (control alloc) (start junk mode) pre s → Sound s := by
    intro pre s hrun
    obtain ⟨t, ht, hsound⟩ := control_run alloc pre hstart
    exact hrun.unique ht ▸ hsound
  refine ⟨(control_run alloc calls hstart).imp fun _ h => h.1, ?_, ?_⟩
  · intro halong pre c post s hsplit hpre
    obtain ⟨s', hs', -⟩ := control_spec alloc (hsound hpre) c
    refine closesEmpty_of_balanced (hsound hpre) hs' (halong (pre ++ [c]) s' ?_ ?_)
    · exact ⟨post, by rw [hsplit]; simp⟩
    · exact run_snoc.2 ⟨s, hpre, hs'⟩
  · intro hmeets
    refine (Along.of_meets (I := fun s => Sound s ∧ Balanced s) ?_ hmeets
      ⟨hstart, balanced_start junk mode⟩).mono fun _ h => h.2
    intro s c s' ⟨h, hb⟩ hc hs
    obtain ⟨t, ht, hsound', -⟩ := control_spec alloc h c
    rw [hs, Option.some.injEq] at ht
    exact ⟨ht ▸ hsound', hc.balanced h hb hs⟩

/-- The block of the first result plane is lost. -/
theorem open_close_leaks :
    ∃ s, Run (control fun _ => some fun _ => 0) (start default .rotate0)
      [.uvcOpen 256 384, .close] s ∧ Leaked s 3 ∧ ¬ Balanced s := by
  have hrun : ([Control.uvcOpen 256 384, .close].foldlM (control fun _ => some fun _ => 0)
      (start default .rotate0)).map (fun s => ((s.heap.block 3).isSome,
        (planeSlots ++ filterSlots).all fun slot => (s.desc slot).ptr.isNone)) =
      some (true, true) := rfl
  obtain ⟨s, hs, heq⟩ := Option.map_eq_some_iff.1 hrun
  obtain ⟨hlive, hnull⟩ := Prod.mk.inj heq
  have hleaked : Leaked s 3 := by
    refine ⟨Option.isSome_iff_ne_none.1 hlive, fun slot hp => ?_⟩
    have := List.all_eq_true.1 hnull slot (mem_slots slot)
    rw [hp] at this
    cases this
  refine ⟨s, hs, hleaked, fun hb => ?_⟩
  obtain ⟨slot, hp⟩ := (hb.blocks 3).1 hleaked.1
  exact hleaked.2 slot hp

/-! ## The geometry -/

/-- No size of a plane wraps. -/
def Fits (width height bytes : Nat) : Prop :=
  width * bytes + 3 < 4294967296 ∧ (width * bytes + 3) / 4 * 4 * height < 4294967296

/-- No size a call computes wraps. -/
def NoOverflow (s : ThermalUsb) : Control → Prop
  | .uvcOpen w h => ∀ slot bytes, slotBytes s.pixelFmt slot = some bytes →
      Fits (planeSize s.rotateMode w h).1 (planeSize s.rotateMode w h).2 bytes
  | .setPixelFormat fmt => ∀ i bytes, slotBytes fmt (.frame i) = some bytes →
      Fits (s.desc (.frame i)).width (s.desc (.frame i)).height bytes
  | _ => True

theorem Fits.lineBytes_eq {width height bytes : Nat} (h : Fits width height bytes) :
    lineBytes width bytes = (width * bytes + 3) / 4 * 4 := by
  have hwide := h.1
  have hrow : CInt.u32 (width * bytes) = width * bytes := CInt.u32_eq (by omega)
  rw [lineBytes, hrow, CInt.u32_eq hwide]

/-- A descriptor with a block has rows of whole words that hold its pixels,
and the block has exactly the bytes of the rows. -/
def Fit (s : ThermalUsb) (slot : Slot) : Prop :=
  ∀ p, (s.desc slot).ptr = some p → ∃ b, s.heap.block p = some b ∧
    b.size = (s.desc slot).bytesPerLine * (s.desc slot).height ∧
    4 ∣ (s.desc slot).bytesPerLine ∧
    ∀ bytes, slotBytes s.pixelFmt slot = some bytes →
      (s.desc slot).width * bytes ≤ (s.desc slot).bytesPerLine

structure Geometry (s : ThermalUsb) : Prop where
  fit : ∀ slot, Fit s slot
  fmt : s.pixelFmt = .rgb24 ∨ s.pixelFmt = .bgr24 ∨ s.pixelFmt = .rgb32 ∨ s.pixelFmt = .bgr32

/-- The row of a slot with a block is what its width asks for. -/
def Lined (s : ThermalUsb) (slot : Slot) : Prop :=
  (s.desc slot).ptr ≠ none → ∀ bytes, slotBytes s.pixelFmt slot = some bytes →
    (s.desc slot).bytesPerLine = lineBytes (s.desc slot).width bytes ∧
      Fits (s.desc slot).width (s.desc slot).height bytes

theorem lined_of_null (h : (s.desc slot).ptr = none) : Lined s slot := fun hp => absurd h hp

theorem Lined.congr (h : Lined s slot) (hdesc : s'.desc slot = s.desc slot)
    (hbytes : slotBytes s'.pixelFmt slot = slotBytes s.pixelFmt slot) : Lined s' slot := by
  unfold Lined
  rw [hdesc, hbytes]
  exact h

theorem Lined.fit (h : Sound s) (hline : Lined s slot) : Fit s slot := by
  intro p hp
  obtain ⟨b, hb⟩ := Option.ne_none_iff_exists'.1 (h.frames.live slot p hp)
  have hptr : (s.desc slot).ptr ≠ none := by simp [hp]
  obtain ⟨bytes, hbytes⟩ := slotBytes_of_ne h.fmt slot
  obtain ⟨hrow, hfits⟩ := hline hptr bytes hbytes
  have hline := hfits.lineBytes_eq
  refine ⟨b, hb, ?_, ?_, fun bytes' hbytes' => ?_⟩
  · rw [h.sized slot p b hp hb, hrow, hline]
    exact CInt.u32_eq hfits.2
  · rw [hrow, hline]
    exact Nat.dvd_mul_left 4 _
  · obtain rfl : bytes = bytes' := Option.some.inj (hbytes.symm.trans hbytes')
    rw [hrow, hline]
    omega

theorem slotBytes_congr {fmt fmt' : PixelFormat} (hslot : slot ∉ frameSlots) :
    slotBytes fmt slot = slotBytes fmt' slot := by
  cases slot with
  | frame i => exact absurd (by revert i; decide) hslot
  | _ => rfl

theorem exists_frame (hslot : slot ∈ frameSlots) : ∃ i, slot = .frame i := by
  simp only [frameSlots, List.mem_cons, List.not_mem_nil, or_false] at hslot
  rcases hslot with rfl | rfl
  · exact ⟨0, rfl⟩
  · exact ⟨1, rfl⟩

theorem Formats.lined {fmt : PixelFormat} {ok : Bool} (h : Formats alloc fmt s s' ok)
    (hline : ∀ slot, Lined s slot) (hfits : NoOverflow s (.setPixelFormat fmt))
    (hothers : ∀ slot, slot ∉ frameSlots → s'.desc slot = s.desc slot) (slot : Slot) :
    Lined s' slot := by
  by_cases hslot : slot ∈ frameSlots
  · obtain ⟨i, rfl⟩ := exists_frame hslot
    cases h with
    | unchanged _ _ hsame => rw [hsame]; exact hline _
    | changed bytes _ hbytes _ hpix hframe =>
        obtain ⟨p, hdesc⟩ := hframe i
        intro _ bytes' hbytes'
        rw [hpix, hbytes i, Option.some.injEq] at hbytes'
        subst hbytes'
        rw [hdesc]
        exact ⟨rfl, hfits i bytes (hbytes i)⟩
    | failed _ _ _ hpix hfirst hsecond =>
        refine (Fin.forall_fin_two.2 ⟨lined_of_null hfirst, ?_⟩ : ∀ i, Lined s' (.frame i)) i
        rcases hsecond with hnull | hsame
        · exact lined_of_null hnull
        · exact (hline _).congr hsame (by rw [hpix])
  · exact (hline slot).congr (hothers slot hslot) (slotBytes_congr hslot)

theorem Opened.lined {width height : Nat} (h : Opened width height s)
    (hfits : ∀ slot bytes, slotBytes s.pixelFmt slot = some bytes → Fits width height bytes)
    (slot : Slot) : Lined s slot := by
  intro _ bytes hbytes
  obtain ⟨hw, hh, hline⟩ := h.shaped slot
  rw [hline bytes hbytes, hw, hh]
  exact ⟨rfl, hfits slot bytes hbytes⟩

theorem lined_control {c : Control} (h : Sound s) (hline : ∀ slot, Lined s slot)
    (hfits : NoOverflow s c) (hs : control alloc s c = some s') (slot : Slot) :
    Lined s' slot := by
  cases c with
  | uvcOpen w h' =>
      obtain ⟨ok, t, hrun, -, -, hpix, -, hopened, hnull⟩ :=
        uvcOpen_spec alloc w h' h.toOwned h.fmt
      rw [control, hrun, Option.map_some, Option.some.injEq] at hs
      subst hs
      cases ok with
      | true => exact (hopened rfl).lined (fun slot bytes hb => hfits slot bytes (hpix ▸ hb)) slot
      | false => exact lined_of_null (hnull rfl slot)
  | close =>
      obtain ⟨t, hrun, -, -, -, hnull, -⟩ := uvcClose_spec h.toOwned
      rw [control, hrun, Option.map_some, Option.some.injEq] at hs
      subst hs
      exact lined_of_null (hnull slot)
  | setPixelFormat fmt =>
      obtain ⟨ok, t, hrun, -, -, -, hothers, hformats⟩ :=
        setPixelFormat_spec alloc fmt h.toOwned
      rw [control, hrun, Option.map_some, Option.some.injEq] at hs
      subst hs
      exact hformats.lined hline hfits hothers slot
  | setPseudoColorMode mode | setTemperatureMode mode =>
      cases hs
      exact hline slot

theorem Sound.geometry (h : Sound s) (hline : ∀ slot, Lined s slot) : Geometry s where
  fit slot := (hline slot).fit h
  fmt := by
    have hfmt := h.fmt
    cases hpix : s.pixelFmt <;> simp [hpix] at hfmt ⊢

/-- In every sequence of calls that computes no size that wraps, every
descriptor with a block fits it after each call, and an `uvcOpen` that
answers `false` leaves no descriptor with a block. -/
theorem geometry_along {junk : ThermalUsb} {mode : RotateMode}
    (hfits : Meets NoOverflow (control alloc) (start junk mode) calls) :
    (∃ s, Run (control alloc) (start junk mode) calls s) ∧
    Along Geometry (control alloc) (start junk mode) calls ∧
    ∀ pre w h post s s', calls = pre ++ .uvcOpen w h :: post →
      Run (control alloc) (start junk mode) pre s →
      s.uvcOpen alloc w h = some (false, s') → ∀ slot, (s'.desc slot).ptr = none := by
  have hstart := sound_start junk mode
  have halong : Along (fun s => Sound s ∧ ∀ slot, Lined s slot) (control alloc)
      (start junk mode) calls := by
    refine Along.of_meets ?_ hfits ⟨hstart, fun slot => lined_of_null rfl⟩
    intro s c s' ⟨h, hline⟩ hc hs
    obtain ⟨t, ht, hsound, -⟩ := control_spec alloc h c
    rw [hs, Option.some.injEq] at ht
    exact ⟨ht ▸ hsound, lined_control h hline hc hs⟩
  refine ⟨(control_run alloc calls hstart).imp fun _ h => h.1,
    halong.mono fun s h => h.1.geometry h.2, ?_⟩
  intro pre w h post s s' hsplit hpre hfalse slot
  obtain ⟨hsound, -⟩ := halong pre s ⟨_, hsplit.symm⟩ hpre
  obtain ⟨ok, t, hrun, -, -, -, -, -, hnull⟩ := uvcOpen_spec alloc w h hsound.toOwned hsound.fmt
  rw [hfalse, Option.some.injEq, Prod.mk.injEq] at hrun
  obtain ⟨rfl, rfl⟩ := hrun
  exact hnull rfl slot

/-- Memory for thirteen blocks. -/
def thirteen : Allocator := fun n => if n < 13 then some fun _ => 0 else none

/-- The camera is opened at its own size, then there is no memory for longer
rows, and none to open it again. -/
theorem geometry_along_camera :
    ∃ s₁ s₂ s₃, (start default .rotate0).uvcOpen thirteen 256 384 = some (true, s₁) ∧
      s₁.setPixelFormat thirteen .rgb32 = some (false, s₂) ∧
      s₂.uvcOpen thirteen 256 384 = some (false, s₃) ∧
      (∃ s, Run (control thirteen) (start default .rotate0)
        [.uvcOpen 256 384, .setPixelFormat .rgb32, .uvcOpen 256 384] s) ∧
      Geometry s₁ ∧ (s₁.desc (.frame 0)).ptr = some 0 ∧
      Geometry s₂ ∧ (s₂.desc (.frame 0)).ptr = none ∧ (s₂.desc (.frame 1)).ptr = some 4 ∧
      ∀ slot, (s₃.desc slot).ptr = none := by
  have heval : ((start default .rotate0).uvcOpen thirteen 256 384).bind (fun r₁ =>
      (r₁.2.setPixelFormat thirteen .rgb32).bind fun r₂ =>
        (r₂.2.uvcOpen thirteen 256 384).map fun r₃ =>
          ((r₁.1, r₂.1, r₃.1),
            ((r₁.2.desc (.frame 0)).width, (r₁.2.desc (.frame 0)).height,
              (r₁.2.desc (.frame 1)).width, (r₁.2.desc (.frame 1)).height),
            (r₂.2.pixelFmt, r₂.2.rotateMode),
            (r₁.2.desc (.frame 0)).ptr, (r₂.2.desc (.frame 0)).ptr,
            (r₂.2.desc (.frame 1)).ptr)) =
      some ((true, false, false), (256, 192, 256, 192), (.rgb24, .rotate0),
        some 0, none, some 4) := rfl
  obtain ⟨⟨ok₁, s₁⟩, h₁, heval⟩ := Option.bind_eq_some_iff.1 heval
  obtain ⟨⟨ok₂, s₂⟩, h₂, heval⟩ := Option.bind_eq_some_iff.1 heval
  obtain ⟨⟨ok₃, s₃⟩, h₃, heval⟩ := Option.map_eq_some_iff.1 heval
  simp only [Prod.mk.injEq] at heval
  obtain ⟨⟨rfl, rfl, rfl⟩, ⟨hwidth₀, hheight₀, hwidth₁, hheight₁⟩, ⟨hfmt, hmode⟩,
    hshown, hgone, hkept⟩ := heval
  have hstep₁ : control thirteen (start default .rotate0) (.uvcOpen 256 384) = some s₁ := by
    rw [control, h₁, Option.map_some]
  have hstep₂ : control thirteen s₁ (.setPixelFormat .rgb32) = some s₂ := by
    rw [control, h₂, Option.map_some]
  have hfits : ∀ bytes, bytes ≤ 4 → Fits 256 192 bytes := fun bytes hle =>
    ⟨by omega, by omega⟩
  have hopens : ∀ s : ThermalUsb, s.pixelFmt = .rgb24 → s.rotateMode = .rotate0 →
      NoOverflow s (.uvcOpen 256 384) := by
    intro s hfmt hmode slot bytes hbytes
    rw [hmode]
    refine hfits bytes ?_
    cases slot <;> simp [slotBytes, hfmt] at hbytes <;> omega
  have hsize : ∀ i, (s₁.desc (.frame i)).width = 256 ∧ (s₁.desc (.frame i)).height = 192 :=
    Fin.forall_fin_two.2 ⟨⟨hwidth₀, hheight₀⟩, hwidth₁, hheight₁⟩
  have hchanges : NoOverflow s₁ (.setPixelFormat .rgb32) := by
    intro i bytes hbytes
    obtain rfl : 4 = bytes := Option.some.inj hbytes
    rw [(hsize i).1, (hsize i).2]
    exact hfits 4 le_rfl
  have hmeets : Meets NoOverflow (control thirteen) (start default .rotate0)
      [.uvcOpen 256 384, .setPixelFormat .rgb32, .uvcOpen 256 384] := by
    refine meets_cons.2 ⟨hopens _ rfl rfl, fun t ht => ?_⟩
    obtain rfl := Option.some.inj (hstep₁.symm.trans ht)
    refine meets_cons.2 ⟨hchanges, fun t ht => ?_⟩
    obtain rfl := Option.some.inj (hstep₂.symm.trans ht)
    exact meets_cons.2 ⟨hopens _ hfmt hmode, fun _ _ => .nil⟩
  obtain ⟨hrun, hgeometry, hnull⟩ := geometry_along hmeets
  have hrun₁ : Run (control thirteen) (start default .rotate0) [.uvcOpen 256 384] s₁ :=
    run_single.2 hstep₁
  have hrun₂ : Run (control thirteen) (start default .rotate0)
      [.uvcOpen 256 384, .setPixelFormat .rgb32] s₂ :=
    run_cons.2 ⟨s₁, hstep₁, run_single.2 hstep₂⟩
  exact ⟨s₁, s₂, s₃, h₁, h₂, h₃, hrun, hgeometry _ s₁ ⟨_, rfl⟩ hrun₁, hshown,
    hgeometry _ s₂ ⟨[.uvcOpen 256 384], rfl⟩ hrun₂, hgone, hkept,
    hnull [.uvcOpen 256 384, .setPixelFormat .rgb32] 256 384 [] s₂ s₃ rfl hrun₂ h₃⟩

end ThermalUsb

end IotCamera
