import IotCamera.Thermal.Frames

/-!
# What an opened camera object owns

Between the object and the heap stands one invariant, `Frames`: a pointer
that is not NULL points to a live block, no two descriptors point to the same
block, and no block has an address the allocator has still to give out.
Together with `Sized`, a block has the bytes its descriptor computes, it
survives every free and every allocation of `uvcOpen`, whatever the allocator
refuses.

A call that answers `true` has gone through all thirteen slots twice. So
every slot has its geometry and a block of its own, which is what `Opened`
says and all that the image code relies on.
-/

namespace IotCamera

namespace ThermalUsb

variable {s s' : ThermalUsb} {slot slot' : Slot} {alloc : Allocator}

/-- The pointers of the object and the blocks of the heap. -/
structure Frames (s : ThermalUsb) : Prop where
  live : ∀ slot p, (s.desc slot).ptr = some p → s.heap.block p ≠ none
  apart : ∀ slot slot' p, (s.desc slot).ptr = some p → (s.desc slot').ptr = some p →
    slot = slot'
  bound : ∀ p, s.heap.block p ≠ none → p < s.heap.calls

/-- If the slot has a block, it has the bytes the descriptor computes. -/
def Sized (s : ThermalUsb) (slot : Slot) : Prop :=
  ∀ p b, (s.desc slot).ptr = some p → s.heap.block p = some b →
    b.size = CInt.u32 ((s.desc slot).bytesPerLine * (s.desc slot).height)

theorem mem_slots (slot : Slot) : slot ∈ planeSlots ++ filterSlots := by
  cases slot with
  | frame i | temperatureRawFrame i | imgRawFrame i | temperatureResultFrame i
  | temperatureFilterFrame i => revert i; decide

/-- Everything but the descriptors and the heap is as it was. -/
def SameRest (s s' : ThermalUsb) : Prop :=
  s' = { s with desc := s'.desc, heap := s'.heap }

theorem SameRest.trans {s'' : ThermalUsb} (h : SameRest s s') (h' : SameRest s' s'') :
    SameRest s s'' := by
  unfold SameRest at h h' ⊢
  rw [h', h]

/-- Everything but one descriptor and the heap is as it was. -/
structure OnlySlot (slot : Slot) (s s' : ThermalUsb) : Prop where
  desc : ∀ slot', slot' ≠ slot → s'.desc slot' = s.desc slot'
  same : SameRest s s'

theorem OnlySlot.trans {s'' : ThermalUsb} (h : OnlySlot slot s s')
    (h' : OnlySlot slot s' s'') : OnlySlot slot s s'' where
  desc slot' hne := (h'.desc slot' hne).trans (h.desc slot' hne)
  same := h.same.trans h'.same

theorem OnlySlot.pixelFmt (h : OnlySlot slot s s') : s'.pixelFmt = s.pixelFmt := by
  rw [h.same]

@[simp] theorem desc_setDesc {d : FrameFormat} : (s.setDesc slot d).desc slot = d :=
  Function.update_self ..

theorem onlySlot_setDesc (heap : Heap) {d : FrameFormat} :
    OnlySlot slot s ({ s with heap := heap }.setDesc slot d) where
  desc _ hne := Function.update_of_ne hne _ _
  same := rfl

/-! ## Freeing and allocating one slot -/

theorem sized_of_null (h : (s.desc slot).ptr = none) : Sized s slot := by
  intro p b hp
  rw [h] at hp
  cases hp

theorem Sized.other (h : Sized s slot') (hdesc : s'.desc slot' = s.desc slot')
    (hblock : ∀ p, (s.desc slot').ptr = some p → s'.heap.block p = s.heap.block p) :
    Sized s' slot' := by
  intro p b hp hb
  rw [hdesc] at hp ⊢
  exact h p b hp (hblock p hp ▸ hb)

/-- The object with another heap and another pointer in one slot. -/
def repoint (slot : Slot) (ptr : Option Nat) (heap : Heap) (s : ThermalUsb) : ThermalUsb :=
  { s with heap := heap }.setPtr slot ptr

@[simp] theorem desc_repoint {ptr : Option Nat} {heap : Heap} :
    (s.repoint slot ptr heap).desc slot = { s.desc slot with ptr := ptr } :=
  Function.update_self ..

theorem desc_repoint_ne {ptr : Option Nat} {heap : Heap} (hne : slot' ≠ slot) :
    (s.repoint slot ptr heap).desc slot' = s.desc slot' :=
  Function.update_of_ne hne _ _

theorem onlySlot_repoint {ptr : Option Nat} {heap : Heap} :
    OnlySlot slot s (s.repoint slot ptr heap) where
  desc _ hne := desc_repoint_ne hne
  same := rfl

/-- What a change of one pointer must respect: the blocks of the other slots
stay, and the slot's new block, if any, is none of them. -/
theorem frames_repoint (h : Frames s) (slot : Slot) (ptr : Option Nat) (heap : Heap)
    (hothers : ∀ slot' q, slot' ≠ slot → (s.desc slot').ptr = some q →
      heap.block q = s.heap.block q ∧ ptr ≠ some q)
    (hlive : ∀ q, ptr = some q → heap.block q ≠ none)
    (hbound : ∀ q, heap.block q ≠ none → q < heap.calls) :
    Frames (s.repoint slot ptr heap) ∧
      ∀ slot', slot' ≠ slot → Sized s slot' → Sized (s.repoint slot ptr heap) slot' := by
  refine ⟨⟨fun slot' q hq => ?_, fun slot₁ slot₂ q h₁ h₂ => ?_, hbound⟩,
    fun slot' hne hsized => ?_⟩
  · by_cases hne : slot' = slot
    · subst hne
      rw [desc_repoint] at hq
      exact hlive q hq
    · rw [desc_repoint_ne hne] at hq
      have hblock : heap.block q = s.heap.block q := (hothers slot' q hne hq).1
      rw [show (s.repoint slot ptr heap).heap = heap from rfl, hblock]
      exact h.live slot' q hq
  · by_cases hne₁ : slot₁ = slot
    · by_cases hne₂ : slot₂ = slot
      · rw [hne₁, hne₂]
      · subst hne₁
        rw [desc_repoint] at h₁
        rw [desc_repoint_ne hne₂] at h₂
        exact absurd h₁ (hothers slot₂ q hne₂ h₂).2
    · by_cases hne₂ : slot₂ = slot
      · subst hne₂
        rw [desc_repoint] at h₂
        rw [desc_repoint_ne hne₁] at h₁
        exact absurd h₂ (hothers slot₁ q hne₁ h₁).2
      · rw [desc_repoint_ne hne₁] at h₁
        rw [desc_repoint_ne hne₂] at h₂
        exact h.apart slot₁ slot₂ q h₁ h₂
  · exact hsized.other (desc_repoint_ne hne) fun q hq => (hothers slot' q hne hq).1

theorem freeSlot_spec (h : Frames s) (slot : Slot) :
    ∃ s', s.freeSlot slot = some s' ∧ Frames s' ∧ OnlySlot slot s s' ∧
      s'.desc slot = { s.desc slot with ptr := none } ∧
      ∀ slot', slot' ≠ slot → Sized s slot' → Sized s' slot' := by
  cases hptr : (s.desc slot).ptr with
  | none =>
      refine ⟨s, by simp only [freeSlot, hptr], h, ⟨fun _ _ => rfl, rfl⟩, ?_,
        fun _ _ hsized => hsized⟩
      rw [← hptr]
  | some p =>
      obtain ⟨b, hb⟩ := Option.ne_none_iff_exists'.1 (h.live slot p hptr)
      let heap : Heap := { s.heap with block := Function.update s.heap.block p none }
      have hframes := frames_repoint h slot none heap
        (fun slot' q hne hq => ⟨Function.update_of_ne
          (fun heq : q = p => hne (h.apart slot' slot q hq (heq.symm ▸ hptr))) _ _, nofun⟩)
        nofun fun q hq => h.bound q fun hnone => hq (by
          show Function.update s.heap.block p none q = none
          by_cases hqp : q = p
          · rw [hqp, Function.update_self]
          · rw [Function.update_of_ne hqp, hnone])
      exact ⟨s.repoint slot none heap,
        by simp only [freeSlot, hptr, Heap.free, hb, Option.map_some, heap, repoint],
        hframes.1, onlySlot_repoint, desc_repoint, hframes.2⟩

/-- Allocating for a slot gives it a block of its own with the bytes it asked
for, or leaves it without one. -/
theorem mallocSlot_spec (h : Frames s) {ok : Bool}
    (hrun : mallocSlot alloc slot s = (ok, s')) :
    Frames s' ∧ OnlySlot slot s s' ∧
      (∃ ptr, s'.desc slot = { s.desc slot with ptr := ptr } ∧ ok = ptr.isSome) ∧
      Sized s' slot ∧ ∀ slot', slot' ≠ slot → Sized s slot' → Sized s' slot' := by
  cases halloc : alloc s.heap.calls with
  | none =>
      simp only [mallocSlot, Heap.malloc, halloc, Prod.mk.injEq] at hrun
      obtain ⟨rfl, rfl⟩ := hrun
      have hframes := frames_repoint h slot none { s.heap with calls := s.heap.calls + 1 }
        (fun slot' q hne hq => ⟨rfl, nofun⟩) nofun
        fun q hq => Nat.lt_succ_of_lt (h.bound q hq)
      exact ⟨hframes.1, onlySlot_repoint, ⟨none, desc_repoint, rfl⟩,
        sized_of_null (congrArg FrameFormat.ptr desc_repoint), hframes.2⟩
  | some bytes =>
      simp only [mallocSlot, Heap.malloc, halloc, Prod.mk.injEq] at hrun
      obtain ⟨rfl, rfl⟩ := hrun
      let heap : Heap := ⟨Function.update s.heap.block s.heap.calls
        (some ⟨CInt.u32 ((s.desc slot).bytesPerLine * (s.desc slot).height), bytes⟩),
        s.heap.calls + 1⟩
      -- the new address is above every block there is
      have hfresh : ∀ q, s.heap.block q ≠ none → q ≠ s.heap.calls :=
        fun q hq => Nat.ne_of_lt (h.bound q hq)
      have hself : heap.block s.heap.calls =
          some ⟨CInt.u32 ((s.desc slot).bytesPerLine * (s.desc slot).height), bytes⟩ :=
        Function.update_self ..
      have hother : ∀ q, q ≠ s.heap.calls → heap.block q = s.heap.block q :=
        fun q hq => Function.update_of_ne hq _ _
      have hframes := frames_repoint h slot (some s.heap.calls) heap
        (fun slot' q hne hq =>
          have hq' := hfresh q (h.live slot' q hq)
          ⟨hother q hq', fun heq => hq' (Option.some.inj heq).symm⟩)
        (fun q hq => by rw [← Option.some.inj hq, hself]; nofun)
        (fun q hq => by
          by_cases hqc : q = s.heap.calls
          · exact hqc ▸ Nat.lt_succ_self _
          · exact Nat.lt_succ_of_lt (h.bound q (hother q hqc ▸ hq)))
      refine ⟨hframes.1, onlySlot_repoint, ⟨_, desc_repoint, rfl⟩, ?_, hframes.2⟩
      intro p b hp hb
      change ((s.repoint slot (some s.heap.calls) heap).desc slot).ptr = some p at hp
      change heap.block p = some b at hb
      show b.size = CInt.u32 (((s.repoint slot (some s.heap.calls) heap).desc
        slot).bytesPerLine * ((s.repoint slot (some s.heap.calls) heap).desc slot).height)
      rw [desc_repoint] at hp ⊢
      cases hp
      rw [hself] at hb
      cases hb
      rfl

/-! ## The loops of `uvcOpen` -/

/-- A loop over slots that answers `true` has done its work for each of
them. -/
theorem untilFalse_true {f : Slot → ThermalUsb → Option (Bool × ThermalUsb)}
    {I : ThermalUsb → Prop} {P : Slot → ThermalUsb → Prop}
    (hstep : ∀ slot s s', I s → f slot s = some (true, s') →
      I s' ∧ P slot s' ∧ ∀ slot', slot' ≠ slot → P slot' s → P slot' s')
    {slots : List Slot} (hrun : untilFalse f slots s = some (true, s')) (h : I s) :
    I s' ∧ (∀ slot ∈ slots, P slot s') ∧ ∀ slot, P slot s → P slot s' := by
  induction slots generalizing s with
  | nil =>
      cases hrun
      exact ⟨h, nofun, fun _ hp => hp⟩
  | cons slot rest ih =>
      obtain ⟨⟨ok, t⟩, ht, hrest⟩ := Option.bind_eq_some_iff.1 hrun
      cases ok
      case false => cases hrest
      case true =>
        obtain ⟨hI, hP, hkeep⟩ := hstep slot s t h ht
        obtain ⟨hI', hrest', hkeep'⟩ := ih hrest hI
        refine ⟨hI', fun slot' hmem => ?_, fun slot' hp => hkeep' slot' ?_⟩
        · rcases List.mem_cons.1 hmem with rfl | hmem
          · exact hkeep' slot' hP
          · exact hrest' slot' hmem
        · by_cases hne : slot' = slot
          · exact hne ▸ hP
          · exact hkeep slot' hne hp

/-- The geometry of a slot. -/
structure Shaped (width height : Nat) (s : ThermalUsb) (slot : Slot) : Prop where
  width_eq : (s.desc slot).width = width
  height_eq : (s.desc slot).height = height
  line_eq : ∀ bytes, slotBytes s.pixelFmt slot = some bytes →
    (s.desc slot).bytesPerLine = lineBytes width bytes

theorem Shaped.other {width height : Nat} (h : Shaped width height s slot')
    (honly : OnlySlot slot s s') (hne : slot' ≠ slot) : Shaped width height s' slot' := by
  obtain ⟨hw, hh, hline⟩ := h
  refine ⟨?_, ?_, fun bytes hb => ?_⟩
  · rw [honly.desc slot' hne, hw]
  · rw [honly.desc slot' hne, hh]
  · rw [honly.pixelFmt] at hb
    rw [honly.desc slot' hne, hline bytes hb]

theorem Shaped.repoint {width height : Nat} {ptr : Option Nat}
    (h : Shaped width height s slot) (hfmt : s'.pixelFmt = s.pixelFmt)
    (hdesc : s'.desc slot = { s.desc slot with ptr := ptr }) :
    Shaped width height s' slot := by
  obtain ⟨hw, hh, hline⟩ := h
  refine ⟨?_, ?_, fun bytes hb => ?_⟩
  · rw [hdesc, hw]
  · rw [hdesc, hh]
  · rw [hfmt] at hb
    rw [hdesc, ← hline bytes hb]

/-- What the object owns between two of its calls. -/
structure Owned (s : ThermalUsb) : Prop where
  frames : Frames s
  sized : ∀ slot, Sized s slot

theorem Frames.setDesc (h : Frames s) (slot : Slot) {d : FrameFormat}
    (hptr : d.ptr = (s.desc slot).ptr) :
    Frames (s.setDesc slot d) := by
  have hall : ∀ slot', ((s.setDesc slot d).desc slot').ptr = (s.desc slot').ptr := by
    intro slot'
    by_cases hne : slot' = slot
    · subst hne
      rw [desc_setDesc, hptr]
    · rw [show (s.setDesc slot d).desc slot' = s.desc slot' from
        Function.update_of_ne hne _ _]
  exact ⟨fun slot' p hp => h.live slot' p (hall slot' ▸ hp),
    fun slot₁ slot₂ p h₁ h₂ => h.apart slot₁ slot₂ p (hall slot₁ ▸ h₁) (hall slot₂ ▸ h₂),
    h.bound⟩

theorem openSlot_spec {width height : Nat} (h : Owned s)
    (hrun : openSlot width height slot s = some (true, s')) :
    Owned s' ∧ OnlySlot slot s s' ∧ Shaped width height s' slot := by
  unfold openSlot at hrun
  dsimp only at hrun
  split at hrun
  next => cases hrun
  next bytes hbytes =>
    obtain ⟨t, ht, heq⟩ := Option.map_eq_some_iff.1 hrun
    cases heq
    obtain ⟨t', ht', hframes, honly, hdesc, hsized⟩ := freeSlot_spec
      (h.frames.setDesc slot (d := { s.desc slot with
        width := width, height := height, bytesPerLine := lineBytes width bytes
        pixelFmt := slotFmt s.pixelFmt slot }) rfl) slot
    rw [ht] at ht'
    cases ht'
    rw [desc_setDesc] at hdesc
    have honly' : OnlySlot slot s s' := (onlySlot_setDesc s.heap).trans honly
    refine ⟨⟨hframes, fun slot' => ?_⟩, honly', ?_, ?_, fun bytes' hb => ?_⟩
    · by_cases hne : slot' = slot
      · exact sized_of_null (by rw [hne, hdesc])
      · refine hsized slot' hne ((h.sized slot').other ?_ fun _ _ => rfl)
        exact Function.update_of_ne hne _ _
    · rw [hdesc]
    · rw [hdesc]
    · rw [honly'.pixelFmt, hbytes, Option.some.injEq] at hb
      rw [hdesc, hb]

theorem allocSlot_spec (h : Owned s) {ok : Bool}
    (hrun : allocSlot alloc slot s = some (ok, s')) :
    Owned s' ∧ OnlySlot slot s s' ∧
      ∃ ptr, s'.desc slot = { s.desc slot with ptr := ptr } ∧ ok = ptr.isSome := by
  obtain ⟨t, ht, hmalloc⟩ := Option.map_eq_some_iff.1 hrun
  obtain ⟨t', ht', hframes, honly, hdesc, hsized⟩ := freeSlot_spec h.frames slot
  rw [ht] at ht'
  cases ht'
  obtain ⟨hframes', honly', ⟨ptr, hdesc', hok⟩, hself, hsized'⟩ :=
    mallocSlot_spec hframes hmalloc
  refine ⟨⟨hframes', fun slot' => ?_⟩, honly.trans honly', ptr, by rw [hdesc', hdesc], hok⟩
  by_cases hne : slot' = slot
  · exact hne ▸ hself
  · exact hsized' slot' hne (hsized slot' hne (h.sized slot'))

/-! ## An opened object -/

/-- Every slot has its geometry and a block of its own. -/
structure Opened (width height : Nat) (s : ThermalUsb) : Prop extends Owned s where
  shaped : ∀ slot, Shaped width height s slot
  ptr : ∀ slot, (s.desc slot).ptr ≠ none

theorem owned_new (junk : ThermalUsb) : Owned (new junk) where
  frames := ⟨fun _ _ => nofun, fun _ _ _ => nofun, fun _ hp => absurd rfl hp⟩
  sized _ := sized_of_null rfl

theorem openSlots_true {width height : Nat} {slots : List Slot} (h : Owned s)
    (hrun : untilFalse (openSlot width height) slots s = some (true, s')) :
    Owned s' ∧ SameRest s s' ∧ ∀ slot ∈ slots, Shaped width height s' slot := by
  obtain ⟨⟨howned, hrest⟩, hshaped, -⟩ := untilFalse_true
    (I := fun t => Owned t ∧ SameRest s t) (P := fun slot t => Shaped width height t slot)
    (fun slot t t' hI hstep => by
      obtain ⟨howned, honly, hshaped⟩ := openSlot_spec hI.1 hstep
      exact ⟨⟨howned, hI.2.trans honly.same⟩, hshaped,
        fun slot' hne hs => hs.other honly hne⟩) hrun ⟨h, rfl⟩
  exact ⟨howned, hrest, hshaped⟩

theorem allocSlots_true {width height : Nat} {slots : List Slot} (h : Owned s)
    (hshaped : ∀ slot, Shaped width height s slot)
    (hrun : untilFalse (allocSlot alloc) slots s = some (true, s')) :
    (Owned s' ∧ SameRest s s' ∧ ∀ slot, Shaped width height s' slot) ∧
      (∀ slot ∈ slots, (s'.desc slot).ptr ≠ none) ∧
      ∀ slot, (s.desc slot).ptr ≠ none → (s'.desc slot).ptr ≠ none := by
  refine untilFalse_true
    (I := fun t => Owned t ∧ SameRest s t ∧ ∀ slot, Shaped width height t slot)
    (P := fun slot t => (t.desc slot).ptr ≠ none)
    (fun slot t t' hI hstep => ?_) hrun ⟨h, rfl, hshaped⟩
  obtain ⟨howned, honly, ptr, hdesc, hok⟩ := allocSlot_spec hI.1 hstep
  refine ⟨⟨howned, hI.2.1.trans honly.same, fun slot' => ?_⟩, ?_, fun slot' hne hp => ?_⟩
  · by_cases hne : slot' = slot
    · exact hne ▸ (hI.2.2 slot).repoint honly.pixelFmt hdesc
    · exact (hI.2.2 slot').other honly hne
  · rw [hdesc]
    exact Option.isSome_iff_ne_none.1 hok.symm
  · rw [honly.desc slot' hne]
    exact hp

theorem myAllocBuffer_true {width height : Nat} (h : Owned s)
    (hshaped : ∀ slot, Shaped width height s slot)
    (hrun : s.myAllocBuffer alloc = some (true, s')) :
    Opened width height s' ∧ SameRest s s' := by
  obtain ⟨⟨flag, s₁⟩, h₁, hrun⟩ := Option.bind_eq_some_iff.1 hrun
  obtain ⟨⟨flag', s₂⟩, h₂, hrun⟩ := Option.bind_eq_some_iff.1 hrun
  cases flag <;> cases flag'
  case true.true =>
    cases hrun
    obtain ⟨⟨howned₁, hrest₁, hshaped₁⟩, hplanes, -⟩ := allocSlots_true h hshaped h₁
    obtain ⟨⟨howned₂, hrest₂, hshaped₂⟩, hfilters, hkeep⟩ :=
      allocSlots_true howned₁ hshaped₁ h₂
    refine ⟨⟨howned₂, hshaped₂, fun slot => ?_⟩, hrest₁.trans hrest₂⟩
    rcases List.mem_append.1 (mem_slots slot) with hmem | hmem
    · exact hkeep slot (hplanes slot hmem)
    · exact hfilters slot hmem
  all_goals
    obtain ⟨t, -, heq⟩ := Option.map_eq_some_iff.1 hrun
    cases heq

theorem uvcOpen_true {w h : Int} {width height : Nat} (howned : Owned s)
    (hsize : planeSize s.rotateMode w h = (width, height))
    (hrun : s.uvcOpen alloc w h = some (true, s')) :
    Opened width height s' ∧ s'.frameCnt = s.frameCnt ∧ s'.rotateMode = s.rotateMode ∧
      s'.pixelFmt = s.pixelFmt ∧ s'.temperatureMode = s.temperatureMode := by
  unfold uvcOpen at hrun
  simp only [hsize] at hrun
  obtain ⟨⟨ok, s₁⟩, h₁, hrun⟩ := Option.bind_eq_some_iff.1 hrun
  cases ok
  case false => cases hrun
  case true =>
    obtain ⟨⟨ok, s₂⟩, h₂, heq⟩ := Option.map_eq_some_iff.1 hrun
    cases ok
    case false => cases heq
    case true =>
      cases heq
      have howned₀ : Owned { s with uvcFrameHeight := h, uvcFrameWidth := w } :=
        ⟨⟨howned.frames.live, howned.frames.apart, howned.frames.bound⟩, howned.sized⟩
      obtain ⟨howned₁, hrest₁, hshaped₁⟩ := openSlots_true howned₀ h₁
      obtain ⟨hopened, hrest₂⟩ := myAllocBuffer_true howned₁
        (fun slot => hshaped₁ slot (mem_slots slot)) h₂
      have hrest := hrest₁.trans hrest₂
      refine ⟨⟨⟨⟨hopened.frames.live, hopened.frames.apart, hopened.frames.bound⟩,
        hopened.sized⟩, fun slot => ?_, hopened.ptr⟩, ?_, ?_, ?_, ?_⟩
      · obtain ⟨hw, hh, hline⟩ := hopened.shaped slot
        exact ⟨hw, hh, hline⟩
      · show s₂.frameCnt = s.frameCnt
        rw [hrest]
      · show s₂.rotateMode = s.rotateMode
        rw [hrest]
      · show s₂.pixelFmt = s.pixelFmt
        rw [hrest]
      · show s₂.temperatureMode = s.temperatureMode
        rw [hrest]

end ThermalUsb

end IotCamera
