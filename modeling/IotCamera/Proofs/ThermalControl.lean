import IotCamera.Lib.Run
import IotCamera.Proofs.ThermalOpen
import IotCamera.Thermal.Control

/-!
# What a call does to the frames

One lemma for each public call says what it can do to an object that owns its
frames, and every later invariant is read off these lemmas. They have a
common part, `Kept`: the call has a result, so that no block is freed twice,
the object owns its frames afterwards as before, and a block that nobody
points to is still there.

A block that nobody points to is `Leaked`. Freeing and allocating a slot
leaks nothing, and neither does a loop over such steps. `uvcClose` does: it
forgets the block of a result plane without freeing it.
-/

namespace IotCamera

open Lts

namespace ThermalUsb

variable {s s' t : ThermalUsb} {slot slot' : Slot} {alloc : Allocator} {p : Nat}
  {slots : List Slot}

/-- A live block that no descriptor points to. -/
def Leaked (s : ThermalUsb) (p : Nat) : Prop :=
  s.heap.block p ≠ none ∧ ∀ slot, (s.desc slot).ptr ≠ some p

theorem leaked_iff (slot : Slot) :
    Leaked s p ↔ s.heap.block p ≠ none ∧ (s.desc slot).ptr ≠ some p ∧
      ∀ slot', slot' ≠ slot → (s.desc slot').ptr ≠ some p := by
  constructor
  · rintro ⟨hlive, hall⟩
    exact ⟨hlive, hall slot, fun slot' _ => hall slot'⟩
  · rintro ⟨hlive, hself, hothers⟩
    refine ⟨hlive, fun slot' => ?_⟩
    by_cases hne : slot' = slot
    · exact hne ▸ hself
    · exact hothers slot' hne

theorem leaked_repoint {ptr : Option Nat} {heap : Heap} :
    Leaked (s.repoint slot ptr heap) p ↔ heap.block p ≠ none ∧ ptr ≠ some p ∧
      ∀ slot', slot' ≠ slot → (s.desc slot').ptr ≠ some p := by
  rw [leaked_iff slot, desc_repoint]
  refine and_congr_right fun _ => and_congr_right fun _ => forall_congr' fun slot' => ?_
  refine imp_congr_right fun hne => ?_
  rw [desc_repoint_ne hne]

theorem leaked_congr (hblock : s'.heap.block p = s.heap.block p)
    (hptr : ∀ slot, (s'.desc slot).ptr = (s.desc slot).ptr) : Leaked s' p ↔ Leaked s p := by
  rw [Leaked, Leaked, hblock]
  simp only [hptr]

theorem ptr_setDesc {d : FrameFormat} (hptr : d.ptr = (s.desc slot).ptr) (slot' : Slot) :
    ((s.setDesc slot d).desc slot').ptr = (s.desc slot').ptr := by
  by_cases hne : slot' = slot
  · subst hne
    rw [desc_setDesc, hptr]
  · rw [(onlySlot_setDesc s.heap).desc slot' hne]

theorem leaked_setDesc {d : FrameFormat} (hptr : d.ptr = (s.desc slot).ptr) :
    Leaked (s.setDesc slot d) p ↔ Leaked s p :=
  leaked_congr rfl (ptr_setDesc hptr)

theorem leaked_freeSlot (hrun : s.freeSlot slot = some s') : Leaked s' p ↔ Leaked s p := by
  cases hptr : (s.desc slot).ptr with
  | none =>
      simp only [freeSlot, hptr, Option.some.injEq] at hrun
      rw [hrun]
  | some q =>
      simp only [freeSlot, hptr] at hrun
      obtain ⟨heap, hfree, rfl⟩ := Option.map_eq_some_iff.1 hrun
      show Leaked (s.repoint slot none heap) p ↔ _
      rw [leaked_repoint, leaked_iff slot, hptr]
      unfold Heap.free at hfree
      split at hfree
      · cases hfree
      · cases hfree
        by_cases hpq : p = q
        · subst hpq
          simp
        · simp [Function.update_of_ne hpq, Ne.symm hpq]

theorem leaked_mallocSlot {ok : Bool} (h : Frames s) (hnull : (s.desc slot).ptr = none)
    (hrun : mallocSlot alloc slot s = (ok, s')) : Leaked s' p ↔ Leaked s p := by
  have hbefore := leaked_iff (s := s) (p := p) slot
  rw [hnull] at hbefore
  cases halloc : alloc s.heap.calls with
  | none =>
      simp only [mallocSlot, Heap.malloc, halloc, Prod.mk.injEq] at hrun
      obtain ⟨-, rfl⟩ := hrun
      rw [hbefore]
      exact leaked_repoint
  | some bytes =>
      simp only [mallocSlot, Heap.malloc, halloc, Prod.mk.injEq] at hrun
      obtain ⟨-, rfl⟩ := hrun
      rw [hbefore]
      refine leaked_repoint.trans ?_
      by_cases hp : p = s.heap.calls
      · -- the new block has an owner, and there was none at its address
        have hfresh : s.heap.block p = none := by
          by_contra hlive
          exact absurd (h.bound p hlive) (by omega)
        simp [hp ▸ hfresh, hp]
      · simp [Function.update_of_ne hp, Ne.symm hp]

/-! ## Calls that keep what is owned -/

structure Kept (s s' : ThermalUsb) : Prop where
  owned : Owned s'
  same : SameRest s s'
  leaked : ∀ p, Leaked s' p ↔ Leaked s p

theorem Kept.refl (h : Owned s) : Kept s s := ⟨h, rfl, fun _ => Iff.rfl⟩

theorem Kept.trans (h : Kept s t) (h' : Kept t s') : Kept s s' :=
  ⟨h'.owned, h.same.trans h'.same, fun p => (h'.leaked p).trans (h.leaked p)⟩

/-- Another geometry for a slot, and its block is freed. -/
theorem reshape_spec (h : Owned s) (slot : Slot) {d : FrameFormat}
    (hptr : d.ptr = (s.desc slot).ptr) :
    ∃ s', (s.setDesc slot d).freeSlot slot = some s' ∧ Kept s s' ∧
      (∀ slot', slot' ≠ slot → s'.desc slot' = s.desc slot') ∧
      s'.desc slot = { d with ptr := none } ∧ s'.heap.calls = s.heap.calls := by
  obtain ⟨s', hrun, hframes, honly, hdesc, hsized⟩ :=
    freeSlot_spec (h.frames.setDesc slot hptr) slot
  have honly' : OnlySlot slot s s' := (onlySlot_setDesc s.heap).trans honly
  rw [desc_setDesc] at hdesc
  refine ⟨s', hrun, ⟨⟨hframes, fun slot' => ?_⟩, honly'.same, fun p => ?_⟩, honly'.desc, hdesc, ?_⟩
  · by_cases hne : slot' = slot
    · exact sized_of_null (by rw [hne, hdesc])
    · exact hsized slot' hne ((h.sized slot').other
        ((onlySlot_setDesc s.heap).desc slot' hne) fun _ _ => rfl)
  · exact (leaked_freeSlot hrun).trans (leaked_setDesc hptr)
  · unfold freeSlot at hrun
    split at hrun
    · cases hrun
      rfl
    · obtain ⟨heap, hfree, rfl⟩ := Option.map_eq_some_iff.1 hrun
      unfold Heap.free at hfree
      split at hfree
      · cases hfree
      · cases hfree
        rfl

theorem freeSlot_kept (h : Owned s) (slot : Slot) :
    ∃ s', s.freeSlot slot = some s' ∧ Kept s s' ∧
      (∀ slot', slot' ≠ slot → s'.desc slot' = s.desc slot') ∧
      s'.desc slot = { s.desc slot with ptr := none } ∧ s'.heap.calls = s.heap.calls := by
  have hsame : s.setDesc slot (s.desc slot) = s := by
    rw [setDesc, Function.update_eq_self]
  obtain ⟨s', hrun, hspec⟩ := reshape_spec h slot (d := s.desc slot) rfl
  rw [hsame] at hrun
  exact ⟨s', hrun, hspec⟩

theorem mallocSlot_kept (alloc : Allocator) (h : Owned s) (hnull : (s.desc slot).ptr = none) :
    ∃ ptr s', mallocSlot alloc slot s = (ptr.isSome, s') ∧ Kept s s' ∧
      (∀ slot', slot' ≠ slot → s'.desc slot' = s.desc slot') ∧
      s'.desc slot = { s.desc slot with ptr := ptr } ∧
      ptr.isSome = (alloc s.heap.calls).isSome ∧ s'.heap.calls = s.heap.calls + 1 := by
  obtain ⟨⟨ok, s'⟩, hrun⟩ : ∃ r, mallocSlot alloc slot s = r := ⟨_, rfl⟩
  obtain ⟨hframes, honly, ⟨ptr, hdesc, hok⟩, hself, hsized⟩ := mallocSlot_spec h.frames hrun
  refine ⟨ptr, s', hok ▸ hrun, ⟨⟨hframes, fun slot' => ?_⟩, honly.same, fun p =>
    leaked_mallocSlot h.frames hnull hrun⟩, honly.desc, hdesc, ?_⟩
  · by_cases hne : slot' = slot
    · exact hne ▸ hself
    · exact hsized slot' hne (h.sized slot')
  · rw [← hok]
    cases halloc : alloc s.heap.calls <;>
      (simp only [mallocSlot, Heap.malloc, halloc, Prod.mk.injEq] at hrun
       obtain ⟨rfl, rfl⟩ := hrun
       exact ⟨rfl, rfl⟩)

theorem freeSlots_spec (slots : List Slot) (h : Owned s) :
    ∃ s', slots.foldlM (fun s slot => freeSlot slot s) s = some s' ∧ Kept s s' ∧
      (∀ slot ∈ slots, s'.desc slot = { s.desc slot with ptr := none }) ∧
      ∀ slot, slot ∉ slots → s'.desc slot = s.desc slot := by
  induction slots generalizing s with
  | nil =>
      exact ⟨s, rfl, .refl h, fun _ hmem => absurd hmem List.not_mem_nil, fun _ _ => rfl⟩
  | cons slot rest ih =>
      obtain ⟨t, ht, hkept, hothers, hdesc, -⟩ := freeSlot_kept h slot
      obtain ⟨s', hs', hkept', hfreed, hrest⟩ := ih hkept.owned
      refine ⟨s', by rw [List.foldlM_cons, ht]; exact hs', hkept.trans hkept',
        fun slot' hmem => ?_, fun slot' hnot => ?_⟩
      · by_cases hne : slot' = slot
        · subst hne
          by_cases hin : slot' ∈ rest
          · rw [hfreed slot' hin, hdesc]
          · rw [hrest slot' hin, hdesc]
        · rw [hfreed slot' ((List.mem_cons.1 hmem).resolve_left hne), hothers slot' hne]
      · rw [List.mem_cons, not_or] at hnot
        rw [hrest slot' hnot.2, hothers slot' hnot.1]

theorem myFreeBuffer_spec (h : Owned s) :
    ∃ s', s.myFreeBuffer = some s' ∧ Kept s s' ∧
      ∀ slot, s'.desc slot = { s.desc slot with ptr := none } := by
  obtain ⟨s', hrun, hkept, hfreed, -⟩ := freeSlots_spec (planeSlots ++ filterSlots) h
  exact ⟨s', hrun, hkept, fun slot => hfreed slot (mem_slots slot)⟩

/-! ## `uvcOpen` -/

theorem slotBytes_of_ne {fmt : PixelFormat} (hfmt : fmt ≠ .y16) (slot : Slot) :
    ∃ bytes, slotBytes fmt slot = some bytes := by
  cases slot with
  | frame i =>
      cases fmt
      case y16 => exact absurd rfl hfmt
      all_goals exact ⟨_, rfl⟩
  | _ => exact ⟨2, rfl⟩

theorem openSlot_kept (width height : Nat) (h : Owned s) (hfmt : s.pixelFmt ≠ .y16)
    (slot : Slot) :
    ∃ s', openSlot width height slot s = some (true, s') ∧ Kept s s' := by
  obtain ⟨bytes, hbytes⟩ := slotBytes_of_ne hfmt slot
  obtain ⟨s', hrun, hkept, -⟩ := reshape_spec h slot (d := { s.desc slot with
    width := width, height := height, bytesPerLine := lineBytes width bytes
    pixelFmt := slotFmt s.pixelFmt slot }) rfl
  refine ⟨s', ?_, hkept⟩
  simp only [openSlot, hbytes]
  rw [hrun, Option.map_some]

theorem allocSlot_kept (alloc : Allocator) (h : Owned s) (slot : Slot) :
    ∃ ok s', allocSlot alloc slot s = some (ok, s') ∧ Kept s s' := by
  obtain ⟨t, ht, hkept, -, hdesc, -⟩ := freeSlot_kept h slot
  have hnull : (t.desc slot).ptr = none := by rw [hdesc]
  obtain ⟨ptr, s', hmalloc, hkept', -⟩ := mallocSlot_kept alloc hkept.owned hnull
  refine ⟨ptr.isSome, s', ?_, hkept.trans hkept'⟩
  rw [allocSlot, ht, Option.map_some, hmalloc]

theorem openSlots_kept (width height : Nat) (slots : List Slot) (h : Owned s)
    (hfmt : s.pixelFmt ≠ .y16) :
    ∃ s', untilFalse (openSlot width height) slots s = some (true, s') ∧ Kept s s' := by
  induction slots generalizing s with
  | nil => exact ⟨s, rfl, .refl h⟩
  | cons slot rest ih =>
      obtain ⟨t, ht, hkept⟩ := openSlot_kept width height h hfmt slot
      obtain ⟨s', hs', hkept'⟩ := ih hkept.owned (by rw [hkept.same]; exact hfmt)
      refine ⟨s', ?_, hkept.trans hkept'⟩
      rw [untilFalse, ht, Option.bind_some]
      exact hs'

theorem allocSlots_kept (alloc : Allocator) (slots : List Slot) (h : Owned s) :
    ∃ ok s', untilFalse (allocSlot alloc) slots s = some (ok, s') ∧ Kept s s' := by
  induction slots generalizing s with
  | nil => exact ⟨true, s, rfl, .refl h⟩
  | cons slot rest ih =>
      obtain ⟨ok, t, ht, hkept⟩ := allocSlot_kept alloc h slot
      cases ok with
      | false =>
          refine ⟨false, t, ?_, hkept⟩
          rw [untilFalse, ht, Option.bind_some]
          rfl
      | true =>
          obtain ⟨ok, s', hs', hkept'⟩ := ih hkept.owned
          refine ⟨ok, s', ?_, hkept.trans hkept'⟩
          rw [untilFalse, ht, Option.bind_some]
          exact hs'

theorem myAllocBuffer_spec (alloc : Allocator) (h : Owned s) :
    ∃ ok s', s.myAllocBuffer alloc = some (ok, s') ∧ Kept s s' ∧
      (ok = false → ∀ slot, (s'.desc slot).ptr = none) := by
  obtain ⟨flag, s₁, h₁, hkept₁⟩ := allocSlots_kept alloc planeSlots h
  obtain ⟨flag', s₂, h₂, hkept₂⟩ := allocSlots_kept alloc filterSlots hkept₁.owned
  obtain ⟨s₃, h₃, hkept₃, hnull⟩ := myFreeBuffer_spec hkept₂.owned
  have hkept := hkept₁.trans hkept₂
  by_cases hok : (flag && flag') = true
  · refine ⟨true, s₂, ?_, hkept, fun hbad => by cases hbad⟩
    simp only [myAllocBuffer, h₁, Option.bind_some, h₂, if_pos hok]
  · refine ⟨false, s₃, ?_, hkept.trans hkept₃, fun _ slot => by rw [hnull]⟩
    simp only [myAllocBuffer, h₁, Option.bind_some, h₂, if_neg hok, h₃, Option.map_some]

/-- What no call but those that set them changes. -/
structure SameMode (s s' : ThermalUsb) : Prop where
  rotateMode : s'.rotateMode = s.rotateMode
  frameIndex : s'.frameIndex = s.frameIndex
  frameCnt : s'.frameCnt = s.frameCnt

theorem SameRest.sameMode (h : SameRest s s') : SameMode s s' := by
  constructor <;> rw [h]

/-- Opening has a result. It succeeds, and all slots are open, or it leaves no
slot with a block. -/
theorem uvcOpen_spec (alloc : Allocator) (w h : Int) (howned : Owned s)
    (hfmt : s.pixelFmt ≠ .y16) :
    ∃ ok s', s.uvcOpen alloc w h = some (ok, s') ∧ Owned s' ∧ SameMode s s' ∧
      s'.pixelFmt = s.pixelFmt ∧ (∀ p, Leaked s' p ↔ Leaked s p) ∧
      (ok = true → Opened (planeSize s.rotateMode w h).1 (planeSize s.rotateMode w h).2 s') ∧
      (ok = false → ∀ slot, (s'.desc slot).ptr = none) := by
  obtain ⟨⟨width, height⟩, hsize⟩ : ∃ r, planeSize s.rotateMode w h = r := ⟨_, rfl⟩
  let s₀ : ThermalUsb := { s with uvcFrameHeight := h, uvcFrameWidth := w }
  have howned₀ : Owned s₀ :=
    ⟨⟨howned.frames.live, howned.frames.apart, howned.frames.bound⟩, howned.sized⟩
  obtain ⟨s₁, h₁, hkept₁⟩ := openSlots_kept width height (planeSlots ++ filterSlots) howned₀ hfmt
  obtain ⟨ok, s₂, h₂, hkept₂, hnull⟩ := myAllocBuffer_spec alloc hkept₁.owned
  have hkept := hkept₁.trans hkept₂
  have hmode := hkept.same.sameMode
  have hpix : s₂.pixelFmt = s.pixelFmt := by rw [hkept.same]
  have hrun : s.uvcOpen alloc w h =
      some (ok, if ok then { s₂ with openFlag := true } else s₂) := by
    unfold uvcOpen
    simp only [hsize]
    rw [h₁, Option.bind_some, if_pos rfl, h₂, Option.map_some]
  cases ok with
  | false =>
      exact ⟨false, s₂, hrun, hkept.owned, ⟨hmode.rotateMode, hmode.frameIndex, hmode.frameCnt⟩,
        hpix, hkept.leaked, fun hbad => (by cases hbad), hnull⟩
  | true =>
      have hopened := (uvcOpen_true howned hsize hrun).1
      rw [hsize]
      exact ⟨true, _, hrun, hopened.toOwned,
        ⟨hmode.rotateMode, hmode.frameIndex, hmode.frameCnt⟩, hpix, hkept.leaked,
        fun _ => hopened, fun hbad => (by cases hbad)⟩

/-! ## `uvcClose` -/

theorem closeSlot_eq (hvictim : closeVictim slot = slot) :
    closeSlot slot s = (s.setDesc slot { s.desc slot with
      width := 0, height := 0, bytesPerLine := 0 }).freeSlot slot := by
  unfold closeSlot freeSlot
  simp only [hvictim, desc_setDesc]
  cases (s.desc slot).ptr with
  | none => rfl
  | some q =>
      simp only [freePtr, Option.map_map]
      rfl

theorem closeSlot_kept (h : Owned s) (slot : Slot) (hvictim : closeVictim slot = slot) :
    ∃ s', closeSlot slot s = some s' ∧ Kept s s' ∧
      (∀ slot', slot' ≠ slot → s'.desc slot' = s.desc slot') ∧ (s'.desc slot).ptr = none := by
  obtain ⟨s', hrun, hkept, hothers, hdesc, -⟩ := reshape_spec h slot
    (d := { s.desc slot with width := 0, height := 0, bytesPerLine := 0 }) rfl
  exact ⟨s', (closeSlot_eq hvictim).trans hrun, hkept, hothers, by rw [hdesc]⟩

/-- The image plane has no block any more when the result plane's turn comes,
so nothing is freed, and the pointer to the block is lost. -/
theorem closeResult_spec (h : Owned s) {i : Fin 2}
    (himg : (s.desc (.imgRawFrame i)).ptr = none) :
    ∃ s', closeSlot (.temperatureResultFrame i) s = some s' ∧ Owned s' ∧ SameRest s s' ∧
      (∀ slot, slot ≠ .temperatureResultFrame i → s'.desc slot = s.desc slot) ∧
      (s'.desc (.temperatureResultFrame i)).ptr = none ∧
      ∀ p, Leaked s' p ↔ Leaked s p ∨ (s.desc (.temperatureResultFrame i)).ptr = some p := by
  obtain ⟨slot, hslot⟩ : ∃ slot, slot = Slot.temperatureResultFrame i := ⟨_, rfl⟩
  rw [← hslot]
  obtain ⟨d, hd⟩ : ∃ d : FrameFormat, d =
    { s.desc slot with width := 0, height := 0, bytesPerLine := 0 } := ⟨_, rfl⟩
  have hdptr : d.ptr = (s.desc slot).ptr := by rw [hd]
  have himg' : ((s.setDesc slot d).desc (.imgRawFrame i)).ptr = none := by
    rw [ptr_setDesc hdptr, himg]
  have hrun : closeSlot slot s = some ((s.setDesc slot d).repoint slot none s.heap) := by
    unfold closeSlot
    rw [← hd]
    simp only [desc_setDesc]
    split
    · next hnull =>
        have hself : (s.setDesc slot d).repoint slot none s.heap = s.setDesc slot d := by
          rw [repoint, setPtr]
          simp only [setDesc, Function.update_self, Function.update_idem]
          rw [← hnull]
        rw [hself]
    · rw [hslot] at himg' ⊢
      rw [closeVictim, himg', freePtr, Option.map_some]
      rfl
  have hframes := frames_repoint (h.frames.setDesc slot hdptr) slot none s.heap
    (fun _ _ _ _ => ⟨rfl, by simp⟩) (fun _ hq => by cases hq) h.frames.bound
  have honly : OnlySlot slot s ((s.setDesc slot d).repoint slot none s.heap) :=
    (onlySlot_setDesc s.heap).trans onlySlot_repoint
  refine ⟨_, hrun, ⟨hframes.1, fun slot' => ?_⟩, honly.same, honly.desc, ?_, fun p => ?_⟩
  · by_cases hne : slot' = slot
    · exact sized_of_null (by rw [hne, desc_repoint])
    · exact hframes.2 slot' hne ((h.sized slot').other
        ((onlySlot_setDesc s.heap).desc slot' hne) fun _ _ => rfl)
  · rw [desc_repoint]
  · rw [leaked_repoint, leaked_iff slot]
    have hothers : (∀ slot', slot' ≠ slot → ((s.setDesc slot d).desc slot').ptr ≠ some p) ↔
        ∀ slot', slot' ≠ slot → (s.desc slot').ptr ≠ some p := by
      simp only [ptr_setDesc hdptr]
    rw [hothers]
    constructor
    · rintro ⟨hlive, -, hrest⟩
      by_cases hself : (s.desc slot).ptr = some p
      · exact Or.inr hself
      · exact Or.inl ⟨hlive, hself, hrest⟩
    · rintro (⟨hlive, -, hrest⟩ | hself)
      · exact ⟨hlive, by simp, hrest⟩
      · exact ⟨h.frames.live slot p hself, by simp, fun slot' hne hp =>
          hne (h.frames.apart slot' slot p hp hself)⟩

/-- The slots of one of the two buffers. -/
def bufferSlots (i : Fin 2) : List Slot :=
  [.frame i, .temperatureRawFrame i, .imgRawFrame i, .temperatureResultFrame i]

theorem closeBuffer_spec (h : Owned s) (i : Fin 2) :
    ∃ s', (bufferSlots i).foldlM (fun s slot => closeSlot slot s) s = some s' ∧ Owned s' ∧
      SameRest s s' ∧ (∀ slot ∈ bufferSlots i, (s'.desc slot).ptr = none) ∧
      (∀ slot, slot ∉ bufferSlots i → s'.desc slot = s.desc slot) ∧
      ∀ p, Leaked s' p ↔ Leaked s p ∨ (s.desc (.temperatureResultFrame i)).ptr = some p := by
  obtain ⟨s₁, h₁, hkept₁, hothers₁, hnull₁⟩ := closeSlot_kept h (.frame i) rfl
  obtain ⟨s₂, h₂, hkept₂, hothers₂, hnull₂⟩ :=
    closeSlot_kept hkept₁.owned (.temperatureRawFrame i) rfl
  obtain ⟨s₃, h₃, hkept₃, hothers₃, hnull₃⟩ :=
    closeSlot_kept hkept₂.owned (.imgRawFrame i) rfl
  obtain ⟨s₄, h₄, howned, hsame, hothers₄, hnull₄, hleaked⟩ :=
    closeResult_spec hkept₃.owned hnull₃
  have hkept := (hkept₁.trans hkept₂).trans hkept₃
  refine ⟨s₄, ?_, howned, hkept.same.trans hsame, ?_, fun slot hslot => ?_, fun p => ?_⟩
  · simp only [bufferSlots, List.foldlM_cons, List.foldlM_nil, Option.bind_eq_bind, h₁,
      Option.bind_some, h₂, h₃, h₄]
    rfl
  · intro slot hslot
    simp only [bufferSlots, List.mem_cons, List.not_mem_nil, or_false] at hslot
    rcases hslot with rfl | rfl | rfl | rfl
    · rw [hothers₄ _ (by simp), hothers₃ _ (by simp), hothers₂ _ (by simp), hnull₁]
    · rw [hothers₄ _ (by simp), hothers₃ _ (by simp), hnull₂]
    · rw [hothers₄ _ (by simp), hnull₃]
    · exact hnull₄
  · simp only [bufferSlots, List.mem_cons, List.not_mem_nil, or_false, not_or] at hslot
    obtain ⟨hne₁, hne₂, hne₃, hne₄⟩ := hslot
    rw [hothers₄ _ hne₄, hothers₃ _ hne₃, hothers₂ _ hne₂, hothers₁ _ hne₁]
  · rw [hleaked, hkept.leaked, hothers₃ _ (by simp), hothers₂ _ (by simp),
      hothers₁ _ (by simp)]

theorem closeSlots_kept (h : Owned s) (slots : List Slot)
    (hvictim : ∀ slot ∈ slots, closeVictim slot = slot) :
    ∃ s', slots.foldlM (fun s slot => closeSlot slot s) s = some s' ∧ Kept s s' ∧
      (∀ slot ∈ slots, (s'.desc slot).ptr = none) ∧
      ∀ slot, (s.desc slot).ptr = none → (s'.desc slot).ptr = none := by
  induction slots generalizing s with
  | nil => exact ⟨s, rfl, .refl h, fun _ hmem => absurd hmem List.not_mem_nil, fun _ hp => hp⟩
  | cons slot rest ih =>
      obtain ⟨t, ht, hkept, hothers, hnull⟩ :=
        closeSlot_kept h slot (hvictim slot List.mem_cons_self)
      obtain ⟨s', hs', hkept', hrest, hkeep⟩ := ih hkept.owned fun slot' hmem =>
        hvictim slot' (List.mem_cons_of_mem slot hmem)
      refine ⟨s', by rw [List.foldlM_cons, ht]; exact hs', hkept.trans hkept', ?_,
        fun slot' hp => hkeep slot' ?_⟩
      · intro slot' hmem
        rcases List.mem_cons.1 hmem with rfl | hmem
        · exact hkeep slot' hnull
        · exact hrest slot' hmem
      · by_cases hne : slot' = slot
        · exact hne ▸ hnull
        · rw [hothers slot' hne]
          exact hp

/-- Closing leaves no slot with a block, and loses those of the two result
planes. -/
theorem uvcClose_spec (h : Owned s) :
    ∃ s', s.uvcClose = some (true, s') ∧ Owned s' ∧ SameMode s s' ∧
      s'.pixelFmt = s.pixelFmt ∧ (∀ slot, (s'.desc slot).ptr = none) ∧
      ∀ p, Leaked s' p ↔
        Leaked s p ∨ ∃ i, (s.desc (.temperatureResultFrame i)).ptr = some p := by
  let s₀ : ThermalUsb := { s with startFlag := false, openFlag := false }
  have howned₀ : Owned s₀ :=
    ⟨⟨h.frames.live, h.frames.apart, h.frames.bound⟩, h.sized⟩
  obtain ⟨s₁, h₁, howned₁, hsame₁, hnull₁, hothers₁, hleaked₁⟩ := closeBuffer_spec howned₀ 0
  obtain ⟨s₂, h₂, howned₂, hsame₂, hnull₂, hothers₂, hleaked₂⟩ := closeBuffer_spec howned₁ 1
  obtain ⟨s₃, h₃, hkept₃, hnull₃, hkeep₃⟩ := closeSlots_kept howned₂ filterSlots (by decide)
  obtain ⟨s₄, h₄, hkept₄, hnull₄⟩ := myFreeBuffer_spec hkept₃.owned
  have hsame : SameRest s₀ s₄ :=
    ((hsame₁.trans hsame₂).trans hkept₃.same).trans hkept₄.same
  refine ⟨s₄, ?_, hkept₄.owned, ?_, by rw [hsame], fun slot => by rw [hnull₄], fun p => ?_⟩
  · have hsplit : planeSlots ++ filterSlots = bufferSlots 0 ++ (bufferSlots 1 ++ filterSlots) :=
      rfl
    unfold uvcClose
    simp only [hsplit, List.foldlM_append, Option.bind_eq_bind]
    rw [h₁, Option.bind_some, h₂, Option.bind_some, h₃, Option.bind_some, h₄, Option.map_some]
  · exact ⟨hsame.sameMode.rotateMode, hsame.sameMode.frameIndex, hsame.sameMode.frameCnt⟩
  · rw [hkept₄.leaked, hkept₃.leaked, hleaked₂, hleaked₁, hothers₁ _ (by decide), or_assoc,
      Fin.exists_fin_two]
    rfl

/-! ## `setPixelFormat` -/

theorem reframe_spec (alloc : Allocator) (h : Owned s) (slot : Slot) (line : Nat) :
    ∃ ptr t s', (s.setDesc slot { s.desc slot with bytesPerLine := line }).freeSlot slot =
        some t ∧ mallocSlot alloc slot t = (ptr.isSome, s') ∧ Kept s s' ∧
      (∀ slot', slot' ≠ slot → s'.desc slot' = s.desc slot') ∧
      s'.desc slot = { s.desc slot with bytesPerLine := line, ptr := ptr } ∧
      ptr.isSome = (alloc s.heap.calls).isSome ∧ s'.heap.calls = s.heap.calls + 1 := by
  obtain ⟨t, ht, hkept, hothers, hdesc, hcalls⟩ := reshape_spec h slot
    (d := { s.desc slot with bytesPerLine := line }) rfl
  have hnull : (t.desc slot).ptr = none := by rw [hdesc]
  obtain ⟨ptr, s', hmalloc, hkept', hothers', hdesc', hsome, hcalls'⟩ :=
    mallocSlot_kept alloc hkept.owned hnull
  refine ⟨ptr, t, s', ht, hmalloc, hkept.trans hkept', fun slot' hne => ?_, ?_, ?_, ?_⟩
  · rw [hothers' slot' hne, hothers slot' hne]
  · rw [hdesc', hdesc]
  · rw [hsome, hcalls]
  · rw [hcalls', hcalls]

/-- The next two allocations succeed. -/
def Grants (alloc : Allocator) (s : ThermalUsb) : Prop :=
  alloc s.heap.calls ≠ none ∧ alloc (s.heap.calls + 1) ≠ none

/-- A slot has the width and the height it had. -/
def SameSize (s s' : ThermalUsb) (slot : Slot) : Prop :=
  (s'.desc slot).width = (s.desc slot).width ∧ (s'.desc slot).height = (s.desc slot).height

/-- What asking for a format can do to an object. -/
inductive Formats (alloc : Allocator) (fmt : PixelFormat) (s s' : ThermalUsb) : Bool → Prop
  /-- it is the format there is, or none the frames can have -/
  | unchanged (ok : Bool) (hfmt : fmt = s.pixelFmt ∨ fmt = .y16) (hsame : s' = s) :
      Formats alloc fmt s s' ok
  | changed (bytes : Nat) (hne : fmt ≠ s.pixelFmt)
      (hbytes : ∀ i, slotBytes fmt (.frame i) = some bytes) (hgrants : Grants alloc s)
      (hpix : s'.pixelFmt = fmt)
      (hframe : ∀ i, ∃ p, s'.desc (.frame i) = { s.desc (.frame i) with
        bytesPerLine := lineBytes (s.desc (.frame i)).width bytes, ptr := some p }) :
      Formats alloc fmt s s' true
  | failed (hne : fmt ≠ s.pixelFmt) (hfmt : fmt ≠ .y16) (hgrants : ¬ Grants alloc s)
      (hpix : s'.pixelFmt = s.pixelFmt) (hfirst : (s'.desc (.frame 0)).ptr = none)
      (hsecond : (s'.desc (.frame 1)).ptr = none ∨ s'.desc (.frame 1) = s.desc (.frame 1))
      (hsize : ∀ i, SameSize s s' (.frame i)) : Formats alloc fmt s s' false

section Frames

variable {fmt : PixelFormat} {bytes : Nat}

theorem formatSlot_given (h : Owned s) (hbytes : slotBytes fmt slot = some bytes)
    (hgiven : alloc s.heap.calls ≠ none) :
    ∃ p s', formatSlot alloc fmt slot s = some (true, s') ∧ Kept s s' ∧
      (∀ slot', slot' ≠ slot → s'.desc slot' = s.desc slot') ∧
      s'.desc slot = { s.desc slot with
        bytesPerLine := lineBytes (s.desc slot).width bytes, ptr := some p } ∧
      s'.heap.calls = s.heap.calls + 1 := by
  obtain ⟨ptr, t, s', hfree, hmalloc, hkept, hothers, hdesc, hsome, hcalls⟩ :=
    reframe_spec alloc h slot (lineBytes (s.desc slot).width bytes)
  rw [Option.isSome_iff_ne_none.2 hgiven, Option.isSome_iff_exists] at hsome
  obtain ⟨p, rfl⟩ := hsome
  refine ⟨p, s', ?_, hkept, hothers, hdesc, hcalls⟩
  simp only [formatSlot, hbytes, hfree, Option.bind_some, hmalloc]
  rfl

/-- A frame that gets no block costs the frames before it theirs. -/
theorem formatSlot_refused (h : Owned s) (hbytes : slotBytes fmt slot = some bytes)
    (hrefused : alloc s.heap.calls = none) :
    ∃ t s', formatSlot alloc fmt slot s = some (false, s') ∧ Kept s t ∧
      (∀ slot', slot' ≠ slot → t.desc slot' = s.desc slot') ∧
      t.desc slot = { s.desc slot with
        bytesPerLine := lineBytes (s.desc slot).width bytes, ptr := none } ∧
      (frameSlots.takeWhile (· ≠ slot)).foldlM (fun s slot => freeSlot slot s) t = some s' := by
  obtain ⟨ptr, u, t, hfree, hmalloc, hkept, hothers, hdesc, hsome, -⟩ :=
    reframe_spec alloc h slot (lineBytes (s.desc slot).width bytes)
  rw [hrefused, Option.isSome_none, Option.isSome_eq_false_iff, Option.isNone_iff_eq_none] at hsome
  subst hsome
  obtain ⟨s', hs', -⟩ := freeSlots_spec (frameSlots.takeWhile (· ≠ slot)) hkept.owned
  refine ⟨t, s', ?_, hkept, hothers, hdesc, hs'⟩
  simp only [formatSlot, hbytes, hfree, Option.bind_some, hmalloc]
  rw [Option.isSome_none, if_neg Bool.false_ne_true, hs', Option.map_some]

theorem untilFalse_frame {f : Slot → ThermalUsb → Option (Bool × ThermalUsb)}
    (h₀ : f (.frame 0) s = some (false, t)) : untilFalse f frameSlots s = some (false, t) := by
  rw [frameSlots, untilFalse, h₀]
  rfl

theorem untilFalse_frames {f : Slot → ThermalUsb → Option (Bool × ThermalUsb)} {ok : Bool}
    (h₀ : f (.frame 0) s = some (true, t)) (h₁ : f (.frame 1) t = some (ok, s')) :
    untilFalse f frameSlots s = some (ok, s') := by
  rw [frameSlots, untilFalse, h₀]
  show untilFalse f [.frame 1] t = _
  rw [untilFalse, h₁]
  cases ok <;> rfl

theorem ne_frame (hslot : slot ∉ frameSlots) (i : Fin 2) : slot ≠ .frame i := by
  have hmem : ∀ i : Fin 2, Slot.frame i ∈ frameSlots := by decide
  intro heq
  exact hslot (heq ▸ hmem i)

/-- There is no block for the first frame. -/
theorem formatSlots_first (h : Owned s) (hbytes : ∀ i, slotBytes fmt (.frame i) = some bytes)
    (hfirst : alloc s.heap.calls = none) :
    ∃ s', untilFalse (formatSlot alloc fmt) frameSlots s = some (false, s') ∧ Kept s s' ∧
      (∀ slot, slot ≠ .frame 0 → s'.desc slot = s.desc slot) ∧
      s'.desc (.frame 0) = { s.desc (.frame 0) with
        bytesPerLine := lineBytes (s.desc (.frame 0)).width bytes, ptr := none } := by
  obtain ⟨t, s', hrun, hkept, hothers, hdesc, hfree⟩ := formatSlot_refused h (hbytes 0) hfirst
  -- nothing comes before the first frame
  obtain rfl : t = s' := Option.some.inj hfree
  exact ⟨t, untilFalse_frame hrun, hkept, hothers, hdesc⟩

/-- There is one for the first, which is lost again, and none for the second. -/
theorem formatSlots_second (h : Owned s) (hbytes : ∀ i, slotBytes fmt (.frame i) = some bytes)
    (hfirst : alloc s.heap.calls ≠ none) (hsecond : alloc (s.heap.calls + 1) = none) :
    ∃ s', untilFalse (formatSlot alloc fmt) frameSlots s = some (false, s') ∧ Kept s s' ∧
      (∀ slot, slot ∉ frameSlots → s'.desc slot = s.desc slot) ∧
      ∀ i, s'.desc (.frame i) = { s.desc (.frame i) with
        bytesPerLine := lineBytes (s.desc (.frame i)).width bytes, ptr := none } := by
  obtain ⟨p, s₁, hrun₁, hkept₁, hothers₁, hdesc₁, hcalls⟩ := formatSlot_given h (hbytes 0) hfirst
  rw [← hcalls] at hsecond
  obtain ⟨t, s', hrun₂, hkept₂, hothers₂, hdesc₂, hfree⟩ :=
    formatSlot_refused hkept₁.owned (hbytes 1) hsecond
  obtain ⟨u, hu, hkept₃, hfreed, hrest⟩ :=
    freeSlots_spec (frameSlots.takeWhile (· ≠ .frame 1)) hkept₂.owned
  obtain rfl : u = s' := Option.some.inj (hu.symm.trans hfree)
  refine ⟨u, untilFalse_frames hrun₁ hrun₂, (hkept₁.trans hkept₂).trans hkept₃,
    fun slot hslot => ?_, Fin.forall_fin_two.2 ⟨?_, ?_⟩⟩
  · rw [hrest slot fun hmem => hslot (List.takeWhile_subset _ hmem),
      hothers₂ slot (ne_frame hslot 1), hothers₁ slot (ne_frame hslot 0)]
  · rw [hfreed _ (by decide), hothers₂ _ (by simp), hdesc₁]
  · rw [hrest _ (by decide), hdesc₂, hothers₁ _ (by simp)]

theorem formatSlots_given (h : Owned s) (hbytes : ∀ i, slotBytes fmt (.frame i) = some bytes)
    (hgrants : Grants alloc s) :
    ∃ s', untilFalse (formatSlot alloc fmt) frameSlots s = some (true, s') ∧ Kept s s' ∧
      (∀ slot, slot ∉ frameSlots → s'.desc slot = s.desc slot) ∧
      ∀ i, ∃ p, s'.desc (.frame i) = { s.desc (.frame i) with
        bytesPerLine := lineBytes (s.desc (.frame i)).width bytes, ptr := some p } := by
  obtain ⟨hfirst, hsecond⟩ := hgrants
  obtain ⟨p, s₁, hrun₁, hkept₁, hothers₁, hdesc₁, hcalls⟩ := formatSlot_given h (hbytes 0) hfirst
  rw [← hcalls] at hsecond
  obtain ⟨q, s₂, hrun₂, hkept₂, hothers₂, hdesc₂, -⟩ :=
    formatSlot_given hkept₁.owned (hbytes 1) hsecond
  refine ⟨s₂, untilFalse_frames hrun₁ hrun₂, hkept₁.trans hkept₂, fun slot hslot => ?_,
    Fin.forall_fin_two.2 ⟨⟨p, ?_⟩, q, ?_⟩⟩
  · rw [hothers₂ slot (ne_frame hslot 1), hothers₁ slot (ne_frame hslot 0)]
  · rw [hothers₂ _ (by simp), hdesc₁]
  · rw [hdesc₂, hothers₁ _ (by simp)]

/-- The first frame has lost its block, and the second has or has not been
reached. -/
theorem formats_failed (hne : fmt ≠ s.pixelFmt) (hfmt : fmt ≠ .y16) (hgrants : ¬ Grants alloc s)
    (hkept : Kept s s')
    (hfirst : s'.desc (.frame 0) = { s.desc (.frame 0) with
      bytesPerLine := lineBytes (s.desc (.frame 0)).width bytes, ptr := none })
    (hsecond : s'.desc (.frame 1) = s.desc (.frame 1) ∨
      s'.desc (.frame 1) = { s.desc (.frame 1) with
        bytesPerLine := lineBytes (s.desc (.frame 1)).width bytes, ptr := none }) :
    Formats alloc fmt s s' false := by
  refine .failed hne hfmt hgrants (by rw [hkept.same]) (by rw [hfirst]) ?_
    (Fin.forall_fin_two.2 ⟨?_, ?_⟩)
  · rcases hsecond with hsame | hlost
    · exact Or.inr hsame
    · exact Or.inl (by rw [hlost])
  · rw [SameSize, hfirst]
    exact ⟨rfl, rfl⟩
  · rcases hsecond with hsame | hlost
    · rw [SameSize, hsame]
      exact ⟨rfl, rfl⟩
    · rw [SameSize, hlost]
      exact ⟨rfl, rfl⟩

theorem formatSlots_spec (alloc : Allocator) (h : Owned s)
    (hbytes : ∀ i, slotBytes fmt (.frame i) = some bytes) (hne : fmt ≠ s.pixelFmt)
    (hfmt : fmt ≠ .y16) :
    ∃ ok s', untilFalse (formatSlot alloc fmt) frameSlots s = some (ok, s') ∧ Kept s s' ∧
      (∀ slot, slot ∉ frameSlots → s'.desc slot = s.desc slot) ∧
      Formats alloc fmt s (if ok then { s' with pixelFmt := fmt } else s') ok := by
  by_cases hfirst : alloc s.heap.calls = none
  · obtain ⟨s', hrun, hkept, hothers, hdesc⟩ := formatSlots_first h hbytes hfirst
    exact ⟨false, s', hrun, hkept, fun slot hslot => hothers slot (ne_frame hslot 0),
      formats_failed hne hfmt (fun hg => hg.1 hfirst) hkept hdesc (Or.inl (hothers _ (by simp)))⟩
  by_cases hsecond : alloc (s.heap.calls + 1) = none
  · obtain ⟨s', hrun, hkept, hothers, hdesc⟩ := formatSlots_second h hbytes hfirst hsecond
    exact ⟨false, s', hrun, hkept, hothers,
      formats_failed hne hfmt (fun hg => hg.2 hsecond) hkept (hdesc 0) (Or.inr (hdesc 1))⟩
  · obtain ⟨s', hrun, hkept, hothers, hdesc⟩ := formatSlots_given h hbytes ⟨hfirst, hsecond⟩
    exact ⟨true, s', hrun, hkept, hothers,
      .changed bytes hne hbytes ⟨hfirst, hsecond⟩ rfl hdesc⟩

end Frames

/-- Asking for a format changes the two colour frames and nothing else. -/
theorem setPixelFormat_spec (alloc : Allocator) (fmt : PixelFormat) (h : Owned s) :
    ∃ ok s', s.setPixelFormat alloc fmt = some (ok, s') ∧ Owned s' ∧ SameMode s s' ∧
      (∀ p, Leaked s' p ↔ Leaked s p) ∧
      (∀ slot, slot ∉ frameSlots → s'.desc slot = s.desc slot) ∧ Formats alloc fmt s s' ok := by
  by_cases heq : s.pixelFmt = fmt
  · exact ⟨true, s, if_pos heq, h, ⟨rfl, rfl, rfl⟩, fun _ => Iff.rfl, fun _ _ => rfl,
      .unchanged true (Or.inl heq.symm) rfl⟩
  by_cases hfmt : fmt = .y16
  · refine ⟨false, s, ?_, h, ⟨rfl, rfl, rfl⟩, fun _ => Iff.rfl, fun _ _ => rfl,
      .unchanged false (Or.inr hfmt) rfl⟩
    rw [setPixelFormat, if_neg heq, hfmt]
    rfl
  have hbytes : ∃ bytes, ∀ i, slotBytes fmt (.frame i) = some bytes := by
    cases fmt
    case y16 => exact absurd rfl hfmt
    all_goals exact ⟨_, fun _ => rfl⟩
  obtain ⟨bytes, hbytes⟩ := hbytes
  obtain ⟨ok, s', hrun, hkept, hothers, hformats⟩ :=
    formatSlots_spec alloc h hbytes (Ne.symm heq) hfmt
  have hmode := hkept.same.sameMode
  refine ⟨ok, _, ?_, ?_, ?_, ?_, ?_, hformats⟩
  · rw [setPixelFormat, if_neg heq, hrun, Option.map_some]
  · cases ok with
    | false => exact hkept.owned
    | true => exact ⟨⟨hkept.owned.frames.live, hkept.owned.frames.apart,
        hkept.owned.frames.bound⟩, hkept.owned.sized⟩
  · cases ok with
    | false => exact hmode
    | true => exact ⟨hmode.rotateMode, hmode.frameIndex, hmode.frameCnt⟩
  · cases ok with
    | false => exact hkept.leaked
    | true => exact hkept.leaked
  · cases ok with
    | false => exact hothers
    | true => exact hothers

/-! ## Every call -/

/-- What a call relies on. -/
structure Sound (s : ThermalUsb) : Prop extends Owned s where
  fmt : s.pixelFmt ≠ .y16

/-- A new object; its rotation is left open. -/
def start (junk : ThermalUsb) (mode : RotateMode) : ThermalUsb :=
  { new junk with rotateMode := mode }

theorem sound_start (junk : ThermalUsb) (mode : RotateMode) : Sound (start junk mode) where
  frames := ⟨fun _ _ => nofun, fun _ _ _ => nofun, fun _ hp => absurd rfl hp⟩
  sized _ := sized_of_null rfl
  fmt := by simp [start, new]

theorem Formats.pixelFmt_ne {fmt : PixelFormat} {ok : Bool} (h : Formats alloc fmt s s' ok)
    (hfmt : s.pixelFmt ≠ .y16) : s'.pixelFmt ≠ .y16 := by
  cases h with
  | unchanged _ _ hsame => rw [hsame]; exact hfmt
  | changed bytes _ hbytes _ hpix =>
      rw [hpix]
      rintro rfl
      cases hbytes 0
  | failed _ _ _ hpix => rw [hpix]; exact hfmt

/-- A call has a result, and what it loses is the result planes' blocks if it
is `close`. -/
theorem control_spec (alloc : Allocator) (h : Sound s) (c : Control) :
    ∃ s', control alloc s c = some s' ∧ Sound s' ∧
      ∀ p, Leaked s' p ↔ Leaked s p ∨
        c = .close ∧ ∃ i, (s.desc (.temperatureResultFrame i)).ptr = some p := by
  cases c with
  | uvcOpen w h' =>
      obtain ⟨ok, s', hrun, howned, -, hpix, hleaked, -⟩ := uvcOpen_spec alloc w h' h.toOwned h.fmt
      exact ⟨s', by rw [control, hrun, Option.map_some], ⟨howned, hpix ▸ h.fmt⟩,
        fun p => (hleaked p).trans (by simp)⟩
  | close =>
      obtain ⟨s', hrun, howned, -, hpix, -, hleaked⟩ := uvcClose_spec h.toOwned
      exact ⟨s', by rw [control, hrun, Option.map_some], ⟨howned, hpix ▸ h.fmt⟩,
        fun p => (hleaked p).trans (by simp)⟩
  | setPixelFormat fmt =>
      obtain ⟨ok, s', hrun, howned, -, hleaked, -, hformats⟩ :=
        setPixelFormat_spec alloc fmt h.toOwned
      exact ⟨s', by rw [control, hrun, Option.map_some], ⟨howned, hformats.pixelFmt_ne h.fmt⟩,
        fun p => (hleaked p).trans (by simp)⟩
  | setPseudoColorMode mode => exact ⟨s, rfl, h, fun p => by simp⟩
  | setTemperatureMode mode =>
      exact ⟨_, rfl, ⟨⟨⟨h.frames.live, h.frames.apart, h.frames.bound⟩, h.sized⟩, h.fmt⟩,
        fun p => by simp [setTemperatureMode, Leaked]⟩

theorem control_run (alloc : Allocator) (calls : List Control) (h : Sound s) :
    ∃ s', Run (control alloc) s calls s' ∧ Sound s' := by
  induction calls generalizing s with
  | nil => exact ⟨s, run_nil.2 rfl, h⟩
  | cons c calls ih =>
      obtain ⟨t, ht, hsound, -⟩ := control_spec alloc h c
      obtain ⟨s', hs', hsound'⟩ := ih hsound
      exact ⟨s', run_cons.2 ⟨t, ht, hs'⟩, hsound'⟩

end ThermalUsb

end IotCamera
