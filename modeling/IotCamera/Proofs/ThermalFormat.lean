import IotCamera.Proofs.ThermalWorking

/-!
# A change of format that fails

`setPixelFormat` answers `false` if the format is none the frames can have, or
if there is no memory. In the first case it has done nothing. In the second
the row length of a frame has been changed and its block has been freed by the
time the new one is asked for, and nothing is put back but the format: a frame
that had a block has none, and `uvc_cb` answers NULL as soon as that frame is
the current one, and stays there.

There are states in which even this changes nothing, namely those a failed
change to the same rows leaves behind. The calls of the allocator have been
made all the same, but a frame does not see how many there were.
-/

namespace IotCamera

open Lts

namespace ThermalUsb

variable {s s' t : ThermalUsb} {alloc : Allocator} {fpu : Fpu} {f : UvcFrame}
  {fmt : PixelFormat} {heap heap' : Heap} {n : Nat}

/-! ## Frames and the count of calls -/

/-- The object at another call of the allocator. -/
def atCall (n : Nat) (s : ThermalUsb) : ThermalUsb := { s with heap := s.heap.atCall n }

theorem bind_of_map {α β γ δ : Type} {x : Option α} {x' : Option β} {c : α → β}
    {k : α → Option γ} {k' : β → Option δ} {g : γ → δ} (hx : x' = x.map c)
    (h : ∀ a, k' (c a) = (k a).map g) : x'.bind k' = (x.bind k).map g := by
  rw [hx]
  cases x with
  | none => rfl
  | some a => exact h a

theorem bind_map {α γ δ : Type} {x : Option α} {k : α → Option γ} {k' : α → Option δ}
    {g : γ → δ} (h : ∀ a, k' a = (k a).map g) : x.bind k' = (x.bind k).map g := by
  cases x with
  | none => rfl
  | some a => exact h a

theorem cells_atCall {lo hi lo' hi' : Nat} {body body' : Nat → Nat → Heap → Option Heap}
    (hbody : ∀ i j h, body' i j (h.atCall n) = (body i j h).map (Heap.atCall n)) :
    forLoop lo hi (fun i => forLoop lo' hi' (body' i)) (heap.atCall n) =
      (forLoop lo hi (fun i => forLoop lo' hi' (body i)) heap).map (Heap.atCall n) :=
  forLoop_map fun i _ => forLoop_map fun j h => hbody i j h

theorem copyPixel_atCall {i j : Nat} :
    copyPixel fpu (s.atCall n) f i j (heap.atCall n) =
      (copyPixel fpu s f i j heap).map (Heap.atCall n) := by
  refine bind_map fun v => ?_
  exact bind_of_map Heap.store16_atCall fun h => bind_map fun v' => Heap.store16_atCall

/-- A step of the object that runs a loop over the heap. -/
theorem heap_atCall {x x' : Option Heap} {k k' : Heap → ThermalUsb}
    (hx : x' = x.map (Heap.atCall n)) (hk : ∀ h, k' (h.atCall n) = (k h).atCall n) :
    x'.map k' = (x.map k).map (atCall n) := by
  rw [hx]
  cases x with
  | none => rfl
  | some h => exact congrArg some (hk h)

theorem copyFrame_atCall :
    (s.atCall n).copyFrame fpu f = (s.copyFrame fpu f).map (atCall n) :=
  heap_atCall (cells_atCall fun _ _ _ => copyPixel_atCall) fun _ => rfl

theorem filterCell_atCall {raw filter : FrameFormat} {i j : Nat} :
    filterCell raw filter i j (heap.atCall n) =
      (filterCell raw filter i j heap).map (Heap.atCall n) :=
  bind_map fun _ => Heap.store16_atCall

theorem resultCell_atCall {result : FrameFormat} {i j : Nat} :
    (s.atCall n).resultCell result i j (heap.atCall n) =
      (s.resultCell result i j heap).map (Heap.atCall n) :=
  bind_map fun _ => Heap.store16_atCall

theorem storeBytes_atCall {ptr : Option Nat} {pos : Nat} {bytes : Byte × Byte × Byte} :
    storeBytes ptr pos bytes (heap.atCall n) =
      (storeBytes ptr pos bytes heap).map (Heap.atCall n) := by
  refine bind_of_map Heap.store8_atCall fun h => ?_
  exact bind_of_map Heap.store8_atCall fun h => Heap.store8_atCall

theorem paintPixel_atCall {l : Levels} {yMax yMin i j : Nat} :
    (s.atCall n).paintPixel fpu l yMax yMin i j (heap.atCall n) =
      (s.paintPixel fpu l yMax yMin i j heap).map (Heap.atCall n) := by
  refine bind_map fun w => ?_
  dsimp only [atCall]
  cases slotBytes s.pixelFmt (.frame s.frameIndex) with
  | none => rfl
  | some bytes => exact bind_map fun column => storeBytes_atCall

theorem processTemperature_atCall :
    (s.atCall n).processTemperature = s.processTemperature.map (atCall n) := by
  unfold processTemperature
  have hfilter : (s.atCall n).filterFrame (s.atCall n).frameCnt = s.filterFrame s.frameCnt := rfl
  rw [hfilter]
  cases s.filterFrame s.frameCnt with
  | none => rfl
  | some filter =>
      rw [Option.bind_some, Option.bind_some]
      refine bind_of_map (cells_atCall fun _ _ _ => filterCell_atCall) fun h => ?_
      exact heap_atCall (cells_atCall fun _ _ _ => resultCell_atCall) fun _ => rfl

theorem ite_atCall {c : Prop} [Decidable c] {x x' : Option ThermalUsb}
    (hx : x' = x.map (atCall n)) :
    (if c then some (s.atCall n) else x') = (if c then some s else x).map (atCall n) := by
  rw [hx]
  split <;> rfl

theorem adaptiveThreshold_atCall :
    (s.atCall n).pseudoColorAdaptiveThreshold1 fpu =
      (s.pseudoColorAdaptiveThreshold1 fpu).map (atCall n) := by
  have hfind : (s.atCall n).infraredFindMaxMin = s.infraredFindMaxMin := rfl
  unfold pseudoColorAdaptiveThreshold1
  rw [hfind]
  refine ite_atCall (bind_map fun y => ?_)
  obtain ⟨yMax, yMin⟩ := y
  refine bind_map fun w => ?_
  exact heap_atCall (cells_atCall fun _ _ _ => paintPixel_atCall) fun _ => rfl

theorem pseudoColor_atCall :
    (s.atCall n).pseudoColor fpu = (s.pseudoColor fpu).map (atCall n) := by
  unfold pseudoColor
  refine ite_atCall ?_
  exact bind_of_map adaptiveThreshold_atCall fun t => processTemperature_atCall

/-- A frame is shown as it would be after any other number of calls of the
allocator. -/
theorem uvc_cb_atCall :
    (s.atCall n).uvc_cb fpu f = (s.uvc_cb fpu f).map fun r => (r.1, r.2.atCall n) := by
  cases hptr : (s.desc (.frame s.frameIndex)).ptr with
  | none =>
      rw [uvc_cb_null hptr, uvc_cb_null (s := s.atCall n) hptr]
      rfl
  | some p =>
      rw [uvc_cb_eq hptr, uvc_cb_eq (s := s.atCall n) hptr]
      have hnoted : (s.atCall n).noted = s.noted.atCall n := rfl
      rw [hnoted]
      refine bind_of_map copyFrame_atCall fun t => ?_
      refine bind_of_map pseudoColor_atCall fun u => ?_
      have hmat : (u.atCall n).depthMat = u.depthMat := rfl
      rw [hmat, Option.map_map]
      rfl

/-- The answers to frames one after the other. -/
def pictures (fpu : Fpu) : ThermalUsb → List UvcFrame → Option (List (Option (Nat × Mat)))
  | _, [] => some []
  | s, f :: fs =>
      (s.uvc_cb fpu f).bind fun r => (pictures fpu r.2 fs).map fun answers => r.1 :: answers

theorem pictures_atCall (fs : List UvcFrame) :
    pictures fpu (s.atCall n) fs = pictures fpu s fs := by
  induction fs generalizing s with
  | nil => rfl
  | cons f fs ih =>
      rw [pictures, pictures, uvc_cb_atCall]
      cases s.uvc_cb fpu f with
      | none => rfl
      | some r =>
          rw [Option.map_some, Option.bind_some, Option.bind_some, ih]

/-- Once the current frame has no block there is never a picture again. -/
theorem pictures_null (hptr : (s.desc (.frame s.frameIndex)).ptr = none) (fs : List UvcFrame) :
    pictures fpu s fs = some (fs.map fun _ => none) := by
  induction fs with
  | nil => rfl
  | cons f fs ih =>
      rw [pictures, uvc_cb_null hptr, Option.bind_some, ih]
      rfl

/-! ## No memory -/

variable {bytes : Nat} {slot : Slot}

/-- The frame is as a failed change to this format leaves it: it has no block,
and the rows are those of the format. -/
def Spent (fmt : PixelFormat) (s : ThermalUsb) (i : Fin 2) : Prop :=
  (s.desc (.frame i)).ptr = none ∧ ∀ bytes, slotBytes fmt (.frame i) = some bytes →
    (s.desc (.frame i)).bytesPerLine = lineBytes (s.desc (.frame i)).width bytes

theorem formatSlot_spent (alloc : Allocator) (hbytes : slotBytes fmt slot = some bytes)
    (hptr : (s.desc slot).ptr = none)
    (hline : (s.desc slot).bytesPerLine = lineBytes (s.desc slot).width bytes) :
    formatSlot alloc fmt slot s =
      if (mallocSlot alloc slot s).1 then some (true, (mallocSlot alloc slot s).2)
      else ((frameSlots.takeWhile (· ≠ slot)).foldlM (fun s slot => freeSlot slot s)
        (mallocSlot alloc slot s).2).map fun s => (false, s) := by
  have hsame : s.setDesc slot { s.desc slot with
      bytesPerLine := lineBytes (s.desc slot).width bytes } = s := by
    rw [← hline]
    exact congrArg (fun desc => { s with desc := desc }) (Function.update_eq_self slot s.desc)
  have hfree : s.freeSlot slot = some s := by
    rw [freeSlot, hptr]
  rw [formatSlot, hbytes]
  dsimp only at hsame ⊢
  rw [hsame, hfree, Option.bind_some]

theorem mallocSlot_refused (hptr : (s.desc slot).ptr = none)
    (hrefused : alloc s.heap.calls = none) :
    mallocSlot alloc slot s = (false, s.atCall (s.heap.calls + 1)) := by
  simp only [mallocSlot, Heap.malloc, hrefused, setPtr]
  refine Prod.ext rfl ?_
  have hsame : Function.update s.desc slot { s.desc slot with ptr := none } = s.desc := by
    rw [← hptr]
    exact Function.update_eq_self slot s.desc
  exact congrArg (fun desc => { s.atCall (s.heap.calls + 1) with desc := desc }) hsame

theorem spent_first (hbytes : ∀ i, slotBytes fmt (.frame i) = some bytes)
    (hspent : Spent fmt s 0) (hfirst : alloc s.heap.calls = none) :
    untilFalse (formatSlot alloc fmt) frameSlots s =
      some (false, s.atCall (s.heap.calls + 1)) := by
  have hrun := formatSlot_spent alloc (hbytes 0) hspent.1 (hspent.2 bytes (hbytes 0))
  rw [mallocSlot_refused hspent.1 hfirst, if_neg Bool.false_ne_true] at hrun
  exact untilFalse_frame hrun

/-- A block that was got and is freed again leaves the heap and the slot as they
were. -/
theorem mallocSlot_freed (h : Owned s) (hptr : (s.desc slot).ptr = none) {content : Nat → Byte}
    (hgiven : alloc s.heap.calls = some content) (n : Nat) :
    ∃ t, mallocSlot alloc slot s = (true, t) ∧
      (∀ slot', slot' ≠ slot → t.desc slot' = s.desc slot') ∧
      t.heap.calls = s.heap.calls + 1 ∧
      (t.atCall n).freeSlot slot = some (s.atCall n) := by
  let d := s.desc slot
  let b : Block := ⟨CInt.u32 (d.bytesPerLine * d.height), content⟩
  have hfresh : s.heap.block s.heap.calls = none := by
    by_contra hlive
    exact absurd (h.frames.bound _ hlive) (by omega)
  refine ⟨s.repoint slot (some s.heap.calls)
    ⟨Function.update s.heap.block s.heap.calls (some b), s.heap.calls + 1⟩, ?_,
    fun slot' hne => desc_repoint_ne hne, rfl, ?_⟩
  · simp only [mallocSlot, Heap.malloc, hgiven]
    rfl
  · have hfree : (Heap.mk (Function.update s.heap.block s.heap.calls (some b)) n).free
        s.heap.calls = some ⟨s.heap.block, n⟩ := by
      simp only [Heap.free, Function.update_self, Function.update_idem]
      rw [← hfresh, Function.update_eq_self]
    have hdesc : Function.update (Function.update s.desc slot
        { d with ptr := some s.heap.calls }) slot { d with ptr := none } = s.desc := by
      rw [Function.update_idem, ← hptr]
      exact Function.update_eq_self _ _
    simp only [freeSlot, repoint, atCall, Heap.atCall, setPtr, setDesc, Function.update_self]
    rw [hfree, Option.map_some, hdesc]

/-- The block the first frame gets is freed again when the second gets none. -/
theorem spent_second (h : Owned s) (hbytes : ∀ i, slotBytes fmt (.frame i) = some bytes)
    (hspent : ∀ i, Spent fmt s i) {content : Nat → Byte}
    (hfirst : alloc s.heap.calls = some content) (hsecond : alloc (s.heap.calls + 1) = none) :
    untilFalse (formatSlot alloc fmt) frameSlots s =
      some (false, s.atCall (s.heap.calls + 2)) := by
  obtain ⟨t, ht, hothers, htcalls, htfree⟩ :=
    mallocSlot_freed h (hspent 0).1 hfirst (s.heap.calls + 2)
  have htdesc : t.desc (.frame 1) = s.desc (.frame 1) := hothers _ (by simp)
  have hrun₁ := formatSlot_spent alloc (hbytes 0) (hspent 0).1
    ((hspent 0).2 bytes (hbytes 0))
  rw [ht, if_pos rfl] at hrun₁
  have hrun₂ := formatSlot_spent (s := t) alloc (hbytes 1)
    (by rw [htdesc]; exact (hspent 1).1) (by rw [htdesc]; exact (hspent 1).2 bytes (hbytes 1))
  rw [mallocSlot_refused (by rw [htdesc]; exact (hspent 1).1) (by rw [htcalls]; exact hsecond),
    if_neg Bool.false_ne_true, htcalls] at hrun₂
  have hrest : (frameSlots.takeWhile (· ≠ .frame 1)).foldlM (fun s slot => freeSlot slot s)
      (t.atCall (s.heap.calls + 2)) = some (s.atCall (s.heap.calls + 2)) := by
    show (freeSlot (.frame 0) _).bind _ = _
    rw [htfree]
    rfl
  rw [hrest, Option.map_some] at hrun₂
  exact untilFalse_frames hrun₁ hrun₂

/-! ## What a failed change leaves -/

/-- The colour frames have the format, the geometry and the blocks they had or
had not, and whatever the camera sends is answered as it would have been. -/
structure Unchanged (fpu : Fpu) (s s' : ThermalUsb) : Prop where
  pixelFmt : s'.pixelFmt = s.pixelFmt
  size : ∀ i, SameSize s s' (.frame i)
  line : ∀ i, (s'.desc (.frame i)).bytesPerLine = (s.desc (.frame i)).bytesPerLine
  block : ∀ i, (s'.desc (.frame i)).ptr.isSome = (s.desc (.frame i)).ptr.isSome
  pictures : ∀ fs, pictures fpu s' fs = pictures fpu s fs

theorem unchanged_atCall (fpu : Fpu) (n : Nat) (s : ThermalUsb) : Unchanged fpu s (s.atCall n) :=
  ⟨rfl, fun _ => ⟨rfl, rfl⟩, fun _ => rfl, fun _ => rfl, pictures_atCall⟩

/-- There is nothing to change, or both frames get their blocks, or those
that would lose theirs are spent already: the first if there is no block for
it, both if there is one. -/
def Stays (alloc : Allocator) (fmt : PixelFormat) (s : ThermalUsb) : Prop :=
  fmt = s.pixelFmt ∨ fmt = .y16 ∨ Grants alloc s ∨
    ∀ i : Fin 2, (alloc s.heap.calls = none → i.val = 0) → Spent fmt s i

/-- A frame that lost its block and is as it was has been spent before. -/
theorem Unchanged.spent {i : Fin 2} (h : Unchanged fpu s s')
    (hbytes : ∀ i, slotBytes fmt (.frame i) = some bytes)
    (hdesc : s'.desc (.frame i) = { s.desc (.frame i) with
      bytesPerLine := lineBytes (s.desc (.frame i)).width bytes, ptr := none }) :
    Spent fmt s i := by
  have hblock := h.block i
  have hline := h.line i
  rw [hdesc] at hblock hline
  refine ⟨Option.not_isSome_iff_eq_none.1 (by rw [← hblock]; exact Bool.false_ne_true), ?_⟩
  intro bytes' hbytes'
  rw [hbytes i, Option.some.injEq] at hbytes'
  rw [← hbytes', ← hline]

theorem setPixelFormat_of_failed (hne : s.pixelFmt ≠ fmt)
    (hrun : untilFalse (formatSlot alloc fmt) frameSlots s = some (false, s')) :
    s.setPixelFormat alloc fmt = some (false, s') := by
  rw [setPixelFormat, if_neg hne, hrun]
  rfl

theorem refused_first (fpu : Fpu) (h : Owned s) (hne : s.pixelFmt ≠ fmt)
    (hbytes : ∀ i, slotBytes fmt (.frame i) = some bytes) (hfirst : alloc s.heap.calls = none) :
    ∃ s', s.setPixelFormat alloc fmt = some (false, s') ∧
      (Unchanged fpu s s' ↔ Spent fmt s 0) := by
  by_cases hspent : Spent fmt s 0
  · exact ⟨_, setPixelFormat_of_failed hne (spent_first hbytes hspent hfirst),
      iff_of_true (unchanged_atCall fpu _ s) hspent⟩
  · obtain ⟨s', hrun, -, -, hzero⟩ := formatSlots_first h hbytes hfirst
    exact ⟨s', setPixelFormat_of_failed hne hrun,
      iff_of_false (fun hu => hspent (hu.spent hbytes hzero)) hspent⟩

theorem refused_second (fpu : Fpu) (h : Owned s) (hne : s.pixelFmt ≠ fmt)
    (hbytes : ∀ i, slotBytes fmt (.frame i) = some bytes) {content : Nat → Byte}
    (hfirst : alloc s.heap.calls = some content) (hsecond : alloc (s.heap.calls + 1) = none) :
    ∃ s', s.setPixelFormat alloc fmt = some (false, s') ∧
      (Unchanged fpu s s' ↔ ∀ i, Spent fmt s i) := by
  by_cases hspent : ∀ i, Spent fmt s i
  · exact ⟨_, setPixelFormat_of_failed hne (spent_second h hbytes hspent hfirst hsecond),
      iff_of_true (unchanged_atCall fpu _ s) hspent⟩
  · obtain ⟨s', hrun, -, -, hdesc⟩ :=
      formatSlots_second h hbytes (by rw [hfirst]; exact Option.some_ne_none _) hsecond
    exact ⟨s', setPixelFormat_of_failed hne hrun,
      iff_of_false (fun hu => hspent fun i => hu.spent hbytes (hdesc i)) hspent⟩

theorem setPixelFormat_granted (h : Owned s) (hne : s.pixelFmt ≠ fmt) (hfmt : fmt ≠ .y16)
    (hgrants : Grants alloc s) : ∃ s', s.setPixelFormat alloc fmt = some (true, s') := by
  obtain ⟨ok, s', hrun, -, -, -, -, hformats⟩ := setPixelFormat_spec alloc fmt h
  cases hformats with
  | unchanged _ hor _ =>
      cases hor with
      | inl heq => exact absurd heq.symm hne
      | inr heq => exact absurd heq hfmt
  | changed _ _ _ _ _ _ => exact ⟨s', hrun⟩
  | failed _ _ hnot => exact absurd hgrants hnot

/-- In every state an object can be in, a change of format that answers
`false` leaves everything as it was exactly if there was nothing to change, or
it changed nothing that a failed change had not changed before; one that gets
both its blocks does not answer `false`. -/
theorem setPixelFormat_atomic_iff {junk : ThermalUsb} {mode : RotateMode} {calls : List Call}
    (hrun : Run (call fpu alloc) (start junk mode) calls s) (fmt : PixelFormat) :
    ∃ ok s', s.setPixelFormat alloc fmt = some (ok, s') ∧
      ((ok = false → Unchanged fpu s s') ↔ Stays alloc fmt s) := by
  have hbegun : Begun mode s :=
    hrun.invariant (I := Begun mode) (fun _ _ _ hs hcall => hs.call hcall) (begun_start junk mode)
  have howned := hbegun.toOwned
  by_cases heq : s.pixelFmt = fmt
  · exact ⟨true, s, if_pos heq, iff_of_true (fun hok => absurd hok.symm Bool.false_ne_true)
      (Or.inl heq.symm)⟩
  by_cases hfmt : fmt = .y16
  · refine ⟨false, s, setPixelFormat_of_failed heq ?_, iff_of_true (fun _ => ?_)
      (Or.inr (Or.inl hfmt))⟩
    · rw [hfmt]
      rfl
    · exact ⟨rfl, fun _ => ⟨rfl, rfl⟩, fun _ => rfl, fun _ => rfl, fun _ => rfl⟩
  obtain ⟨bytes, hbytes⟩ : ∃ bytes, ∀ i, slotBytes fmt (.frame i) = some bytes := by
    cases fmt
    case y16 => exact absurd rfl hfmt
    all_goals exact ⟨_, fun _ => rfl⟩
  have hstays : Stays alloc fmt s ↔ Grants alloc s ∨
      ∀ i : Fin 2, (alloc s.heap.calls = none → i.val = 0) → Spent fmt s i := by
    rw [Stays, or_iff_right (Ne.symm heq), or_iff_right hfmt]
  cases hfirst : alloc s.heap.calls with
  | none =>
      obtain ⟨s', hset, hiff⟩ := refused_first fpu howned heq hbytes hfirst
      refine ⟨false, s', hset, ?_⟩
      rw [hstays, Grants, hfirst]
      simpa [Fin.forall_fin_two] using hiff
  | some content =>
      cases hsecond : alloc (s.heap.calls + 1) with
      | none =>
          obtain ⟨s', hset, hiff⟩ := refused_second fpu howned heq hbytes hfirst hsecond
          refine ⟨false, s', hset, ?_⟩
          rw [hstays, Grants, hfirst, hsecond]
          simpa [Fin.forall_fin_two] using hiff
      | some content' =>
          have hgrants : Grants alloc s := by
            rw [Grants, hfirst, hsecond]
            exact ⟨Option.some_ne_none _, Option.some_ne_none _⟩
          obtain ⟨s', hset⟩ := setPixelFormat_granted howned heq hfmt hgrants
          exact ⟨true, s', hset, iff_of_true (fun hok => absurd hok.symm Bool.false_ne_true)
            (hstays.2 (Or.inl hgrants))⟩

theorem setPixelFormat_atomic_open :
    ∃ s, Run (call ⟨fun _ => 0, fun _ => 0⟩ thirteen) (start default .rotate0)
        [.control (.uvcOpen 256 384)] s ∧
      ∀ fmt, ∃ ok s', s.setPixelFormat thirteen fmt = some (ok, s') ∧
        ((ok = false → Unchanged ⟨fun _ => 0, fun _ => 0⟩ s s') ↔ Stays thirteen fmt s) := by
  have hopen : ((start default .rotate0).uvcOpen thirteen 256 384).map Prod.fst = some true := rfl
  obtain ⟨⟨ok, s⟩, hs, -⟩ := Option.map_eq_some_iff.1 hopen
  have hrun : Run (call ⟨fun _ => 0, fun _ => 0⟩ thirteen) (start default .rotate0)
      [.control (.uvcOpen 256 384)] s :=
    run_single.2 (by rw [call, control, hs, Option.map_some])
  exact ⟨s, hrun, fun fmt => setPixelFormat_atomic_iff hrun fmt⟩

/-- The object is open, and there is no memory for four bytes a pixel: the
rows of the first frame have become longer, its block is gone, and the camera
is never shown again. -/
theorem setPixelFormat_loses_block :
    ∃ s s', Run (call ⟨fun _ => 0, fun _ => 0⟩ thirteen) (start default .rotate0)
        [.control (.uvcOpen 256 384)] s ∧ s.openFlag = true ∧
      s.setPixelFormat thirteen .rgb32 = some (false, s') ∧
      (s.desc (.frame 0)).ptr.isSome = true ∧ (s'.desc (.frame 0)).ptr.isSome = false ∧
      (s.desc (.frame 0)).bytesPerLine = 768 ∧ (s'.desc (.frame 0)).bytesPerLine = 1024 ∧
      ∀ fpu fs, pictures fpu s' fs = some (fs.map fun _ => none) := by
  have hopen : ((start default .rotate0).uvcOpen thirteen 256 384).bind (fun r =>
      (r.2.setPixelFormat thirteen .rgb32).map fun r' =>
        (r'.1, r.2.openFlag, (r.2.desc (.frame 0)).ptr, (r'.2.desc (.frame 0)).ptr,
          (r.2.desc (.frame 0)).bytesPerLine, (r'.2.desc (.frame 0)).bytesPerLine,
          r'.2.frameIndex)) = some (false, true, some 0, none, 768, 1024, 0) := rfl
  obtain ⟨⟨ok, s⟩, hs, hopen⟩ := Option.bind_eq_some_iff.1 hopen
  obtain ⟨⟨ok', s'⟩, hs', heq⟩ := Option.map_eq_some_iff.1 hopen
  simp only [Prod.mk.injEq] at heq
  obtain ⟨rfl, hflag, hbefore, hafter, hline, hline', hindex⟩ := heq
  refine ⟨s, s', run_single.2 ?_, hflag, hs', by rw [hbefore]; rfl, by rw [hafter]; rfl, hline,
    hline', fun fpu fs => pictures_null ?_ fs⟩
  · rw [call, control, hs, Option.map_some]
  · rw [hindex, hafter]

end ThermalUsb

end IotCamera
