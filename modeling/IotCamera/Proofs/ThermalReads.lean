import IotCamera.Lib.Sweep
import IotCamera.Proofs.ThermalGuard
import IotCamera.Thermal.Capture

/-!
# What is read of a camera frame

The copy loops read two samples for each pixel, one in each half, and
`UvcFrame.Reads` says at which bytes. That these bytes are all that matters
of the block is shown first: the loops have no result if one of them is
outside the block, and they have the same result for any two blocks that
agree on them.

Nobody compares the length the driver reported with the size the loops
assume, so they stay inside the block exactly if the block happens to be long
enough.
-/

namespace IotCamera

namespace UvcFrame

/-- The copy loops read byte `k` of the frame's data. -/
def Reads (f : UvcFrame) (k : Nat) : Prop :=
  ∃ i j, i < f.height / 2 ∧ j < f.width ∧
    (k = f.upper i j ∨ k = f.upper i j + 1 ∨ k = f.lower i j ∨ k = f.lower i j + 1)

theorem reads_upper {f : UvcFrame} {i j : Nat} (hi : i < f.height / 2) (hj : j < f.width) :
    f.Reads (f.upper i j) ∧ f.Reads (f.upper i j + 1) :=
  ⟨⟨i, j, hi, hj, Or.inl rfl⟩, i, j, hi, hj, Or.inr (Or.inl rfl)⟩

theorem reads_lower {f : UvcFrame} {i j : Nat} (hi : i < f.height / 2) (hj : j < f.width) :
    f.Reads (f.lower i j) ∧ f.Reads (f.lower i j + 1) :=
  ⟨⟨i, j, hi, hj, Or.inr (Or.inr (Or.inl rfl))⟩, i, j, hi, hj, Or.inr (Or.inr (Or.inr rfl))⟩

end UvcFrame

namespace ThermalUsb

variable {s s' : ThermalUsb} {fpu : Fpu} {f f' : UvcFrame} {heap heap' : Heap} {i j k : Nat}

theorem load16_inside {b : Block} {off : Nat} {v : BitVec 16} (h : b.load16 off = some v) :
    off + 2 ≤ b.size := by
  unfold Block.load16 at h
  split at h
  · next hin => exact hin
  · cases h

theorem copyPixel_inside (hrun : copyPixel fpu s f i j heap = some heap') :
    f.upper i j + 2 ≤ f.data.size ∧ f.lower i j + 2 ≤ f.data.size := by
  obtain ⟨v, hv, hrun⟩ := Option.bind_eq_some_iff.1 hrun
  obtain ⟨heap₁, -, hrun⟩ := Option.bind_eq_some_iff.1 hrun
  obtain ⟨v', hv', -⟩ := Option.bind_eq_some_iff.1 hrun
  exact ⟨load16_inside hv, load16_inside hv'⟩

/-- A pixel that was reached was copied. -/
theorem copyFrame_each (hrun : s.copyFrame fpu f = some s') (hi : i < f.height / 2)
    (hj : j < f.width) :
    ∃ h h', Heap.SameShape s.heap h ∧ copyPixel fpu s f i j h = some h' := by
  obtain ⟨heap, hloop, -⟩ := Option.map_eq_some_iff.1 hrun
  exact sweep_each (J := Heap.SameShape s.heap)
    (fun i j h h' hh hp => hh.trans (copyPixel_shape hp)) hloop (.refl _)
    ⟨Nat.zero_le i, hi, Nat.zero_le j, hj⟩

/-- The loops have a result only if all they read is inside the block. -/
theorem reads_inside (hrun : s.copyFrame fpu f = some s') (hk : f.Reads k) :
    k < f.data.size := by
  obtain ⟨i, j, hi, hj, hk⟩ := hk
  obtain ⟨h, h', -, hpixel⟩ := copyFrame_each hrun hi hj
  have hin := copyPixel_inside hpixel
  omega

/-- What they do depends on nothing else of the block. -/
theorem copyFrame_congr (hwidth : f'.width = f.width) (hheight : f'.height = f.height)
    (hstep : f'.step = f.step) (hin : ∀ k, f.Reads k → k < f.data.size ∧ k < f'.data.size)
    (hbyte : ∀ k, f.Reads k → f'.data.byte k = f.data.byte k) :
    s.copyFrame fpu f' = s.copyFrame fpu f := by
  have hload : ∀ off, f.Reads off ∧ f.Reads (off + 1) →
      f'.data.load16 off = f.data.load16 off := by
    rintro off ⟨hlo, hhi⟩
    have hin' := hin _ hhi
    rw [Block.load16_eq (by omega), Block.load16_eq (by omega),
      Block.word_congr (hbyte off hlo) (hbyte _ hhi)]
  have hbody : ∀ i, i < f.height / 2 → ∀ j h, 0 ≤ j → j < f.width →
      copyPixel fpu s f' i j h = copyPixel fpu s f i j h := by
    intro i hi j h _ hj
    have hupper : f'.upper i j = f.upper i j := by
      rw [UvcFrame.upper, UvcFrame.upper, hstep]
    have hlower : f'.lower i j = f.lower i j := by
      rw [UvcFrame.lower, UvcFrame.lower, hstep, hheight]
    simp only [copyPixel, hupper, hlower, hload _ (UvcFrame.reads_upper hi hj),
      hload _ (UvcFrame.reads_lower hi hj)]
  unfold copyFrame
  rw [hheight, hwidth]
  refine congrArg _ (forLoop_congr (fun i t _ hi => ?_) s.heap)
  exact forLoop_congr (hbody i hi) t

/-- A call of `uvc_cb` reads byte `k` of the frame's data. -/
def ReadsData (s : ThermalUsb) (f : UvcFrame) (k : Nat) : Prop :=
  (s.desc (.frame s.frameIndex)).ptr ≠ none ∧ f.Reads k

theorem readsData_inside {r : Option (Nat × Mat)} (hrun : s.uvc_cb fpu f = some (r, s'))
    (hk : s.ReadsData f k) : k < f.data.size := by
  unfold uvc_cb at hrun
  split at hrun
  · next hnull => exact absurd hnull hk.1
  · obtain ⟨s₁, h₁, -⟩ := Option.bind_eq_some_iff.1 hrun
    exact reads_inside h₁ hk.2

/-! ## The camera's frames -/

theorem v4l2_read_frame_data {bufs : List MappedBuf} {o : ReadAnswer} {r : ReadFrame}
    (hread : v4l2_read_frame bufs o = some r) (hlen : 0 < r.dlen) :
    ∃ data, r.data = some data ∧ r.dlen = data.size := by
  unfold v4l2_read_frame at hread
  split at hread
  · cases hread
    exact absurd hlen (Int.lt_irrefl 0)
  split at hread
  · cases hread
    exact absurd hlen (Int.lt_irrefl 0)
  obtain ⟨buf, -, hread⟩ := Option.bind_eq_some_iff.1 hread
  split at hread
  · cases hread
    exact absurd hlen (Int.lt_irrefl 0)
  split at hread
  · cases hread
    exact ⟨_, rfl, rfl⟩
  · cases hread

/-- The last byte of the last sample. -/
theorem irFrame_last {w h : Nat} {data : Block} (hw : w ≠ 0) (hh : 2 ≤ h) :
    (irFrame w h data).Reads (2 * w * (h / 2 * 2) - 1) := by
  refine ⟨h / 2 - 1, w - 1, ?_, ?_, Or.inr (Or.inr (Or.inr ?_))⟩
  · show h / 2 - 1 < h / 2
    omega
  · show w - 1 < w
    omega
  · show _ = w * 2 * (h / 2 - 1 + h / 2) + 2 * (w - 1) + 1
    obtain ⟨n, hn⟩ : ∃ n, h / 2 = n + 1 := ⟨h / 2 - 1, by omega⟩
    obtain ⟨m, rfl⟩ : ∃ m, w = m + 1 := ⟨w - 1, by omega⟩
    rw [hn, Nat.add_sub_cancel, Nat.add_sub_cancel]
    have hleft : 2 * (m + 1) * ((n + 1) * 2) = (m + 1) * 2 * (n + (n + 1)) + 2 * (m + 1) := by
      ring
    omega

theorem irFrame_reads_lt {w h : Nat} {data : Block} (hk : (irFrame w h data).Reads k) :
    k < 2 * w * (h / 2 * 2) := by
  obtain ⟨i, j, hi, hj, hk⟩ := hk
  change i < h / 2 at hi
  change j < w at hj
  change k = w * 2 * i + 2 * j ∨ k = w * 2 * i + 2 * j + 1 ∨
    k = w * 2 * (i + h / 2) + 2 * j ∨ k = w * 2 * (i + h / 2) + 2 * j + 1 at hk
  have hupper : w * 2 * (i + 1) ≤ w * 2 * (h / 2 * 2) := Nat.mul_le_mul_left _ (by omega)
  have hlower : w * 2 * (i + h / 2 + 1) ≤ w * 2 * (h / 2 * 2) :=
    Nat.mul_le_mul_left _ (by omega)
  rw [Nat.mul_succ] at hupper hlower
  rw [Nat.mul_comm 2 w]
  omega

/-- A frame the capture loop receives, of whatever length, is read within that
length exactly if there is no colour frame to fill, or no pixel, or the length
is at least that of the rows the loops assume. Where it is not, the loop's
body has no result. -/
theorem reads_within_iff (fpu : Fpu) {bufs : List MappedBuf} {o : ReadAnswer} {r : ReadFrame}
    {w h : Nat} (hread : v4l2_read_frame bufs o = some r) (hlen : 0 < r.dlen) :
    ∃ data, r.data = some data ∧ r.dlen = data.size ∧
      ((∀ k, s.ReadsData (irFrame w h data) k → (k : Int) < r.dlen) ↔
        (s.desc (.frame s.frameIndex)).ptr = none ∨ w = 0 ∨ h < 2 ∨
          ((2 * w * (h / 2 * 2) : Nat) : Int) ≤ r.dlen) ∧
      (captureFrame fpu w h bufs o s ≠ none →
        ∀ k, s.ReadsData (irFrame w h data) k → (k : Int) < r.dlen) := by
  obtain ⟨data, hdata, hsize⟩ := v4l2_read_frame_data hread hlen
  refine ⟨data, hdata, hsize, ⟨fun hall => ?_, fun hcond k hk => ?_⟩, fun hcapture k hk => ?_⟩
  · by_contra hnot
    simp only [not_or, Int.not_le, Nat.not_lt] at hnot
    obtain ⟨hptr, hw, hh, hshort⟩ := hnot
    have hlast := hall _ ⟨hptr, irFrame_last hw hh⟩
    omega
  · have hlt := irFrame_reads_lt hk.2
    obtain ⟨i, j, hi, hj, -⟩ := hk.2
    change i < h / 2 at hi
    change j < w at hj
    rcases hcond with hnull | hw | hh | hlong
    · exact absurd hnull hk.1
    · omega
    · omega
    · omega
  · obtain ⟨s', hs'⟩ := Option.ne_none_iff_exists'.1 hcapture
    rw [captureFrame, hread, Option.bind_some, if_neg (by omega), hdata, Option.bind_some] at hs'
    obtain ⟨⟨a, t⟩, hrun, -⟩ := Option.map_eq_some_iff.1 hs'
    have := readsData_inside hrun hk
    change k < data.size at this
    omega

/-- The object as `run` opens it. -/
theorem opened_camera :
    ∃ s, uvcOpen (fun _ => some fun _ => 0) 256 384 (start default .rotate0) = some (true, s) ∧
      (s.desc (.frame s.frameIndex)).ptr ≠ none := by
  have hrun : (uvcOpen (fun _ => some fun _ => 0) 256 384 (start default .rotate0)).map
      (fun r => (r.1, (r.2.desc (.frame r.2.frameIndex)).ptr)) = some (true, some 0) := rfl
  obtain ⟨⟨ok, s⟩, hs, heq⟩ := Option.map_eq_some_iff.1 hrun
  obtain ⟨hok, hptr⟩ := Prod.mk.inj heq
  change (s.desc (.frame s.frameIndex)).ptr = some 0 at hptr
  refine ⟨s, by rw [hs, ← hok], ?_⟩
  rw [hptr]
  exact Option.some_ne_none 0

/-- A buffer with two bytes for each sample is enough. -/
theorem reads_within_full :
    ∃ s, uvcOpen (fun _ => some fun _ => 0) 256 384 (start default .rotate0) = some (true, s) ∧
      ∃ data, ∀ k, s.ReadsData (irFrame 256 384 data) k → (k : Int) < 196608 := by
  obtain ⟨s, hs, -⟩ := opened_camera
  have hread : v4l2_read_frame [⟨196608, fun _ => 0⟩] ⟨1, 0, 0, true, 0⟩ =
      some ⟨0, some ⟨196608, fun _ => 0⟩, 196608⟩ := rfl
  obtain ⟨data, -, -, hiff, -⟩ := reads_within_iff (s := s) (w := 256) (h := 384)
    ⟨fun _ => 0, fun _ => 0⟩ hread (by decide)
  exact ⟨s, hs, data, hiff.2 (Or.inr (Or.inr (Or.inr (by decide))))⟩

/-- A buffer of the format `run` asks the driver for, with twelve bits for
each sample, is not. -/
theorem reads_beyond_nv12 :
    ∃ s, uvcOpen (fun _ => some fun _ => 0) 256 384 (start default .rotate0) = some (true, s) ∧
      ∃ r data, v4l2_read_frame [⟨147456, fun _ => 0⟩] ⟨1, 0, 0, true, 0⟩ = some r ∧
        r.data = some data ∧ r.dlen = 147456 ∧ s.ReadsData (irFrame 256 384 data) 196607 := by
  obtain ⟨s, hs, hptr⟩ := opened_camera
  exact ⟨s, hs, _, _, rfl, rfl, rfl, hptr, irFrame_last (w := 256) (h := 384) (by decide)
    (by decide)⟩

end ThermalUsb

end IotCamera
