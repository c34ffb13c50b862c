import IotCamera.Proofs.ThermalRing

/-!
# The temporal mean

The result plane is meant to hold, cell by cell, the mean of the last five
filtered planes. The loop that computes it sets `ptr16` to the start of row
`i` of a filter plane and then adds `ptr16[0]`, where the filter above it
wrote `ptr16Dst[j]`: every cell of the row gets the mean of the first column.
The filter never writes the first column, so the result is made of whatever
`malloc` left there, and it is the intended mean exactly where the two happen
to agree.
-/

namespace IotCamera

open Layout Lts

namespace ThermalUsb

variable {s₀ : ThermalUsb} {width height : Nat}

/-- The truncated mean, over the last five calls, of the truncated 3×3 mean of
each call's raw plane. -/
def temporalMean (L : Layout) (fs : List Feed) (i j : Nat) : Int :=
  ((fs.drop (fs.length - 5)).map fun f => boxMean L (f.plane L) i j).sum.tdiv 5

/-- The current result plane holds the temporal means of a history. -/
def ResultIsMean (L : Layout) (fs : List Feed) (s : ThermalUsb) : Prop :=
  ∀ i j, Interior L i j →
    L.sample (s.plane (.temperatureResultFrame s.frameIndex)) i j = temporalMean L fs i j

/-- The result after a run, in terms of the blocks the filter planes were
opened with. -/
theorem Ring.resultIsMean_iff {L : Layout} {s : ThermalUsb} {fs : List Feed}
    (h : Ring L s₀ fs s) (hne : fs ≠ []) :
    ResultIsMean L fs s ↔
      ∀ i j, Interior L i j →
        startMean L (fun m => s₀.plane (ringSlot m)) i = temporalMean L fs i j := by
  have hresult : ∀ i j, Interior L i j →
      L.sample (s.plane (.temperatureResultFrame s.frameIndex)) i j =
        startMean L (fun m => s₀.plane (ringSlot m)) i := by
    intro i j hij
    unfold Interior at hij
    exact h.result hne i j (by omega) (by omega)
  constructor
  · intro hmean i j hij
    rw [← hresult i j hij]
    exact hmean i j hij
  · intro hmean i j hij
    rw [hresult i j hij]
    exact hmean i j hij

theorem planeSize_lt {mode : RotateMode} {w h : Int}
    (hsize : planeSize mode w h = (width, height)) :
    width < 4294967296 ∧ height < 4294967296 := by
  have hlt : ∀ z, CInt.unsigned z < 4294967296 := by
    intro z
    unfold CInt.unsigned
    omega
  unfold planeSize at hsize
  cases mode <;> (cases hsize; exact ⟨hlt _, hlt _⟩)

theorem temporal_mean_iff {junk : ThermalUsb} {mode : RotateMode} {fmt : PixelFormat}
    {alloc : Allocator} {w h : Int} (hsize : planeSize mode w h = (width, height))
    (hw : 3 ≤ width) (hh : 3 ≤ height)
    (hopen : uvcOpen alloc w h { new junk with rotateMode := mode, pixelFmt := fmt } =
      some (true, s₀)) (fs : List Feed) (hn : 5 ≤ fs.length) :
    (∃ s, Run process s₀ fs s ∧ ResultIsMean (layout16 width height) fs s) ↔
      (layout16 width height).bytes < 4294967296 ∧
        ∀ i j, Interior (layout16 width height) i j →
          startMean (layout16 width height) (fun m => s₀.plane (ringSlot m)) i =
            temporalMean (layout16 width height) fs i j := by
  obtain ⟨hopened, hcnt⟩ := uvcOpen_new hsize hopen
  obtain ⟨hwidth, hheight⟩ := planeSize_lt hsize
  have hne : fs ≠ [] := by
    rintro rfl
    exact absurd hn (by decide)
  have hruns := fun hfit => ring_run (hopened.ready (by omega) (by omega) hfit) hcnt hfit hh hw fs
  constructor
  · rintro ⟨s, hrun, hmean⟩
    -- the first call has a result
    obtain ⟨f, rest, rfl⟩ := List.exists_cons_of_ne_nil hne
    obtain ⟨s₁, hfirst, -⟩ := run_cons.1 hrun
    have hfit := bytes_lt_of_process hopened hw hh hwidth hheight hfirst
    obtain ⟨s', hrun', hring⟩ := hruns hfit
    obtain rfl := hrun.unique hrun'
    exact ⟨hfit, (hring.resultIsMean_iff hne).1 hmean⟩
  · rintro ⟨hfit, hmean⟩
    obtain ⟨s, hrun, hring⟩ := hruns hfit
    exact ⟨s, hrun, (hring.resultIsMean_iff hne).2 hmean⟩

theorem opened_three :
    ∃ s₀, uvcOpen (fun _ => some fun _ => 0) 3 6 { new default with
      rotateMode := .rotate0, pixelFmt := .rgb24 } = some (true, s₀) ∧
      startMean (layout16 3 3) (fun m => s₀.plane (ringSlot m)) 1 = 0 := by
  have hrun : (uvcOpen (fun _ => some fun _ => 0) 3 6 { new default with
      rotateMode := .rotate0, pixelFmt := .rgb24 }).map (fun r =>
        (r.1, startMean (layout16 3 3) (fun m => r.2.plane (ringSlot m)) 1)) =
      some (true, 0) := rfl
  obtain ⟨⟨ok, s₀⟩, hs₀, heq⟩ := Option.map_eq_some_iff.1 hrun
  obtain ⟨hok, hstart⟩ := Prod.mk.inj heq
  exact ⟨s₀, by rw [hs₀, ← hok], hstart⟩

theorem interior_three {i j : Nat} (h : Interior (layout16 3 3) i j) : i = 1 ∧ j = 1 := by
  obtain ⟨hi, hi', hj, hj'⟩ := h
  change i + 1 < 3 at hi'
  change j + 1 < 3 at hj'
  omega

theorem temporal_mean_dark :
    ∃ s₀, uvcOpen (fun _ => some fun _ => 0) 3 6 { new default with
      rotateMode := .rotate0, pixelFmt := .rgb24 } = some (true, s₀) ∧
      ∃ s, Run process s₀ (List.replicate 5 ⟨0, fun _ => 0⟩) s ∧
        ResultIsMean (layout16 3 3) (List.replicate 5 ⟨0, fun _ => 0⟩) s := by
  obtain ⟨s₀, hs₀, hstart⟩ := opened_three
  have hsize : planeSize .rotate0 3 6 = (3, 3) := rfl
  refine ⟨s₀, hs₀, (temporal_mean_iff hsize (by decide) (by decide) hs₀ _ (by decide)).2
    ⟨by decide, fun i j hij => ?_⟩⟩
  obtain ⟨rfl, rfl⟩ := interior_three hij
  rw [hstart]
  decide

/-- Five frames whose samples are all 9: the result is 0. -/
theorem temporal_mean_lost :
    ∃ s₀, uvcOpen (fun _ => some fun _ => 0) 3 6 { new default with
      rotateMode := .rotate0, pixelFmt := .rgb24 } = some (true, s₀) ∧
      ∃ s, Run process s₀ (List.replicate 5 ⟨0, fun k => if k % 2 = 0 then 9 else 0⟩) s ∧
        (layout16 3 3).sample (s.plane (.temperatureResultFrame s.frameIndex)) 1 1 = 0 ∧
        temporalMean (layout16 3 3)
          (List.replicate 5 ⟨0, fun k => if k % 2 = 0 then 9 else 0⟩) 1 1 = 9 := by
  obtain ⟨s₀, hs₀, hstart⟩ := opened_three
  have hsize : planeSize .rotate0 3 6 = (3, 3) := rfl
  obtain ⟨hopened, hcnt⟩ := uvcOpen_new hsize hs₀
  obtain ⟨s, hrun, hring⟩ := ring_run (hopened.ready (by omega) (by decide) (by decide)) hcnt
    (by decide) (by decide) (by decide) _
  refine ⟨s₀, hs₀, s, hrun, ?_, by decide⟩
  rw [← hstart]
  exact hring.result (by decide) 1 1 (by decide) (by decide)

end ThermalUsb

end IotCamera
