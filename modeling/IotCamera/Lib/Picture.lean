import IotCamera.Lib.Sweep
import Mathlib.Data.Set.Function

/-!
# Pictures and quarter turns

A picture has rows, columns and a pixel at each cell. A quarter turn
clockwise makes the first column, read from below, the first row. The turn
moves the cells about, and `spot` says where each of them goes: no two to the
same place, and every place is reached. That survives any number of turns.
-/

universe u

structure Picture (α : Type u) where
  rows : Nat
  cols : Nat
  pixel : Nat × Nat → α

namespace Picture

variable {α : Type u} (P : Picture α) {x : Nat × Nat}

def cells : Set (Nat × Nat) := grid P.rows P.cols

/-- A quarter turn clockwise. -/
def turn : Picture α where
  rows := P.cols
  cols := P.rows
  pixel x := P.pixel (P.rows - 1 - x.2, x.1)

/-- Where a quarter turn takes a cell. -/
def spot (x : Nat × Nat) : Nat × Nat := (x.2, P.rows - 1 - x.1)

theorem bijOn_spot : Set.BijOn P.spot P.cells P.turn.cells := by
  refine ⟨fun x hx => ?_, fun x hx y hy heq => ?_, fun y hy => ?_⟩
  · obtain ⟨hr, hc⟩ := hx
    refine ⟨hc, ?_⟩
    show P.rows - 1 - x.1 < P.rows
    omega
  · obtain ⟨hcols, hrows⟩ := Prod.mk.inj heq
    have hx' := hx.1
    have hy' := hy.1
    exact Prod.ext (by omega) hcols
  · obtain ⟨hr, hc⟩ := hy
    change y.1 < P.cols at hr
    change y.2 < P.rows at hc
    refine ⟨(P.rows - 1 - y.2, y.1), ⟨?_, hr⟩, Prod.ext rfl ?_⟩
    · show P.rows - 1 - y.2 < P.rows
      omega
    · show P.rows - 1 - (P.rows - 1 - y.2) = y.2
      omega

theorem turn_spot (hx : x ∈ P.cells) : P.turn.pixel (P.spot x) = P.pixel x := by
  have hr : P.rows - 1 - (P.rows - 1 - x.1) = x.1 := by
    have := hx.1
    omega
  show P.pixel (P.rows - 1 - (P.rows - 1 - x.1), x.2) = P.pixel x
  rw [hr]

/-- So many quarter turns clockwise. -/
def turns : Nat → Picture α
  | 0 => P
  | k + 1 => (turns k).turn

/-- Where so many quarter turns take a cell. -/
def spots : Nat → Nat × Nat → Nat × Nat
  | 0 => id
  | k + 1 => (P.turns k).spot ∘ spots k

theorem bijOn_spots (k : Nat) : Set.BijOn (P.spots k) P.cells (P.turns k).cells := by
  induction k with
  | zero => exact Set.bijOn_id P.cells
  | succ k ih => exact (P.turns k).bijOn_spot.comp ih

theorem turns_spots (k : Nat) (hx : x ∈ P.cells) :
    (P.turns k).pixel (P.spots k x) = P.pixel x := by
  induction k with
  | zero => rfl
  | succ k ih => exact ((P.turns k).turn_spot ((P.bijOn_spots k).mapsTo hx)).trans ih

/-- Where the cells go depends on the size only. -/
theorem spots_congr {Q : Picture α} (hrows : P.rows = Q.rows) (hcols : P.cols = Q.cols) (k : Nat) :
    P.spots k = Q.spots k := by
  have hsize : ∀ k, (P.turns k).rows = (Q.turns k).rows ∧ (P.turns k).cols = (Q.turns k).cols := by
    intro k
    induction k with
    | zero => exact ⟨hrows, hcols⟩
    | succ k ih => exact ⟨ih.2, ih.1⟩
  induction k with
  | zero => rfl
  | succ k ih =>
      funext x
      show ((P.spots k x).2, (P.turns k).rows - 1 - (P.spots k x).1) = _
      rw [ih, (hsize k).1]
      rfl

/-- A bijection between sets reaches every cell exactly once. -/
theorem existsUnique_spots (k : Nat) {y : Nat × Nat} (hy : y ∈ (P.turns k).cells) :
    ∃! x, x ∈ P.cells ∧ P.spots k x = y := by
  obtain ⟨x, hx, heq⟩ := (P.bijOn_spots k).surjOn hy
  refine ⟨x, ⟨hx, heq⟩, fun z ⟨hz, hz'⟩ => ?_⟩
  exact (P.bijOn_spots k).injOn hz hx (hz'.trans heq.symm)

end Picture
