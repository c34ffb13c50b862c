import IotCamera.Lib.Memory
import IotCamera.Lib.Sweep

/-!
# Colour rasters

A colour raster has three bytes for the colour of each pixel, and perhaps
more bytes that belong to no colour, in each pixel or at the end of a row.
`paint` is the rule for two nested loops that store the colour of one pixel
after another: every pixel has its colour in the end, and no other byte has
changed, those between the colours included.
-/

/-- Three bytes of a block. -/
abbrev Triple := Byte × Byte × Byte

namespace Block

variable {b : Block} {off k : Nat} {v : Triple}

def triple (b : Block) (off : Nat) : Triple := (b.byte off, b.byte (off + 1), b.byte (off + 2))

/-- The block with three bytes put at an offset. -/
def putTriple (b : Block) (off : Nat) (v : Triple) : Block :=
  ((b.putByte off v.1).putByte (off + 1) v.2.1).putByte (off + 2) v.2.2

theorem triple_putTriple : (b.putTriple off v).triple off = v := by
  simp [triple, putTriple, putByte_ne]

theorem byte_putTriple (h : k ≠ off) (h' : k ≠ off + 1) (h'' : k ≠ off + 2) :
    (b.putTriple off v).byte k = b.byte k := by
  rw [putTriple, putByte_ne h'', putByte_ne h', putByte_ne h]

end Block

structure Raster where
  stride : Nat
  step : Nat
  width : Nat
  height : Nat
  three : 3 ≤ step
  fits : width * step ≤ stride

namespace Raster

variable {R : Raster} {x y : Nat × Nat} {p : Nat} {b c : Block} {h h' : Heap}
  {colour : Nat × Nat → Triple} {D : Set (Nat × Nat)}

def cells (R : Raster) : Set (Nat × Nat) := grid R.height R.width

/-- Where the colour of a pixel lies. -/
def pos (R : Raster) (x : Nat × Nat) : Nat := x.1 * R.stride + x.2 * R.step

def bytes (R : Raster) : Nat := R.stride * R.height

theorem row_end {r : Nat} (hx : x.2 < R.width) (hr : x.1 < r) : R.pos x + 3 ≤ r * R.stride := by
  have hfits := R.fits
  have hthree := R.three
  have hrow : (x.1 + 1) * R.stride ≤ r * R.stride := Nat.mul_le_mul_right _ hr
  have hcol : (x.2 + 1) * R.step ≤ R.width * R.step := Nat.mul_le_mul_right _ hx
  rw [Nat.succ_mul] at hrow hcol
  unfold pos
  omega

theorem pos_lt (hx : x ∈ R.cells) : R.pos x + 3 ≤ R.bytes := by
  rw [bytes, Nat.mul_comm]
  exact row_end hx.2 hx.1

theorem pos_apart (hx : x ∈ R.cells) (hy : y ∈ R.cells) (hne : x ≠ y) :
    R.pos x + 3 ≤ R.pos y ∨ R.pos y + 3 ≤ R.pos x := by
  have hthree := R.three
  rcases Nat.lt_trichotomy x.1 y.1 with hrow | hrow | hrow
  · exact Or.inl (Nat.le_trans (row_end hx.2 hrow) (Nat.le_add_right _ _))
  · have hcol : x.2 ≠ y.2 := fun hcol => hne (Prod.ext hrow hcol)
    unfold pos
    rw [hrow]
    rcases Nat.lt_or_gt_of_ne hcol with hlt | hlt
    · have hstep : (x.2 + 1) * R.step ≤ y.2 * R.step := Nat.mul_le_mul_right _ hlt
      rw [Nat.succ_mul] at hstep
      omega
    · have hstep : (y.2 + 1) * R.step ≤ x.2 * R.step := Nat.mul_le_mul_right _ hlt
      rw [Nat.succ_mul] at hstep
      omega
  · exact Or.inr (Nat.le_trans (row_end hy.2 hrow) (Nat.le_add_right _ _))

/-- `c` is `b` with the pixels in `D` coloured, and no other byte changed. -/
structure Painted (R : Raster) (colour : Nat × Nat → Triple) (D : Set (Nat × Nat))
    (b c : Block) : Prop where
  size_eq : c.size = b.size
  triple_eq : ∀ x ∈ D, c.triple (R.pos x) = colour x
  rest_eq : ∀ k, (∀ x ∈ D, k < R.pos x ∨ R.pos x + 3 ≤ k) → c.byte k = b.byte k

theorem Painted.none : Painted R colour ∅ b b where
  size_eq := rfl
  triple_eq _ hx := absurd hx (Set.notMem_empty _)
  rest_eq _ _ := rfl

theorem Painted.put (hp : Painted R colour D b c) (hD : D ⊆ R.cells) (hx : x ∈ R.cells)
    (hnot : x ∉ D) : Painted R colour (insert x D) b (c.putTriple (R.pos x) (colour x)) where
  size_eq := hp.size_eq
  triple_eq y hy := by
    rcases Set.mem_insert_iff.1 hy with rfl | hy
    · exact Block.triple_putTriple
    · have hapart := pos_apart (hD hy) hx fun heq => hnot (heq ▸ hy)
      rw [Block.triple, Block.byte_putTriple (by omega) (by omega) (by omega),
        Block.byte_putTriple (by omega) (by omega) (by omega),
        Block.byte_putTriple (by omega) (by omega) (by omega)]
      exact hp.triple_eq y hy
  rest_eq k hk := by
    have hout := hk x (Set.mem_insert x D)
    rw [Block.byte_putTriple (by omega) (by omega) (by omega)]
    exact hp.rest_eq k fun y hy => hk y (Set.mem_insert_of_mem x hy)

theorem Painted.congr {colour' : Nat × Nat → Triple} (hp : Painted R colour D b c)
    (h : ∀ x ∈ D, colour x = colour' x) : Painted R colour' D b c where
  size_eq := hp.size_eq
  triple_eq x hx := (hp.triple_eq x hx).trans (h x hx)
  rest_eq := hp.rest_eq

/-- The heap with one block painted, every other block as it was. -/
structure PaintedIn (R : Raster) (colour : Nat × Nat → Triple) (D : Set (Nat × Nat)) (p : Nat)
    (b : Block) (h h' : Heap) : Prop where
  others : ∀ q, q ≠ p → h'.block q = h.block q
  calls : h'.calls = h.calls
  painted : ∃ c, h'.block p = some c ∧ Painted R colour D b c

/-- Three bytes, one after another. -/
theorem store_triple {off : Nat} {v : Triple} (hb : h.block p = some b)
    (hoff : off + 3 ≤ b.size) :
    ((h.store8 (some p) off v.1).bind fun h => (h.store8 (some p) (off + 1) v.2.1).bind
      fun h => h.store8 (some p) (off + 2) v.2.2) =
      some { h with block := Function.update h.block p (some (b.putTriple off v)) } := by
  have hoff₀ : off < b.size := by omega
  have hoff₁ : off + 1 < (b.putByte off v.1).size := by
    show off + 1 < b.size
    omega
  have hoff₂ : off + 2 < ((b.putByte off v.1).putByte (off + 1) v.2.1).size := by
    show off + 2 < b.size
    omega
  rw [Heap.store8_eq hb hoff₀, Option.bind_some,
    Heap.store8_eq (Function.update_self ..) hoff₁, Option.bind_some,
    Heap.store8_eq (Function.update_self ..) hoff₂]
  simp only [Function.update_idem]
  rfl

theorem PaintedIn.store (hp : PaintedIn R colour D p b h h') (hsize : R.bytes ≤ b.size)
    (hD : D ⊆ R.cells) (hx : x ∈ R.cells) (hnot : x ∉ D) :
    ∃ h'', ((h'.store8 (some p) (R.pos x) (colour x).1).bind fun h =>
        (h.store8 (some p) (R.pos x + 1) (colour x).2.1).bind fun h =>
          h.store8 (some p) (R.pos x + 2) (colour x).2.2) = some h'' ∧
      PaintedIn R colour (insert x D) p b h h'' := by
  obtain ⟨c, hc, hpainted⟩ := hp.painted
  have hin := pos_lt hx
  have hsame := hpainted.size_eq
  refine ⟨_, store_triple hc (by omega), fun q hq => ?_, hp.calls, _, Function.update_self ..,
    hpainted.put hD hx hnot⟩
  exact (Function.update_of_ne hq _ _).trans (hp.others q hq)

/-- Two nested loops, each iteration of which stores the colour of its pixel. -/
theorem paint (body : Nat → Nat → Heap → Option Heap) (colour : Nat × Nat → Triple)
    (hb : h.block p = some b) (hsize : R.bytes ≤ b.size)
    (hbody : ∀ i j h₁, (i, j) ∈ R.cells → (∀ q, q ≠ p → h₁.block q = h.block q) →
      body i j h₁ = (h₁.store8 (some p) (R.pos (i, j)) (colour (i, j)).1).bind fun h =>
        (h.store8 (some p) (R.pos (i, j) + 1) (colour (i, j)).2.1).bind fun h =>
          h.store8 (some p) (R.pos (i, j) + 2) (colour (i, j)).2.2) :
    ∃ h', forLoop 0 R.height (fun i => forLoop 0 R.width (body i)) h = some h' ∧
      PaintedIn R colour R.cells p b h h' := by
  refine sweep (I := fun D => PaintedIn R colour D p b h)
    ⟨fun _ _ => rfl, rfl, b, hb, .none⟩ fun i j D h₁ hx hD hnot hI => ?_
  rw [hbody i j h₁ hx hI.others]
  exact hI.store hsize hD hx hnot

end Raster
