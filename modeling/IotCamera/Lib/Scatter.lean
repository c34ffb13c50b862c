import IotCamera.Lib.Plane
import Mathlib.Data.Set.Function

/-!
# Loops that store somewhere else

Two nested loops may store the value they compute at one cell at another
cell, as a rotation does. `Scattered` is `Filled` for such loops: `spot` says
which cell a value goes to. As long as no two values go to the same cell,
each of them is there in the end, and every other byte is as it was.

`scatter` is the rule for loops that store two values in each iteration, in
two different planes.
-/

namespace Layout

variable {L : Layout} {spot spot' : Nat × Nat → Nat × Nat}
  {value value' : Nat × Nat → BitVec 16} {D : Set (Nat × Nat)} {b b' c : Block}
  {x : Nat × Nat} {rows cols p p' : Nat} {h h' : Heap}

/-- Where the sample of a cell lies. -/
def pos (L : Layout) (x : Nat × Nat) : Nat := L.off x.1 x.2

theorem pos_lt (hx : x ∈ grid L.height L.width) : L.pos x + 2 ≤ L.bytes := off_lt hx.1 hx.2

/-- `b'` is `b` with the values of the cells in `D` put where `spot` says. -/
structure Scattered (L : Layout) (spot : Nat × Nat → Nat × Nat)
    (value : Nat × Nat → BitVec 16) (D : Set (Nat × Nat)) (b b' : Block) : Prop where
  size_eq : b'.size = b.size
  word_eq : ∀ x ∈ D, b'.word (L.pos (spot x)) = value x
  rest_eq : ∀ k, (∀ x ∈ D, k ≠ L.pos (spot x) ∧ k ≠ L.pos (spot x) + 1) →
    b'.byte k = b.byte k

theorem Scattered.none : Scattered L spot value ∅ b b where
  size_eq := rfl
  word_eq _ hx := absurd hx (Set.notMem_empty _)
  rest_eq _ _ := rfl

/-- Cells go to different cells of the plane. -/
structure Injects (L : Layout) (rows cols : Nat) (spot : Nat × Nat → Nat × Nat) : Prop where
  mapsTo : Set.MapsTo spot (grid rows cols) (grid L.height L.width)
  injOn : Set.InjOn spot (grid rows cols)

theorem Injects.apart (hs : Injects L rows cols spot) {y : Nat × Nat}
    (hx : x ∈ grid rows cols) (hy : y ∈ grid rows cols) (hne : y ≠ x) :
    L.pos (spot y) + 2 ≤ L.pos (spot x) ∨ L.pos (spot x) + 2 ≤ L.pos (spot y) :=
  off_apart (hs.mapsTo hy).2 (hs.mapsTo hx).2 fun heq =>
    hne (hs.injOn hy hx (Prod.ext heq.1 heq.2))

theorem Scattered.put (hf : Scattered L spot value D b c) (hs : Injects L rows cols spot)
    (hD : D ⊆ grid rows cols) (hx : x ∈ grid rows cols) (hnot : x ∉ D) :
    Scattered L spot value (insert x D) b (c.put (L.pos (spot x)) (value x)) where
  size_eq := hf.size_eq
  word_eq y hy := by
    rcases Set.mem_insert_iff.1 hy with rfl | hy
    · exact Block.word_put
    · have hne : y ≠ x := fun heq => hnot (heq ▸ hy)
      rw [Block.word_put_apart (hs.apart hx (hD hy) hne)]
      exact hf.word_eq y hy
  rest_eq k hk := by
    obtain ⟨hlo, hhi⟩ := hk x (Set.mem_insert x D)
    rw [Block.put_byte hlo hhi]
    exact hf.rest_eq k fun y hy => hk y (Set.mem_insert_of_mem x hy)

/-- The block at an address is scattered over. -/
def ScatteredIn (L : Layout) (spot : Nat × Nat → Nat × Nat) (value : Nat × Nat → BitVec 16)
    (D : Set (Nat × Nat)) (p : Nat) (b : Block) (h : Heap) : Prop :=
  ∃ c, h.block p = some c ∧ Scattered L spot value D b c

theorem ScatteredIn.other (hf : ScatteredIn L spot value D p b h)
    (hblock : h'.block p = h.block p) : ScatteredIn L spot value D p b h' := by
  obtain ⟨c, hc, hscattered⟩ := hf
  exact ⟨c, hblock.trans hc, hscattered⟩

theorem ScatteredIn.store (hf : ScatteredIn L spot value D p b h)
    (hs : Injects L rows cols spot) (hsize : L.bytes ≤ b.size) (hD : D ⊆ grid rows cols)
    (hx : x ∈ grid rows cols) (hnot : x ∉ D) :
    ∃ h', h.store16 (some p) (L.pos (spot x)) (value x) = some h' ∧
      ScatteredIn L spot value (insert x D) p b h' ∧
      (∀ q, q ≠ p → h'.block q = h.block q) ∧ h'.calls = h.calls := by
  obtain ⟨c, hc, hscattered⟩ := hf
  have hin : L.pos (spot x) + 2 ≤ c.size := by
    rw [hscattered.size_eq]
    exact Nat.le_trans (pos_lt (hs.mapsTo hx)) hsize
  exact ⟨_, Heap.store16_eq hc hin,
    ⟨_, Function.update_self .., hscattered.put hs hD hx hnot⟩,
    fun q hq => Function.update_of_ne hq _ _, rfl⟩

/-- What the two planes hold, and that nothing else has changed. -/
structure ScatteredBoth (L : Layout) (spot spot' : Nat × Nat → Nat × Nat)
    (value value' : Nat × Nat → BitVec 16) (D : Set (Nat × Nat)) (p p' : Nat) (b b' : Block)
    (h h' : Heap) : Prop where
  first : ScatteredIn L spot value D p b h'
  second : ScatteredIn L spot' value' D p' b' h'
  others : ∀ q, q ≠ p → q ≠ p' → h'.block q = h.block q
  calls : h'.calls = h.calls

/-- Two nested loops, each iteration of which stores a value in each of two
planes. -/
theorem scatter (body : Nat → Nat → Heap → Option Heap) (value value' : Nat × Nat → BitVec 16)
    (hne : p ≠ p')
    (hb : h.block p = some b) (hb' : h.block p' = some b') (hsize : L.bytes ≤ b.size)
    (hsize' : L.bytes ≤ b'.size) (hs : Injects L rows cols spot)
    (hs' : Injects L rows cols spot')
    (hbody : ∀ i j h₁, (i, j) ∈ grid rows cols → body i j h₁ =
      (h₁.store16 (some p) (L.pos (spot (i, j))) (value (i, j))).bind fun h₂ =>
        h₂.store16 (some p') (L.pos (spot' (i, j))) (value' (i, j))) :
    ∃ h', forLoop 0 rows (fun i => forLoop 0 cols (body i)) h = some h' ∧
      ScatteredBoth L spot spot' value value' (grid rows cols) p p' b b' h h' := by
  refine sweep (I := fun D => ScatteredBoth L spot spot' value value' D p p' b b' h)
    ⟨⟨b, hb, .none⟩, ⟨b', hb', .none⟩, fun _ _ _ => rfl, rfl⟩ fun i j D h₁ hx hD hnot hI => ?_
  obtain ⟨h₂, hstore, hfirst, hothers, hcalls⟩ := hI.first.store hs hsize hD hx hnot
  obtain ⟨h₃, hstore', hsecond, hothers', hcalls'⟩ :=
    (hI.second.other (hothers p' hne.symm)).store hs' hsize' hD hx hnot
  refine ⟨h₃, ?_, hfirst.other (hothers' p hne), hsecond, fun q hq hq' => ?_, ?_⟩
  · rw [hbody i j h₁ hx, hstore, Option.bind_some, hstore']
  · rw [hothers' q hq', hothers q hq, hI.others q hq hq']
  · rw [hcalls', hcalls, hI.calls]

end Layout
