import IotCamera.Lib.Memory
import IotCamera.Lib.Sweep

/-!
# Planes of 16-bit samples

An image plane is a block in which row `i` starts at `i * stride` and sample
`(i, j)` is the word `2 * j` bytes further on. Rows may be padded. A layout
carries the one fact that makes the addressing sound, that a row fits its
stride; from it samples of the plane lie inside the block and no two of them
overlap.

The usual shape of image code is two nested loops that store one sample
after another. `fill` is the rule for it: if each iteration stores a value
that depends on the other blocks only, the loops succeed, every cell of the
rectangle has its value, every byte outside the rectangle is as it was, and
so is every other block.
-/

structure Layout where
  stride : Nat
  width : Nat
  height : Nat
  fits : 2 * width ≤ stride

namespace Layout

variable (L : Layout)

/-- Where a sample lies. -/
def off (i j : Nat) : Nat := i * L.stride + 2 * j

/-- The bytes of the plane. -/
def bytes : Nat := L.stride * L.height

/-- The sample at a cell, as a signed number. -/
def sample (b : Block) (i j : Nat) : Int := (b.word (L.off i j)).toInt

variable {L} {i j i' j' k : Nat} {b b' : Block}

theorem row_end (hj : j < L.width) (hi : i < i') : L.off i j + 2 ≤ i' * L.stride := by
  have hfits := L.fits
  have hrow : (i + 1) * L.stride ≤ i' * L.stride := Nat.mul_le_mul_right _ hi
  rw [Nat.succ_mul] at hrow
  unfold off
  omega

theorem off_lt (hi : i < L.height) (hj : j < L.width) : L.off i j + 2 ≤ L.bytes := by
  rw [bytes, Nat.mul_comm]
  exact row_end hj hi

theorem off_apart (hj : j < L.width) (hj' : j' < L.width) (hne : ¬ (i = i' ∧ j = j')) :
    L.off i j + 2 ≤ L.off i' j' ∨ L.off i' j' + 2 ≤ L.off i j := by
  rcases Nat.lt_trichotomy i i' with h | h | h
  · exact Or.inl (Nat.le_trans (row_end hj h) (Nat.le_add_right _ _))
  · subst h
    unfold off
    omega
  · exact Or.inr (Nat.le_trans (row_end hj' h) (Nat.le_add_right _ _))

/-! ## Filling cells -/

/-- `b'` is `b` with the cells in `done` set to `val`, and no other byte
changed. -/
structure Filled (L : Layout) (done : Nat → Nat → Prop) (val : Nat → Nat → BitVec 16)
    (b b' : Block) : Prop where
  size_eq : b'.size = b.size
  word_eq : ∀ i j, done i j → b'.word (L.off i j) = val i j
  rest_eq : ∀ k, (∀ i j, done i j → k ≠ L.off i j ∧ k ≠ L.off i j + 1) →
    b'.byte k = b.byte k

variable {done done' : Nat → Nat → Prop} {val : Nat → Nat → BitVec 16}

theorem Filled.none (h : ∀ i j, ¬ done i j) : Filled L done val b b where
  size_eq := rfl
  word_eq i j hij := absurd hij (h i j)
  rest_eq _ _ := rfl

theorem Filled.congr (h : Filled L done val b b') (hdone : ∀ i j, done' i j ↔ done i j) :
    Filled L done' val b b' where
  size_eq := h.size_eq
  word_eq i j hij := h.word_eq i j ((hdone i j).1 hij)
  rest_eq k hk := h.rest_eq k fun i j hij => hk i j ((hdone i j).2 hij)

theorem Filled.put (h : Filled L done val b b')
    (hdone : ∀ i j, done i j → j < L.width) (hj : j < L.width) :
    Filled L (fun a c => done a c ∨ a = i ∧ c = j) val b
      (b'.put (L.off i j) (val i j)) where
  size_eq := h.size_eq
  word_eq a c hac := by
    by_cases heq : a = i ∧ c = j
    · rw [heq.1, heq.2]
      exact Block.word_put
    · have hin : done a c := hac.resolve_right heq
      rw [Block.word_put_apart (off_apart (hdone a c hin) hj heq)]
      exact h.word_eq a c hin
  rest_eq k hk := by
    obtain ⟨hlo, hhi⟩ := hk i j (Or.inr ⟨rfl, rfl⟩)
    rw [Block.put_byte hlo hhi]
    exact h.rest_eq k fun a c hac => hk a c (Or.inl hac)

theorem Filled.sample_eq (h : Filled L done val b b')
    (hdone : ∀ i j, done i j → j < L.width) (hj : j < L.width) (hnot : ¬ done i j) :
    L.sample b' i j = L.sample b i j := by
  have hapart : ∀ a c, done a c →
      L.off a c + 2 ≤ L.off i j ∨ L.off i j + 2 ≤ L.off a c := fun a c hac =>
    off_apart (hdone a c hac) hj fun heq => hnot (heq.1 ▸ heq.2 ▸ hac)
  have hlo : b'.byte (L.off i j) = b.byte (L.off i j) := by
    refine h.rest_eq _ fun a c hac => ?_
    have := hapart a c hac
    omega
  have hhi : b'.byte (L.off i j + 1) = b.byte (L.off i j + 1) := by
    refine h.rest_eq _ fun a c hac => ?_
    have := hapart a c hac
    omega
  rw [sample, sample, Block.word_congr hlo hhi]

/-! ## Two nested loops -/

/-- The heap with one block filled, every other block as it was. -/
structure FilledIn (L : Layout) (done : Nat → Nat → Prop) (val : Nat → Nat → BitVec 16)
    (p : Nat) (b : Block) (h h' : Heap) : Prop where
  others : ∀ q, q ≠ p → h'.block q = h.block q
  calls : h'.calls = h.calls
  filled : ∃ b', h'.block p = some b' ∧ Filled L done val b b'

variable {p : Nat} {h h' : Heap}

theorem FilledIn.store (hf : FilledIn L done val p b h h')
    (hdone : ∀ i j, done i j → j < L.width) (hj : j < L.width)
    (hsize : L.off i j + 2 ≤ b.size) :
    ∃ h'', h'.store16 (some p) (L.off i j) (val i j) = some h'' ∧
      FilledIn L (fun a c => done a c ∨ a = i ∧ c = j) val p b h h'' := by
  obtain ⟨b', hb', hfill⟩ := hf.filled
  refine ⟨_, Heap.store16_eq hb' (by rw [hfill.size_eq]; exact hsize), ?_, hf.calls, ?_⟩
  · intro q hq
    exact (Function.update_of_ne hq _ _).trans (hf.others q hq)
  · exact ⟨_, Function.update_self .., hfill.put hdone hj⟩

theorem FilledIn.congr (hf : FilledIn L done val p b h h')
    (hdone : ∀ i j, done' i j ↔ done i j) : FilledIn L done' val p b h h' := by
  obtain ⟨b', hb', hfill⟩ := hf.filled
  exact ⟨hf.others, hf.calls, b', hb', hfill.congr hdone⟩

/-- Two nested loops over a rectangle, each iteration of which stores the
value of its cell, fill the rectangle. -/
theorem fill (body : Nat → Nat → Heap → Option Heap) (val : Nat → Nat → BitVec 16)
    (r₀ r₁ c₀ c₁ : Nat) (hb : h.block p = some b) (hsize : L.bytes ≤ b.size)
    (hr₁ : r₁ ≤ L.height) (hc₁ : c₁ ≤ L.width)
    (hbody : ∀ i j h', r₀ ≤ i → i < r₁ → c₀ ≤ j → j < c₁ →
      (∀ q, q ≠ p → h'.block q = h.block q) →
      body i j h' = h'.store16 (some p) (L.off i j) (val i j)) :
    ∃ h', forLoop r₀ r₁ (fun i => forLoop c₀ c₁ (body i)) h = some h' ∧
      FilledIn L (fun i j => r₀ ≤ i ∧ i < r₁ ∧ c₀ ≤ j ∧ j < c₁) val p b h h' := by
  refine sweep_box (I := fun D => FilledIn L (fun i j => (i, j) ∈ D) val p b h)
    ⟨fun _ _ => rfl, rfl, b, hb, .none fun _ _ => Set.notMem_empty _⟩
    fun i j D h₁ hx hD _ hI => ?_
  obtain ⟨hi₀, hi₁, hj₀, hj₁⟩ := hx
  have hoff : L.off i j + 2 ≤ b.size :=
    Nat.le_trans (off_lt (Nat.lt_of_lt_of_le hi₁ hr₁) (Nat.lt_of_lt_of_le hj₁ hc₁)) hsize
  obtain ⟨h₂, hstore, hfill⟩ := hI.store (i := i) (j := j)
    (fun a c hac => Nat.lt_of_lt_of_le (hD hac).2.2.2 hc₁) (Nat.lt_of_lt_of_le hj₁ hc₁) hoff
  refine ⟨h₂, ?_, hfill.congr fun a c => ?_⟩
  · rw [hbody i j h₁ hi₀ hi₁ hj₀ hj₁ hI.others]
    exact hstore
  · rw [Set.mem_insert_iff, Prod.mk.injEq]
    exact Or.comm

end Layout
