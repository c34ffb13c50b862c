import IotCamera.Lib.Loop
import Mathlib.Data.Set.Insert

/-!
# Two nested loops over a grid

Image code goes through the cells of a grid row by row. What an iteration
does to the state rarely depends on the order, and an invariant is easiest to
state in terms of the set of cells that are done. `sweep` is the rule for
that: an invariant that holds when no cell is done, and that each iteration
extends by the cell it is at, holds at the end of all cells. `sweep_each` goes
back: loops that succeeded have succeeded at every cell. And where the cells
do not matter, what every iteration keeps is kept by all of them, which is
`sweep_keeps`.
-/

universe u

/-- The cells of a grid, as row and column. -/
def grid (rows cols : Nat) : Set (Nat × Nat) := {x | x.1 < rows ∧ x.2 < cols}

/-- The cells in some of the rows and columns. -/
def box (r₀ r₁ c₀ c₁ : Nat) : Set (Nat × Nat) :=
  {x | r₀ ≤ x.1 ∧ x.1 < r₁ ∧ c₀ ≤ x.2 ∧ x.2 < c₁}

variable {σ : Type u} {s : σ} {r₀ r₁ c₀ c₁ rows cols : Nat} {body : Nat → Nat → σ → Option σ}
  {I : Set (Nat × Nat) → σ → Prop}

theorem zero_mem_grid {x : Nat × Nat} (hx : x ∈ grid rows cols) : (0, 0) ∈ grid rows cols :=
  ⟨Nat.lt_of_le_of_lt (Nat.zero_le _) hx.1, Nat.lt_of_le_of_lt (Nat.zero_le _) hx.2⟩

theorem box_zero : box 0 rows 0 cols = grid rows cols := by
  ext x
  simp [box, grid]

theorem sweep_rows (hr : r₀ ≤ r₁) (hc : c₀ ≤ c₁) (h : I ∅ s)
    (hbody : ∀ i j D t, (i, j) ∈ box r₀ r₁ c₀ c₁ → D ⊆ box r₀ r₁ c₀ c₁ → (i, j) ∉ D → I D t →
      ∃ t', body i j t = some t' ∧ I (insert (i, j) D) t') :
    ∃ t, forLoop r₀ r₁ (fun i => forLoop c₀ c₁ (body i)) s = some t ∧
      I (box r₀ r₁ c₀ c₁) t := by
  have hstart : I (box r₀ r₀ c₀ c₁) s := by
    have hempty : box r₀ r₀ c₀ c₁ = ∅ := by
      ext x
      simp only [box, Set.mem_ofPred_eq, Set.mem_empty_iff_false, iff_false]
      omega
    rwa [hempty]
  refine forLoop_spec (I := fun i => I (box r₀ i c₀ c₁)) hr hstart fun i t hi₀ hi₁ hI => ?_
  -- within a row, the rows above it and the cells to the left are done
  have hrow : I (box r₀ i c₀ c₁ ∪ box i (i + 1) c₀ c₀) t := by
    have hempty : box r₀ i c₀ c₁ ∪ box i (i + 1) c₀ c₀ = box r₀ i c₀ c₁ := by
      ext x
      simp only [box, Set.mem_union, Set.mem_ofPred_eq]
      omega
    rwa [hempty]
  have hcols : ∃ t', forLoop c₀ c₁ (body i) t = some t' ∧
      I (box r₀ i c₀ c₁ ∪ box i (i + 1) c₀ c₁) t' :=
    forLoop_spec (I := fun j => I (box r₀ i c₀ c₁ ∪ box i (i + 1) c₀ j)) hc hrow
      fun j u hj₀ hj₁ hu => by
      obtain ⟨u', hu', hI'⟩ := hbody i j _ u ⟨hi₀, hi₁, hj₀, hj₁⟩
        (fun x hx => by
          simp only [box, Set.mem_union, Set.mem_ofPred_eq] at hx ⊢
          omega)
        (by
          simp only [box, Set.mem_union, Set.mem_ofPred_eq]
          omega) hu
      have hinsert : insert (i, j) (box r₀ i c₀ c₁ ∪ box i (i + 1) c₀ j) =
          box r₀ i c₀ c₁ ∪ box i (i + 1) c₀ (j + 1) := by
        ext x
        simp only [box, Set.mem_insert_iff, Set.mem_union, Set.mem_ofPred_eq, Prod.ext_iff]
        omega
      exact ⟨u', hu', hinsert ▸ hI'⟩
  obtain ⟨t', ht', hI'⟩ := hcols
  have hdone : box r₀ i c₀ c₁ ∪ box i (i + 1) c₀ c₁ = box r₀ (i + 1) c₀ c₁ := by
    ext x
    simp only [box, Set.mem_union, Set.mem_ofPred_eq]
    omega
  exact ⟨t', ht', hdone ▸ hI'⟩

theorem box_empty (h : r₁ ≤ r₀ ∨ c₁ ≤ c₀) : box r₀ r₁ c₀ c₁ = ∅ := by
  ext x
  simp only [box, Set.mem_ofPred_eq, Set.mem_empty_iff_false, iff_false]
  omega

/-- The rule for some of the rows and columns, which may be none. -/
theorem sweep_box (h : I ∅ s)
    (hbody : ∀ i j D t, (i, j) ∈ box r₀ r₁ c₀ c₁ → D ⊆ box r₀ r₁ c₀ c₁ → (i, j) ∉ D → I D t →
      ∃ t', body i j t = some t' ∧ I (insert (i, j) D) t') :
    ∃ t, forLoop r₀ r₁ (fun i => forLoop c₀ c₁ (body i)) s = some t ∧
      I (box r₀ r₁ c₀ c₁) t := by
  by_cases hr : r₁ ≤ r₀
  · rw [box_empty (Or.inl hr), forLoop_done hr]
    exact ⟨s, rfl, h⟩
  by_cases hc : c₁ ≤ c₀
  · rw [box_empty (Or.inr hc)]
    exact forLoop_spec (I := fun _ => I ∅) (by omega) h fun i t _ _ hI =>
      ⟨t, forLoop_done hc, hI⟩
  · exact sweep_rows (by omega) (by omega) h hbody

/-- The rule for a whole grid. -/
theorem sweep (h : I ∅ s)
    (hbody : ∀ i j D t, (i, j) ∈ grid rows cols → D ⊆ grid rows cols → (i, j) ∉ D → I D t →
      ∃ t', body i j t = some t' ∧ I (insert (i, j) D) t') :
    ∃ t, forLoop 0 rows (fun i => forLoop 0 cols (body i)) s = some t ∧
      I (grid rows cols) t := by
  rw [← box_zero] at hbody ⊢
  exact sweep_box h hbody

/-- What every iteration keeps, the two loops keep. -/
theorem sweep_keeps {J : σ → Prop} {s' : σ}
    (hkeep : ∀ i j t t', J t → body i j t = some t' → J t')
    (hrun : forLoop r₀ r₁ (fun i => forLoop c₀ c₁ (body i)) s = some s') (h : J s) : J s' :=
  forLoop_keeps (fun i _ _ ht hrow => forLoop_keeps (hkeep i) hrow ht) hrun h

/-- Loops that succeeded have succeeded at every cell, from a state with
whatever the iterations keep. -/
theorem sweep_each {J : σ → Prop} {s' : σ}
    (hkeep : ∀ i j t t', J t → body i j t = some t' → J t')
    (hrun : forLoop r₀ r₁ (fun i => forLoop c₀ c₁ (body i)) s = some s') (h : J s) {i j : Nat}
    (hx : (i, j) ∈ box r₀ r₁ c₀ c₁) : ∃ t t', J t ∧ body i j t = some t' := by
  obtain ⟨hi₀, hi₁, hj₀, hj₁⟩ := hx
  obtain ⟨t, t', ht, hrow⟩ := forLoop_each (J := J)
    (fun i t t' ht hi => forLoop_keeps (hkeep i) hi ht) hrun h hi₀ hi₁
  exact forLoop_each (J := J) (hkeep i) hrow ht hj₀ hj₁
