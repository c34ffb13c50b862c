import Mathlib.Data.List.Basic

/-!
# Data in blocks

A list cut into blocks of `n`, and what is left at the end that does not fill
one. The data may come in parts: the blocks of two parts together are the
blocks of the first, and then those of the second with the rest of the first
in front of it. So whoever keeps the rest can take the parts as they come, and
`absorb` with any function on blocks does not notice where they were cut.
-/

universe u v

variable {α : Type u} {σ : Type v} {n : Nat} {b xs ys : List α}

/-- The whole blocks of `xs`. -/
def blocks (n : Nat) (xs : List α) : List (List α) :=
  (List.range (xs.length / n)).map fun i => (xs.drop (n * i)).take n

/-- What is left behind the whole blocks. -/
def remainder (n : Nat) (xs : List α) : List α := xs.drop (n * (xs.length / n))

/-- A state taken through the whole blocks of `xs`. -/
def absorb (f : σ → List α → σ) (n : Nat) (s : σ) (xs : List α) : σ := (blocks n xs).foldl f s

theorem blocks_of_lt (h : xs.length < n) : blocks n xs = [] := by
  rw [blocks, Nat.div_eq_of_lt h, List.range_zero, List.map_nil]

theorem remainder_of_lt (h : xs.length < n) : remainder n xs = xs := by
  rw [remainder, Nat.div_eq_of_lt h, Nat.mul_zero, List.drop_zero]

theorem length_remainder : (remainder n xs).length = xs.length % n := by
  rw [remainder, List.length_drop, Nat.mod_eq_sub]

section

variable (hn : 0 < n) (hb : b.length = n)

include hn hb

theorem length_div_cons : (b ++ xs).length / n = xs.length / n + 1 := by
  rw [List.length_append, hb, Nat.add_div_left _ hn]

theorem blocks_cons : blocks n (b ++ xs) = b :: blocks n xs := by
  have hdrop : ∀ i, (b ++ xs).drop (n * (i + 1)) = xs.drop (n * i) := by
    intro i
    rw [Nat.mul_succ, Nat.add_comm, ← List.drop_drop, ← hb, List.drop_left]
  rw [blocks, length_div_cons hn hb, List.range_succ_eq_map, List.map_cons, List.map_map]
  congr 1
  · rw [Nat.mul_zero, List.drop_zero, ← hb, List.take_left]
  · refine List.map_congr_left fun i _ => ?_
    rw [Function.comp_apply, Nat.succ_eq_add_one, hdrop]

theorem remainder_cons : remainder n (b ++ xs) = remainder n xs := by
  rw [remainder, length_div_cons hn hb, Nat.mul_succ, Nat.add_comm, ← List.drop_drop, ← hb,
    List.drop_left, hb, remainder]

end

/-- Any list is so many blocks and less than one block. -/
theorem block_induction {motive : List α → Prop} (hn : 0 < n)
    (short : ∀ xs, xs.length < n → motive xs)
    (cons : ∀ b xs, b.length = n → motive xs → motive (b ++ xs)) (xs : List α) : motive xs := by
  induction h : xs.length using Nat.strongRecOn generalizing xs with
  | ind k ih =>
      rcases Nat.lt_or_ge xs.length n with hlt | hge
      · exact short xs hlt
      · have hlen : (xs.drop n).length < k := by
          rw [List.length_drop]
          omega
        have hcons := cons (xs.take n) (xs.drop n) (by rw [List.length_take]; omega)
          (ih _ hlen (xs.drop n) rfl)
        rwa [List.take_append_drop] at hcons

theorem blocks_append (hn : 0 < n) :
    blocks n (xs ++ ys) = blocks n xs ++ blocks n (remainder n xs ++ ys) := by
  induction xs using block_induction hn with
  | short xs h => rw [blocks_of_lt h, remainder_of_lt h, List.nil_append]
  | cons b xs hb ih =>
      rw [List.append_assoc, blocks_cons hn hb, ih, blocks_cons hn hb, remainder_cons hn hb,
        List.cons_append]

theorem remainder_append (hn : 0 < n) :
    remainder n (xs ++ ys) = remainder n (remainder n xs ++ ys) := by
  induction xs using block_induction hn with
  | short xs h => rw [remainder_of_lt h]
  | cons b xs hb ih => rw [List.append_assoc, remainder_cons hn hb, ih, remainder_cons hn hb]

/-! ## Absorbing -/

variable {f : σ → List α → σ} {s : σ}

theorem absorb_of_lt (h : xs.length < n) : absorb f n s xs = s := by
  rw [absorb, blocks_of_lt h, List.foldl_nil]

theorem absorb_cons (hn : 0 < n) (hb : b.length = n) :
    absorb f n s (b ++ xs) = absorb f n (f s b) xs := by
  rw [absorb, blocks_cons hn hb, List.foldl_cons, absorb]

/-- A part is absorbed with what was left of the parts before it. -/
theorem absorb_append (hn : 0 < n) :
    absorb f n s (xs ++ ys) = absorb f n (absorb f n s xs) (remainder n xs ++ ys) := by
  rw [absorb, blocks_append hn, List.foldl_append]
  rfl
