import Mathlib.Data.Nat.ModEq

/-!
# Rings of the last few results

A program that keeps the last `k` results in `k` slots writes result number
`m` to slot `m % k`. `Recent` says that the slots hold what they should: for
each of the last `k` entries of the history, `holds m x` says in the
program's own terms that the slot of number `m` has what `x` put there.

Writing entry `n` touches one slot, and no other recent entry has that slot;
so it is enough that the write puts the new entry where it belongs and leaves
the other slots alone.
-/

universe u

variable {α : Type u} {k : Nat} {holds holds' : Nat → α → Prop} {xs : List α} {x : α}

/-- The slots of the last `k` entries hold them. -/
def Recent (k : Nat) (holds : Nat → α → Prop) (xs : List α) : Prop :=
  ∀ m x, xs[m]? = some x → xs.length ≤ m + k → holds m x

theorem recent_nil : Recent k holds [] := by
  intro m x hm
  cases hm

theorem slot_ne {m n : Nat} (hlt : m < n) (hnear : n < m + k) : m % k ≠ n % k := by
  intro heq
  have hdvd : k ∣ n - m := (Nat.modEq_iff_dvd' (Nat.le_of_lt hlt)).1 heq
  have hzero := Nat.eq_zero_of_dvd_of_lt hdvd (by omega)
  omega

theorem Recent.snoc (h : Recent k holds xs) (hnew : holds' xs.length x)
    (hkeep : ∀ m y, m % k ≠ xs.length % k → holds m y → holds' m y) :
    Recent k holds' (xs ++ [x]) := by
  intro m y hm hnear
  rw [List.length_append, List.length_singleton] at hnear
  rcases Nat.lt_trichotomy m xs.length with hlt | rfl | hgt
  · rw [List.getElem?_append_left hlt] at hm
    exact hkeep m y (slot_ne hlt (by omega)) (h m y hm (by omega))
  · rw [List.getElem?_concat_length, Option.some.injEq] at hm
    exact hm ▸ hnew
  · rw [List.getElem?_append_right (by omega)] at hm
    obtain ⟨d, hd⟩ : ∃ d, m - xs.length = d + 1 := ⟨m - xs.length - 1, by omega⟩
    rw [hd] at hm
    cases hm
