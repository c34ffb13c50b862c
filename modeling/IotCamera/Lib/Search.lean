import Mathlib.Data.Nat.Find

/-!
# Loops that stop at a hit

`for (i = lo; i < hi; i++) if (test(i)) break;` where the test may have no
meaning, an access out of bounds for instance, and then the loop has none
either. The result is the loop variable and whether the loop was left early.

A test that has a meaning in the whole range decides some property, and then
the loop finds the first index with it. `First` says what that is, without the
loop, so that two loops over tests that agree on a range can be compared.
-/

universe u

def searchFor (test : Nat → Option Bool) : Nat → Nat → Option (Nat × Bool)
  | 0, i => some (i, false)
  | n + 1, i => (test i).bind fun hit =>
      if hit then some (i, true) else searchFor test n (i + 1)

def search (lo hi : Nat) (test : Nat → Option Bool) : Option (Nat × Bool) :=
  searchFor test (hi - lo) lo

/-- The first index of a range with a property. -/
structure First (P : Nat → Prop) (lo hi k : Nat) : Prop where
  lower : lo ≤ k
  upper : k < hi
  holds : P k
  least : ∀ j, lo ≤ j → j < k → ¬ P j

/-- No index of a range has it. -/
def Missing (P : Nat → Prop) (lo hi : Nat) : Prop := ∀ j, lo ≤ j → j < hi → ¬ P j

/-- A look that has a result, and the result is whether `p`. -/
def Says (o : Option Bool) (p : Prop) : Prop := ∃ b, o = some b ∧ (b = true ↔ p)

/-- The test has a result on the range, and it is the property. -/
def Decides (test : Nat → Option Bool) (P : Nat → Prop) (lo hi : Nat) : Prop :=
  ∀ i, lo ≤ i → i < hi → Says (test i) (P i)

variable {P Q : Nat → Prop} {lo hi k : Nat} {test : Nat → Option Bool}

theorem first_or_missing (P : Nat → Prop) (lo hi : Nat) :
    (∃ k, First P lo hi k) ∨ Missing P lo hi := by
  classical
  by_cases h : ∃ k, lo ≤ k ∧ k < hi ∧ P k
  · left
    obtain ⟨hlo, hhi, hP⟩ := Nat.find_spec h
    refine ⟨Nat.find h, hlo, hhi, hP, ?_⟩
    intro j hj hlt hPj
    exact Nat.find_min h hlt ⟨hj, Nat.lt_trans hlt hhi, hPj⟩
  · right
    intro j hj hlt hPj
    exact h ⟨j, hj, hlt, hPj⟩

/-- Another property, on another range, that agrees as far as the hit. -/
theorem First.congr {hi' : Nat} (h : First P lo hi k) (hk : k < hi')
    (hPQ : ∀ i, i ≤ k → (P i ↔ Q i)) : First Q lo hi' k where
  lower := h.lower
  upper := hk
  holds := (hPQ k (Nat.le_refl k)).1 h.holds
  least j hj hlt hQ := h.least j hj hlt ((hPQ j (Nat.le_of_lt hlt)).2 hQ)

/-! ## The loop -/

theorem search_done (h : hi ≤ lo) : search lo hi test = some (lo, false) := by
  rw [search, Nat.sub_eq_zero_of_le h, searchFor]

theorem search_next (h : lo < hi) : search lo hi test =
    (test lo).bind fun hit => if hit then some (lo, true) else search (lo + 1) hi test := by
  obtain ⟨n, hn⟩ : ∃ n, hi - lo = n + 1 := ⟨hi - lo - 1, by omega⟩
  have hn' : hi - (lo + 1) = n := by omega
  rw [search, hn, searchFor]
  unfold search
  rw [hn']

theorem search_first (hdec : Decides test P lo hi) (h : First P lo hi k) :
    search lo hi test = some (k, true) := by
  obtain ⟨n, hn⟩ : ∃ n, k - lo = n := ⟨_, rfl⟩
  have hlower := h.lower
  have hupper := h.upper
  induction n generalizing lo with
  | zero =>
      obtain rfl : lo = k := by omega
      obtain ⟨b, hb, hP⟩ := hdec lo (Nat.le_refl lo) hupper
      rw [search_next hupper, hb, Option.bind_some, if_pos (hP.2 h.holds)]
  | succ n ih =>
      obtain ⟨b, hb, hP⟩ := hdec lo (Nat.le_refl lo) (by omega)
      have hmiss : ¬ b = true := fun hhit => h.least lo (Nat.le_refl lo) (by omega) (hP.1 hhit)
      rw [search_next (by omega), hb, Option.bind_some, if_neg hmiss]
      refine ih (fun i hlo hhi => hdec i (by omega) hhi) ?_ (by omega) (by omega)
      exact ⟨by omega, hupper, h.holds, fun j hj => h.least j (by omega)⟩

theorem search_missing (hdec : Decides test P lo hi) (h : Missing P lo hi) :
    search lo hi test = some (max lo hi, false) := by
  obtain ⟨n, hn⟩ : ∃ n, hi - lo = n := ⟨_, rfl⟩
  induction n generalizing lo with
  | zero =>
      have hle : hi ≤ lo := by omega
      rw [search_done hle, Nat.max_eq_left hle]
  | succ n ih =>
      have hlt : lo < hi := by omega
      obtain ⟨b, hb, hP⟩ := hdec lo (Nat.le_refl lo) hlt
      have hmiss : ¬ b = true := fun hhit => h lo (Nat.le_refl lo) hlt (hP.1 hhit)
      rw [search_next hlt, hb, Option.bind_some, if_neg hmiss,
        ih (fun i hlo hhi => hdec i (by omega) hhi) (fun j hj => h j (by omega)) (by omega),
        Nat.max_eq_right (Nat.le_of_lt hlt), Nat.max_eq_right hlt]
