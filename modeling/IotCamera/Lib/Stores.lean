import Mathlib.Algebra.BigOperators.Group.Finset.Basic
import Mathlib.Algebra.Order.Group.Multiset
import Mathlib.Tactic.Abel

/-!
# The stores of a loop

Code that fills a buffer through running indices is best known by the stores
it makes: a log of positions and values, in order. What a position holds in
the end is the last value stored there, and that is all the order decides.
`tally` forgets the order. It gives each position the multiset of the values
stored there, and so one more store is one more summand.

A running index makes a run: `n` values from a base on, one after another. A
loop with several running indices makes several runs at once, each of which
grows by its own store, and the tally is their sum. Nothing here asks that the
runs be disjoint. Where they are, every position has one value; where they
are not, the sum says so.
-/

universe u

/-- Stores, as positions and values, in the order they were made. -/
abbrev Log (β : Type u) := List (Int × β)

namespace Log

variable {β : Type u} {log : Log β} {base k : Int} {v : β} {n m : Nat} {f g : Nat → β}

def put (log : Log β) (k : Int) (v : β) : Log β := log ++ [(k, v)]

/-- The values stored at a position, first to last. -/
def stored (log : Log β) (k : Int) : List β := (log.filter fun s => s.1 = k).map Prod.snd

/-- What the position holds in the end, if anything was stored there. -/
def last? (log : Log β) (k : Int) : Option β := (log.stored k).getLast?

/-- The values stored at a position, in no order. -/
def tally (log : Log β) (k : Int) : Multiset β := log.stored k

/-- Exactly the positions below `n` are stored to, each once. -/
def Fills (log : Log β) (n : Nat) : Prop :=
  ∀ k, (log.stored k).length = if 0 ≤ k ∧ k < n then 1 else 0

/-- Only positions below `n` are stored to. -/
def Within (log : Log β) (n : Nat) : Prop := ∀ k, log.stored k ≠ [] → 0 ≤ k ∧ k < n

/-- No position is stored to twice. -/
def Once (log : Log β) : Prop := ∀ k, (log.stored k).length ≤ 1

theorem Fills.within (h : log.Fills n) : log.Within n := by
  intro k hk
  by_contra hout
  exact hk (List.eq_nil_of_length_eq_zero (by rw [h k, if_neg hout]))

theorem Fills.once (h : log.Fills n) : log.Once := by
  intro k
  rw [h k]
  split <;> omega

theorem tally_nil : tally ([] : Log β) = 0 := rfl

theorem tally_put : (log.put k v).tally = log.tally + Pi.single k {v} := by
  funext j
  rw [Pi.add_apply, Pi.single_apply, tally, tally, stored, stored, put, List.filter_append,
    List.map_append, ← Multiset.coe_add]
  congr 1
  by_cases h : j = k
  · subst h
    simp
  · have h' : k ≠ j := fun heq => h heq.symm
    simp [h, h']

theorem stored_eq_nil : log.stored k = [] ↔ log.tally k = 0 :=
  (Multiset.coe_eq_zero _).symm

theorem stored_eq_singleton : log.stored k = [v] ↔ log.tally k = {v} :=
  Multiset.coe_eq_singleton.symm

theorem length_stored : (log.stored k).length = (log.tally k).card := rfl

theorem last?_eq_some (h : log.tally k = {v}) : log.last? k = some v := by
  rw [last?, stored_eq_singleton.2 h]
  rfl

theorem last?_eq_none (h : log.tally k = 0) : log.last? k = none := by
  rw [last?, stored_eq_nil.2 h]
  rfl

/-! ## Runs -/

/-- The tally of `n` stores from a position on. -/
def run (base : Int) (n : Nat) (f : Nat → β) : Int → Multiset β :=
  ∑ m ∈ Finset.range n, Pi.single (base + m) {f m}

theorem run_zero : run base 0 f = 0 := Finset.sum_range_zero _

theorem run_succ : run base (n + 1) f = run base n f + Pi.single (base + n) {f n} :=
  Finset.sum_range_succ _ _

theorem run_succ_succ : run base (n + 2) f =
    run base n f + Pi.single (base + n) {f n} + Pi.single (base + n + 1) {f (n + 1)} := by
  rw [run_succ, run_succ, Nat.cast_succ, add_assoc base]

/-- A run is two runs, the second from where the first ends. -/
theorem run_add : run base (n + m) f = run base n f + run (base + n) m fun i => f (n + i) := by
  rw [run, Finset.sum_range_add]
  congr 1
  refine Finset.sum_congr rfl fun i _ => ?_
  rw [Nat.cast_add, add_assoc]

theorem run_congr (h : ∀ m, m < n → f m = g m) : run base n f = run base n g :=
  Finset.sum_congr rfl fun m hm => by rw [h m (Finset.mem_range.1 hm)]

theorem run_out (h : ¬ (base ≤ k ∧ k < base + n)) : run base n f k = 0 := by
  induction n with
  | zero => rfl
  | succ n ih =>
      have hne : k ≠ base + n := by omega
      rw [run_succ, Pi.add_apply, Pi.single_eq_of_ne hne, ih (by omega), add_zero]

/-- Within a run every position has its value, once. -/
theorem run_in (h : m < n) : run base n f (base + m) = {f m} := by
  induction n with
  | zero => omega
  | succ n ih =>
      rw [run_succ, Pi.add_apply]
      by_cases hm : m = n
      · rw [hm, Pi.single_eq_same, run_out (by omega), zero_add]
      · have hne : base + (m : Int) ≠ base + n := by omega
        rw [Pi.single_eq_of_ne hne, add_zero, ih (by omega)]

/-- Of two runs one after the other, the first. -/
theorem runs_fst {base' : Int} {n' : Nat} (hm : m < n) (h : base + n ≤ base') :
    (run base n f + run base' n' g) (base + m) = {f m} := by
  rw [Pi.add_apply, run_in hm, run_out (by omega), add_zero]

/-- Of two runs one after the other, the second. -/
theorem runs_snd {base' : Int} {n' : Nat} (hm : m < n') (h : base + n ≤ base') :
    (run base n f + run base' n' g) (base' + m) = {g m} := by
  rw [Pi.add_apply, run_in hm, run_out (by omega), zero_add]

theorem card_run : (run base n f k).card = if base ≤ k ∧ k < base + n then 1 else 0 := by
  by_cases h : base ≤ k ∧ k < base + n
  · obtain ⟨m, hm⟩ := Int.le.dest h.1
    rw [if_pos h, ← hm, run_in (by omega), Multiset.card_singleton]
  · rw [if_neg h, run_out h, Multiset.card_zero]

/-- Two runs, the second from where the first ends. -/
theorem fills_two (h : log.tally = run 0 n f + run n m g) : log.Fills (n + m) := by
  intro k
  rw [length_stored, h, Pi.add_apply, Multiset.card_add, card_run, card_run]
  split <;> split <;> split <;> omega

/-- And a third, from where the second ends. -/
theorem fills_three {l : Nat} {e : Nat → β}
    (h : log.tally = run 0 n f + run n m g + run (n + m : Nat) l e) : log.Fills (n + m + l) := by
  intro k
  rw [length_stored, h, Pi.add_apply, Pi.add_apply, Multiset.card_add, Multiset.card_add, card_run,
    card_run, card_run]
  split <;> split <;> split <;> split <;> omega

end Log
