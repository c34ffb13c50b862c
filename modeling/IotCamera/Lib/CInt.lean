import IotCamera.Lib.Loop
import Mathlib.Algebra.Order.BigOperators.Group.Finset
import Mathlib.Data.Int.Order.Basic
import Mathlib.Tactic.Ring

/-!
# Machine integers of C

A program in C computes in `int`, where an overflow has no meaning, and in
`unsigned int`, which wraps at 2³². Here both are mathematical integers: an
`int` result is checked and is nothing if it does not fit, an unsigned one is
taken modulo 2³². Division of `int` truncates, which is `Int.tdiv`. A 16-bit
sample is a `BitVec 16`, read as a signed number.
-/

namespace CInt

/-- An `int`, if it is one. -/
def int (z : Int) : Option Int := if -2147483648 ≤ z ∧ z < 2147483648 then some z else none

/-- An `unsigned int` result. -/
def u32 (n : Nat) : Nat := n % 4294967296

/-- An `int` stored in 16 bits without a sign. -/
def u16 (n : Nat) : Nat := n % 65536

/-- An `int` converted to `unsigned int`. -/
def unsigned (z : Int) : Nat := (z % 4294967296).toNat

/-- The low 32 bits of an integer, read as an `int`. -/
def wrapInt (z : Int) : Int :=
  if z % 4294967296 < 2147483648 then z % 4294967296 else z % 4294967296 - 4294967296

/-- Unsigned subtraction. -/
def sub (a b : Nat) : Nat := u32 (a + 4294967296 - b)

/-- An `int` stored in 16 bits. -/
def short (z : Int) : BitVec 16 := BitVec.ofInt 16 z

theorem int_eq {z : Int} (h : -2147483648 ≤ z) (h' : z < 2147483648) :
    int z = some z := if_pos ⟨h, h'⟩

theorem int_eq_some {z y : Int} (h : int z = some y) : y = z := by
  unfold int at h
  split at h
  · exact (Option.some.inj h).symm
  · cases h

theorem int_bounds {z y : Int} (h : int z = some y) : -2147483648 ≤ z ∧ z < 2147483648 := by
  unfold int at h
  split at h
  · next hz => exact hz
  · cases h

theorem u32_eq {n : Nat} (h : n < 4294967296) : u32 n = n := Nat.mod_eq_of_lt h

theorem u16_eq {n : Nat} (h : n < 65536) : u16 n = n := Nat.mod_eq_of_lt h

theorem u32_lt (n : Nat) : u32 n < 4294967296 := Nat.mod_lt _ (by decide)

/-- A product with a multiple of four is one, even where it wraps. -/
theorem u32_mul_mod_four {a : Nat} (h : a % 4 = 0) (b : Nat) :
    u32 (a * b) % 4 = 0 ∧ u32 (b * a) % 4 = 0 := by
  have hmul : a * b % 4 = 0 := by
    rw [Nat.mul_mod, h, Nat.zero_mul, Nat.zero_mod]
  rw [Nat.mul_comm b a]
  unfold u32
  omega

theorem wrapInt_eq {n : Nat} (h : n < 2147483648) : wrapInt n = n := by
  unfold wrapInt
  split <;> omega

/-- From 2³¹ on an unsigned number is read as a negative one. -/
theorem wrapInt_of_le {n : Nat} (h : 2147483648 ≤ n) (hn : n < 4294967296) :
    wrapInt n = n - 4294967296 := by
  unfold wrapInt
  split <;> omega

theorem sub_eq {a b : Nat} (hb : b ≤ a) (ha : a < 4294967296) : sub a b = a - b := by
  unfold sub u32
  omega

/-! ## 16-bit samples -/

/-- The number fits a signed 16-bit sample. -/
def FitsShort (z : Int) : Prop := -32768 ≤ z ∧ z ≤ 32767

theorem fitsShort_toInt (w : BitVec 16) : FitsShort w.toInt := by
  have hlo := BitVec.le_toInt w
  have hhi := BitVec.toInt_lt (x := w)
  unfold FitsShort
  omega

theorem toInt_short {z : Int} (h : FitsShort z) : (short z).toInt = z := by
  unfold FitsShort at h
  rw [short, BitVec.toInt_ofInt, Int.bmod_def]
  omega

/-- The truncated mean of `k` samples is a sample. -/
theorem fitsShort_tdiv {z : Int} {k : Int} (hk : 0 < k) (hlo : -32768 * k ≤ z)
    (hhi : z ≤ 32767 * k) : FitsShort (z.tdiv k) := by
  refine ⟨Int.le_tdiv_of_mul_le hk hlo, ?_⟩
  have h := Int.tdiv_le_tdiv hk hhi
  rwa [Int.mul_tdiv_cancel _ (Int.ne_of_gt hk)] at h

/-! ## Sums in a loop -/

theorem sum_bounds {f : Nat → Int} {lo hi : Int} (hf : ∀ i, lo ≤ f i ∧ f i ≤ hi) (n : Nat) :
    lo * n ≤ ∑ i ∈ Finset.range n, f i ∧ ∑ i ∈ Finset.range n, f i ≤ hi * n := by
  induction n with
  | zero => simp
  | succ n ih =>
      obtain ⟨hlo, hhi⟩ := hf n
      rw [Finset.sum_range_succ, Nat.cast_succ, mul_add, mul_add, mul_one, mul_one]
      omega

/-- A loop that adds one number after another, as long as no partial sum
overflows. -/
theorem forLoop_sum {f : Nat → Int} (body : Nat → Int → Option Int) {a : Int} {n : Nat}
    (hbody : ∀ i, i < n → body i (a + ∑ k ∈ Finset.range i, f k) =
      some (a + ∑ k ∈ Finset.range i, f k + f i)) :
    forLoop 0 n body a = some (a + ∑ k ∈ Finset.range n, f k) := by
  have hloop : ∃ t, forLoop 0 n body a = some t ∧ t = a + ∑ k ∈ Finset.range n, f k :=
    forLoop_spec (I := fun i t => t = a + ∑ k ∈ Finset.range i, f k) (Nat.zero_le n)
      (by simp) fun i t _ hi hI => by
        refine ⟨_, by rw [hI]; exact hbody i hi, ?_⟩
        rw [Finset.sum_range_succ, add_assoc]
  obtain ⟨t, ht, rfl⟩ := hloop
  exact ht

end CInt
