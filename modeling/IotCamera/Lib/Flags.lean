import Mathlib.Data.BitVec

/-!
# Words of flags

A word of flags is set with `x |= m` and cleared with `x &= ~m`, and a field
of it, one flag or several, is read with `x & f`. The lemmas say what a field
is after a change: what it was, if the change is of other bits, and otherwise
what the mask makes of it. On given masks the side conditions compute.
-/

namespace Flags

variable {w : Nat} {x m f : BitVec w}

theorem set_other (h : m &&& f = 0#w) : (x ||| m) &&& f = x &&& f := by
  rw [BitVec.and_comm, BitVec.and_or_distrib_left, BitVec.and_comm f m, h, BitVec.or_zero,
    BitVec.and_comm]

theorem clear_other (h : m &&& f = 0#w) : (x &&& ~~~m) &&& f = x &&& f := by
  have hf : ~~~m &&& f = f := by
    ext i hi
    have hbit := congrArg (fun v : BitVec w => v[i]) h
    simp only [BitVec.getElem_and, BitVec.getElem_zero] at hbit
    simp only [BitVec.getElem_and, BitVec.getElem_not]
    cases hm : m[i] with
    | false => simp
    | true =>
        rw [hm, Bool.true_and] at hbit
        simp [hbit]
  rw [BitVec.and_assoc, hf]

/-- All of the field is set. -/
theorem set_all (h : f &&& m = f) : (x ||| m) &&& f = f := by
  rw [BitVec.and_comm, BitVec.and_or_distrib_left, h]
  ext i hi
  simp only [BitVec.getElem_or, BitVec.getElem_and]
  cases f[i] <;> simp

/-- All of the field is cleared. -/
theorem clear_all (h : f &&& m = f) : (x &&& ~~~m) &&& f = 0#w := by
  rw [← h]
  ext i hi
  simp only [BitVec.getElem_and, BitVec.getElem_not, BitVec.getElem_zero]
  cases m[i] <;> simp

/-- A field that was clear is what is put into it. -/
theorem set_clear (hx : x &&& f = 0#w) (h : m &&& f = m) : (x ||| m) &&& f = m := by
  rw [BitVec.and_comm, BitVec.and_or_distrib_left, BitVec.and_comm f x, hx, BitVec.zero_or,
    BitVec.and_comm, h]

/-- A part of a mask is apart from what the mask is apart from. -/
theorem apart_of_part {n : BitVec w} (hm : m &&& n = m) (h : n &&& f = 0#w) :
    m &&& f = 0#w := by
  rw [← hm, BitVec.and_assoc, h, BitVec.and_zero]

end Flags
